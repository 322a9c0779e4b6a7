import Roster.Fleet
import Roster.Proofs.Cluster
import Roster.Proofs.Crew.Convergence

/-! The crews of all workers after a rebalance. Each of them sees only its own list, so three passes
bring each to what the table gives it; and the table gives every registered item to one worker. -/

namespace Roster

theorem Backend.itemsFor_cases (b : Backend) (w : WorkerId) :
    ∃ o, b.itemsFor w = (.ok (b.table.itemsFor w), { b with outages := o }) ∨
      ∃ e, b.itemsFor w = (.error e, { b with outages := o }) :=
  b.call_cases .itemsFor fun b => (.ok (b.table.itemsFor w), b)

namespace Crew

variable {c : Crew} {desired : List ItemId} {n : Nat}

/-- How far a crew has come after so many passes. -/
def Nears (c : Crew) (desired : List ItemId) : Nat → Prop
  | 0 => True
  | 1 => c.Heeds desired
  | _ + 2 => c.Matches desired

theorem Nears.of_handlers {c' : Crew} (h : c.Nears desired n) (hc : c'.handlers = c.handlers) :
    c'.Nears desired n := by
  match n, h with
  | 0, _ => exact True.intro
  | 1, h => exact fun i e he => h i e (hc ▸ he)
  | _ + 2, h => exact fun i => (congrArg (·.map (·.phase)) (congrArg (·.get? i) hc)).trans (h i)

theorem Nears.reconcile {now : Nat} (h : c.Nears desired n) (hs : Staffed c)
    (hr : 0 < n → c.Ready now) (behaviour : ItemId → Behaviour) :
    (c.reconcile now (.ok desired) behaviour).2.Nears desired (n + 1) := by
  match n, h with
  | 0, _ => exact heeds_reconcile c now desired behaviour
  | 1, h => exact Heeds.matches_reconcile h hs (hr Nat.one_pos) behaviour
  | n + 2, h =>
    rw [Matches.reconcile_eq h hs (hr (Nat.succ_pos _)) behaviour]
    exact h

end Crew

namespace Fleet

variable {f g : Fleet} {v w : WorkerId} {c c' : Crew} {a : Act} {acts : List Act}
  {t : Table} {n : Nat}

/-- What may happen to a fleet over one registry and one table. -/
inductive Act where
  | reconcile (w : WorkerId)
  /-- A task of the worker's crew goes on. -/
  | task (w : WorkerId) (generation : Nat)
  | sleep (ms : Nat)
  /-- What the next calls meet is changed. -/
  | outages (o : List (Call × List Spell))
  deriving DecidableEq

def act (f : Fleet) : Act → Fleet
  | .reconcile w => (f.crew? w).elim f fun c => (f.reconcile c).2
  | .task w g => (f.crew? w).elim f fun c => f.putCrew (c.runTask f.now g)
  | .sleep ms => f.sleep ms
  | .outages o => { f with backend := { f.backend with outages := o } }

def run (f : Fleet) (acts : List Act) : Fleet := acts.foldl act f

/-- The fleet before each pass of the worker. -/
def visits (f : Fleet) (w : WorkerId) : List Act → List Fleet
  | [] => []
  | a :: as =>
    if a = .reconcile w then f :: (f.act a).visits w as else (f.act a).visits w as

/-- Every crew is at some moment of its life, and is filed under its worker. -/
def Manned (f : Fleet) : Prop :=
  ∀ w c, f.crew? w = some c → ∃ stopTimeout, Crew.Moment w stopTimeout c

theorem manned_of_entries
    (h : ∀ e ∈ f.crews.entries, ∃ stopTimeout, Crew.Moment e.1 stopTimeout e.2) : f.Manned := by
  intro w c hc
  rw [crew?] at hc
  split at hc
  · cases hc
  · exact h (w, c) (OrderedMap.mem_entries_iff.2 hc)

/-! ### One act -/

/-- What becomes of the crew of one worker. -/
inductive Fares (f : Fleet) : Act → WorkerId → Crew → Crew → Prop
  | spared {a : Act} {w : WorkerId} (c : Crew) (h : a ≠ .reconcile w) : Fares f a w c c
  | worked (w : WorkerId) (c : Crew) (g : Nat) : Fares f (.task w g) w c (c.runTask f.now g)
  | passed (w : WorkerId) (c : Crew) :
      Fares f (.reconcile w) w c
        (c.reconcile f.now (f.backend.itemsFor w).1 f.nextBehaviour).2

theorem crew?_putCrew (hc : f.crew? c'.worker = some c) (v : WorkerId) :
    (f.putCrew c').crew? v = if v = c'.worker then some c' else f.crew? v := by
  have hgone : c'.worker ∉ f.gone := by
    intro h
    rw [crew?, if_pos h] at hc
    cases hc
  rw [crew?, crew?]
  simp only [putCrew, OrderedMap.get?_insert]
  by_cases hv : v = c'.worker
  · subst hv
    rw [if_neg hgone, if_pos rfl, if_pos rfl]
  · rw [if_neg hv, if_neg hv]

theorem crew?_reconcile (hc : f.crew? c.worker = some c) :
    (f.reconcile c).2.crew? c.worker =
      some (c.reconcile f.now (f.backend.itemsFor c.worker).1 f.nextBehaviour).2 := by
  have hworker := (Crew.steps_reconcile c f.now (f.backend.itemsFor c.worker).1
    f.nextBehaviour).settings.1
  rw [← hworker] at hc
  refine (crew?_putCrew (f := { f with backend := _ }) hc c.worker).trans ?_
  exact if_pos hworker.symm

theorem rel_spared (h : f.crew? v ≠ none → a ≠ .reconcile v) :
    Option.Rel (Fares f a v) (f.crew? v) (f.crew? v) := by
  cases hv : f.crew? v with
  | none => exact .none
  | some c => exact .some (.spared c (h (by rw [hv]; exact Option.some_ne_none c)))

/-- Where one crew is replaced, the others stay as they were. -/
theorem rel_putCrew (hw : f.crew? w = some c) (hc : c'.worker = w) (hf : Fares f a w c c')
    (ha : ∀ v, v ≠ w → a ≠ .reconcile v) (v : WorkerId) :
    Option.Rel (Fares f a v) (f.crew? v) ((f.putCrew c').crew? v) := by
  subst hc
  rw [crew?_putCrew hw]
  by_cases hv : v = c'.worker
  · subst hv
    rw [if_pos rfl, hw]
    exact .some hf
  · rw [if_neg hv]
    exact rel_spared fun _ => ha v hv

theorem rel_act (hm : f.Manned) (a : Act) (v : WorkerId) :
    Option.Rel (Fares f a v) (f.crew? v) ((f.act a).crew? v) := by
  cases a with
  | sleep ms => exact rel_spared fun _ h => nomatch h
  | outages o => exact rel_spared fun _ h => nomatch h
  | task w g =>
    rw [act]
    cases hw : f.crew? w with
    | none => exact rel_spared fun _ h => nomatch h
    | some c =>
      obtain ⟨stopTimeout, hmoment⟩ := hm w c hw
      have hworker := (Crew.Step.task (c := c) f.now g).settings.1.trans hmoment.settings.1
      exact rel_putCrew hw hworker (.worked w c g) (fun _ _ h => nomatch h) v
  | reconcile w =>
    rw [act]
    cases hw : f.crew? w with
    | none =>
      refine rel_spared fun hv h => hv ?_
      cases h
      exact hw
    | some c =>
      obtain ⟨stopTimeout, hmoment⟩ := hm w c hw
      obtain rfl := hmoment.settings.1
      have hworker := (Crew.steps_reconcile c f.now (f.backend.itemsFor c.worker).1
        f.nextBehaviour).settings.1
      refine rel_putCrew hw hworker (.passed c.worker c) (fun v hv h => hv ?_) v
      cases h
      rfl

theorem Manned.act (hm : f.Manned) (a : Act) : (f.act a).Manned := by
  intro w c' hc'
  have hrel := rel_act hm a w
  rw [hc'] at hrel
  generalize ho : f.crew? w = o at hrel
  cases hrel with
  | @some c _ hf =>
    obtain ⟨stopTimeout, hc⟩ := hm w c ho
    cases hf with
    | spared _ h => exact ⟨stopTimeout, hc⟩
    | worked _ _ g => exact ⟨stopTimeout, hc.step (.task f.now g)⟩
    | passed => exact ⟨stopTimeout, hc.reconcile f.now _ _⟩

/-- Passes only read. -/
theorem backend_act (f : Fleet) (a : Act) :
    (f.act a).backend.table = f.backend.table ∧
      (f.act a).backend.registry = f.backend.registry := by
  cases a with
  | sleep ms => exact ⟨rfl, rfl⟩
  | outages o => exact ⟨rfl, rfl⟩
  | task w g =>
    rw [act]
    cases f.crew? w <;> exact ⟨rfl, rfl⟩
  | reconcile w =>
    rw [act]
    cases f.crew? w with
    | none => exact ⟨rfl, rfl⟩
    | some c =>
      change (f.backend.itemsFor c.worker).2.table = _ ∧
        (f.backend.itemsFor c.worker).2.registry = _
      obtain ⟨o, hr | ⟨e, hr⟩⟩ := f.backend.itemsFor_cases c.worker <;> rw [hr] <;> exact ⟨rfl, rfl⟩

/-! ### Three passes -/

/-- The worker makes three passes that read the store, and before each but the first, handlers have
ended if they were told to and only then. -/
structure Thrice (f : Fleet) (acts : List Act) (w : WorkerId) : Prop where
  passes : (f.visits w acts).length = 3
  reads : ∀ g ∈ f.visits w acts, (g.backend.itemsFor w).1.isOk = true
  ready : ∀ g ∈ (f.visits w acts).tail, ∀ c ∈ g.crew? w, c.Ready g.now

instance (f : Fleet) (acts : List Act) (w : WorkerId) : Decidable (Thrice f acts w) :=
  decidable_of_iff (_ ∧ _ ∧ _) ⟨fun h => ⟨h.1, h.2.1, h.2.2⟩, fun h => ⟨h.1, h.2, h.3⟩⟩

/-- So many passes of the worker have been made over this table. -/
structure Stands (f : Fleet) (t : Table) (w : WorkerId) (n : Nat) : Prop where
  manned : f.Manned
  table : f.backend.table = t
  crew : ∃ c, f.crew? w = some c ∧ c.Nears (t.itemsFor w) n

theorem read_eq (h : (f.backend.itemsFor w).1.isOk = true) :
    (f.backend.itemsFor w).1 = .ok (f.backend.table.itemsFor w) := by
  obtain ⟨o, hr | ⟨e, hr⟩⟩ := f.backend.itemsFor_cases w
  · rw [hr]
  · rw [hr] at h
    cases h

theorem Stands.act (h : Stands f t w n) (a : Act)
    (hread : a = .reconcile w → (f.backend.itemsFor w).1.isOk = true)
    (hready : a = .reconcile w → 0 < n → ∀ c ∈ f.crew? w, c.Ready f.now) :
    Stands (f.act a) t w (if a = .reconcile w then n + 1 else n) where
  manned := h.manned.act a
  table := (f.backend_act a).1.trans h.table
  crew := by
    obtain ⟨c, hc, hn⟩ := h.crew
    obtain ⟨stopTimeout, hmoment⟩ := h.manned w c hc
    have hrel := rel_act h.manned a w
    rw [hc] at hrel
    generalize (f.act a).crew? w = o at hrel
    cases hrel with
    | @some _ c' hf =>
      refine ⟨c', rfl, ?_⟩
      cases hf with
      | spared _ ha =>
        rw [if_neg ha]
        exact hn
      | worked _ _ g =>
        rw [if_neg fun h => nomatch h]
        exact hn.of_handlers (Crew.handlers_runTask c f.now g)
      | passed =>
        rw [if_pos rfl, read_eq (hread rfl), h.table]
        exact hn.reconcile hmoment.staffed (fun hpos => hready rfl hpos c hc) _

/-- Each pass finds the crew one step further. -/
theorem Stands.run (h : Stands f t w n) (acts : List Act)
    (hreads : ∀ g ∈ f.visits w acts, (g.backend.itemsFor w).1.isOk = true)
    (hready : ∀ (k : Nat) (g : Fleet), (f.visits w acts)[k]? = some g → 0 < n + k →
      ∀ c ∈ g.crew? w, c.Ready g.now) :
    Stands (f.run acts) t w (n + (f.visits w acts).length) ∧
      ∀ (k : Nat) (g : Fleet), (f.visits w acts)[k]? = some g → Stands g t w (n + k) := by
  induction acts generalizing f n with
  | nil => exact ⟨h, fun k g hg => nomatch hg⟩
  | cons a as ih =>
    by_cases ha : a = .reconcile w
    · have hvisits : f.visits w (a :: as) = f :: (f.act a).visits w as := if_pos ha
      rw [hvisits] at hreads hready ⊢
      have hnext := h.act a (fun _ => hreads f List.mem_cons_self) (fun _ => hready 0 f rfl)
      rw [if_pos ha] at hnext
      obtain ⟨hend, hall⟩ := ih hnext (fun g hg => hreads g (.tail f hg)) fun k g hg hpos =>
        hready (k + 1) g hg (by omega)
      refine ⟨?_, ?_⟩
      · rw [List.length_cons, show n + ((f.act a).visits w as).length.succ =
          n + 1 + ((f.act a).visits w as).length by omega]
        exact hend
      · intro k g hg
        cases k with
        | zero =>
          obtain rfl := Option.some.inj hg
          exact h
        | succ k =>
          rw [show n + (k + 1) = n + 1 + k by omega]
          exact hall k g hg
    · have hvisits : f.visits w (a :: as) = (f.act a).visits w as := if_neg ha
      rw [hvisits] at hreads hready ⊢
      have hnext := h.act a (fun h => absurd h ha) (fun h => absurd h ha)
      rw [if_neg ha] at hnext
      exact ih hnext hreads hready

theorem backend_run (f : Fleet) (acts : List Act) :
    (f.run acts).backend.table = f.backend.table ∧
      (f.run acts).backend.registry = f.backend.registry := by
  induction acts generalizing f with
  | nil => exact ⟨rfl, rfl⟩
  | cons a as ih =>
    obtain ⟨ht, hr⟩ := ih (f.act a)
    exact ⟨ht.trans (f.backend_act a).1, hr.trans (f.backend_act a).2⟩

/-- Three passes bring a crew to what the table gives its worker, and the third finds it so. -/
theorem Thrice.matches (h : Thrice f acts w) (hm : f.Manned) (hc : f.crew? w = some c) :
    (∃ c', (f.run acts).crew? w = some c' ∧ c'.Matches (f.backend.table.itemsFor w)) ∧
      ∀ g ∈ (f.visits w acts).getLast?, ∃ c', g.crew? w = some c' ∧
        (g.reconcile c').1 = .ok ⟨0, 0, 0, 0, .converged⟩ ∧
        ∀ d, (g.reconcile c').2.crew? w = some d →
          ∀ e ∈ d.handlers.values, d.isLive e.generation = true := by
  have hstart : Stands f f.backend.table w 0 := ⟨hm, rfl, c, hc, True.intro⟩
  have hready (k : Nat) (g : Fleet) (hg : (f.visits w acts)[k]? = some g) (hpos : 0 < 0 + k) :
      ∀ c ∈ g.crew? w, c.Ready g.now := by
    refine h.ready g (List.mem_of_getElem? (i := k - 1) ?_)
    rw [List.getElem?_tail, Nat.sub_add_cancel (by omega)]
    exact hg
  obtain ⟨hend, hall⟩ := hstart.run acts h.reads hready
  rw [h.passes] at hend
  refine ⟨hend.crew, ?_⟩
  intro g hg
  rw [List.getLast?_eq_getElem?, h.passes] at hg
  obtain ⟨hmanned, htable, c', hc', hnears⟩ := hall 2 g hg
  obtain ⟨stopTimeout, hmoment⟩ := hmanned w c' hc'
  obtain rfl := hmoment.settings.1
  have hcready : c'.Ready g.now := hready 2 g hg (by omega) c' hc'
  have hmatches : c'.Matches (f.backend.table.itemsFor c'.worker) := hnears
  have hpass := hmatches.reconcile_eq hmoment.staffed hcready g.nextBehaviour
  have hread := read_eq (h.reads g (List.mem_of_getElem? hg))
  rw [htable] at hread
  refine ⟨c', hc', ?_, ?_⟩
  · change (c'.reconcile g.now (g.backend.itemsFor c'.worker).1 g.nextBehaviour).1 = _
    rw [hread, hpass]
  · intro d hd e he
    rw [crew?_reconcile hc', hread, hpass] at hd
    obtain rfl := Option.some.inj hd
    exact hcready.running e he (hmatches.not_isStopping he)

/-! ### After a rebalance -/

/-- A rebalance that succeeds, and then three passes of every registered worker: each registered
item has one running handler, which is with the owner that the table names, and there is nothing
else. The third passes find nothing to do. -/
theorem rebalance_converges {r : Rebalancer} {k : Rebalancer.Tick} {s : Stats}
    (ha : f.backend.table.Ascending) (hk : r.tick f.backend = k) (hs : k.result = .ok s)
    (hm : f.Manned) (hcrews : ∀ w ∈ f.backend.registry.workers, (f.crew? w).isSome = true)
    (hthrice : ∀ w ∈ f.backend.registry.workers, Thrice { f with backend := k.backend } acts w)
    (hg : run { f with backend := k.backend } acts = g) :
    (g.backend.table = k.backend.table ∧ g.backend.registry = f.backend.registry) ∧
    (∀ i ∈ f.backend.registry.items, ∃ w ∈ f.backend.registry.workers,
      g.backend.table.ownerOf i = some w ∧ ∀ v ∈ f.backend.registry.workers,
        ∀ c, g.crew? v = some c → (c.phaseOf i = some .running ↔ v = w)) ∧
    (∀ w ∈ f.backend.registry.workers, ∃ c, g.crew? w = some c ∧ ∀ i p, c.phaseOf i = some p →
      p = .running ∧ i ∈ f.backend.registry.items) ∧
    ∀ w ∈ f.backend.registry.workers,
      ∀ h ∈ (visits { f with backend := k.backend } w acts).getLast?, ∃ c, h.crew? w = some c ∧
        (h.reconcile c).1 = .ok ⟨0, 0, 0, 0, .converged⟩ ∧
        ∀ d, (h.reconcile c).2.crew? w = some d →
          ∀ e ∈ d.handlers.values, d.isLive e.generation = true := by
  subst hk
  obtain ⟨p, hp⟩ := Rebalancer.completes_of_tick ha hs
  have hexclusive := hp.exclusive (Rebalancer.ascending_tick r ha)
  obtain ⟨htable, hregistry⟩ := backend_run { f with backend := (r.tick f.backend).backend } acts
  rw [hg] at htable hregistry
  have hcrew (w : WorkerId) (hw : w ∈ f.backend.registry.workers) :=
    (hthrice w hw).matches hm (Option.some_get (hcrews w hw)).symm
  rw [hg] at hcrew
  refine ⟨⟨htable, hregistry.trans hp.registry⟩, ?_, ?_, fun w hw => (hcrew w hw).2⟩
  · intro i hi
    obtain ⟨w, hiw⟩ := hp.mem_items_iff.1 hi
    refine ⟨w, hp.mem_workers hiw, ?_, ?_⟩
    · rw [htable]
      exact hexclusive.ownerOf_eq_some_iff.2 hiw
    · intro v hv c hc
      obtain ⟨⟨c', hc', hmatches⟩, -⟩ := hcrew v hv
      obtain rfl := Option.some.inj (hc'.symm.trans hc)
      rw [hmatches.phaseOf_eq_some_iff]
      constructor
      · rintro ⟨hiv, -⟩
        exact hexclusive.eq_of_mem hiv hiw
      · rintro rfl
        exact ⟨hiw, rfl⟩
  · intro w hw
    obtain ⟨⟨c, hc, hmatches⟩, -⟩ := hcrew w hw
    refine ⟨c, hc, ?_⟩
    intro i p hip
    obtain ⟨hiw, hrunning⟩ := hmatches.phaseOf_eq_some_iff.1 hip
    exact ⟨hrunning, hp.mem_items_iff.2 ⟨w, hiw⟩⟩

/-- Has taken up three items, whose handlers have yet to begin. -/
def laden : Crew :=
  ((Crew.fresh ⟨1⟩ 5000).reconcile 0
    (.ok [⟨"n", by decide⟩, ⟨"o", by decide⟩, ⟨"w", by decide⟩]) fun _ => .idle).2

/-- Has cancelled a handler that never ends. -/
def waiting : Crew :=
  let begun := ((Crew.fresh ⟨2⟩ 5000).reconcile 0 (.ok [⟨"w", by decide⟩]) fun _ => .stubborn).2
  ((begun.runTask 0 0).reconcile 1000 (.ok []) fun _ => .stubborn).2

/-- One worker owns all items, and another one has been registered. -/
def lopsided : Fleet where
  now := 1000
  backend :=
    { table := ⟨⟨[(⟨1⟩, [⟨"n", by decide⟩, ⟨"o", by decide⟩, ⟨"w", by decide⟩])], by decide⟩⟩
      registry :=
        { items := [⟨"w", by decide⟩, ⟨"n", by decide⟩, ⟨"o", by decide⟩]
          known := .ofList [⟨"w", by decide⟩, ⟨"n", by decide⟩, ⟨"o", by decide⟩]
          workers := .ofList [⟨1⟩, ⟨2⟩] }
      election := .empty
      outages := [] }
  crews := ⟨[(⟨1⟩, laden), (⟨2⟩, waiting)], by decide⟩
  gone := .empty
  script := ⟨[]⟩

/-- Three passes of each; the handler that never ends is overdue when the second one comes. -/
def rounds : List Act :=
  [.reconcile ⟨1⟩, .task ⟨1⟩ 0, .reconcile ⟨2⟩, .task ⟨1⟩ 2, .sleep 5000, .reconcile ⟨2⟩,
    .outages [(.snapshot, [⟨1, some .noWorkers⟩])], .reconcile ⟨1⟩, .task ⟨2⟩ 1, .sleep 1000,
    .reconcile ⟨1⟩, .reconcile ⟨2⟩]

def rebalanced : Fleet :=
  { lopsided with backend := (Rebalancer.fresh.tick lopsided.backend).backend }

theorem manned_lopsided : lopsided.Manned := by
  refine manned_of_entries fun e he => ?_
  obtain rfl | rfl := List.mem_pair.1 he
  · exact ⟨5000, Crew.Moment.fresh.reconcile 0 _ _⟩
  · exact ⟨5000, ((Crew.Moment.fresh.reconcile 0 _ _).step (.task 0 0)).reconcile 1000 _ _⟩

theorem lopsided_converges :
    (lopsided.backend.table.Ascending ∧ lopsided.Manned ∧
      (Rebalancer.fresh.tick lopsided.backend).result = .ok lopsided.backend.plan.stats ∧
      ∀ w ∈ lopsided.backend.registry.workers, Thrice rebalanced rounds w) ∧
    (∃ w ∈ lopsided.backend.registry.workers,
      (rebalanced.run rounds).backend.table.ownerOf ⟨"w", by decide⟩ = some w ∧
      ∀ v ∈ lopsided.backend.registry.workers, ∀ c, (rebalanced.run rounds).crew? v = some c →
        (c.phaseOf ⟨"w", by decide⟩ = some .running ↔ v = w)) ∧
    (∀ w ∈ lopsided.backend.registry.workers, ∃ c, (rebalanced.run rounds).crew? w = some c ∧
      ∀ i p, c.phaseOf i = some p → p = .running ∧ i ∈ lopsided.backend.registry.items) ∧
    lopsided.crews.values.map (·.phaseOf ⟨"w", by decide⟩) =
      [some .running, some (.stopping 1000)] ∧
    (rebalanced.run rounds).crews.values.map (·.phaseOf ⟨"w", by decide⟩) =
      [none, some .running] := by
  have hasc : lopsided.backend.table.Ascending := by decide
  have htick := Rebalancer.tick_of_quiet .fresh hasc rfl rfl
  have hthrice : ∀ w ∈ lopsided.backend.registry.workers, Thrice rebalanced rounds w := by
    decide +kernel
  obtain ⟨-, hone, honly, -⟩ :=
    rebalance_converges hasc rfl htick manned_lopsided (by decide) hthrice rfl
  exact ⟨⟨hasc, manned_lopsided, htick, hthrice⟩, hone _ (by decide), honly, by decide +kernel,
    by decide +kernel⟩

end Fleet

end Roster
