import Mathlib.Logic.Function.Iterate
import Roster.Proofs.Load.Queue

/-! Transfers made in place, one call after another. The ends of the queue come off and go back in
changed, and once they are off nothing is refused any more, so no load is ever lost. Each transfer
lowers the sum of the squared sizes even where loads become equal or the receiver has the item
already, so the calls come to a queue that is level. -/

namespace Roster

namespace Load

variable {l : Load} {i j : ItemId}

/-- Only the last item goes, and it may be there once more. -/
theorem eq_or_mem_items_dropLast (hi : l.items.getLast? = some i) (h : j ∈ l.items) :
    j = i ∨ j ∈ l.dropLast.items :=
  List.mem_cons.1 ((items_dropLast_perm hi).mem_iff.2 h)

/-- Different workers, and lists without repeats that share nothing. -/
structure Separate (ls : List Load) : Prop where
  workers : (ls.map (·.worker)).Nodup
  disjoint : ls.Pairwise fun l k => ∀ i ∈ l.items, i ∉ k.items
  strict : ∀ l ∈ ls, Ordered.Strict l.items

theorem separate_iff_apart {ls : List Load} : Separate ls ↔ Apart ls := by
  have hstrict (l : Load) : Ordered.Strict l.items ↔ l.items.Nodup :=
    Ordered.strict_iff.trans (and_iff_right l.ascending)
  constructor
  · intro h
    exact ⟨h.workers, List.nodup_flatMap.2 ⟨fun l hl => (hstrict l).1 (h.strict l hl), h.disjoint⟩⟩
  · intro h
    obtain ⟨hnodup, hdisjoint⟩ := List.nodup_flatMap.1 h.items
    exact ⟨h.workers, hdisjoint, fun l hl => (hstrict l).2 (hnodup l hl)⟩

end Load

namespace LoadQueue
open Load

variable {q q' : LoadQueue} {t : Transfer} {light heavy : Load}

/-! ### In place -/

/-- Work on a queue in place. If it is given up midway, the queue stays as it is at that point. -/
abbrev Edit := EStateM Unit LoadQueue

/-- Gives up where there is nothing. -/
def demand {α : Type} : Option α → Edit α
  | some a => pure a
  | none => throw ()

def popFirst : Edit Load := do
  let l ← demand (← get).lightest
  modify fun q => ⟨q.loads.dropFirst⟩
  return l

def popLast : Edit Load := do
  let l ← demand (← get).heaviest
  modify fun q => ⟨q.loads.dropLast⟩
  return l

def put (l : Load) : Edit Unit := modify fun q => ⟨q.loads.insert l⟩

/-- Takes both ends off the queue and puts them back in, changed. -/
def moveLast : Edit Transfer := do
  let light ← demand (← get).lightest
  let heavy ← demand (← get).heaviest
  unless light.size + 1 < heavy.size do
    throw ()
  let donor ← popLast
  let receiver ← popFirst
  let i ← demand donor.items.getLast?
  put donor.dropLast
  put (receiver.insert i)
  return ⟨i, donor.worker, receiver.worker⟩

@[simp] theorem run_demand_some {α : Type} (a : α) : (demand (some a)).run q = .ok a q := rfl

@[simp] theorem run_demand_none {α : Type} :
    (demand (none : Option α)).run q = .error () q := rfl

@[simp] theorem run_put (l : Load) : (put l).run q = .ok () ⟨q.loads.insert l⟩ := rfl

theorem run_popFirst {l : Load} (h : q.lightest = some l) :
    popFirst.run q = .ok l ⟨q.loads.dropFirst⟩ := by
  simp only [popFirst, EStateM.run_bind, EStateM.run_get, h, run_demand_some]
  rfl

theorem run_popLast {l : Load} (h : q.heaviest = some l) :
    popLast.run q = .ok l ⟨q.loads.dropLast⟩ := by
  simp only [popLast, EStateM.run_bind, EStateM.run_get, h, run_demand_some]
  rfl

theorem run_moveLast (q : LoadQueue) : moveLast.run q = match q.transferLast with
    | some (t, q') => .ok t q'
    | none => .error () q := by
  cases hl : q.lightest with
  | none => simp [moveLast, transferLast, hl]
  | some light =>
    cases hh : q.heaviest with
    | none => simp [moveLast, transferLast, hl, hh]
    | some heavy =>
      by_cases hgap : light.size + 1 < heavy.size
      · obtain ⟨i, hi⟩ := exists_last (show 0 < heavy.size by omega)
        have hne : light ≠ heavy := by
          rintro rfl
          omega
        -- Without its last load the queue still begins with the first one.
        have hf : LoadQueue.lightest ⟨q.loads.dropLast⟩ = some light := by
          obtain ⟨rest, hq, -⟩ := toList_eq_of_ends hl hh hne
          change q.toList.dropLast.head? = some light
          rw [hq, ← List.cons_append, List.dropLast_concat, List.head?_cons]
        rw [transferLast_of_gap hl hh hgap hi]
        simp only [moveLast, EStateM.run_bind, EStateM.run_get, hl, hh, hi, hgap, if_true,
          run_demand_some, EStateM.run_pure, run_popLast hh, run_popFirst hf, run_put]
      · simp [moveLast, transferLast, hl, hh, hgap, Nat.not_lt.1 hgap]

/-- What a call answers, and the queue after it. -/
def attempt (q : LoadQueue) : Option Transfer × LoadQueue :=
  match moveLast.run q with
  | .ok t q' => (some t, q')
  | .error () q' => (none, q')

theorem attempt_of_some (h : q.transferLast = some (t, q')) : q.attempt = (some t, q') := by
  rw [attempt, run_moveLast, h]

theorem attempt_of_none (h : q.transferLast = none) : q.attempt = (none, q) := by
  rw [attempt, run_moveLast, h]

/-! ### Whose items they are -/

theorem Replaces.mem_itemsOf_iff (h : Replaces q t q' light heavy) (i : ItemId) :
    i ∈ itemsOf q'.toList ↔ i ∈ itemsOf q.toList := by
  have hlight : light ∈ q.toList := mem_of_lightest h.lightest
  have hheavy : heavy ∈ q.toList := mem_of_heaviest h.heaviest
  have hin : light.insert t.item ∈ q'.toList := (h.mem_iff _).2 (.inl rfl)
  have hout : heavy.dropLast ∈ q'.toList := (h.mem_iff _).2 (.inr (.inl rfl))
  simp only [itemsOf, List.mem_flatMap]
  constructor
  · rintro ⟨l, hl, hi⟩
    obtain rfl | rfl | ⟨hl, -⟩ := (h.mem_iff l).1 hl
    · obtain rfl | hi := mem_items_insert.1 hi
      · exact ⟨heavy, hheavy, List.mem_of_getLast? h.item⟩
      · exact ⟨light, hlight, hi⟩
    · exact ⟨heavy, hheavy, List.dropLast_subset _ hi⟩
    · exact ⟨l, hl, hi⟩
  · rintro ⟨l, hl, hi⟩
    by_cases hll : l = light
    · exact ⟨_, hin, mem_items_insert.2 (.inr (hll ▸ hi))⟩
    · by_cases hlh : l = heavy
      · obtain rfl | hi := eq_or_mem_items_dropLast h.item (hlh ▸ hi)
        · exact ⟨_, hin, mem_items_insert.2 (.inl rfl)⟩
        · exact ⟨_, hout, hi⟩
      · exact ⟨l, (h.mem_iff l).2 (.inr (.inr ⟨hl, hll, hlh⟩)), hi⟩

def Holds (q : LoadQueue) (w : WorkerId) (i : ItemId) : Prop :=
  ∃ l ∈ q.toList, l.worker = w ∧ i ∈ l.items

theorem holds_iff_of_perm {ls : List Load} (h : q.toList.Perm ls) {w : WorkerId} {i : ItemId} :
    q.Holds w i ↔ ∃ l ∈ ls, l.worker = w ∧ i ∈ l.items :=
  exists_congr fun _ => and_congr_left fun _ => h.mem_iff

theorem Gives.holds_iff {rest : List Load} (h : Gives q t q' light heavy rest)
    (ha : Apart q.toList) (w : WorkerId) (i : ItemId) :
    q'.Holds w i ↔ if i = t.item then w = t.target else q.Holds w i := by
  have hfree : t.item ∉ itemsOf (heavy.dropLast :: light :: rest) :=
    ((ha.perm (h.before.trans (.swap ..))).dropLast h.item).2
  simp only [itemsOf_cons, List.mem_append, not_or] at hfree
  obtain ⟨hheavy, hlight, hrest⟩ := hfree
  rw [holds_iff_of_perm h.before, holds_iff_of_perm h.after]
  simp only [List.exists_mem_cons_iff, mem_items_insert, worker_insert, worker_dropLast]
  split
  · next hi =>
    subst hi
    have hout : ¬∃ l ∈ rest, l.worker = w ∧ t.item ∈ l.items := fun ⟨l, hl, _, hi⟩ =>
      hrest (List.mem_flatMap.2 ⟨l, hl, hi⟩)
    simp only [hheavy, hout, true_or, and_true, and_false, or_false]
    rw [h.target, eq_comm]
  · next hi =>
    have hmem : i ∈ heavy.dropLast.items ↔ i ∈ heavy.items :=
      ⟨fun hm => List.dropLast_subset _ hm,
        fun hm => (eq_or_mem_items_dropLast h.item hm).resolve_left hi⟩
    simp [hi, hmem]

/-- Where workers and lists are separate, the transfer is all that changes. -/
theorem separate_of_transferLast (h : q.transferLast = some (t, q')) (hs : Separate q.toList) :
    Separate q'.toList ∧ q'.workerCount = q.workerCount ∧ q'.totalItems = q.totalItems ∧
      t.source ≠ t.target ∧ q.Holds t.source t.item ∧
      ∀ w i, q'.Holds w i ↔ if i = t.item then w = t.target else q.Holds w i := by
  have ha := separate_iff_apart.1 hs
  obtain ⟨light, heavy, rest, hg⟩ := gives_of_transferLast ha h
  have hre := hg.rearranges ha
  have hcount := hre.workers.length_eq
  rw [List.length_map, List.length_map] at hcount
  refine ⟨separate_iff_apart.2 hre.apart, hcount, hre.items.length_eq, ?_, ?_, hg.holds_iff ha⟩
  · rw [hg.source, hg.target]
    exact (ha.perm hg.before).worker_ne List.mem_cons_self
  · exact (holds_iff_of_perm hg.before).2 ⟨heavy, List.mem_cons_of_mem _ List.mem_cons_self,
      hg.source.symm, List.mem_of_getLast? hg.item⟩

/-! ### One call after another -/

/-- The queue after a call, whatever it answers. -/
def after (q : LoadQueue) : LoadQueue := q.attempt.2

theorem after_of_some (h : q.transferLast = some (t, q')) : q.after = q' := by
  rw [after, attempt_of_some h]

theorem iterate_after_of_none (h : q.transferLast = none) (n : Nat) : after^[n] q = q :=
  Function.iterate_fixed (by rw [after, attempt_of_none h]) n

theorem exists_last_call (q : LoadQueue) : ∃ n ≤ q.potential,
    (∀ m < n, (after^[m] q).transferLast ≠ none) ∧ (after^[n] q).transferLast = none := by
  induction hp : q.potential using Nat.strongRecOn generalizing q with
  | _ p ih =>
    cases hq : q.transferLast with
    | none => exact ⟨0, Nat.zero_le p, fun m hm => absurd hm (Nat.not_lt_zero m), hq⟩
    | some r =>
      obtain ⟨t, q'⟩ := r
      have hlt : q'.potential < p := hp ▸ potential_transferLast hq
      obtain ⟨n, hn, hsome, hnone⟩ := ih q'.potential hlt q' rfl
      refine ⟨n + 1, by omega, ?_, ?_⟩
      · rintro (_ | m) hm
        · rw [Function.iterate_zero_apply, hq]
          simp
        · rw [Function.iterate_succ_apply, after_of_some hq]
          exact hsome m (by omega)
      · rwa [Function.iterate_succ_apply, after_of_some hq]

theorem size_le_of_transferLast_eq_none {l k : Load} (h : q.transferLast = none)
    (hl : l ∈ q.toList) (hk : k ∈ q.toList) : l.size ≤ k.size + 1 := by
  refine Nat.le_of_not_lt fun hgap => ?_
  obtain ⟨t, q', hsome⟩ := exists_transferLast hk hl hgap
  rw [h] at hsome
  cases hsome

/-- Whatever loads there are in a queue, a call is refused only if the queue is empty or its ends
differ by one item at most, and a refused call leaves the queue as it was. Any other call replaces
the ends of the queue and leaves the items as they are altogether; if the loads are separate they
remain so, and one item has changed hands. After finitely many transfers the calls are refused, and
then all loads are within one item of each other. -/
theorem transfers_until_level (q : LoadQueue) :
    (q.transferLast = none ↔ q.toList = [] ∨ ∃ light heavy, q.lightest = some light ∧
      q.heaviest = some heavy ∧ heavy.size ≤ light.size + 1) ∧
    (q.transferLast = none → q.attempt = (none, q)) ∧
    (∀ t q', q.transferLast = some (t, q') → q.attempt = (some t, q') ∧
      (∃ light heavy, Replaces q t q' light heavy) ∧
      (∀ i, i ∈ itemsOf q'.toList ↔ i ∈ itemsOf q.toList) ∧
      (Separate q.toList → Separate q'.toList ∧ q'.workerCount = q.workerCount ∧
        q'.totalItems = q.totalItems ∧ t.source ≠ t.target ∧ q.Holds t.source t.item ∧
        ∀ w i, q'.Holds w i ↔ if i = t.item then w = t.target else q.Holds w i)) ∧
    ∃ n ≤ q.potential, (∀ m < n, (after^[m] q).attempt.1 ≠ none) ∧
      (∀ m ≥ n, (after^[m] q).attempt = (none, after^[n] q)) ∧
      ∀ l ∈ (after^[n] q).toList, ∀ k ∈ (after^[n] q).toList, l.size ≤ k.size + 1 := by
  refine ⟨transferLast_eq_none_iff, attempt_of_none, fun t q' h => ?_, ?_⟩
  · obtain ⟨light, heavy, hr⟩ := exists_replaces h
    exact ⟨attempt_of_some h, ⟨light, heavy, hr⟩, hr.mem_itemsOf_iff, separate_of_transferLast h⟩
  · obtain ⟨n, hn, hsome, hnone⟩ := exists_last_call q
    refine ⟨n, hn, fun m hm => ?_, fun m hm => ?_, fun l hl k hk =>
      size_le_of_transferLast_eq_none hnone hl hk⟩
    · obtain ⟨r, hr⟩ := Option.ne_none_iff_exists'.1 (hsome m hm)
      rw [attempt_of_some hr]
      simp
    · obtain ⟨d, rfl⟩ := Nat.exists_eq_add_of_le' hm
      rw [Function.iterate_add_apply, iterate_after_of_none hnone, attempt_of_none hnone]

/-- Two loads of one worker, one with an item twice, and a load of another with the same items. -/
def crossed : LoadQueue :=
  ofList [.of ⟨1⟩ [⟨"pa", by decide⟩],
    .of ⟨1⟩ [⟨"pb", by decide⟩, ⟨"pa", by decide⟩, ⟨"pb", by decide⟩],
    .of ⟨2⟩ [⟨"pa", by decide⟩, ⟨"pb", by decide⟩]]

/-- The loads of the first worker have become one. -/
def uncrossed : LoadQueue :=
  ofList [.of ⟨1⟩ [⟨"pa", by decide⟩, ⟨"pb", by decide⟩],
    .of ⟨2⟩ [⟨"pa", by decide⟩, ⟨"pb", by decide⟩]]

def oneSided : LoadQueue :=
  ofList [.of ⟨2⟩ [⟨"pc", by decide⟩, ⟨"pd", by decide⟩, ⟨"pe", by decide⟩], .of ⟨1⟩ []]

def evened : LoadQueue :=
  ofList [.of ⟨2⟩ [⟨"pc", by decide⟩, ⟨"pd", by decide⟩], .of ⟨1⟩ [⟨"pe", by decide⟩]]

theorem crossed_until_level :
    crossed.attempt = (some ⟨⟨"pb", by decide⟩, ⟨1⟩, ⟨1⟩⟩, uncrossed) ∧
    (∀ i, i ∈ itemsOf uncrossed.toList ↔ i ∈ itemsOf crossed.toList) ∧
    uncrossed.attempt = (none, uncrossed) ∧
    Separate oneSided.toList ∧ oneSided.attempt = (some ⟨⟨"pe", by decide⟩, ⟨2⟩, ⟨1⟩⟩, evened) ∧
    Separate evened.toList ∧ evened.totalItems = oneSided.totalItems := by
  have hcross : crossed.transferLast = some (⟨⟨"pb", by decide⟩, ⟨1⟩, ⟨1⟩⟩, uncrossed) := by
    decide +kernel
  have hstay : uncrossed.transferLast = none := by decide +kernel
  have hside : oneSided.transferLast = some (⟨⟨"pe", by decide⟩, ⟨2⟩, ⟨1⟩⟩, evened) := by
    decide +kernel
  have hseparate : Separate oneSided.toList :=
    ⟨by decide +kernel, by decide +kernel, by decide +kernel⟩
  obtain ⟨-, -, hsome, -⟩ := transfers_until_level crossed
  obtain ⟨-, hnone, -⟩ := transfers_until_level uncrossed
  obtain ⟨-, -, hsome', -⟩ := transfers_until_level oneSided
  obtain ⟨hattempt, -, hitems, -⟩ := hsome _ _ hcross
  obtain ⟨hattempt', -, -, hkept⟩ := hsome' _ _ hside
  obtain ⟨hseparate', -, htotal, -⟩ := hkept hseparate
  exact ⟨hattempt, hitems, hnone hstay, hseparate, hattempt', hseparate', htotal⟩

end LoadQueue

end Roster
