import Roster.Proofs.Crew.Convergence
import Roster.Proofs.Crew.Outage

/-! Three passes bring a crew on a clock to rest, from whatever it was doing. The first tells to
stop what is too much, the second takes up what was still stopping, and the third finds nothing to
do, if handlers end when they are told to and only then. -/

namespace Roster

namespace Crew

variable {c c' : Crew} {now : Nat} {desired read : List ItemId}

/-- From `c` to `c'` who runs goes on, and at `now` whoever is stopping has ended or is overdue. -/
structure Obeys (now : Nat) (c c' : Crew) : Prop where
  running : ∀ e ∈ c.handlers.values, e.phase = .running → c'.isLive e.generation = true
  stopping : ∀ e ∈ c'.handlers.values, e.phase.isStopping = true →
    c'.isLive e.generation = false ∨ e.phase.isOverdue now c'.stopTimeout = true

instance (now : Nat) (c c' : Crew) : Decidable (Obeys now c c') :=
  decidable_of_iff (_ ∧ _) ⟨fun h => ⟨h.1, h.2⟩, fun h => ⟨h.1, h.2⟩⟩

theorem eq_running_of_not_isStopping {p : Phase} (h : p.isStopping = false) : p = .running := by
  cases p with
  | running => rfl
  | stopping since => cases h

theorem Obeys.ready (h : Obeys now c c') (hw : Wanes c c') : c'.Ready now where
  stopping := h.stopping
  running e he hp := by
    obtain ⟨i, hi⟩ := exists_get?_of_mem_values he
    exact h.running e (mem_values (hw.entries i e hi)) (eq_running_of_not_isStopping hp)

/-- Neither the order of an answer nor its repeats matter to what runs. -/
theorem Heeds.congr (h : c.Heeds read) (hsame : ∀ i, i ∈ read ↔ i ∈ desired) : c.Heeds desired :=
  fun i e he hp => (hsame i).1 (h i e he hp)

theorem Matches.congr (h : c.Matches read) (hsame : ∀ i, i ∈ read ↔ i ∈ desired) :
    c.Matches desired := by
  intro i
  rw [h i]
  exact if_congr (hsame i) rfl rfl

/-- Entries that leave do not make anything run. -/
theorem Heeds.wanes (h : c.Heeds desired) (hw : Wanes c c') : c'.Heeds desired :=
  fun i e he hp => h i e (hw.entries i e he) hp

/-- A crew at rest stays so while its handlers are live. -/
theorem Matches.wanes (h : c.Matches desired) (hw : Wanes c c') (hd : Dated now c)
    (hs : Staffed c') (hl : ∀ e ∈ c.handlers.values, c'.isLive e.generation = true) :
    c'.Matches desired := by
  intro i
  rw [← h i, phaseOf, phaseOf]
  cases he : c.handlers.get? i with
  | some e => rw [hw.get?_of_isLive hd hs he (hl e (mem_values he))]
  | none =>
    cases he' : c'.handlers.get? i with
    | none => rfl
    | some e' =>
      rw [hw.entries i e' he'] at he
      cases he

theorem Matches.runningItems_eq (h : c.Matches desired) : c.runningItems = c.handlers.keys := by
  rw [runningItems, filter_handlers_eq_self]
  intro e he
  rw [h.not_isStopping he]
  rfl

/-- The items of a crew at rest are what is desired, in order and without repeats. -/
theorem Matches.keys_eq (h : c.Matches desired) :
    c.handlers.keys = (OrderedSet.ofList desired).toList := by
  have hset : (⟨c.handlers.keys, c.handlers.strict⟩ : OrderedSet ItemId) = .ofList desired := by
    refine OrderedSet.eq_of_mem_iff fun i => ?_
    rw [OrderedSet.mem_def, ← h.mem_iff, OrderedSet.mem_ofList]
  exact congrArg OrderedSet.toList hset

end Crew

namespace Watch

open Crew (Obeys Wanes)

variable {x : Watch} {stopTimeout : Nat}

/-- A pass whose store gives `desired`. -/
def pass (desired : List ItemId) (behaviour : ItemId → Behaviour) : Act :=
  .request (.reconcile (.ok desired) behaviour)

theorem act_pass (hx : x.dropped = false) (desired : List ItemId)
    (behaviour : ItemId → Behaviour) : x.act (pass desired behaviour) =
      { x with crew := (x.crew.reconcile x.now (.ok desired) behaviour).2 } := by
  rw [pass, act, if_neg (Bool.eq_false_iff.1 hx), serve]

/-- Whatever the crew was doing, after two passes over what the store wants and a third one there is
exactly that, and the third has had nothing to do: if before the second and the third whoever is
stopping has ended or is overdue, and nobody who runs ends meanwhile. The answers of the store hold
the same items in any order. Between the passes time goes by, the crew may settle, and there may be
passes that cannot read the store. -/
theorem three_passes_rest (w : WorkerId) (stopTimeout : Nat) (acts between after : List Act)
    (desired read₁ read₂ read₃ : List ItemId)
    (behaviour₁ behaviour₂ behaviour₃ : ItemId → Behaviour) :
    let x := (fresh w stopTimeout).run acts
    let x' := x.act (pass read₁ behaviour₁)
    let y := x'.run between
    let y' := y.act (pass read₂ behaviour₂)
    let z := y'.run after
    x.dropped = false → (∀ read ∈ [read₁, read₂, read₃], ∀ i, i ∈ read ↔ i ∈ desired) →
    (∀ a ∈ between, a.Waits) → (∀ a ∈ after, a.Waits) →
    Obeys y.now x'.crew y.crew → Obeys z.now y'.crew z.crew →
    ∃ p c, z.crew.reconcile z.now (.ok read₃) behaviour₃ = (.ok p, c) ∧
      p.started = 0 ∧ p.cancelled = 0 ∧ p.status = .converged ∧ c.tasks = z.crew.tasks ∧
      c.runningItems = (OrderedSet.ofList desired).toList ∧
      c.handlers.keys = c.runningItems := by
  intro x x' y y' z hx hreads hbetween hafter hfirst hsecond
  have hread₁ := hreads read₁ (by simp)
  have hread₂ := hreads read₂ (by simp)
  have hread₃ := hreads read₃ (by simp)
  have hsound := ((sound_fresh w stopTimeout).run acts).1
  have hx' : Sound stopTimeout x' := (hsound.act _).1
  have hy : Sound stopTimeout y := (hx'.run between).1
  have hy' : Sound stopTimeout y' := (hy.act _).1
  have hz : Sound stopTimeout z := (hy'.run after).1
  obtain ⟨hwanes, hydropped⟩ := wanes_run hbetween x'
  obtain ⟨hwanes', hzdropped⟩ := wanes_run hafter y'
  have heq : x' = { x with crew := (x.crew.reconcile x.now (.ok read₁) behaviour₁).2 } :=
    act_pass hx read₁ behaviour₁
  have hylive : y.dropped = false := by rw [hydropped, heq, hx]
  have heq' : y' = { y with crew := (y.crew.reconcile y.now (.ok read₂) behaviour₂).2 } :=
    act_pass hylive read₂ behaviour₂
  have hylive' : y'.dropped = false := by rw [heq', hylive]
  have hzlive : z.dropped = false := hzdropped.trans hylive'
  -- After the first pass only what is desired runs, after the second there is nothing else.
  have hheeds : x'.crew.Heeds read₂ := by
    rw [heq]
    exact (Crew.heeds_reconcile x.crew x.now read₁ behaviour₁).congr fun i =>
      (hread₁ i).trans (hread₂ i).symm
  have hmatches : y'.crew.Matches desired := by
    rw [heq']
    exact ((hheeds.wanes hwanes).matches_reconcile (hy.staffed hylive) (hfirst.ready hwanes)
      _).congr hread₂
  have hrest : z.crew.Matches desired := by
    refine hmatches.wanes hwanes' hy'.dated (hz.staffed hzlive) fun e he => ?_
    exact hsecond.running e he (Crew.eq_running_of_not_isStopping (hmatches.not_isStopping he))
  have hpass := (hrest.congr fun i => (hread₃ i).symm).reconcile_eq (hz.staffed hzlive)
    (hsecond.ready hwanes') behaviour₃
  have hend : Crew.Matches { z.crew with reports := [] } desired := hrest
  exact ⟨_, _, hpass, rfl, rfl, rfl, rfl, hend.runningItems_eq.trans hend.keys_eq,
    hend.runningItems_eq.symm⟩

/-- Handlers of the third item end when they are told to, and those of the fourth panic then; the
others never end. -/
def restlessBehaviour (i : ItemId) : Behaviour :=
  if i.text = "uc" then .idle else if i.text = "ud" then .panicsOnStop else .stubborn

/-- The first and the third of four items have been told to stop. -/
def restless : List Act :=
  [pass [⟨"ua", by decide⟩, ⟨"ub", by decide⟩, ⟨"uc", by decide⟩, ⟨"ud", by decide⟩]
      restlessBehaviour,
    .task 0, .task 1, .task 2, .task 3, .sleep 1000,
    pass [⟨"ub", by decide⟩, ⟨"ud", by decide⟩] restlessBehaviour, .sleep 1000]

/-- Among them are one that is stopping, one that runs, and a new one twice. -/
def restlessDesired : List ItemId :=
  [⟨"ue", by decide⟩, ⟨"ua", by decide⟩, ⟨"ub", by decide⟩, ⟨"ue", by decide⟩]

/-- Before the second pass one handler returns, one panics, and one becomes overdue. -/
def restlessBetween : List Act := [.task 2, .task 4, .sleep 1000, .task 3, blindPass, .sleep 3000]

/-- When the second pass begins. -/
def restlessSecond : Watch :=
  (((fresh ⟨1⟩ 5000).run restless).act (pass restlessDesired restlessBehaviour)).run
    restlessBetween

/-- When the third pass begins. -/
def restlessThird : Watch :=
  (restlessSecond.act (pass restlessDesired.reverse restlessBehaviour)).run [.task 5, .sleep 1000]

theorem restless_three_passes_rest :
    restlessSecond.crew.handlers.values = [⟨0, .stopping 1000⟩, ⟨1, .running⟩, ⟨4, .running⟩] ∧
    restlessSecond.now = 6000 ∧
    ∃ p c, restlessThird.crew.reconcile restlessThird.now (.ok restlessDesired.tail)
        restlessBehaviour = (.ok p, c) ∧
      p.status = .converged ∧
      c.runningItems = [⟨"ua", by decide⟩, ⟨"ub", by decide⟩, ⟨"ue", by decide⟩] := by
  have hreads : ∀ read ∈ [restlessDesired, restlessDesired.reverse, restlessDesired.tail],
      ∀ i, i ∈ read ↔ i ∈ restlessDesired := by
    simp only [List.forall_mem_cons, List.mem_reverse, iff_self, implies_true, true_and]
    simp [restlessDesired, or_comm, or_left_comm]
  have hbetween : ∀ a ∈ restlessBetween, a.Waits := by
    simp [restlessBetween, blindPass, Act.Waits]
  have hafter : ∀ a ∈ [Act.task 5, Act.sleep 1000], a.Waits := by simp [Act.Waits]
  obtain ⟨p, c, hpass, -, -, hstatus, -, hitems, -⟩ :=
    three_passes_rest ⟨1⟩ 5000 restless restlessBetween [.task 5, .sleep 1000] restlessDesired
      restlessDesired restlessDesired.reverse restlessDesired.tail restlessBehaviour
      restlessBehaviour restlessBehaviour (by decide) hreads hbetween hafter (by decide) (by decide)
  exact ⟨by decide, by decide, p, c, hpass, hstatus, hitems.trans (by decide)⟩

end Watch

end Roster
