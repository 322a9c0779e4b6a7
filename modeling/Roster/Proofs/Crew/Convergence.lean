import Roster.Proofs.Crew.Passes

/-! Passes that come to rest. One pass tells everything to stop that is not desired, the next one
starts what was still stopping, and a third finds nothing to do, as long as handlers end when they
are told to and only then. -/

namespace Roster.Crew

variable {c : Crew} {i : ItemId} {e : Entry} {now : Nat} {desired : List ItemId}
  {behaviour : ItemId → Behaviour}

/-- Whatever was told to stop has ended or is overdue, and nothing else has ended. -/
structure Ready (c : Crew) (now : Nat) : Prop where
  stopping : ∀ e ∈ c.handlers.values, e.phase.isStopping = true →
    c.isLive e.generation = false ∨ e.phase.isOverdue now c.stopTimeout = true
  running : ∀ e ∈ c.handlers.values, e.phase.isStopping = false → c.isLive e.generation = true

instance (c : Crew) (now : Nat) : Decidable (c.Ready now) :=
  decidable_of_iff (_ ∧ _) ⟨fun h => ⟨h.1, h.2⟩, fun h => ⟨h.1, h.2⟩⟩

/-- Only what is desired is running. -/
def Heeds (c : Crew) (desired : List ItemId) : Prop :=
  ∀ i e, c.handlers.get? i = some e → e.phase.isStopping = false → i ∈ desired

/-- What is desired is running, and there is nothing else. -/
def Matches (c : Crew) (desired : List ItemId) : Prop :=
  ∀ i, c.phaseOf i = if i ∈ desired then some .running else none

theorem isOverdue_of_running {p : Phase} {timeout : Nat} (h : p.isStopping = false) :
    p.isOverdue now timeout = false := by
  cases p with
  | running => rfl
  | stopping since => cases h

theorem Ready.get?_swept (hr : c.Ready now) (h : Staffed c) (i : ItemId) :
    (c.swept now).handlers.get? i =
      (c.handlers.get? i).filter fun e => !e.phase.isStopping := by
  rw [Crew.get?_swept h]
  cases he : c.handlers.get? i with
  | none => rfl
  | some e =>
    rw [Option.filter_some, Option.filter_some]
    cases hp : e.phase.isStopping with
    | true => rcases hr.stopping e (mem_values he) hp with hover | hover <;> simp [hover]
    | false => simp [hr.running e (mem_values he) hp, isOverdue_of_running hp]

theorem heeds_reconcile (c : Crew) (now : Nat) (desired : List ItemId)
    (behaviour : ItemId → Behaviour) :
    (c.reconcile now (.ok desired) behaviour).2.Heeds desired := by
  intro i e he hp
  change ((c.swept now).follow now desired behaviour).2.2.handlers.get? i = some e at he
  by_contra hi
  rw [get?_follow_of_surplus now behaviour hi] at he
  obtain ⟨e', -, rfl⟩ := Option.map_eq_some_iff.1 he
  obtain ⟨g, p⟩ := e'
  cases p <;> cases hp

theorem Heeds.matches_reconcile (hh : c.Heeds desired) (h : Staffed c) (hr : c.Ready now)
    (behaviour : ItemId → Behaviour) :
    (c.reconcile now (.ok desired) behaviour).2.Matches desired := by
  intro i
  change (((c.swept now).follow now desired behaviour).2.2.handlers.get? i).map (·.phase) = _
  have hswept := hr.get?_swept h i
  by_cases hi : i ∈ desired
  · rw [if_pos hi]
    cases he : (c.swept now).handlers.get? i with
    | none =>
      obtain ⟨g, -, hg⟩ := get?_follow_of_missing now behaviour hi he
      rw [hg]
      rfl
    | some e =>
      rw [get?_follow_of_desired now behaviour hi he]
      rw [hswept, Option.filter_eq_some_iff] at he
      obtain ⟨g, p⟩ := e
      cases p with
      | running => rfl
      | stopping since => cases he.2
  · rw [if_neg hi, get?_follow_of_surplus now behaviour hi]
    cases he : (c.swept now).handlers.get? i with
    | none => rfl
    | some e =>
      rw [hswept, Option.filter_eq_some_iff] at he
      exact absurd (hh i e he.1 (by simpa using he.2)) hi

/-! ### At rest -/

theorem Matches.phaseOf_eq_some_iff {p : Phase} (hm : c.Matches desired) :
    c.phaseOf i = some p ↔ i ∈ desired ∧ p = .running := by
  rw [hm i]
  split
  · next hi => exact ⟨fun h => ⟨hi, (Option.some.inj h).symm⟩, fun h => congrArg some h.2.symm⟩
  · next hi => exact ⟨(fun h => nomatch h), fun h => absurd h.1 hi⟩

theorem Matches.mem_iff (hm : c.Matches desired) : i ∈ desired ↔ i ∈ c.handlers.keys := by
  have hi := hm i
  rw [phaseOf] at hi
  split at hi
  · next h =>
    obtain ⟨e, he, -⟩ := Option.map_eq_some_iff.1 hi
    exact iff_of_true h (OrderedMap.mem_keys_iff.2 ⟨e, he⟩)
  · next h => exact iff_of_false h (not_mem_keys_iff.2 (Option.map_eq_none_iff.1 hi))

theorem Matches.not_isStopping (hm : c.Matches desired) (he : e ∈ c.handlers.values) :
    e.phase.isStopping = false := by
  obtain ⟨i, hi⟩ := exists_get?_of_mem_values he
  have hphase : c.phaseOf i = some e.phase := by rw [phaseOf, hi, Option.map_some]
  rw [(hm.phaseOf_eq_some_iff.1 hphase).2]
  rfl

theorem onExits_of_ne {rs : List Report}
    (h : ∀ e ∈ c.handlers.values, ∀ r ∈ rs, r.generation ≠ e.generation) :
    c.onExits rs = (0, c) := by
  induction rs with
  | nil => rfl
  | cons r rs ih =>
    have hone : c.onExit r = (false, c) := by
      obtain ⟨e, he, hg, -⟩ | ⟨-, heq⟩ := c.onExit_cases r
      · exact absurd hg.symm (h e (mem_values he) r List.mem_cons_self)
      · exact heq
    have hrest := ih fun e he s hs => h e he s (.tail r hs)
    simp only [onExits, hone, hrest]
    rfl

theorem filter_handlers_eq_self {p : Entry → Bool} (h : ∀ e ∈ c.handlers.values, p e = true) :
    (c.handlers.filter fun _ e => p e) = c.handlers :=
  OrderedMap.eq_of_entries <| List.filter_eq_self.2 fun e he =>
    h e.2 (List.mem_map_of_mem (f := (·.2)) he)

theorem filter_handlers_eq_empty {p : Entry → Bool} (h : ∀ e ∈ c.handlers.values, p e = false) :
    (c.handlers.filter fun _ e => p e) = .empty :=
  OrderedMap.eq_of_entries <| List.filter_eq_nil_iff.2 fun e he =>
    Bool.eq_false_iff.1 (h e.2 (List.mem_map_of_mem (f := (·.2)) he))

/-- Nothing to collect. -/
theorem collectExits_of_live (h : Staffed c)
    (hl : ∀ e ∈ c.handlers.values, c.isLive e.generation = true) :
    c.collectExits = (⟨0, 0⟩, { c with reports := [] }) := by
  have hdrain : c.drain = (0, { c with reports := [] }) :=
    onExits_of_ne fun e he r hr => h.generation_ne (hl e he) hr
  have hended : ended { c with reports := [] } = .empty :=
    filter_handlers_eq_empty fun e he => by
      rw [Bool.not_eq_false']
      exact hl e he
  have hkept : (c.handlers.filter fun _ e => isLive { c with reports := [] } e.generation) =
      c.handlers := filter_handlers_eq_self hl
  rw [collectExits_eq, hdrain]
  simp only [hended, hkept]
  simp [OrderedMap.empty, OrderedMap.size, OrderedMap.keys]

theorem abortWhere_of_none {timeout : Option Nat} {p : Entry → Bool}
    (h : ∀ e ∈ c.handlers.values, p e = false) : c.abortWhere now timeout p = (0, c) := by
  have hkept : (c.handlers.filter fun _ e => !p e) = c.handlers :=
    filter_handlers_eq_self fun e he => by rw [h e he, Bool.not_false]
  rw [abortWhere, filter_handlers_eq_empty h, hkept]
  simp [OrderedMap.empty, OrderedMap.size, OrderedMap.keys, OrderedMap.values, abortTasks]

/-- A pass of a crew at rest does nothing, but for the reports of earlier tasks, which go. -/
theorem Matches.reconcile_eq (hm : c.Matches desired) (h : Staffed c) (hr : c.Ready now)
    (behaviour : ItemId → Behaviour) :
    c.reconcile now (.ok desired) behaviour =
      (.ok ⟨0, 0, 0, 0, .converged⟩, { c with reports := [] }) := by
  have hlive : ∀ e ∈ c.handlers.values, c.isLive e.generation = true :=
    fun e he => hr.running e he (hm.not_isStopping he)
  have habort : abortOverdue { c with reports := [] } now = (0, { c with reports := [] }) :=
    abortWhere_of_none fun e he => isOverdue_of_running (hm.not_isStopping he)
  have hfollow : follow { c with reports := [] } now desired behaviour =
      (⟨[], []⟩, 0, { c with reports := [] }) := follow_of_same fun _ => hm.mem_iff
  have hrest : hasStopping { c with reports := [] } = false :=
    hasStopping_eq_false_iff.2 fun _ _ he => hm.not_isStopping (mem_values he)
  rw [reconcile, collectExits_of_live h hlive]
  simp only [habort, hfollow, hrest, Diff.isEmpty]
  rfl

end Roster.Crew
