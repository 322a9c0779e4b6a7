import Mathlib.Data.List.Dedup
import Roster.Proofs.Crew.Passes

/-! What a pass does that reads the store, and how it counts that. Between the entries that are left
by the sweep and those that the pass leaves there is the difference to what is desired and nothing
more. -/

namespace Roster.Crew

variable {c : Crew} {i : ItemId} {e : Entry} {now : Nat} {desired is : List ItemId}
  {behaviour : ItemId → Behaviour} {w : WorkerId} {stopTimeout : Nat}

/-! ### Counting -/

theorem phaseOf_eq_running_iff :
    c.phaseOf i = some .running ↔ ∃ g, c.handlers.get? i = some ⟨g, .running⟩ := by
  rw [phaseOf, Option.map_eq_some_iff]
  constructor
  · rintro ⟨⟨g, p⟩, he, rfl⟩
    exact ⟨g, he⟩
  · rintro ⟨g, he⟩
    exact ⟨_, he, rfl⟩

theorem cancel_fst (c : Crew) (now : Nat) (i : ItemId) :
    (c.cancel now i).1 = decide (c.phaseOf i = some .running) := by
  rw [cancel]
  split
  · next g hg => exact (decide_eq_true (phaseOf_eq_running_iff.2 ⟨g, hg⟩)).symm
  · next hnot =>
    refine (decide_eq_false fun h => ?_).symm
    obtain ⟨g, hg⟩ := phaseOf_eq_running_iff.1 h
    exact hnot g hg

/-- Whoever is cancelled twice is counted once, so there are to be no repeats. -/
theorem cancelAll_fst (c : Crew) (now : Nat) (hn : is.Nodup) :
    (c.cancelAll now is).1 = is.countP fun i => c.phaseOf i = some .running := by
  induction is generalizing c with
  | nil => rfl
  | cons i is ih =>
    obtain ⟨hi, hn⟩ := List.nodup_cons.1 hn
    -- The others have the phases that they had before.
    have hrest : is.countP (fun j => (c.cancel now i).2.phaseOf j = some .running) =
        is.countP fun j => c.phaseOf j = some .running := by
      refine List.countP_congr fun j hj => ?_
      have hne : j ≠ i := fun h => hi (h ▸ hj)
      rw [phaseOf, get?_cancel, if_neg hne, ← phaseOf]
    rw [cancelAll]
    simp only [ih _ hn, hrest, cancel_fst, List.countP_cons]
    cases decide (c.phaseOf i = some .running) <;> rfl

theorem length_toStart (c : Crew) (desired : List ItemId) :
    (Diff.between desired c.handlers.keys).toStart.length =
      (desired.dedup.filter (· ∉ c.handlers.keys)).length := by
  refine List.Perm.length_eq ((List.perm_ext_iff_of_nodup (OrderedSet.nodup _)
    (desired.nodup_dedup.filter _)).2 fun i => ?_)
  rw [List.mem_filter, List.mem_dedup, decide_eq_true_eq]
  exact Diff.mem_toStart_iff

theorem mem_keys_filter {p : ItemId → Entry → Bool} :
    i ∈ (c.handlers.filter p).keys ↔ ∃ e, c.handlers.get? i = some e ∧ p i e = true := by
  simp only [OrderedMap.mem_keys_iff, OrderedMap.get?_filter, Option.filter_eq_some_iff]

/-- A pass cancels what is running and not desired, and counts it. -/
theorem follow_cancelled (c : Crew) (now : Nat) (desired : List ItemId)
    (behaviour : ItemId → Behaviour) : (c.follow now desired behaviour).2.1 =
      (c.handlers.filter fun i e => i ∉ desired ∧ e.phase = .running).size := by
  have hstop : (Diff.between desired c.handlers.keys).toStop.Nodup := OrderedSet.nodup _
  -- What has just been started is desired and not among what is to stop.
  have hphase : ∀ i ∈ (Diff.between desired c.handlers.keys).toStop,
      (c.startAll behaviour (Diff.between desired c.handlers.keys).toStart).phaseOf i =
        c.phaseOf i := by
    intro i hi
    rw [phaseOf, get?_startAll_of_not_mem, phaseOf]
    exact fun h => (Diff.mem_toStop_iff.1 hi).2 (Diff.mem_toStart_iff.1 h).1
  rw [follow, cancelAll_fst _ _ hstop,
    List.countP_congr fun i hi => by rw [hphase i hi], List.countP_eq_length_filter]
  refine (OrderedMap.size_eq_length (hstop.filter _) fun i => ?_).symm
  rw [List.mem_filter, Diff.mem_toStop_iff, decide_eq_true_eq, mem_keys_filter,
    phaseOf_eq_running_iff, OrderedMap.mem_keys_iff]
  simp only [decide_eq_true_eq]
  constructor
  · rintro ⟨⟨-, hi⟩, g, hg⟩
    exact ⟨_, hg, hi, rfl⟩
  · rintro ⟨⟨g, p⟩, he, hi, rfl⟩
    exact ⟨⟨⟨_, he⟩, hi⟩, g, he⟩

/-! ### Phases -/

theorem phaseOf_follow_eq_stopping_iff {since : Nat} :
    (c.follow now desired behaviour).2.2.phaseOf i = some (.stopping since) ↔
      c.phaseOf i = some (.stopping since) ∨
        c.phaseOf i = some .running ∧ i ∉ desired ∧ since = now := by
  by_cases hi : i ∈ desired
  · cases he : c.handlers.get? i with
    | none =>
      obtain ⟨g, -, hg⟩ := get?_follow_of_missing now behaviour hi he
      simp [phaseOf, hg, he]
    | some e => simp [phaseOf, get?_follow_of_desired now behaviour hi he, he, hi]
  · rw [phaseOf, get?_follow_of_surplus now behaviour hi, Option.map_map, phaseOf]
    cases he : c.handlers.get? i with
    | none => simp
    | some e =>
      obtain ⟨g, p⟩ := e
      cases p with
      | running => simp [Entry.cancel, Phase.isStopping, hi, eq_comm]
      | stopping t => simp [Entry.cancel, Phase.isStopping]

theorem phaseOf_follow_eq_running_iff :
    (c.follow now desired behaviour).2.2.phaseOf i = some .running ↔
      i ∈ desired ∧ ∀ since, c.phaseOf i ≠ some (.stopping since) := by
  by_cases hi : i ∈ desired
  · cases he : c.handlers.get? i with
    | none =>
      obtain ⟨g, -, hg⟩ := get?_follow_of_missing now behaviour hi he
      simp [phaseOf, hg, he, hi]
    | some e =>
      obtain ⟨g, p⟩ := e
      cases p <;> simp [phaseOf, get?_follow_of_desired now behaviour hi he, he, hi]
  · rw [phaseOf, get?_follow_of_surplus now behaviour hi, Option.map_map]
    cases he : c.handlers.get? i with
    | none => simp [hi]
    | some e =>
      obtain ⟨g, p⟩ := e
      cases p <;> simp [Entry.cancel, Phase.isStopping, hi]

theorem mem_keys_follow_iff :
    i ∈ (c.follow now desired behaviour).2.2.handlers.keys ↔
      i ∈ c.handlers.keys ∨ i ∈ desired := by
  by_cases hi : i ∈ desired
  · refine iff_of_true (OrderedMap.mem_keys_iff.2 ?_) (.inr hi)
    cases he : c.handlers.get? i with
    | none =>
      obtain ⟨g, -, hg⟩ := get?_follow_of_missing now behaviour hi he
      exact ⟨_, hg⟩
    | some e => exact ⟨e, get?_follow_of_desired now behaviour hi he⟩
  · rw [OrderedMap.mem_keys_iff, OrderedMap.mem_keys_iff,
      get?_follow_of_surplus now behaviour hi]
    simp [hi]

/-- An entry that is left keeps its task. -/
theorem generation_follow (now : Nat) (desired : List ItemId) (behaviour : ItemId → Behaviour)
    (he : c.handlers.get? i = some e) :
    ∃ e', (c.follow now desired behaviour).2.2.handlers.get? i = some e' ∧
      e'.generation = e.generation := by
  by_cases hi : i ∈ desired
  · exact ⟨e, get?_follow_of_desired now behaviour hi he, rfl⟩
  · refine ⟨e.cancel now, by rw [get?_follow_of_surplus now behaviour hi, he, Option.map_some], ?_⟩
    obtain ⟨g, p⟩ := e
    cases p <;> rfl

/-! ### One pass -/

theorem started_of_reconcile {p : Pass}
    (h : (c.reconcile now (.ok desired) behaviour).1 = .ok p) :
    p.started = (desired.dedup.filter (· ∉ (c.swept now).handlers.keys)).length := by
  rw [← length_toStart]
  cases h
  rfl

/-- A pass that reads the store returns. Of the entries, those of live handlers that are not overdue
are left by the sweep; what is desired is added to them, and what runs and is not desired is told to
stop. It counts both, and has converged if there was nothing to do and nothing stopping. -/
theorem pass_makes_difference (h : Moment w stopTimeout c) (now : Nat) (desired : List ItemId)
    (behaviour : ItemId → Behaviour) :
    let s := c.swept now
    (∀ i, s.handlers.get? i = (c.handlers.get? i).filter fun e =>
      c.isLive e.generation && !e.phase.isOverdue now stopTimeout) ∧
    ∃ p c', c.reconcile now (.ok desired) behaviour = (.ok p, c') ∧
      (∀ i, i ∈ c'.handlers.keys ↔ i ∈ s.handlers.keys ∨ i ∈ desired) ∧
      (∀ i since, c'.phaseOf i = some (.stopping since) ↔
        s.phaseOf i = some (.stopping since) ∨
          s.phaseOf i = some .running ∧ i ∉ desired ∧ since = now) ∧
      (∀ i, c'.phaseOf i = some .running ↔
        i ∈ desired ∧ ∀ since, s.phaseOf i ≠ some (.stopping since)) ∧
      (∀ i e, s.handlers.get? i = some e →
        ∃ e', c'.handlers.get? i = some e' ∧ e'.generation = e.generation) ∧
      p.started = (desired.dedup.filter (· ∉ s.handlers.keys)).length ∧
      p.cancelled = (s.handlers.filter fun i e => i ∉ desired ∧ e.phase = .running).size ∧
      (p.status = .converged ↔ (∀ i, i ∈ s.handlers.keys ↔ i ∈ desired) ∧
        ∀ i since, s.phaseOf i ≠ some (.stopping since)) := by
  intro s
  obtain ⟨p, hp, hcancelled⟩ := reconcile_ok c now desired behaviour
  have hresult : (c.reconcile now (.ok desired) behaviour).1 = .ok p := by rw [hp]
  refine ⟨fun i => ?_, p, _, hp, fun i => mem_keys_follow_iff,
    fun i since => phaseOf_follow_eq_stopping_iff, fun i => phaseOf_follow_eq_running_iff,
    fun i e he => generation_follow now desired behaviour he, started_of_reconcile hresult,
    hcancelled.trans (follow_cancelled s now desired behaviour), ?_⟩
  · rw [← h.settings.2]
    exact get?_swept h.staffed now i
  · rw [status_reconcile hresult]
    refine and_congr (forall_congr' fun i => iff_comm) ⟨fun hrest i since hi => ?_, ?_⟩
    · obtain ⟨e, he, hphase⟩ := Option.map_eq_some_iff.1 hi
      have hnot := hrest i e he
      rw [hphase] at hnot
      cases hnot
    · intro hrest i e he
      obtain ⟨g, p⟩ := e
      cases p with
      | running => rfl
      | stopping since => exact absurd (by rw [phaseOf, he, Option.map_some]) (hrest i since)

def motleyItems : List ItemId :=
  [⟨"sa", by decide⟩, ⟨"sb", by decide⟩, ⟨"sc", by decide⟩, ⟨"sd", by decide⟩, ⟨"se", by decide⟩]

/-- Five items have been taken up. The fourth and then the third have been told to stop, and the
handler of the fifth has returned. -/
def motley : Crew :=
  let begun := ((fresh ⟨1⟩ 5000).reconcile 0 (.ok motleyItems) fun _ => .returnsAtOnce).2
  let fewer := (begun.reconcile 1000 (.ok (motleyItems.eraseIdx 3)) fun _ => .stubborn).2
  let fewest :=
    (fewer.reconcile 4000 (.ok ((motleyItems.eraseIdx 3).eraseIdx 2)) fun _ => .stubborn).2
  fewest.runTask 5000 4

theorem moment_motley : Moment ⟨1⟩ 5000 motley :=
  have begun := Moment.fresh.reconcile 0 (.ok motleyItems) fun _ => .returnsAtOnce
  have fewer := begun.reconcile 1000 (.ok (motleyItems.eraseIdx 3)) fun _ => .stubborn
  have fewest :=
    fewer.reconcile 4000 (.ok ((motleyItems.eraseIdx 3).eraseIdx 2)) fun _ => .stubborn
  fewest.step (.task 5000 4)

/-- Among what the worker is to handle are an item that is still stopping, one that is overdue, one
whose handler has returned, and a new one twice. -/
def motleyDesired : List ItemId :=
  [⟨"sf", by decide⟩, ⟨"sa", by decide⟩, ⟨"sd", by decide⟩, ⟨"se", by decide⟩, ⟨"sf", by decide⟩,
    ⟨"sc", by decide⟩]

theorem motley_makes_difference : Moment ⟨1⟩ 5000 motley ∧
    motley.handlers.keys.map (·.text) = ["sa", "sb", "sc", "sd", "se"] ∧
    (motley.swept 6000).handlers.keys.map (·.text) = ["sa", "sb", "sc"] ∧
    ∃ p c', motley.reconcile 6000 (.ok motleyDesired) (fun _ => .stubborn) = (.ok p, c') ∧
      p.started = 3 ∧ p.cancelled = 1 ∧ p.status ≠ .converged ∧
      c'.phaseOf ⟨"sb", by decide⟩ = some (.stopping 6000) ∧
      c'.phaseOf ⟨"sc", by decide⟩ = some (.stopping 4000) ∧
      c'.phaseOf ⟨"sd", by decide⟩ = some .running := by
  obtain ⟨-, p, c', hp, -, hstopping, hrunning, -, hstarted, hcancelled, hstatus⟩ :=
    pass_makes_difference moment_motley 6000 motleyDesired fun _ => .stubborn
  refine ⟨moment_motley, by decide, by decide, p, c', hp, ?_, ?_, ?_, ?_, ?_, ?_⟩
  · rw [hstarted]
    decide
  · rw [hcancelled]
    decide
  · intro h
    exact (hstatus.1 h).2 ⟨"sc", by decide⟩ 4000 (by decide)
  · exact (hstopping _ _).2 (.inr (by decide))
  · exact (hstopping _ _).2 (.inl (by decide))
  · refine (hrunning _).2 ⟨by decide, fun since h => ?_⟩
    rw [show (motley.swept 6000).phaseOf ⟨"sd", by decide⟩ = none by decide] at h
    cases h

end Roster.Crew
