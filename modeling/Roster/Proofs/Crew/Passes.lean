import Roster.Proofs.Crew.Staffing

/-! What one pass makes of the entries of a crew. The entries of handlers that have ended or are
overdue go first; of the rest, what is desired keeps its entry and what is not is told to stop. -/

namespace Roster

/-- Told to stop, unless it was told so before. -/
def Entry.cancel (now : Nat) (e : Entry) : Entry :=
  if e.phase.isStopping then e else { e with phase := .stopping now }

theorem Entry.cancel_cancel (now : Nat) (e : Entry) : (e.cancel now).cancel now = e.cancel now := by
  obtain ⟨g, p⟩ := e
  cases p <;> rfl

namespace Crew

variable {c c' : Crew} {i : ItemId} {e : Entry} {r : Report} {rs : List Report} {now : Nat}
  {desired is : List ItemId} {behaviour : ItemId → Behaviour} {w : WorkerId} {stopTimeout : Nat}

/-! ### What no step changes -/

theorem Step.settings (h : Step c c') : c'.worker = c.worker ∧ c'.stopTimeout = c.stopTimeout := by
  have onExit (c : Crew) (r : Report) :
      (c.onExit r).2.worker = c.worker ∧ (c.onExit r).2.stopTimeout = c.stopTimeout := by
    obtain ⟨e, -, -, heq⟩ | ⟨-, heq⟩ := c.onExit_cases r <;> rw [heq] <;> exact ⟨rfl, rfl⟩
  cases h with
  | task now g =>
    rw [runTask]
    split <;> exact ⟨rfl, rfl⟩
  | receive =>
    rw [Crew.receive]
    split
    · exact ⟨rfl, rfl⟩
    · exact onExit _ _
  | forget keep h => exact ⟨rfl, rfl⟩
  | abort now timeout p => exact ⟨rfl, rfl⟩
  | start b h => exact ⟨rfl, rfl⟩
  | cancel now i =>
    rw [Crew.cancel]
    split <;> exact ⟨rfl, rfl⟩
  | note log => exact ⟨rfl, rfl⟩

theorem Steps.settings (h : Steps c c') :
    c'.worker = c.worker ∧ c'.stopTimeout = c.stopTimeout := by
  induction h with
  | refl => exact ⟨rfl, rfl⟩
  | tail _ hs ih => exact ⟨hs.settings.1.trans ih.1, hs.settings.2.trans ih.2⟩

theorem Moment.settings (h : Moment w stopTimeout c) :
    c.worker = w ∧ c.stopTimeout = stopTimeout := by
  have trans {c c' : Crew} (hc : c.worker = w ∧ c.stopTimeout = stopTimeout)
      (hs : c'.worker = c.worker ∧ c'.stopTimeout = c.stopTimeout) :
      c'.worker = w ∧ c'.stopTimeout = stopTimeout := ⟨hs.1.trans hc.1, hs.2.trans hc.2⟩
  induction h with
  | fresh => exact ⟨rfl, rfl⟩
  | reconcile h now read behaviour ih => exact trans ih (steps_reconcile ..).settings
  | settle h hs ih => exact trans ih (steps_settle hs).settings
  | stop h hs ih => exact trans ih (steps_stop hs).settings
  | step h hs ih => exact trans ih hs.settings

/-! ### What is left before the store is read -/

theorem Lapse.get?_of (h : Lapse c c') (he : c'.handlers.get? i = some e) :
    c.handlers.get? i = some e := by
  cases h with
  | task now g => rwa [handlers_runTask] at he
  | receive =>
    unfold Crew.receive at he
    split at he
    · exact he
    · next r rs hr => exact get?_of_onExit (c := { c with reports := rs }) he
  | forget keep h =>
    rw [OrderedMap.get?_filter, Option.filter_eq_some_iff] at he
    exact he.1
  | note log => exact he

theorem Lapses.get?_of (h : Lapses c c') (he : c'.handlers.get? i = some e) :
    c.handlers.get? i = some e := by
  induction h with
  | refl => exact he
  | tail _ hl ih => exact ih (hl.get?_of he)

theorem get?_of_abortWhere {timeout : Option Nat} {p : Entry → Bool}
    (he : (c.abortWhere now timeout p).2.handlers.get? i = some e) :
    c.handlers.get? i = some e ∧ p e = false := by
  have hkept : ((c.handlers.get? i).filter fun e => !p e) = some e := by
    rw [← he]
    exact (OrderedMap.get?_filter c.handlers (fun _ e => !p e) i).symm
  rw [Option.filter_eq_some_iff] at hkept
  exact ⟨hkept.1, by simpa using hkept.2⟩

theorem get?_onExits (he : c.handlers.get? i = some e)
    (hne : ∀ r ∈ rs, r.generation ≠ e.generation) :
    (c.onExits rs).2.handlers.get? i = some e := by
  induction rs generalizing c with
  | nil => exact he
  | cons r rs ih =>
    exact ih (get?_onExit he (hne r List.mem_cons_self)) fun s hs => hne s (.tail r hs)

/-- A report about a live task is not in the queue. -/
theorem Staffed.generation_ne (h : Staffed c) {g : Nat} (hl : c.isLive g = true)
    (hr : r ∈ c.reports) : r.generation ≠ g := by
  rintro rfl
  obtain ⟨t, ht, hover⟩ := h.reported r hr
  rw [isLive, ht, Option.any_some] at hl
  exact Bool.eq_false_iff.1 hover hl

/-- Exactly the entries of tasks that have ended go. -/
theorem get?_collectExits (h : Staffed c) (i : ItemId) :
    c.collectExits.2.handlers.get? i =
      (c.handlers.get? i).filter fun e => c.isLive e.generation := by
  rw [collectExits_eq, OrderedMap.get?_filter, isLive_drain]
  cases hd : c.drain.2.handlers.get? i with
  | some e => rw [get?_of_onExits hd]
  | none =>
    cases hi : c.handlers.get? i with
    | none => rfl
    | some e =>
      cases hl : c.isLive e.generation with
      | false =>
        rw [Option.filter_none, Option.filter_some, if_neg (Bool.eq_false_iff.1 hl)]
      | true =>
        have hkept : c.drain.2.handlers.get? i = some e :=
          get?_onExits hi fun r hr => h.generation_ne hl hr
        rw [hd] at hkept
        cases hkept

/-- The entries of live handlers that are not overdue are left, as they were. -/
theorem get?_swept (h : Staffed c) (now : Nat) (i : ItemId) :
    (c.swept now).handlers.get? i = (c.handlers.get? i).filter fun e =>
      c.isLive e.generation && !e.phase.isOverdue now c.stopTimeout := by
  have htimeout : c.collectExits.2.stopTimeout = c.stopTimeout := (steps_collectExits c).settings.2
  have habort : (c.swept now).handlers.get? i = (c.collectExits.2.handlers.get? i).filter fun e =>
      !e.phase.isOverdue now c.stopTimeout := by
    rw [← htimeout]
    exact OrderedMap.get?_filter ..
  rw [habort, get?_collectExits h, Option.filter_filter]

/-! ### Starting and cancelling -/

theorem get?_startAll_of_not_mem (c : Crew) (behaviour : ItemId → Behaviour) (h : i ∉ is) :
    (c.startAll behaviour is).handlers.get? i = c.handlers.get? i := by
  induction is generalizing c with
  | nil => rfl
  | cons j is ih =>
    obtain ⟨hne, hi⟩ := not_or.1 (mt List.mem_cons.2 h)
    rw [startAll, ih _ hi, start, OrderedMap.get?_insert, if_neg hne]

/-- Tasks that are started have generations of their own. -/
theorem get?_startAll_of_mem (c : Crew) (behaviour : ItemId → Behaviour) (h : i ∈ is) :
    ∃ g, c.tasks.length ≤ g ∧ (c.startAll behaviour is).handlers.get? i = some ⟨g, .running⟩ := by
  induction is generalizing c with
  | nil => exact absurd h List.not_mem_nil
  | cons j is ih =>
    by_cases hi : i ∈ is
    · obtain ⟨g, hg, hget⟩ := ih (c.start j (behaviour j)) hi
      rw [start, List.length_append] at hg
      exact ⟨g, by omega, hget⟩
    · obtain rfl : i = j := (List.mem_cons.1 h).resolve_right hi
      refine ⟨c.tasks.length, Nat.le_refl _, ?_⟩
      rw [startAll, get?_startAll_of_not_mem _ _ hi, start, OrderedMap.get?_insert, if_pos rfl]

theorem get?_cancel (c : Crew) (now : Nat) (j : ItemId) :
    (c.cancel now j).2.handlers.get? i =
      if i = j then (c.handlers.get? i).map (Entry.cancel now) else c.handlers.get? i := by
  rw [cancel]
  split
  · next g hg =>
    rw [OrderedMap.get?_insert]
    by_cases hi : i = j
    · subst hi
      simp [hg, Entry.cancel, Phase.isStopping]
    · rw [if_neg hi, if_neg hi]
  · next hnot =>
    split
    · next hi =>
      subst hi
      cases hg : c.handlers.get? i with
      | none => rfl
      | some e =>
        obtain ⟨g, p⟩ := e
        cases p with
        | running => exact absurd hg (hnot g)
        | stopping since => simp [Entry.cancel, Phase.isStopping]
    · rfl

theorem get?_cancelAll (c : Crew) (now : Nat) (is : List ItemId) (i : ItemId) :
    (c.cancelAll now is).2.handlers.get? i =
      if i ∈ is then (c.handlers.get? i).map (Entry.cancel now) else c.handlers.get? i := by
  induction is generalizing c with
  | nil => rfl
  | cons j is ih =>
    rw [cancelAll]
    simp only [ih, get?_cancel, List.mem_cons]
    by_cases hj : i = j
    · subst hj
      have htwice : (Entry.cancel now ∘ Entry.cancel now) = Entry.cancel now :=
        funext (Entry.cancel_cancel now)
      simp only [true_or, if_true, Option.map_map, htwice, ite_self]
    · simp only [hj, false_or, if_false]

theorem isStopping_cancelEvery (he : (c.cancelEvery now).handlers.get? i = some e) :
    e.phase.isStopping = true := by
  unfold cancelEvery at he
  rw [get?_cancelAll] at he
  split at he
  · obtain ⟨⟨g, p⟩, -, rfl⟩ := Option.map_eq_some_iff.1 he
    cases p <;> rfl
  · next hi =>
    rw [not_mem_keys_iff.1 hi] at he
    cases he

/-! ### Following what is desired -/

theorem get?_follow_of_desired (now : Nat) (behaviour : ItemId → Behaviour)
    (hi : i ∈ desired) (he : c.handlers.get? i = some e) :
    (c.follow now desired behaviour).2.2.handlers.get? i = some e := by
  have hstart : i ∉ (Diff.between desired c.handlers.keys).toStart :=
    fun h => (Diff.mem_toStart_iff.1 h).2 (OrderedMap.mem_keys_iff.2 ⟨e, he⟩)
  have hstop : i ∉ (Diff.between desired c.handlers.keys).toStop :=
    fun h => (Diff.mem_toStop_iff.1 h).2 hi
  rw [follow, get?_cancelAll, if_neg hstop, get?_startAll_of_not_mem _ _ hstart, he]

theorem get?_follow_of_missing (now : Nat) (behaviour : ItemId → Behaviour)
    (hi : i ∈ desired) (he : c.handlers.get? i = none) :
    ∃ g, c.tasks.length ≤ g ∧
      (c.follow now desired behaviour).2.2.handlers.get? i = some ⟨g, .running⟩ := by
  have hstop : i ∉ (Diff.between desired c.handlers.keys).toStop :=
    fun h => (Diff.mem_toStop_iff.1 h).2 hi
  rw [follow, get?_cancelAll, if_neg hstop]
  exact get?_startAll_of_mem c behaviour (Diff.mem_toStart_iff.2 ⟨hi, not_mem_keys_iff.2 he⟩)

theorem get?_follow_of_surplus (now : Nat) (behaviour : ItemId → Behaviour)
    (hi : i ∉ desired) :
    (c.follow now desired behaviour).2.2.handlers.get? i =
      (c.handlers.get? i).map (Entry.cancel now) := by
  have hstart : i ∉ (Diff.between desired c.handlers.keys).toStart :=
    fun h => hi (Diff.mem_toStart_iff.1 h).1
  rw [follow, get?_cancelAll, get?_startAll_of_not_mem _ _ hstart]
  split
  · rfl
  · next hstop =>
    have hnone : c.handlers.get? i = none :=
      not_mem_keys_iff.1 fun h => hstop (Diff.mem_toStop_iff.2 ⟨h, hi⟩)
    rw [hnone]
    rfl

/-- Where nothing is missing and nothing too much, nothing changes. -/
theorem follow_of_same (h : ∀ i, i ∈ desired ↔ i ∈ c.handlers.keys) :
    c.follow now desired behaviour = (⟨[], []⟩, 0, c) := by
  have hempty := Diff.isEmpty_between_iff.2 h
  rw [Diff.isEmpty, Bool.and_eq_true, List.isEmpty_iff, List.isEmpty_iff] at hempty
  have hdiff : Diff.between desired c.handlers.keys = ⟨[], []⟩ :=
    congrArg₂ Diff.mk hempty.1 hempty.2
  rw [follow, hdiff]
  rfl

/-! ### The status of a pass -/

theorem mem_values (h : c.handlers.get? i = some e) : e ∈ c.handlers.values :=
  List.mem_map_of_mem (f := (·.2)) (OrderedMap.mem_entries_iff.2 h)

theorem exists_get?_of_mem_values (h : e ∈ c.handlers.values) :
    ∃ i, c.handlers.get? i = some e := by
  obtain ⟨⟨i, e⟩, hmem, rfl⟩ := List.mem_map.1 h
  exact ⟨i, OrderedMap.mem_entries_iff.1 hmem⟩

theorem hasStopping_eq_false_iff : c.hasStopping = false ↔
    ∀ i e, c.handlers.get? i = some e → e.phase.isStopping = false := by
  rw [hasStopping, List.any_eq_false]
  constructor
  · intro h i e he
    exact Bool.eq_false_iff.2 (h e (mem_values he))
  · intro h e he
    obtain ⟨i, hi⟩ := exists_get?_of_mem_values he
    exact Bool.eq_false_iff.1 (h i e hi)

/-- The status is that of the entries as they were when the store was read. -/
theorem status_reconcile {p : Pass}
    (h : (c.reconcile now (.ok desired) behaviour).1 = .ok p) :
    p.status = .converged ↔ (∀ i, i ∈ desired ↔ i ∈ (c.swept now).handlers.keys) ∧
      ∀ i e, (c.swept now).handlers.get? i = some e → e.phase.isStopping = false := by
  have hstatus : p.status =
      if !(Diff.between desired (c.swept now).handlers.keys).isEmpty ||
        ((c.swept now).follow now desired behaviour).2.2.hasStopping
      then .converging else .converged := by
    cases h
    rfl
  rw [hstatus, ← Diff.isEmpty_between_iff, ← hasStopping_eq_false_iff]
  cases hd : (Diff.between desired (c.swept now).handlers.keys).isEmpty with
  | false => simp
  | true =>
    rw [follow_of_same (Diff.isEmpty_between_iff.1 hd)]
    cases (c.swept now).hasStopping <;> simp

end Crew

end Roster
