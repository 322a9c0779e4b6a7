import Roster.Proofs.Crew.Passes

/-! When handlers are told to stop. An entry that is stopping names the instant at which its task
was cancelled, the task of one that is running has not been cancelled, and no task is aborted before
the stop timeout has passed since its cancellation. -/

namespace Roster

/-- Since when it has been stopping, if it is. -/
def Phase.since? : Phase → Option Nat
  | .running => none
  | .stopping since => some since

/-- The phase of the entry says whether its task has been cancelled, and since when. -/
def Entry.Agrees (e : Entry) (t : Task) : Prop :=
  e.phase = .running ∧ t.cancelled = none ∨
    ∃ since, e.phase = .stopping since ∧ t.cancelled = some since

namespace Task

variable {t : Task} {now time : Nat}

@[simp] theorem cancelled_abort : (t.abort now).cancelled = t.cancelled := by
  unfold abort
  split <;> rfl

@[simp] theorem cancelled_finish : (t.finish now).cancelled = t.cancelled := by
  unfold finish
  split
  · split <;> rfl
  · rfl

@[simp] theorem cancelled_hear : (t.hear now).cancelled = t.cancelled := by
  unfold hear
  split <;> rfl

@[simp] theorem cancelled_run : (t.run now).cancelled = t.cancelled := by
  have hbegun : ((t.begin now).finish now).cancelled = t.cancelled := cancelled_finish
  simp only [run]
  split
  · rfl
  · split
    · exact hbegun
    · rw [cancelled_finish, cancelled_hear, hbegun]

theorem aborted_of_abort (h : (t.abort now).outcome = some (.aborted time)) :
    t.outcome = some (.aborted time) ∨ time = now := by
  unfold abort at h
  split at h
  · simp at h
    exact .inr h.symm
  · exact .inl h

theorem aborted_of_finish (h : (t.finish now).outcome = some (.aborted time)) :
    t.outcome = some (.aborted time) := by
  unfold finish at h
  split at h
  · split at h
    · simp at h
    · exact h
  · exact h

/-- Nobody is aborted by being at work. -/
theorem aborted_of_run (h : (t.run now).outcome = some (.aborted time)) :
    t.outcome = some (.aborted time) := by
  have hbegun (h : ((t.begin now).finish now).outcome = some (.aborted time)) :
      t.outcome = some (.aborted time) := aborted_of_finish (t := t.begin now) h
  simp only [run] at h
  split at h
  · exact h
  · split at h
    · exact hbegun h
    · have hheard := aborted_of_finish h
      unfold hear at hheard
      split at hheard <;> exact hbegun hheard

end Task

namespace Crew

variable {c c' : Crew} {i : ItemId} {e : Entry} {now time g : Nat} {ts : List Task} {t : Task}
  {unwanted : ItemId → Prop}

/-- What is true of the instants that a crew has on record at `now`. -/
structure Dated (now : Nat) (c : Crew) : Prop where
  /-- An entry says when its task was cancelled, if it was. -/
  entered : ∀ i e, c.handlers.get? i = some e →
    ∃ t, c.tasks[e.generation]? = some t ∧ t.item = i ∧ t.cancelled = e.phase.since?
  past : ∀ t ∈ c.tasks, ∀ since, t.cancelled = some since → since ≤ now
  graced : ∀ t ∈ c.tasks, ∀ time, t.outcome = some (.aborted time) →
    time ≤ now ∧ ∃ since, t.cancelled = some since ∧ since + c.stopTimeout ≤ time

/-- The task has gone on from `t`, or was aborted when it was overdue. -/
structure Outlasts (now stopTimeout : Nat) (t t' : Task) : Prop where
  item : t'.item = t.item
  cancelled : t'.cancelled = t.cancelled
  aborted : ∀ time, t'.outcome = some (.aborted time) → t.outcome = some (.aborted time) ∨
    time = now ∧ ∃ since, t.cancelled = some since ∧ since + stopTimeout ≤ now

theorem Outlasts.refl (now stopTimeout : Nat) (t : Task) : Outlasts now stopTimeout t t :=
  ⟨rfl, rfl, fun _ h => .inl h⟩

theorem Dated.agrees (h : Dated now c) (he : c.handlers.get? i = some e) :
    ∃ t, c.tasks[e.generation]? = some t ∧ t.item = i ∧ e.Agrees t := by
  obtain ⟨t, ht, hi, hc⟩ := h.entered i e he
  obtain ⟨g, p⟩ := e
  cases p with
  | running => exact ⟨t, ht, hi, .inl ⟨rfl, hc⟩⟩
  | stopping since => exact ⟨t, ht, hi, .inr ⟨since, rfl, hc⟩⟩

/-! ### Entries -/

/-- A generation belongs to one item. -/
theorem Dated.eq_of_generation {j : ItemId} {e' : Entry} (h : Dated now c)
    (he : c.handlers.get? i = some e) (he' : c.handlers.get? j = some e')
    (hg : e.generation = e'.generation) : i = j := by
  obtain ⟨t, ht, rfl, -⟩ := h.entered i e he
  obtain ⟨u, hu, rfl, -⟩ := h.entered j e' he'
  rw [hg, hu] at ht
  rw [Option.some.inj ht]

theorem Dated.generation_lt (h : Dated now c) (he : c.handlers.get? i = some e) :
    e.generation < c.tasks.length := by
  obtain ⟨t, ht, -⟩ := h.entered i e he
  exact (List.getElem?_eq_some_iff.1 ht).1

/-- Whose entry is to go when it is overdue has been cancelled for so long. -/
theorem Dated.overdue {timeout : Nat} (h : Dated now c) (he : c.handlers.get? i = some e)
    (ht : c.tasks[e.generation]? = some t) (ho : e.phase.isOverdue now timeout = true) :
    ∃ since, t.cancelled = some since ∧ since + timeout ≤ now := by
  obtain ⟨u, hu, -, hc⟩ := h.entered i e he
  obtain rfl := Option.some.inj (ht.symm.trans hu)
  obtain ⟨g, p⟩ := e
  cases p with
  | running => cases ho
  | stopping since => exact ⟨since, hc, by simpa [Phase.isOverdue] using ho⟩

/-! ### What tasks are after a step -/

/-- While a crew waits, all that becomes of its tasks is that they run. -/
theorem Lapse.tasks (h : Lapse c c') : ∃ f : Nat → Task → Task,
    (∀ g, c'.tasks[g]? = c.tasks[g]?.map (f g)) ∧
      ∀ g t, f g t = t ∨ ∃ time, f g t = t.run time := by
  have same (h : c'.tasks = c.tasks) : ∃ f : Nat → Task → Task,
      (∀ g, c'.tasks[g]? = c.tasks[g]?.map (f g)) ∧
        ∀ g t, f g t = t ∨ ∃ time, f g t = t.run time :=
    ⟨fun _ t => t, fun g => by rw [h, Option.map_id'], fun _ _ => .inl rfl⟩
  cases h with
  | task now k =>
    refine ⟨fun g t => if k = g then t.run now else t, fun g => ?_, fun g t => ?_⟩
    · rw [tasks_runTask, List.getElem?_modify, Option.map_eq_map]
    · dsimp only
      split
      · exact .inr ⟨now, rfl⟩
      · exact .inl rfl
  | receive => exact same (tasks_receive c)
  | forget keep hk => exact same rfl
  | note log => exact same rfl

theorem mem_modify {f : Task → Task} (h : t ∈ ts.modify g f) :
    t ∈ ts ∨ ∃ u, ts[g]? = some u ∧ t = f u := by
  obtain ⟨k, hk⟩ := List.mem_iff_getElem?.1 h
  rw [List.getElem?_modify, Option.map_eq_map, Option.map_eq_some_iff] at hk
  obtain ⟨u, hu, rfl⟩ := hk
  split
  · next hg => exact .inr ⟨u, hg ▸ hu, rfl⟩
  · exact .inl (List.mem_of_getElem? hu)

/-! ### Every deed keeps the record -/

namespace Dated

theorem fresh (w : WorkerId) (stopTimeout : Nat) : Dated 0 (.fresh w stopTimeout) :=
  ⟨(fun _ _ h => nomatch h), (fun _ h => nomatch h), fun _ h => nomatch h⟩

theorem wait (h : Dated now c) (hle : now ≤ time) : Dated time c where
  entered := h.entered
  past t ht since hs := Nat.le_trans (h.past t ht since hs) hle
  graced t ht u hu := ⟨Nat.le_trans (h.graced t ht u hu).1 hle, (h.graced t ht u hu).2⟩

/-- Where no entry comes and no task begins or is cancelled. -/
theorem of_tasks {f : Nat → Task → Task} (h : Dated now c)
    (hset : c'.stopTimeout = c.stopTimeout)
    (he : ∀ i e, c'.handlers.get? i = some e → c.handlers.get? i = some e)
    (ht : ∀ g, c'.tasks[g]? = c.tasks[g]?.map (f g))
    (hf : ∀ g t, c.tasks[g]? = some t → Outlasts now c.stopTimeout t (f g t)) : Dated now c' := by
  have hold : ∀ t' ∈ c'.tasks, ∃ t ∈ c.tasks, Outlasts now c.stopTimeout t t' := by
    intro t' ht'
    obtain ⟨g, hg⟩ := List.mem_iff_getElem?.1 ht'
    rw [ht, Option.map_eq_some_iff] at hg
    obtain ⟨t, hg, rfl⟩ := hg
    exact ⟨t, List.mem_of_getElem? hg, hf g t hg⟩
  refine ⟨?_, ?_, ?_⟩
  · intro i e hi
    obtain ⟨t, hg, hti, hc⟩ := h.entered i e (he i e hi)
    have hout := hf _ t hg
    exact ⟨f _ t, by rw [ht, hg, Option.map_some], hout.item.trans hti, hout.cancelled.trans hc⟩
  · intro t' ht' since hs
    obtain ⟨t, hmem, hout⟩ := hold t' ht'
    exact h.past t hmem since (hout.cancelled.symm.trans hs)
  · intro t' ht' time ho
    obtain ⟨t, hmem, hout⟩ := hold t' ht'
    rw [hout.cancelled, hset]
    rcases hout.aborted time ho with ho | ⟨rfl, hdue⟩
    · exact h.graced t hmem time ho
    · exact ⟨Nat.le_refl time, hdue⟩

theorem lapse (h : Dated now c) (hl : Lapse c c') : Dated now c' := by
  obtain ⟨f, hf, hrun⟩ := hl.tasks
  refine h.of_tasks hl.step.settings.2 (fun _ _ => hl.get?_of) hf fun g t _ => ?_
  rcases hrun g t with hsame | ⟨time, hran⟩
  · rw [hsame]
    exact .refl now _ t
  · rw [hran]
    exact ⟨Task.item_run, Task.cancelled_run, fun _ ho => .inl (Task.aborted_of_run ho)⟩

theorem abort {timeout : Option Nat} {p : Entry → Bool} (h : Dated now c)
    (hp : ∀ i e, c.handlers.get? i = some e → p e = true →
      e.phase.isOverdue now c.stopTimeout = true) : Dated now (c.abortWhere now timeout p).2 := by
  refine h.of_tasks rfl (fun i e he => (get?_of_abortWhere he).1)
    (fun g => getElem?_abortTasks c.tasks now _ g) fun g t ht => ?_
  split
  · next hg =>
    refine ⟨Task.item_abort, Task.cancelled_abort, fun time ho => ?_⟩
    rcases Task.aborted_of_abort ho with ho | rfl
    · exact .inl ho
    · refine .inr ⟨rfl, ?_⟩
      -- The task is aborted for an entry that goes, and that was overdue.
      obtain ⟨e, hmem, rfl⟩ := List.mem_map.1 hg
      obtain ⟨⟨i, e⟩, hi, rfl⟩ := List.mem_map.1 hmem
      rw [OrderedMap.mem_entries_iff, OrderedMap.get?_filter, Option.filter_eq_some_iff] at hi
      exact h.overdue hi.1 ht (hp i e hi.1 hi.2)
  · exact .refl now _ t

theorem start (h : Dated now c) (i : ItemId) (b : Behaviour) : Dated now (c.start i b) := by
  have fresh {t : Task} (ht : t ∈ c.tasks ++ [.new i b]) : t ∈ c.tasks ∨ t = .new i b :=
    (List.mem_append.1 ht).imp_right List.mem_singleton.1
  refine ⟨?_, ?_, ?_⟩
  · intro j e he
    simp only [Crew.start, OrderedMap.get?_insert] at he ⊢
    split at he
    · next hj =>
      obtain rfl := Option.some.inj he
      exact ⟨.new i b, List.getElem?_concat_length, hj.symm, rfl⟩
    · obtain ⟨t, ht, hti, hc⟩ := h.entered j e he
      refine ⟨t, ?_, hti, hc⟩
      rwa [List.getElem?_append_left (List.getElem?_eq_some_iff.1 ht).1]
  · intro t ht since hs
    rcases fresh ht with ht | rfl
    · exact h.past t ht since hs
    · cases hs
  · intro t ht time ho
    rcases fresh ht with ht | rfl
    · exact h.graced t ht time ho
    · cases ho

theorem cancel (h : Dated now c) (i : ItemId) : Dated now (c.cancel now i).2 := by
  unfold Crew.cancel
  split
  · next g hg =>
    obtain ⟨t, ht, rfl, hnone⟩ := h.entered i _ hg
    have hnow : (t.cancel now).cancelled = some now := by rw [Task.cancel, hnone]; rfl
    refine ⟨?_, ?_, ?_⟩
    · intro j e he
      simp only [OrderedMap.get?_insert] at he
      split at he
      · next hj =>
        obtain rfl := Option.some.inj he
        exact ⟨t.cancel now, by simp only [List.getElem?_modify_eq, ht]; rfl, hj.symm, hnow⟩
      · next hj =>
        obtain ⟨u, hu, hui, hc⟩ := h.entered j e he
        have hne : g ≠ e.generation := fun hge => hj (h.eq_of_generation he hg hge.symm)
        exact ⟨u, by simp only [List.getElem?_modify, if_neg hne, hu]; rfl, hui, hc⟩
    · intro u hu since hs
      rcases mem_modify hu with hu | ⟨v, hv, rfl⟩
      · exact h.past u hu since hs
      · obtain rfl := Option.some.inj (ht.symm.trans hv)
        rw [hnow] at hs
        exact Nat.le_of_eq (Option.some.inj hs).symm
    · intro u hu time ho
      rcases mem_modify hu with hu | ⟨v, hv, rfl⟩
      · exact h.graced u hu time ho
      · obtain rfl := Option.some.inj (ht.symm.trans hv)
        -- A task that has not been cancelled has not been aborted.
        obtain ⟨-, since, hs, -⟩ := h.graced t (List.mem_of_getElem? ht) time ho
        rw [hnone] at hs
        cases hs
  · exact h

theorem deed (h : Dated now c) (hd : Deed now unwanted c c') : Dated now c' := by
  cases hd with
  | lapse hl => exact h.lapse hl
  | abort timeout p hp => exact h.abort hp
  | start b hi hw => exact h.start _ b
  | cancel hi => exact h.cancel _

theorem deeds (h : Dated now c) (hd : Deeds now unwanted c c') : Dated now c' := by
  induction hd with
  | refl => exact h
  | tail _ hstep ih => exact ih.deed hstep

end Dated

/-! ### Stopping -/

/-- When a crew that stops is at the deadline, all that is left is overdue. -/
theorem Dated.stop_cases {n : Nat} (h : Dated now c) (hs : c.stop now = .ok (n, time, c')) :
    ∃ d, Deeds now (fun _ => True) c d ∧ now ≤ time ∧ (c' = d ∨ c' = (d.abortAll time).2 ∧
      ∀ i e, d.handlers.get? i = some e → e.phase.isOverdue time d.stopTimeout = true) := by
  obtain ⟨done, d, hd, rfl⟩ := Crew.stop_cases hs
  have hcancel := deeds_cancelEvery c now
  have hdeeds : Deeds now (fun _ => True) c d := hcancel.trans (hd.lapses.deeds now _)
  refine ⟨d, hdeeds, hd.le, ?_⟩
  cases done with
  | true => exact .inl rfl
  | false =>
    refine .inr ⟨rfl, fun i e he => ?_⟩
    have hstopping := isStopping_cancelEvery (hd.lapses.get?_of he)
    obtain ⟨t, ht, -, hc⟩ := (h.deeds hdeeds).entered i e he
    have hpast := (h.deeds hdeeds).past t (List.mem_of_getElem? ht)
    obtain ⟨g, p⟩ := e
    cases p with
    | running => cases hstopping
    | stopping since =>
      have hsince : since ≤ now := hpast since hc
      have htime := hd.expired rfl
      rw [(Deeds.steps hdeeds).settings.2]
      simp only [Phase.isOverdue, decide_eq_true_eq]
      omega

theorem Dated.stop {n : Nat} (h : Dated now c) (hs : c.stop now = .ok (n, time, c')) :
    Dated time c' := by
  obtain ⟨d, hd, hle, rfl | ⟨rfl, hover⟩⟩ := h.stop_cases hs
  · exact (h.deeds hd).wait hle
  · exact ((h.deeds hd).wait hle).abort fun i e he _ => hover i e he

end Crew

end Roster
