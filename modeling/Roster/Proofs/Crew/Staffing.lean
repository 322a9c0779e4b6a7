import Mathlib.Data.List.Basic
import Roster.Proofs.Crew.Steps

/-! One live handler for each item at most. A task that has not ended has its own entry at every
moment, and a report in the queue is about a task that has ended, so whatever an entry is removed
for, its own task is over. -/

namespace Roster

namespace Task

variable {t : Task} {now : Nat}

theorem isLive_abort : (t.abort now).isLive = false := by
  rw [abort]
  split
  · rfl
  · next h => simpa using h

theorem abort_of_not_isLive (h : t.isLive = false) : t.abort now = t := by simp [abort, h]

@[simp] theorem abort_abort : (t.abort now).abort now = t.abort now :=
  abort_of_not_isLive isLive_abort

@[simp] theorem item_abort : (t.abort now).item = t.item := by
  rw [abort]
  split <;> rfl

@[simp] theorem item_finish : (t.finish now).item = t.item := by
  rw [finish]
  split
  · split <;> rfl
  · rfl

@[simp] theorem item_hear : (t.hear now).item = t.item := by
  rw [hear]
  split <;> rfl

@[simp] theorem item_run : (t.run now).item = t.item := by
  have hbegun : ((t.begin now).finish now).item = t.item := item_finish
  simp only [run]
  split
  · rfl
  · split
    · exact hbegun
    · rw [item_finish, item_hear, hbegun]

end Task

namespace Crew

variable {c c' : Crew} {w : WorkerId} {stopTimeout : Nat} {i : ItemId} {e : Entry} {r : Report}
  {ts ts' ts'' : List Task} {g : Nat} {t : Task}

/-! ### Tasks that go on -/

/-- From `ts` to `ts'` tasks go on or end, and none begins. -/
structure Ages (ts ts' : List Task) : Prop where
  length : ts'.length = ts.length
  kept : ∀ (g : Nat) (t' : Task), ts'[g]? = some t' →
    ∃ t, ts[g]? = some t ∧ t.item = t'.item ∧ (t'.isLive = true → t.isLive = true)

theorem Ages.refl (ts : List Task) : Ages ts ts :=
  ⟨rfl, fun _ t h => ⟨t, h, rfl, fun hl => hl⟩⟩

theorem Ages.trans (h : Ages ts ts') (h' : Ages ts' ts'') : Ages ts ts'' where
  length := h'.length.trans h.length
  kept g t'' ht'' := by
    obtain ⟨t', ht', hi', hl'⟩ := h'.kept g t'' ht''
    obtain ⟨t, ht, hi, hl⟩ := h.kept g t' ht'
    exact ⟨t, ht, hi.trans hi', fun h => hl (hl' h)⟩

/-- What has ended stays so. -/
theorem Ages.ended (h : Ages ts ts') (ht : ts[g]? = some t) (hl : t.isLive = false) :
    ∃ t', ts'[g]? = some t' ∧ t'.isLive = false := by
  obtain ⟨hlt, -⟩ := List.getElem?_eq_some_iff.1 ht
  rw [← h.length] at hlt
  refine ⟨ts'[g], List.getElem?_eq_getElem hlt, ?_⟩
  obtain ⟨u, hu, -, hlive⟩ := h.kept g _ (List.getElem?_eq_getElem hlt)
  obtain rfl : t = u := Option.some.inj (ht.symm.trans hu)
  exact Bool.eq_false_iff.2 fun hc => Bool.eq_false_iff.1 hl (hlive hc)

theorem ages_modify {f : Task → Task} (hitem : ∀ t, (f t).item = t.item)
    (hlive : ∀ t, t.isLive = false → (f t).isLive = false) (ts : List Task) (k : Nat) :
    Ages ts (ts.modify k f) where
  length := List.length_modify ..
  kept g t' ht' := by
    rw [List.getElem?_modify, Option.map_eq_map, Option.map_eq_some_iff] at ht'
    obtain ⟨t, ht, rfl⟩ := ht'
    refine ⟨t, ht, ?_, ?_⟩
    · split
      · exact (hitem t).symm
      · rfl
    · split
      · intro hl
        exact eq_true_of_ne_false fun hc => Bool.eq_false_iff.1 (hlive t hc) hl
      · exact fun hl => hl

theorem ages_cancel (ts : List Task) (now g : Nat) : Ages ts (ts.modify g (·.cancel now)) :=
  ages_modify (f := (·.cancel now)) (fun _ => rfl) (fun _ h => h) ts g

theorem ages_abort (ts : List Task) (now g : Nat) : Ages ts (ts.modify g (·.abort now)) :=
  ages_modify (fun _ => Task.item_abort) (fun _ _ => Task.isLive_abort) ts g

theorem handlers_runTask (c : Crew) (now g : Nat) : (c.runTask now g).handlers = c.handlers := by
  rw [runTask]
  split <;> rfl

/-- Nothing comes of a task that has ended. -/
theorem runTask_eq_self (h : c.isLive g = false) (now : Nat) : c.runTask now g = c := by
  rw [runTask]
  split
  · rfl
  · next t ht =>
    rw [isLive, ht, Option.any_some] at h
    have hset : c.tasks.set g t = c.tasks := by
      obtain ⟨hlt, rfl⟩ := List.getElem?_eq_some_iff.1 ht
      exact List.set_getElem_self hlt
    simp only [run_of_not_isLive h, h, hset, Bool.false_and, Bool.false_eq_true, if_false]

theorem modify_run (now : Nat) (ht : ts[g]? = some t) :
    ts.modify g (·.run now) = ts.set g (t.run now) := by
  rw [List.modify_eq_set_getElem?, ht]
  rfl

theorem tasks_runTask (c : Crew) (now g : Nat) :
    (c.runTask now g).tasks = c.tasks.modify g (·.run now) := by
  rw [runTask]
  split
  · next ht => rw [List.modify_eq_set_getElem?, ht]; rfl
  · next t ht => exact (modify_run now ht).symm

theorem ages_run (now : Nat) (ht : ts[g]? = some t) : Ages ts (ts.set g (t.run now)) := by
  rw [← modify_run now ht]
  exact ages_modify (fun _ => Task.item_run) (fun _ h => by rwa [run_of_not_isLive h]) ts g

theorem ages_abortTasks (ts : List Task) (now : Nat) (gs : List Nat) :
    Ages ts (abortTasks ts now gs) := by
  induction gs generalizing ts with
  | nil => exact .refl ts
  | cons g gs ih => exact (ages_abort ts now g).trans (ih _)

theorem getElem?_concat {u : Task} (h : (ts ++ [u])[g]? = some t) :
    ts[g]? = some t ∨ g = ts.length ∧ t = u := by
  have hlt := (List.getElem?_eq_some_iff.1 h).1
  rw [List.length_append, List.length_singleton] at hlt
  rcases Nat.lt_or_eq_of_le (Nat.le_of_lt_succ hlt) with hg | rfl
  · exact .inl (by rwa [List.getElem?_append_left hg] at h)
  · rw [List.getElem?_concat_length] at h
    exact .inr ⟨rfl, (Option.some.inj h).symm⟩

/-- To change tasks twice is to change them once, so their order does not matter. -/
theorem getElem?_foldl_modify {f : Task → Task} (hf : ∀ t, f (f t) = f t) (ts : List Task)
    (gs : List Nat) (g : Nat) :
    (gs.foldl (fun ts g => ts.modify g f) ts)[g]? =
      ts[g]?.map fun t => if g ∈ gs then f t else t := by
  induction gs generalizing ts with
  | nil => simp
  | cons k gs ih =>
    rw [List.foldl_cons, ih, List.getElem?_modify, Option.map_eq_map, Option.map_map]
    congr 1
    funext t
    by_cases hk : k = g
    · subst hk
      simp [hf]
    · simp [hk, Ne.symm hk]

theorem getElem?_abortTasks (ts : List Task) (now : Nat) (gs : List Nat) (g : Nat) :
    (abortTasks ts now gs)[g]? = ts[g]?.map fun t => if g ∈ gs then t.abort now else t :=
  getElem?_foldl_modify (fun _ => Task.abort_abort) ts gs g

/-- No task is live once it is aborted. -/
theorem not_mem_of_isLive_abortTasks {now : Nat} {gs : List Nat}
    (ht : (abortTasks ts now gs)[g]? = some t) (hl : t.isLive = true) : g ∉ gs := by
  intro hg
  rw [getElem?_abortTasks, Option.map_eq_some_iff] at ht
  obtain ⟨u, -, rfl⟩ := ht
  rw [if_pos hg, Task.isLive_abort] at hl
  cases hl

/-! ### Entries of live tasks -/

/-- Each live task has its own entry; what is reported has ended; and where an item has been taken
up more than once, all tasks but the last have ended. -/
structure Staffed (c : Crew) : Prop where
  entered : ∀ (g : Nat) (t : Task), c.tasks[g]? = some t → t.isLive = true →
    ∃ p, c.handlers.get? t.item = some ⟨g, p⟩
  reported : ∀ r ∈ c.reports, ∃ t, c.tasks[r.generation]? = some t ∧ t.isLive = false
  replaced : ∀ (g k : Nat) (t u : Task), g < k → c.tasks[g]? = some t →
    c.tasks[k]? = some u → t.item = u.item → t.isLive = false

/-- A report that is not about the entry's own task leaves the entry. -/
theorem get?_onExit (he : c.handlers.get? i = some e) (hne : r.generation ≠ e.generation) :
    (c.onExit r).2.handlers.get? i = some e := by
  obtain ⟨e', he', hg, heq⟩ | ⟨-, heq⟩ := c.onExit_cases r <;> rw [heq]
  · have hi : i ≠ r.item := by
      rintro rfl
      rw [he'] at he
      cases he
      exact hne hg.symm
    rw [OrderedMap.get?_erase, if_neg hi]
    exact he
  · exact he

namespace Staffed

theorem fresh (w : WorkerId) (stopTimeout : Nat) : Staffed (.fresh w stopTimeout) where
  entered _ _ h := nomatch h
  reported _ h := nomatch h
  replaced _ _ _ _ _ h := nomatch h

/-- Where no task begins, it is enough that live tasks keep their entries. -/
theorem of_ages (h : Staffed c) (ha : Ages c.tasks c'.tasks)
    (he : ∀ g t p, c'.tasks[g]? = some t → t.isLive = true →
      c.handlers.get? t.item = some ⟨g, p⟩ → ∃ p, c'.handlers.get? t.item = some ⟨g, p⟩)
    (hr : ∀ r ∈ c'.reports,
      r ∈ c.reports ∨ ∃ t, c'.tasks[r.generation]? = some t ∧ t.isLive = false) : Staffed c' where
  entered g t' ht' hl' := by
    obtain ⟨t, ht, hi, hl⟩ := ha.kept g t' ht'
    obtain ⟨p, hp⟩ := h.entered g t ht (hl hl')
    exact he g t' p ht' hl' (hi ▸ hp)
  reported r hmem := by
    rcases hr r hmem with hold | hnew
    · obtain ⟨t, ht, hl⟩ := h.reported r hold
      exact ha.ended ht hl
    · exact hnew
  replaced g k t' u' hlt ht' hu' hi := by
    obtain ⟨t, ht, hti, hl⟩ := ha.kept g t' ht'
    obtain ⟨u, hu, hui, -⟩ := ha.kept k u' hu'
    have hover := h.replaced g k t u hlt ht hu (hti.trans (hi.trans hui.symm))
    exact Bool.eq_false_iff.2 fun hc => Bool.eq_false_iff.1 hover (hl hc)

theorem runTask (h : Staffed c) (now g : Nat) : Staffed (c.runTask now g) := by
  rw [Crew.runTask]
  split
  · exact h
  · next t ht =>
    refine h.of_ages (ages_run now ht) (fun _ _ p _ _ hp => ⟨p, hp⟩) ?_
    intro r hr
    simp only at hr
    split at hr
    · next hret =>
      rcases List.mem_append.1 hr with hr | hr
      · exact .inl hr
      · obtain rfl := List.mem_singleton.1 hr
        obtain ⟨hlt, -⟩ := List.getElem?_eq_some_iff.1 ht
        refine .inr ⟨t.run now, List.getElem?_set_self hlt, ?_⟩
        exact not_isLive_of_hasReturned (Bool.and_eq_true_iff.1 hret).2
    · exact .inl hr

theorem receive (h : Staffed c) : Staffed c.receive := by
  rw [Crew.receive]
  split
  · exact h
  · next r rs hrs =>
    refine h.of_ages ?_ ?_ ?_
    · rw [tasks_onExit]
      exact .refl c.tasks
    · intro g t p ht hl hp
      rw [tasks_onExit] at ht
      refine ⟨p, get?_onExit hp ?_⟩
      -- A report of this task's own generation would say that it has ended.
      rintro rfl
      obtain ⟨u, hu, hul⟩ := h.reported r (hrs ▸ List.mem_cons_self)
      obtain rfl : t = u := Option.some.inj (ht.symm.trans hu)
      exact Bool.eq_false_iff.1 hul hl
    · intro s hs
      rw [reports_onExit] at hs
      exact .inl (hrs ▸ List.mem_cons_of_mem r hs)

theorem forget (h : Staffed c) {keep : Entry → Bool}
    (hk : ∀ i e, c.handlers.get? i = some e → keep e = false → c.isLive e.generation = false) :
    Staffed { c with handlers := c.handlers.filter fun _ e => keep e } := by
  refine h.of_ages (.refl c.tasks) ?_ fun r hr => .inl hr
  intro g t p ht hl hp
  have hkeep : keep ⟨g, p⟩ = true := by
    refine eq_true_of_ne_false fun hc => ?_
    have hgone := hk _ _ hp hc
    rw [isLive, show c.tasks[g]? = some t from ht, Option.any_some] at hgone
    exact Bool.eq_false_iff.1 hgone hl
  exact ⟨p, OrderedMap.get?_filter_of_get? hp hkeep⟩

theorem abortWhere (h : Staffed c) (now : Nat) (timeout : Option Nat) (p : Entry → Bool) :
    Staffed (c.abortWhere now timeout p).2 := by
  refine h.of_ages (ages_abortTasks c.tasks now _) ?_ fun r hr => .inl hr
  intro g t q ht hl hq
  -- An entry that goes takes its task with it, so the entry of a live task stays.
  have hp : p ⟨g, q⟩ = false := by
    refine Bool.eq_false_iff.2 fun hp => not_mem_of_isLive_abortTasks ht hl ?_
    have hgone : (c.handlers.filter fun _ e => p e).get? t.item = some ⟨g, q⟩ :=
      OrderedMap.get?_filter_of_get? hq hp
    rw [OrderedMap.values, List.map_map]
    exact List.mem_map_of_mem (f := fun e => e.2.generation) (OrderedMap.mem_entries_iff.2 hgone)
  exact ⟨q, OrderedMap.get?_filter_of_get? hq (by rw [hp]; rfl)⟩

theorem cancel (h : Staffed c) (now : Nat) (i : ItemId) : Staffed (c.cancel now i).2 := by
  rw [Crew.cancel]
  split
  · next g hg =>
    refine h.of_ages (ages_cancel c.tasks now g) ?_ fun r hr => .inl hr
    intro k t p ht hl hp
    simp only [OrderedMap.get?_insert]
    split
    · next hi =>
      rw [hi, hg] at hp
      cases hp
      exact ⟨_, rfl⟩
    · exact ⟨p, hp⟩
  · exact h

/-- What has no entry has no live task. -/
theorem not_isLive_of_get? (h : Staffed c) (hi : c.handlers.get? i = none)
    (ht : c.tasks[g]? = some t) (hti : t.item = i) : t.isLive = false := by
  refine Bool.eq_false_iff.2 fun hl => ?_
  obtain ⟨p, hp⟩ := h.entered g t ht hl
  rw [hti, hi] at hp
  cases hp

theorem start (h : Staffed c) (b : Behaviour) (hi : c.handlers.get? i = none) :
    Staffed (c.start i b) where
  entered g t ht hl := by
    simp only [Crew.start, OrderedMap.get?_insert]
    rcases getElem?_concat ht with ht | ⟨rfl, rfl⟩
    · have hne : t.item ≠ i := fun hti =>
        Bool.eq_false_iff.1 (h.not_isLive_of_get? hi ht hti) hl
      rw [if_neg hne]
      exact h.entered g t ht hl
    · exact ⟨.running, if_pos rfl⟩
  reported r hr := by
    obtain ⟨t, ht, hl⟩ := h.reported r hr
    refine ⟨t, ?_, hl⟩
    rw [Crew.start, List.getElem?_append_left (List.getElem?_eq_some_iff.1 ht).1]
    exact ht
  replaced g k t u hlt ht hu hitem := by
    have hk := (List.getElem?_eq_some_iff.1 hu).1
    rw [Crew.start, List.length_append, List.length_singleton] at hk
    rcases getElem?_concat ht with ht | ⟨rfl, -⟩
    · rcases getElem?_concat hu with hu | ⟨-, rfl⟩
      · exact h.replaced g k t u hlt ht hu hitem
      · exact h.not_isLive_of_get? hi ht hitem
    · omega

theorem step (h : Staffed c) (hs : Step c c') : Staffed c' := by
  cases hs with
  | task now g => exact h.runTask now g
  | receive => exact h.receive
  | forget keep hk => exact h.forget hk
  | abort now timeout p => exact h.abortWhere now timeout p
  | start b hi => exact h.start b hi
  | cancel now i => exact h.cancel now i
  | note log => exact ⟨h.entered, h.reported, h.replaced⟩

theorem steps (h : Staffed c) (hs : Steps c c') : Staffed c' := by
  induction hs with
  | refl => exact h
  | tail _ hstep ih => exact ih.step hstep

end Staffed

/-! ### All moments -/

/-- A crew as it may be at some moment. Calls come in any order and at any time, whatever the store
answers and however the handlers behave; between them and within them things go on step by step. -/
inductive Moment (w : WorkerId) (stopTimeout : Nat) : Crew → Prop
  | fresh : Moment w stopTimeout (.fresh w stopTimeout)
  | reconcile {c : Crew} (h : Moment w stopTimeout c) (now : Nat)
      (read : Except Error (List ItemId)) (behaviour : ItemId → Behaviour) :
      Moment w stopTimeout (c.reconcile now read behaviour).2
  | settle {c c' : Crew} {now timeout time : Nat} {done : Bool} (h : Moment w stopTimeout c)
      (hs : c.settle now timeout = .ok (done, time, c')) : Moment w stopTimeout c'
  | stop {c c' : Crew} {now n time : Nat} (h : Moment w stopTimeout c)
      (hs : c.stop now = .ok (n, time, c')) : Moment w stopTimeout c'
  | step {c c' : Crew} (h : Moment w stopTimeout c) (hs : Step c c') : Moment w stopTimeout c'

theorem Moment.staffed (h : Moment w stopTimeout c) : Staffed c := by
  induction h with
  | fresh => exact .fresh w stopTimeout
  | reconcile h now read behaviour ih => exact ih.steps (steps_reconcile _ now read behaviour)
  | settle h hs ih => exact ih.steps (steps_settle hs)
  | stop h hs ih => exact ih.steps (steps_stop hs)
  | step h hs ih => exact ih.step hs

/-- At every moment each live task has its own entry, so no item has two live tasks; a report of an
earlier task leaves the entry of a later one; and where an item has been taken up again, the tasks
it had before have ended. -/
theorem one_live_handler (h : Moment w stopTimeout c) :
    (∀ (g : Nat) (t : Task), c.tasks[g]? = some t → t.isLive = true →
      ∃ p, c.handlers.get? t.item = some ⟨g, p⟩) ∧
    (∀ (g k : Nat) (t u : Task), c.tasks[g]? = some t → c.tasks[k]? = some u → t.item = u.item →
      t.isLive = true → u.isLive = true → g = k) ∧
    (∀ r i e, c.handlers.get? i = some e → r.generation < e.generation →
      (c.onExit r).2.handlers.get? i = some e) ∧
    ∀ (g k : Nat) (t u : Task), g < k → c.tasks[g]? = some t → c.tasks[k]? = some u →
      t.item = u.item → t.isLive = false := by
  have hstaffed := h.staffed
  refine ⟨hstaffed.entered, ?_, ?_, hstaffed.replaced⟩
  · intro g k t u ht hu hi htl hul
    obtain ⟨p, hp⟩ := hstaffed.entered g t ht htl
    obtain ⟨q, hq⟩ := hstaffed.entered k u hu hul
    rw [hi, hq] at hp
    cases hp
    rfl
  · intro r i e he hlt
    exact get?_onExit he (Nat.ne_of_lt hlt)

/-- A handler that never ends is cancelled, and assigned again while it is stopping. -/
def recalled : Crew :=
  let stubborn : ItemId → Behaviour := fun _ => .stubborn
  let started := ((fresh ⟨1⟩ 5000).reconcile 0 (.ok [⟨"m", by decide⟩]) stubborn).2.runTask 0 0
  let cancelled := (started.reconcile 1000 (.ok []) stubborn).2
  (cancelled.reconcile 2000 (.ok [⟨"m", by decide⟩]) stubborn).2

/-- It is overdue, so it is aborted and started anew. -/
def renewed : Crew :=
  (recalled.reconcile 6000 (.ok [⟨"m", by decide⟩]) fun _ => .stubborn).2

theorem moment_renewed : Moment ⟨1⟩ 5000 renewed :=
  have started := (Moment.fresh.reconcile 0 _ _).step (.task 0 0)
  ((started.reconcile 1000 _ _).reconcile 2000 _ _).reconcile 6000 _ _

theorem renewed_one_live_handler : Moment ⟨1⟩ 5000 renewed ∧ recalled.liveGenerations = [0] ∧
    renewed.liveGenerations = [1] ∧
    (∃ p, renewed.handlers.get? ⟨"m", by decide⟩ = some ⟨1, p⟩) ∧
    (renewed.onExit ⟨⟨"m", by decide⟩, 0⟩).2.handlers.get? ⟨"m", by decide⟩ =
      some ⟨1, .running⟩ ∧
    ∀ t, renewed.tasks[0]? = some t → t.isLive = false := by
  obtain ⟨hentry, -, hreport, hbefore⟩ := one_live_handler moment_renewed
  refine ⟨moment_renewed, by decide, by decide, ?_, ?_, ?_⟩
  · exact hentry 1 (.new ⟨"m", by decide⟩ .stubborn) (by decide) rfl
  · exact hreport _ _ _ (by decide) (by decide)
  · intro t ht
    refine hbefore 0 1 t (.new ⟨"m", by decide⟩ .stubborn) (by decide) ht (by decide) ?_
    cases ht
    decide

end Crew

end Roster
