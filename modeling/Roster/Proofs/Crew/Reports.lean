import Mathlib.Data.List.Nodup
import Roster.Proofs.Crew.Ledger

/-! What the queue of a crew holds. For each handler that has returned and still has an entry there
is one report, and reports are about handlers that have returned; so the entries that are left when
the queue is empty and whose tasks have ended are those of handlers that panicked. -/

namespace Roster

namespace Task

variable {t : Task} {now : Nat}

/-- Has ended by itself and not returned. -/
def hasPanicked (t : Task) : Bool :=
  match t.outcome with
  | some (.ended _ .panicked) => true
  | _ => false

theorem hasReturned_abort : (t.abort now).hasReturned = t.hasReturned := by
  unfold abort
  split
  · next h =>
    rw [isLive, Option.isNone_iff_eq_none] at h
    simp [hasReturned, h]
  · rfl

/-- Who ended and was not aborted has either returned or panicked. -/
theorem hasPanicked_eq (h : ∀ time, t.outcome ≠ some (.aborted time)) :
    t.hasPanicked = (!t.isLive && !t.hasReturned) := by
  unfold hasPanicked hasReturned isLive
  cases ho : t.outcome with
  | none => rfl
  | some o =>
    cases o with
    | aborted time => exact absurd ho (h time)
    | ended time how => cases how <;> rfl

end Task

namespace Crew

variable {c c' : Crew} {i : ItemId} {e : Entry} {r : Report} {rs : List Report} {now g : Nat}
  {t : Task} {w : WorkerId} {stopTimeout : Nat}

def hasReturned (c : Crew) (g : Nat) : Bool := c.tasks[g]?.any (·.hasReturned)

def hasPanicked (c : Crew) (g : Nat) : Bool := c.tasks[g]?.any (·.hasPanicked)

theorem hasReturned_eq (ht : c.tasks[g]? = some t) : c.hasReturned g = t.hasReturned := by
  rw [hasReturned, ht, Option.any_some]

/-- Entries are of tasks that have not been aborted, reports are of tasks that have returned, one of
each, and a task that has returned is in the queue for as long as it has an entry. -/
structure Audited (c : Crew) : Prop where
  entered : ∀ i e, c.handlers.get? i = some e → ∃ t, c.tasks[e.generation]? = some t ∧
    t.item = i ∧ ∀ time, t.outcome ≠ some (.aborted time)
  sent : ∀ r ∈ c.reports, ∃ t, c.tasks[r.generation]? = some t ∧ t.item = r.item ∧
    t.hasReturned = true
  once : (c.reports.map (·.generation)).Nodup
  due : ∀ i e t, c.handlers.get? i = some e → c.tasks[e.generation]? = some t →
    t.hasReturned = true → ⟨i, e.generation⟩ ∈ c.reports

/-! ### Every step keeps the queue -/

theorem getElem?_runTask (ht : c.tasks[g]? = some t) (now k : Nat) :
    (c.runTask now g).tasks[k]? = if g = k then some (t.run now) else c.tasks[k]? := by
  rw [tasks_runTask, List.getElem?_modify]
  split
  · next hg =>
    rw [← hg, ht]
    rfl
  · rw [Option.map_eq_map, Option.map_id']

/-- A task that returns puts its report behind the others. -/
theorem reports_runTask (ht : c.tasks[g]? = some t) (hl : t.isLive = true) (now : Nat) :
    (c.runTask now g).reports =
      c.reports ++ if (t.run now).hasReturned then [⟨t.item, g⟩] else [] := by
  simp only [Crew.runTask, ht, hl, Bool.true_and]
  split
  · rfl
  · exact (List.append_nil _).symm

theorem get?_onExit_self (he : c.handlers.get? i = some e) :
    (c.onExit ⟨i, e.generation⟩).2.handlers.get? i = none := by
  obtain ⟨e', -, -, heq⟩ | ⟨hne, -⟩ := c.onExit_cases ⟨i, e.generation⟩
  · rw [heq]
    exact (OrderedMap.get?_erase ..).trans (if_pos rfl)
  · exact absurd rfl (hne e he)

namespace Audited

theorem fresh (w : WorkerId) (stopTimeout : Nat) : Audited (.fresh w stopTimeout) :=
  ⟨(fun _ _ h => nomatch h), (fun _ h => nomatch h), List.nodup_nil, fun _ _ _ h => nomatch h⟩

/-- Where nothing is queued or taken out, and whose entry stays has the same outcome. -/
theorem of_tasks {f : Nat → Task → Task} (h : Audited c) (hr : c'.reports = c.reports)
    (ht : ∀ g, c'.tasks[g]? = c.tasks[g]?.map (f g))
    (hf : ∀ g t, (f g t).item = t.item ∧ (f g t).hasReturned = t.hasReturned)
    (he : ∀ i e', c'.handlers.get? i = some e' → ∃ e, c.handlers.get? i = some e ∧
      e.generation = e'.generation ∧
      ∀ t, c.tasks[e.generation]? = some t → (f e.generation t).outcome = t.outcome) :
    Audited c' where
  entered i e' he' := by
    obtain ⟨e, hi, hg, hout⟩ := he i e' he'
    obtain ⟨t, htask, hti, hnot⟩ := h.entered i e hi
    refine ⟨f e.generation t, by rw [← hg, ht, htask, Option.map_some], (hf _ t).1.trans hti, ?_⟩
    intro time
    rw [hout t htask]
    exact hnot time
  sent r hmem := by
    obtain ⟨t, htask, hti, hret⟩ := h.sent r (hr ▸ hmem)
    exact ⟨f r.generation t, by rw [ht, htask, Option.map_some], (hf _ t).1.trans hti,
      (hf _ t).2.trans hret⟩
  once := hr ▸ h.once
  due i e' t' he' ht' hret := by
    obtain ⟨e, hi, hg, -⟩ := he i e' he'
    rw [← hg, ht, Option.map_eq_some_iff] at ht'
    obtain ⟨t, htask, rfl⟩ := ht'
    rw [hr, ← hg]
    exact h.due i e t hi htask ((hf _ t).2.symm.trans hret)

theorem runTask (h : Audited c) (now g : Nat) : Audited (c.runTask now g) := by
  cases hl : c.isLive g with
  | false => rwa [runTask_eq_self hl]
  | true =>
    rw [isLive, Option.any_eq_true] at hl
    obtain ⟨t, ht, hl⟩ := hl
    -- What is in the queue already is about tasks that have ended.
    have hother : ∀ r ∈ c.reports, g ≠ r.generation := by
      rintro r hr rfl
      obtain ⟨u, hu, -, hret⟩ := h.sent r hr
      obtain rfl := Option.some.inj (ht.symm.trans hu)
      rw [not_isLive_of_hasReturned hret] at hl
      cases hl
    refine { entered := ?entered, sent := ?sent, once := ?once, due := ?due }
    case entered =>
      intro i e he
      rw [handlers_runTask] at he
      obtain ⟨u, hu, hui, hnot⟩ := h.entered i e he
      rw [getElem?_runTask ht]
      split
      · next hg =>
        obtain rfl := Option.some.inj (ht.symm.trans (hg ▸ hu))
        exact ⟨_, rfl, Task.item_run.trans hui, fun time ho => hnot time (Task.aborted_of_run ho)⟩
      · exact ⟨u, hu, hui, hnot⟩
    case sent =>
      intro r hr
      rw [getElem?_runTask ht]
      rw [reports_runTask ht hl, List.mem_append, List.mem_ite_nil_right] at hr
      rcases hr with hr | ⟨hret, hr⟩
      · rw [if_neg (hother r hr)]
        exact h.sent r hr
      · obtain rfl := List.mem_singleton.1 hr
        exact ⟨t.run now, if_pos rfl, Task.item_run, hret⟩
    case once =>
      rw [reports_runTask ht hl]
      split
      · rw [List.map_append, List.map_singleton, List.nodup_append]
        refine ⟨h.once, List.pairwise_singleton _ _, ?_⟩
        intro k hk g' hg'
        obtain rfl := List.mem_singleton.1 hg'
        obtain ⟨r, hr, rfl⟩ := List.mem_map.1 hk
        exact (hother r hr).symm
      · rw [List.append_nil]
        exact h.once
    case due =>
      intro i e u he hu hret
      rw [handlers_runTask] at he
      rw [getElem?_runTask ht] at hu
      rw [reports_runTask ht hl, List.mem_append]
      split at hu
      · next hg =>
        obtain rfl := Option.some.inj hu
        obtain ⟨v, hv, hvi, -⟩ := h.entered i e he
        obtain rfl := Option.some.inj (ht.symm.trans (hg ▸ hv))
        rw [if_pos hret, hvi, hg]
        exact .inr (List.mem_singleton_self _)
      · exact .inl (h.due i e u he hu hret)

theorem receive (h : Audited c) : Audited c.receive := by
  rw [Crew.receive]
  split
  · exact h
  · next r rs hrs =>
    have htasks := tasks_onExit { c with reports := rs } r
    have hreports := reports_onExit { c with reports := rs } r
    refine ⟨?_, ?_, ?_, ?_⟩
    · intro i e he
      rw [htasks]
      exact h.entered i e (get?_of_onExit (c := { c with reports := rs }) he)
    · intro s hs
      rw [hreports] at hs
      rw [htasks]
      exact h.sent s (hrs ▸ List.mem_cons_of_mem r hs)
    · rw [hreports]
      have honce := h.once
      rw [hrs, List.map_cons] at honce
      exact (List.nodup_cons.1 honce).2
    · intro i e t he ht hret
      have hold := get?_of_onExit (c := { c with reports := rs }) he
      rw [htasks] at ht
      have hmem := h.due i e t hold ht hret
      rw [hrs, List.mem_cons] at hmem
      rw [hreports]
      refine hmem.resolve_left ?_
      -- The entry would be gone.
      rintro rfl
      rw [get?_onExit_self hold] at he
      cases he

theorem abortWhere (h : Audited c) (now : Nat) (timeout : Option Nat) (p : Entry → Bool) :
    Audited (c.abortWhere now timeout p).2 := by
  refine h.of_tasks rfl (fun g => getElem?_abortTasks c.tasks now _ g) ?_ ?_
  · intro g t
    split
    · exact ⟨Task.item_abort, Task.hasReturned_abort⟩
    · exact ⟨rfl, rfl⟩
  · intro i e he
    obtain ⟨hi, hp⟩ := get?_of_abortWhere he
    refine ⟨e, hi, rfl, fun t ht => ?_⟩
    rw [if_neg]
    -- An entry that goes is of another item, so it is of another task.
    intro hmem
    obtain ⟨e', he', hg⟩ := List.mem_map.1 hmem
    obtain ⟨⟨j, e'⟩, hj, rfl⟩ := List.mem_map.1 he'
    rw [OrderedMap.mem_entries_iff, OrderedMap.get?_filter, Option.filter_eq_some_iff] at hj
    obtain ⟨u, hu, rfl, -⟩ := h.entered i e hi
    obtain ⟨v, hv, rfl, -⟩ := h.entered j e' hj.1
    rw [show e'.generation = e.generation from hg, hu] at hv
    obtain rfl := Option.some.inj hv
    obtain rfl := Option.some.inj (hi.symm.trans hj.1)
    exact Bool.eq_false_iff.1 hp hj.2

theorem cancel (h : Audited c) (now : Nat) (i : ItemId) : Audited (c.cancel now i).2 := by
  unfold Crew.cancel
  split
  · next g hg =>
    refine h.of_tasks (f := fun k u => if g = k then u.cancel now else u) rfl ?_ ?_ ?_
    · intro k
      rw [List.getElem?_modify, Option.map_eq_map]
    · intro k t
      split <;> exact ⟨rfl, rfl⟩
    · intro j e' he'
      simp only [OrderedMap.get?_insert] at he'
      have hout (k : Nat) (t : Task) : (if g = k then t.cancel now else t).outcome = t.outcome := by
        split <;> rfl
      split at he'
      · next hj =>
        obtain rfl := Option.some.inj he'
        exact ⟨⟨g, .running⟩, hj ▸ hg, rfl, fun t _ => hout g t⟩
      · exact ⟨e', he', rfl, fun t _ => hout _ t⟩
  · exact h

theorem start (h : Audited c) (i : ItemId) (b : Behaviour) : Audited (c.start i b) where
  entered j e he := by
    simp only [Crew.start, OrderedMap.get?_insert] at he ⊢
    split at he
    · next hj =>
      obtain rfl := Option.some.inj he
      refine ⟨.new i b, List.getElem?_concat_length, hj.symm, fun time ho => ?_⟩
      cases ho
    · obtain ⟨t, ht, hrest⟩ := h.entered j e he
      refine ⟨t, ?_, hrest⟩
      rwa [List.getElem?_append_left (List.getElem?_eq_some_iff.1 ht).1]
  sent r hr := by
    obtain ⟨t, ht, hrest⟩ := h.sent r hr
    refine ⟨t, ?_, hrest⟩
    rw [Crew.start, List.getElem?_append_left (List.getElem?_eq_some_iff.1 ht).1]
    exact ht
  once := h.once
  due j e t he ht hret := by
    simp only [Crew.start, OrderedMap.get?_insert] at he ht
    split at he
    · obtain rfl := Option.some.inj he
      rw [List.getElem?_concat_length] at ht
      obtain rfl := Option.some.inj ht
      cases hret
    · obtain ⟨u, hu, -⟩ := h.entered j e he
      rw [List.getElem?_append_left (List.getElem?_eq_some_iff.1 hu).1] at ht
      exact h.due j e t he ht hret

theorem step (h : Audited c) (hs : Step c c') : Audited c' := by
  cases hs with
  | task now g => exact h.runTask now g
  | receive => exact h.receive
  | forget keep hk =>
    refine h.of_tasks (f := fun _ t => t) rfl (fun g => by rw [Option.map_id'])
      (fun _ _ => ⟨rfl, rfl⟩) fun i e he => ?_
    rw [OrderedMap.get?_filter, Option.filter_eq_some_iff] at he
    exact ⟨e, he.1, rfl, fun _ _ => rfl⟩
  | abort now timeout p => exact h.abortWhere now timeout p
  | start b hi => exact h.start _ b
  | cancel now i => exact h.cancel now i
  | note log => exact ⟨h.entered, h.sent, h.once, h.due⟩

theorem steps (h : Audited c) (hs : Steps c c') : Audited c' := by
  induction hs with
  | refl => exact h
  | tail _ hstep ih => exact ih.step hstep

end Audited

theorem Moment.audited (h : Moment w stopTimeout c) : Audited c := by
  induction h with
  | fresh => exact .fresh w stopTimeout
  | reconcile h now read behaviour ih => exact ih.steps (steps_reconcile _ now read behaviour)
  | settle h hs ih => exact ih.steps (steps_settle hs)
  | stop h hs ih => exact ih.steps (steps_stop hs)
  | step h hs ih => exact ih.step hs

/-! ### Collecting -/

/-- A report that is handled takes its entry, whatever comes before and after it. -/
theorem get?_onExits_of_mem (he : c.handlers.get? i = some e)
    (hr : ⟨i, e.generation⟩ ∈ rs) : (c.onExits rs).2.handlers.get? i = none := by
  induction rs generalizing c with
  | nil => exact absurd hr List.not_mem_nil
  | cons r rs ih =>
    cases ho : (c.onExit r).2.handlers.get? i with
    | none =>
      refine Option.eq_none_iff_forall_ne_some.2 fun e' he' => ?_
      rw [get?_of_onExits (c := (c.onExit r).2) he'] at ho
      cases ho
    | some e' =>
      obtain rfl := Option.some.inj ((get?_of_onExit ho).symm.trans he)
      refine ih ho ((List.mem_cons.1 hr).resolve_left ?_)
      rintro rfl
      rw [get?_onExit_self he] at ho
      cases ho

/-- The reports in the queue take the entries of the handlers that have returned. -/
theorem Audited.get?_drain (h : Audited c) (i : ItemId) : c.drain.2.handlers.get? i =
    (c.handlers.get? i).filter fun e => !c.hasReturned e.generation := by
  cases he : c.handlers.get? i with
  | none =>
    refine Option.eq_none_iff_forall_ne_some.2 fun e' he' => ?_
    rw [get?_of_onExits (c := { c with reports := [] }) he'] at he
    cases he
  | some e =>
    obtain ⟨t, ht, -, -⟩ := h.entered i e he
    rw [Option.filter_some, hasReturned_eq ht]
    cases hr : t.hasReturned with
    | true =>
      exact get?_onExits_of_mem (c := { c with reports := [] }) he (h.due i e t he ht hr)
    | false =>
      refine get?_onExits (c := { c with reports := [] }) he fun r hmem hg => ?_
      obtain ⟨u, hu, -, hover⟩ := h.sent r hmem
      obtain rfl := Option.some.inj (ht.symm.trans (hg ▸ hu))
      rw [hr] at hover
      cases hover

/-- What is counted as reported are the entries of handlers that have returned. -/
theorem Audited.reported_eq (h : Audited c) : c.collectExits.1.reported =
    (c.handlers.filter fun _ e => c.hasReturned e.generation).size := by
  have hdrain : c.drain.2.handlers =
      c.handlers.filter fun _ e => !c.hasReturned e.generation :=
    OrderedMap.ext_get? fun i => by rw [h.get?_drain, OrderedMap.get?_filter]
  have hcount := (books_drain c).entries
  have hsplit := OrderedMap.size_filter_add c.handlers fun _ e => c.hasReturned e.generation
  rw [handlerCount, handlerCount, hdrain] at hcount
  change c.drain.1 = _
  omega

/-- What is counted as unreported are the entries of handlers that have panicked. -/
theorem Audited.unreported_eq (h : Audited c) : c.collectExits.1.unreported =
    (c.handlers.filter fun _ e => c.hasPanicked e.generation).size := by
  have hended : c.drain.2.ended = c.handlers.filter fun _ e => c.hasPanicked e.generation := by
    refine OrderedMap.ext_get? fun i => ?_
    rw [ended, OrderedMap.get?_filter, h.get?_drain, OrderedMap.get?_filter, isLive_drain,
      Option.filter_filter]
    cases he : c.handlers.get? i with
    | none => rfl
    | some e =>
      obtain ⟨t, ht, -, hnot⟩ := h.entered i e he
      simp only [Option.filter_some, hasPanicked, hasReturned, isLive, ht, Option.any_some,
        Task.hasPanicked_eq hnot, Bool.and_comm]
  rw [collectExits_eq, hended]

/-- A handler that has returned and has an entry is in the queue once, and nobody else is. -/
theorem Audited.count_reports (h : Audited c) (he : c.handlers.get? i = some e) :
    c.reports.count ⟨i, e.generation⟩ = (c.hasReturned e.generation).toNat := by
  obtain ⟨t, ht, -, -⟩ := h.entered i e he
  have hnodup : c.reports.Nodup := h.once.of_map _
  rw [hasReturned_eq ht]
  cases hr : t.hasReturned with
  | true => exact List.count_eq_one_of_mem hnodup (h.due i e t he ht hr)
  | false =>
    refine List.count_eq_zero.2 fun hmem => ?_
    obtain ⟨u, hu, -, hover⟩ := h.sent _ hmem
    obtain rfl := Option.some.inj (ht.symm.trans hu)
    rw [hr] at hover
    cases hover

end Crew

/-! ### Runs -/

namespace Watch

open Crew (Books)

/-- At every moment the queue holds one report for each handler that has returned and still has an
entry. To collect is to remove the entries of the tasks that have ended and nothing else, and counts
those that returned apart from those that panicked. What calls return is what the books say; over
any run no handler leaves twice, so all that were started have been collected or aborted or are
still there. -/
theorem exits_collected_once (w : WorkerId) (stopTimeout : Nat) :
    (∀ c, Crew.Moment w stopTimeout c →
      (∀ i e, c.handlers.get? i = some e →
        c.reports.count ⟨i, e.generation⟩ = (c.hasReturned e.generation).toNat) ∧
      c.collectExits.2.handlers = c.handlers.filter (fun _ e => c.isLive e.generation) ∧
      c.collectExits.2.tasks = c.tasks ∧
      c.collectExits.1.reported =
        (c.handlers.filter fun _ e => c.hasReturned e.generation).size ∧
      c.collectExits.1.unreported =
        (c.handlers.filter fun _ e => c.hasPanicked e.generation).size) ∧
    (∀ c : Crew, Books c c.collectExits.2 0 c.collectExits.1.total 0 ∧
      (∀ r, Books c (c.onExit r).2 0 (c.onExit r).1.toNat 0) ∧
      ∀ now, Books c (c.abortOverdue now).2 0 0 (c.abortOverdue now).1) ∧
    ∀ acts, let x := (fresh w stopTimeout).run acts
      x.dropped = false →
      (∀ desired behaviour p, (x.crew.reconcile x.now (.ok desired) behaviour).1 = .ok p →
        Books x.crew (x.crew.reconcile x.now (.ok desired) behaviour).2 p.started p.removed
          p.aborted) ∧
      (∀ timeout done time c, x.crew.settle x.now timeout = .ok (done, time, c) →
        ∃ exited, Books x.crew c 0 exited 0) ∧
      (∀ n time c, x.crew.stop x.now = .ok (n, time, c) → ∃ exited, Books x.crew c 0 exited n) ∧
      (∀ more g, g < x.crew.tasks.length →
        (∀ i e, x.crew.handlers.get? i = some e → e.generation ≠ g) →
        ∀ i e, (x.run more).crew.handlers.get? i = some e → e.generation ≠ g) ∧
      x.crew.tasks.length = x.crew.exitCount + x.crew.abortCount + x.crew.handlerCount := by
  refine ⟨fun c hc => ?_, fun c => ?_, fun acts => ?_⟩
  · have haudited := hc.audited
    refine ⟨fun i e he => haudited.count_reports he, OrderedMap.ext_get? fun i => ?_,
      Crew.tasks_collectExits c, haudited.reported_eq, haudited.unreported_eq⟩
    rw [Crew.get?_collectExits hc.staffed, OrderedMap.get?_filter]
  · exact ⟨Crew.books_collectExits c, Crew.books_onExit c,
      fun now => Crew.books_abortWhere c now _ _⟩
  · intro x hx
    have hsound : Sound stopTimeout x := ((sound_fresh w stopTimeout).run acts).1
    refine ⟨fun desired behaviour p => Crew.books_reconcile,
      fun timeout done time c => Crew.books_settle, fun n time c => Crew.books_stop, ?_,
      balanced_run w stopTimeout hx⟩
    intro more g hlt hgone i e he hg
    -- An entry that is there later is new or was there before.
    rcases (hsound.run more).2.entries i e he with hnew | ⟨e', he', hgen, -⟩
    · omega
    · exact hgone i e' he' (hgen.trans hg)

def leavingItems : List ItemId := [⟨"va", by decide⟩, ⟨"vb", by decide⟩, ⟨"vc", by decide⟩]

/-- The handler of the first item returns, that of the second panics, and the third never ends. -/
def leavingBehaviour (i : ItemId) : Behaviour :=
  if i.text = "va" then .returnsAtOnce else if i.text = "vb" then .panicsAtOnce else .stubborn

/-- One handler has returned and one has panicked. -/
def leaving : Crew :=
  let begun := ((Crew.fresh ⟨1⟩ 5000).reconcile 0 (.ok leavingItems) leavingBehaviour).2
  (begun.runTask 0 0).runTask 0 1

theorem moment_leaving : Crew.Moment ⟨1⟩ 5000 leaving :=
  have begun := Crew.Moment.fresh.reconcile 0 (.ok leavingItems) leavingBehaviour
  (begun.step (.task 0 0)).step (.task 0 1)

/-- Their exits are collected, and the third handler is told to stop and then aborted. -/
def departures : List Act :=
  [.request (.reconcile (.ok leavingItems) leavingBehaviour), .task 0, .task 1, .sleep 1000,
    .request (.reconcile (.ok []) leavingBehaviour), .task 2, .sleep 5000, blindPass]

theorem leaving_collected_once :
    Crew.Moment ⟨1⟩ 5000 leaving ∧ leaving.collectExits.1.reported = 1 ∧
    leaving.collectExits.1.unreported = 1 ∧
    leaving.collectExits.2.handlers.keys.map (·.text) = ["vc"] ∧
    ((fresh ⟨1⟩ 5000).run departures).dropped = false ∧
    ((fresh ⟨1⟩ 5000).run departures).crew.exitCount = 2 ∧
    ((fresh ⟨1⟩ 5000).run departures).crew.tasks.length =
      2 + ((fresh ⟨1⟩ 5000).run departures).crew.abortCount +
        ((fresh ⟨1⟩ 5000).run departures).crew.handlerCount := by
  obtain ⟨hmoments, -, hruns⟩ := exits_collected_once ⟨1⟩ 5000
  obtain ⟨-, hhandlers, -, hreported, hunreported⟩ := hmoments leaving moment_leaving
  have hdropped : ((fresh ⟨1⟩ 5000).run departures).dropped = false := by decide
  have hexits : ((fresh ⟨1⟩ 5000).run departures).crew.exitCount = 2 := by decide
  obtain ⟨-, -, -, -, hbalance⟩ := hruns departures hdropped
  refine ⟨moment_leaving, hreported.trans (by decide), hunreported.trans (by decide), ?_, hdropped,
    hexits, ?_⟩
  · rw [hhandlers]
    decide
  · rw [hexits] at hbalance
    exact hbalance

end Watch

end Roster
