import Mathlib.Logic.Relation
import Roster.Crew.Pass
import Roster.Crew.Settle
import Roster.Proofs.Diff
import Roster.Proofs.Ordered

/-! The life of a crew in its smallest steps. Every call of a crew is made of them, so what each
step keeps holds after any calls, and at every moment within them too. -/

namespace Roster.Crew

variable {c c' : Crew} {i : ItemId} {e : Entry} {r : Report} {rs : List Report}

/-- Something that happens while a crew waits. -/
inductive Lapse (c : Crew) : Crew → Prop
  /-- A task goes on, and queues its report if it returns. -/
  | task (now g : Nat) : Lapse c (c.runTask now g)
  | receive : Lapse c c.receive
  /-- Entries are removed whose tasks are known to have ended. -/
  | forget (keep : Entry → Bool)
      (h : ∀ i e, c.handlers.get? i = some e → keep e = false → c.isLive e.generation = false) :
      Lapse c { c with handlers := c.handlers.filter fun _ e => keep e }
  | note (log : List Log.Event) : Lapse c { c with log }

/-- Something that a crew does at the instant `now`. It cancels only what is unwanted and starts
only what is not, and nothing is aborted before it is overdue. -/
inductive Deed (now : Nat) (unwanted : ItemId → Prop) (c : Crew) : Crew → Prop
  | lapse {c' : Crew} (h : Lapse c c') : Deed now unwanted c c'
  | abort (timeout : Option Nat) (p : Entry → Bool)
      (h : ∀ i e, c.handlers.get? i = some e → p e = true →
        e.phase.isOverdue now c.stopTimeout = true) :
      Deed now unwanted c (c.abortWhere now timeout p).2
  | start {i : ItemId} (b : Behaviour) (h : c.handlers.get? i = none) (hi : ¬ unwanted i) :
      Deed now unwanted c (c.start i b)
  | cancel {i : ItemId} (hi : unwanted i) : Deed now unwanted c (c.cancel now i).2

/-- One thing that happens in a crew. -/
inductive Step (c : Crew) : Crew → Prop
  /-- A task goes on, and queues its report if it returns. -/
  | task (now g : Nat) : Step c (c.runTask now g)
  | receive : Step c c.receive
  /-- Entries are removed whose tasks are known to have ended. -/
  | forget (keep : Entry → Bool)
      (h : ∀ i e, c.handlers.get? i = some e → keep e = false → c.isLive e.generation = false) :
      Step c { c with handlers := c.handlers.filter fun _ e => keep e }
  | abort (now : Nat) (timeout : Option Nat) (p : Entry → Bool) :
      Step c (c.abortWhere now timeout p).2
  | start {i : ItemId} (b : Behaviour) (h : c.handlers.get? i = none) : Step c (c.start i b)
  | cancel (now : Nat) (i : ItemId) : Step c (c.cancel now i).2
  | note (log : List Log.Event) : Step c { c with log }

abbrev Lapses : Crew → Crew → Prop := Relation.ReflTransGen Lapse

abbrev Deeds (now : Nat) (unwanted : ItemId → Prop) : Crew → Crew → Prop :=
  Relation.ReflTransGen (Deed now unwanted)

/-- Any number of steps. -/
abbrev Steps : Crew → Crew → Prop := Relation.ReflTransGen Step

open Relation.ReflTransGen (refl single trans head)

theorem Lapse.step (h : Lapse c c') : Step c c' := by
  cases h with
  | task now g => exact .task now g
  | receive => exact .receive
  | forget keep h => exact .forget keep h
  | note log => exact .note log

theorem Deed.step {now : Nat} {unwanted : ItemId → Prop} (h : Deed now unwanted c c') :
    Step c c' := by
  cases h with
  | lapse h => exact h.step
  | abort timeout p h => exact .abort now timeout p
  | start b h hi => exact .start b h
  | cancel hi => exact .cancel now _

theorem Lapses.deeds (h : Lapses c c') (now : Nat) (unwanted : ItemId → Prop) :
    Deeds now unwanted c c' := h.lift id fun _ _ => .lapse

theorem Lapses.steps (h : Lapses c c') : Steps c c' := h.lift id fun _ _ => Lapse.step

theorem Deeds.steps {now : Nat} {unwanted : ItemId → Prop} (h : Deeds now unwanted c c') :
    Steps c c' := h.lift id fun _ _ => Deed.step

/-! ### Tasks at work -/

theorem lapses_runAll (c : Crew) (now : Nat) : Lapses c (c.runAll now) := by
  rw [runAll]
  generalize c.liveGenerations = gs
  induction gs generalizing c with
  | nil => exact refl
  | cons g gs ih => exact head (.task now g) (ih (c.runTask now g))

theorem lapses_sleep (c : Crew) (now wake : Nat) : Lapses c (c.sleep now wake).2 := by
  obtain ⟨last, hrun, -⟩ := c.exists_runAll_sleep now wake
  rw [hrun]
  exact lapses_runAll c last

/-! ### Exits -/

/-- What a report changes does not depend on the reports after it. -/
theorem onExit_withReports (c : Crew) (r : Report) (rs : List Report) :
    (onExit { c with reports := rs } r).2 = { (c.onExit r).2 with reports := rs } := by
  simp only [onExit]
  split
  · split <;> rfl
  · rfl

/-- To drain the queue is to receive report after report. -/
theorem lapses_drain (c : Crew) : Lapses c c.drain.2 := by
  rw [drain]
  -- The queue is emptied at once, so each report is handled as if none came after it.
  generalize h : c.reports = rs
  induction rs generalizing c with
  | nil =>
    have hc : { c with reports := [] } = c := by rw [← h]
    rw [hc]
    exact refl
  | cons r rs ih =>
    have hreceive : c.receive = { (c.onExit r).2 with reports := rs } := by
      rw [receive, h]
      exact onExit_withReports c r rs
    have hrest := ih c.receive (by rw [hreceive])
    rw [hreceive] at hrest
    refine head .receive ?_
    change Lapses _ ((onExit { c with reports := [] } r).2.onExits rs).2
    rwa [hreceive, onExit_withReports c r []]

theorem get?_of_onExit (h : (c.onExit r).2.handlers.get? i = some e) :
    c.handlers.get? i = some e := by
  obtain ⟨e', -, -, heq⟩ | ⟨-, heq⟩ := c.onExit_cases r <;> rw [heq] at h
  · rw [OrderedMap.get?_erase] at h
    split at h
    · cases h
    · exact h
  · exact h

theorem get?_of_onExits (h : (c.onExits rs).2.handlers.get? i = some e) :
    c.handlers.get? i = some e := by
  induction rs generalizing c with
  | nil => exact h
  | cons r rs ih => exact get?_of_onExit (ih h)

/-- A report that is handled ends no task. -/
theorem isLive_drain (c : Crew) : c.drain.2.isLive = c.isLive := by
  funext g
  rw [isLive, isLive, show c.drain.2.tasks = c.tasks from tasks_onExits _ _]

/-- The entries that were noted and are left are the ones left whose task has ended. -/
theorem filter_ended_drain (c : Crew) :
    (c.ended.filter fun i e => (c.drain.2.handlers.get? i).any (·.generation = e.generation)) =
      c.drain.2.ended := by
  refine OrderedMap.ext_get? fun i => ?_
  rw [ended, ended, isLive_drain]
  simp only [OrderedMap.get?_filter, Option.filter_filter]
  cases hd : c.drain.2.handlers.get? i with
  | none => simp
  | some e =>
    have he : c.handlers.get? i = some e := get?_of_onExits (c := { c with reports := [] }) hd
    simp [he, Option.filter_some]

/-- It makes no difference that the entries are noted before the queue is drained. -/
theorem collectExits_eq (c : Crew) : c.collectExits =
    (⟨c.drain.1, c.drain.2.ended.size⟩,
      { c.drain.2 with
        handlers := c.drain.2.handlers.filter fun _ e => c.drain.2.isLive e.generation
        log := c.drain.2.log ++ c.drain.2.ended.keys.map (.endedUnreported c.drain.2.worker) }) := by
  have hleft : (c.drain.2.handlers.filter fun i _ => (c.drain.2.ended.get? i).isNone) =
      c.drain.2.handlers.filter fun _ e => c.drain.2.isLive e.generation := by
    refine OrderedMap.ext_get? fun i => ?_
    rw [ended]
    simp only [OrderedMap.get?_filter]
    cases hd : c.drain.2.handlers.get? i with
    | none => rfl
    | some e => cases hl : c.drain.2.isLive e.generation <;> simp [hl, Option.filter_some]
  rw [collectExits]
  simp only [filter_ended_drain, hleft]

theorem lapses_collectExits (c : Crew) : Lapses c c.collectExits.2 := by
  rw [collectExits_eq]
  refine (lapses_drain c).trans ?_
  refine head (.forget (fun e => c.drain.2.isLive e.generation) fun _ _ _ h => h) ?_
  exact single (.note _)

theorem steps_collectExits (c : Crew) : Steps c c.collectExits.2 := (lapses_collectExits c).steps

theorem lapses_poll (c : Crew) (now deadline : Nat) : Lapses c (c.poll now deadline).2 := by
  rw [poll_snd]
  exact lapses_collectExits c

/-! ### Passes -/

theorem deeds_startAll {is : List ItemId} {now : Nat} {unwanted : ItemId → Prop} (hn : is.Nodup)
    (h : ∀ i ∈ is, c.handlers.get? i = none ∧ ¬ unwanted i) (behaviour : ItemId → Behaviour) :
    Deeds now unwanted c (c.startAll behaviour is) := by
  induction is generalizing c with
  | nil => exact refl
  | cons i is ih =>
    obtain ⟨hi, hn⟩ := List.nodup_cons.1 hn
    obtain ⟨hnone, hwanted⟩ := h i List.mem_cons_self
    refine head (.start (behaviour i) hnone hwanted) (ih hn ?_)
    intro j hj
    have hne : j ≠ i := by
      rintro rfl
      exact hi hj
    rw [start, OrderedMap.get?_insert, if_neg hne]
    exact h j (List.mem_cons_of_mem i hj)

theorem deeds_cancelAll {is : List ItemId} {unwanted : ItemId → Prop} (c : Crew) (now : Nat)
    (h : ∀ i ∈ is, unwanted i) : Deeds now unwanted c (c.cancelAll now is).2 := by
  induction is generalizing c with
  | nil => exact refl
  | cons i is ih =>
    have hrest := ih (c.cancel now i).2 fun j hj => h j (.tail i hj)
    exact head (.cancel (h i List.mem_cons_self)) hrest

theorem not_mem_keys_iff : i ∉ c.handlers.keys ↔ c.handlers.get? i = none := by
  rw [OrderedMap.mem_keys_iff, not_exists, Option.eq_none_iff_forall_ne_some]

/-- What a store that gave this answer does not want. -/
def Unwanted (read : Except Error (List ItemId)) (i : ItemId) : Prop :=
  ∃ desired, read = .ok desired ∧ i ∉ desired

theorem unwanted_ok_iff {desired : List ItemId} : Unwanted (.ok desired) i ↔ i ∉ desired :=
  ⟨fun ⟨_, heq, hi⟩ => Except.ok.inj heq ▸ hi, fun hi => ⟨desired, rfl, hi⟩⟩

theorem deeds_startMissing {unwanted : ItemId → Prop} (c : Crew) (now : Nat)
    (desired : List ItemId) (h : ∀ i ∈ desired, ¬ unwanted i) (behaviour : ItemId → Behaviour) :
    Deeds now unwanted c
      (c.startAll behaviour (Diff.between desired c.handlers.keys).toStart) := by
  refine deeds_startAll (OrderedSet.strict _).nodup ?_ behaviour
  intro i hi
  obtain ⟨hdesired, hkey⟩ := Diff.mem_toStart_iff.1 hi
  exact ⟨not_mem_keys_iff.1 hkey, h i hdesired⟩

theorem deeds_follow (c : Crew) (now : Nat) (desired : List ItemId)
    (behaviour : ItemId → Behaviour) :
    Deeds now (Unwanted (.ok desired)) c (c.follow now desired behaviour).2.2 := by
  refine (deeds_startMissing c now desired ?_ behaviour).trans (deeds_cancelAll _ now ?_)
  · exact fun i hi h => unwanted_ok_iff.1 h hi
  · exact fun i hi => unwanted_ok_iff.2 (Diff.mem_toStop_iff.1 hi).2

/-- The crew once its exits are collected and what is overdue is aborted. -/
def swept (c : Crew) (now : Nat) : Crew := (c.collectExits.2.abortOverdue now).2

theorem deeds_swept (c : Crew) (now : Nat) (unwanted : ItemId → Prop) :
    Deeds now unwanted c (c.swept now) :=
  ((lapses_collectExits c).deeds now unwanted).trans (single (.abort _ _ fun _ _ _ h => h))

/-- What follows the sweep, if the store can be read. -/
theorem deeds_swept_reconcile (c : Crew) (now : Nat) (read : Except Error (List ItemId))
    (behaviour : ItemId → Behaviour) :
    Deeds now (Unwanted read) (c.swept now) (c.reconcile now read behaviour).2 := by
  cases read with
  | error e => exact refl
  | ok desired => exact deeds_follow (c.swept now) now desired behaviour

/-- A pass that reads the store sweeps and then follows. -/
theorem reconcile_ok (c : Crew) (now : Nat) (desired : List ItemId)
    (behaviour : ItemId → Behaviour) : ∃ p : Pass,
      c.reconcile now (.ok desired) behaviour =
        (.ok p, ((c.swept now).follow now desired behaviour).2.2) ∧
      p.cancelled = ((c.swept now).follow now desired behaviour).2.1 :=
  ⟨_, rfl, rfl⟩

theorem deeds_reconcile (c : Crew) (now : Nat) (read : Except Error (List ItemId))
    (behaviour : ItemId → Behaviour) :
    Deeds now (Unwanted read) c (c.reconcile now read behaviour).2 :=
  (deeds_swept c now _).trans (deeds_swept_reconcile c now read behaviour)

theorem steps_reconcile (c : Crew) (now : Nat) (read : Except Error (List ItemId))
    (behaviour : ItemId → Behaviour) : Steps c (c.reconcile now read behaviour).2 :=
  (deeds_reconcile c now read behaviour).steps

/-! ### Settling and stopping -/

theorem hasStopping_of_settled {now deadline : Nat} (h : (c.poll now deadline).1 = .settled) :
    (c.poll now deadline).2.hasStopping = false := by
  obtain ⟨hs, hp⟩ | ⟨-, -, hp⟩ | ⟨-, -, hp⟩ := c.poll_cases now deadline <;> rw [hp] at h ⊢ <;>
    cases h
  exact hs

theorem le_of_expired {now deadline : Nat} (h : (c.poll now deadline).1 = .expired) :
    deadline ≤ now := by
  obtain ⟨-, hp⟩ | ⟨-, hd, hp⟩ | ⟨-, -, hp⟩ := c.poll_cases now deadline <;> rw [hp] at h <;>
    cases h
  exact hd

/-- Settling takes no less time than it says: it gives up at the deadline and not before. -/
structure Settles (c : Crew) (now deadline : Nat) (done : Bool) (time : Nat) (c' : Crew) :
    Prop where
  lapses : Lapses c c'
  le : now ≤ time
  settled : done = true → c'.hasStopping = false
  expired : done = false → deadline ≤ time

theorem settles_settleFrom (c : Crew) (now deadline : Nat) :
    Settles c now deadline (c.settleFrom now deadline).1 (c.settleFrom now deadline).2.1
      (c.settleFrom now deadline).2.2 := by
  -- One case for each way a round of waiting goes on; all begin with a look at the entries.
  have hpoll := fun c now => lapses_poll c now deadline
  fun_induction settleFrom c now deadline with
  | case1 c now c' hp =>
    have hsettled := hasStopping_of_settled (c := c) (by rw [hp])
    rw [hp] at hsettled
    exact ⟨by simpa only [hp] using hpoll c now, Nat.le_refl now, fun _ => hsettled,
      (fun h => nomatch h)⟩
  | case2 c now c' hp =>
    have hexpired := le_of_expired (c := c) (by rw [hp])
    exact ⟨by simpa only [hp] using hpoll c now, Nat.le_refl now, (fun h => nomatch h),
      fun _ => hexpired⟩
  | case3 c now wake c' hp hr ih =>
    have hc : Lapses c c' := by simpa only [hp] using hpoll c now
    have hslept := (lapses_runAll c' now).trans (lapses_sleep _ now wake)
    have htime := lt_sleep (c := c'.runAll now) (lt_of_waiting (by rw [hp])).1
    exact ⟨(hc.trans hslept).trans (head .receive ih.lapses),
      Nat.le_trans (Nat.le_of_lt htime) ih.le, ih.settled, ih.expired⟩
  | case4 c now wake c' hp hr ih =>
    have hc : Lapses c c' := by simpa only [hp] using hpoll c now
    exact ⟨(hc.trans (lapses_runAll c' now)).trans (head .receive ih.lapses), ih.le, ih.settled,
      ih.expired⟩

theorem settles_settle {now timeout time : Nat} {done : Bool}
    (h : c.settle now timeout = .ok (done, time, c')) :
    Settles c now (now + timeout) done time c' := by
  rw [settle, deadline] at h
  split at h
  · have hs := settles_settleFrom c now (now + timeout)
    rwa [show c.settleFrom now (now + timeout) = (done, time, c') from Except.ok.inj h] at hs
  · cases h

theorem steps_settle {now timeout time : Nat} {done : Bool}
    (h : c.settle now timeout = .ok (done, time, c')) : Steps c c' := (settles_settle h).lapses.steps

theorem deeds_cancelEvery (c : Crew) (now : Nat) :
    Deeds now (fun _ => True) c (c.cancelEvery now) := deeds_cancelAll c now fun _ _ => trivial

/-- A crew stops once all its handlers have ended, or it aborts what is left at the deadline. -/
theorem stop_cases {now n time : Nat} (h : c.stop now = .ok (n, time, c')) :
    ∃ done d, Settles (c.cancelEvery now) now (now + c.stopTimeout) done time d ∧
      c' = if done then d else (d.abortAll time).2 := by
  rw [stop] at h
  cases hs : (c.cancelEvery now).settle now c.stopTimeout with
  | error e =>
    rw [hs] at h
    cases h
  | ok r =>
    obtain ⟨done, t, d⟩ := r
    rw [hs] at h
    have hd := settles_settle hs
    cases done with
    | true =>
      cases h
      exact ⟨true, _, hd, rfl⟩
    | false =>
      cases h
      exact ⟨false, _, hd, rfl⟩

theorem steps_stop {now n time : Nat} (h : c.stop now = .ok (n, time, c')) : Steps c c' := by
  obtain ⟨done, d, hd, rfl⟩ := stop_cases h
  have hs := (deeds_cancelEvery c now).steps.trans hd.lapses.steps
  cases done with
  | true => exact hs
  | false => exact hs.tail (.abort _ none _)

end Roster.Crew
