import Roster.Proofs.Crew.Watch

/-! The books of a crew. An entry comes when a handler is started and goes when its exit is
collected or it is aborted, and each departure is logged once; so the handlers that were started are
those that have been collected, those that have been aborted, and those that still have entries. -/

namespace Roster

namespace Log.Event

/-- A handler was found to have ended. -/
def isExit : Event → Bool
  | exitedWhileRunning .. | stopped .. | endedUnreported .. => true
  | _ => false

def isAbort : Event → Bool
  | forceAborted .. => true
  | _ => false

end Log.Event

namespace Crew

variable {c c' c'' : Crew} {i : ItemId} {now time n : Nat} {is : List ItemId}
  {s x a s' x' a' : Nat} {q : ItemId → Entry → Bool}

/-- Exits that have been collected. -/
def exitCount (c : Crew) : Nat := c.log.countP (·.isExit)

/-- Handlers that have been aborted. -/
def abortCount (c : Crew) : Nat := c.log.countP (·.isAbort)

/-- From `c` to `c'` so many handlers have been started, so many collected as exited and so many
aborted, and there is no other way in which entries have come or gone. -/
structure Books (c c' : Crew) (started exited aborted : Nat) : Prop where
  tasks : c'.tasks.length = c.tasks.length + started
  exits : c'.exitCount = c.exitCount + exited
  aborts : c'.abortCount = c.abortCount + aborted
  entries : c'.handlerCount + exited + aborted = c.handlerCount + started

/-- All handlers that were ever started are accounted for. -/
def Balanced (c : Crew) : Prop :=
  c.tasks.length = c.exitCount + c.abortCount + c.handlerCount

theorem Books.balanced (h : Books c c' s x a) (hc : Balanced c) : Balanced c' := by
  obtain ⟨hs, hx, ha, hk⟩ := h
  rw [Balanced] at *
  omega

theorem Books.trans (h : Books c c' s x a) (h' : Books c' c'' s' x' a') :
    Books c c'' (s + s') (x + x') (a + a') := by
  obtain ⟨hs, hx, ha, hk⟩ := h
  obtain ⟨hs', hx', ha', hk'⟩ := h'
  constructor <;> omega

/-- Where nothing is started, aborted or logged, and no entry comes or goes. -/
theorem books_of_same (ht : c'.tasks.length = c.tasks.length) (hl : c'.log = c.log)
    (hh : c'.handlerCount = c.handlerCount) : Books c c' 0 0 0 := by
  refine ⟨ht, ?_, ?_, hh⟩
  · rw [exitCount, exitCount, hl]
    rfl
  · rw [abortCount, abortCount, hl]
    rfl

theorem Books.refl (c : Crew) : Books c c 0 0 0 := books_of_same rfl rfl rfl

/-! ### Tasks at work -/

theorem books_runTask (c : Crew) (now g : Nat) : Books c (c.runTask now g) 0 0 0 := by
  rw [runTask]
  split
  · exact .refl c
  · exact books_of_same List.length_set rfl rfl

theorem books_runAll (c : Crew) (now : Nat) : Books c (c.runAll now) 0 0 0 := by
  rw [runAll]
  generalize c.liveGenerations = gs
  induction gs generalizing c with
  | nil => exact .refl c
  | cons g gs ih => exact (books_runTask c now g).trans (ih (c.runTask now g))

theorem books_sleep (c : Crew) (now wake : Nat) : Books c (c.sleep now wake).2 0 0 0 := by
  obtain ⟨last, hrun, -⟩ := c.exists_runAll_sleep now wake
  rw [hrun]
  exact books_runAll c last

/-! ### Exits -/

/-- A report that removes an entry is logged as an exit, and one that does not is not logged. -/
theorem books_onExit (c : Crew) (r : Report) :
    Books c (c.onExit r).2 0 (c.onExit r).1.toNat 0 := by
  obtain ⟨e, he, -, heq⟩ | ⟨-, heq⟩ := c.onExit_cases r <;> rw [heq]
  · refine ⟨rfl, ?_, ?_, OrderedMap.size_erase he⟩
    · rw [exitCount, List.countP_append]
      cases e.phase <;> rfl
    · rw [abortCount, List.countP_append]
      cases e.phase <;> rfl
  · exact .refl c

theorem books_onExits (c : Crew) (rs : List Report) :
    Books c (c.onExits rs).2 0 (c.onExits rs).1 0 := by
  induction rs generalizing c with
  | nil => exact .refl c
  | cons r rs ih =>
    have h := (books_onExit c r).trans (ih (c.onExit r).2)
    rwa [Nat.add_comm (c.onExit r).1.toNat] at h

/-- What is in the queue does not show in the books. -/
theorem Books.of_reports {rs : List Report} (h : Books { c with reports := rs } c' s x a) :
    Books c c' s x a :=
  ⟨h.tasks, h.exits, h.aborts, h.entries⟩

theorem books_receive (c : Crew) : ∃ n, n ≤ 1 ∧ Books c c.receive 0 n 0 := by
  rw [receive]
  split
  · exact ⟨0, Nat.zero_le 1, .refl c⟩
  · next r rs hrs =>
    exact ⟨_, Bool.toNat_le _, (books_onExit { c with reports := rs } r).of_reports⟩

theorem countP_map_eq {p : Log.Event → Bool} {f : ItemId → Log.Event} {b : Bool}
    (h : ∀ i, p (f i) = b) (is : List ItemId) :
    (is.map f).countP p = if b then is.length else 0 := by
  rw [List.countP_map, show p ∘ f = fun _ => b from funext h]
  cases b
  · exact congrFun List.countP_false is
  · exact congrFun List.countP_true is

/-- Entries that leave together are logged as departures of one kind. -/
theorem countP_log_of_gone {p : Log.Event → Bool} {f : ItemId → Log.Event} {b : Bool}
    (hl : c'.log = c.log ++ (c.handlers.filter q).keys.map f) (h : ∀ i, p (f i) = b) :
    c'.log.countP p = c.log.countP p + if b then (c.handlers.filter q).size else 0 := by
  rw [hl, List.countP_append, countP_map_eq h, OrderedMap.keys, List.length_map, OrderedMap.size]

theorem books_drain (c : Crew) : Books c c.drain.2 0 c.drain.1 0 :=
  (books_onExits { c with reports := [] } c.reports).of_reports

/-- Collecting counts the entries that it removes. -/
theorem books_collectExits (c : Crew) :
    Books c c.collectExits.2 0 c.collectExits.1.total 0 := by
  have hsilent : Books c.drain.2 c.collectExits.2 0 c.drain.2.ended.size 0 := by
    have hlog : c.collectExits.2.log =
        c.drain.2.log ++ c.drain.2.ended.keys.map (.endedUnreported c.drain.2.worker) := by
      rw [collectExits_eq]
    refine ⟨rfl, countP_log_of_gone (p := (·.isExit)) (b := true) hlog fun _ => rfl,
      countP_log_of_gone (p := (·.isAbort)) (b := false) hlog fun _ => rfl, ?_⟩
    rw [collectExits_eq]
    exact OrderedMap.size_filter_add c.drain.2.handlers fun _ e => c.drain.2.isLive e.generation
  rw [collectExits_eq] at hsilent ⊢
  exact (books_drain c).trans hsilent

theorem books_poll (c : Crew) (now deadline : Nat) :
    Books c (c.poll now deadline).2 0 c.collectExits.1.total 0 := by
  rw [poll_snd]
  exact books_collectExits c

/-- Who is aborted is logged as such, and counted. -/
theorem books_abortWhere (c : Crew) (now : Nat) (timeout : Option Nat) (p : Entry → Bool) :
    Books c (c.abortWhere now timeout p).2 0 0 (c.abortWhere now timeout p).1 := by
  have hlog : (c.abortWhere now timeout p).2.log =
      c.log ++ (c.handlers.filter fun _ e => p e).keys.map (.forceAborted c.worker · timeout) := rfl
  have hsize := OrderedMap.size_filter_add c.handlers fun _ e => p e
  refine ⟨?_, countP_log_of_gone (p := (·.isExit)) (b := false) hlog fun _ => rfl,
    countP_log_of_gone (p := (·.isAbort)) (b := true) hlog fun _ => rfl,
    (Nat.add_comm _ _).trans hsize⟩
  exact (ages_abortTasks c.tasks now _).length

/-! ### Passes -/

theorem books_start (b : Behaviour) (h : c.handlers.get? i = none) :
    Books c (c.start i b) 1 0 0 :=
  ⟨List.length_append, rfl, rfl, OrderedMap.size_insert_of_none _ h⟩

/-- Each item that had no entry is started once. -/
theorem books_startAll (hn : is.Nodup) (h : ∀ i ∈ is, c.handlers.get? i = none)
    (behaviour : ItemId → Behaviour) : Books c (c.startAll behaviour is) is.length 0 0 := by
  induction is generalizing c with
  | nil => exact .refl c
  | cons i is ih =>
    obtain ⟨hi, hn⟩ := List.nodup_cons.1 hn
    have hrest : ∀ j ∈ is, (c.start i (behaviour i)).handlers.get? j = none := by
      intro j hj
      have hne : j ≠ i := fun h => hi (h ▸ hj)
      rw [start, OrderedMap.get?_insert, if_neg hne]
      exact h j (.tail i hj)
    have hall := (books_start (behaviour i) (h i List.mem_cons_self)).trans (ih hn hrest)
    rwa [Nat.add_comm 1] at hall

theorem books_cancel (c : Crew) (now : Nat) (i : ItemId) : Books c (c.cancel now i).2 0 0 0 := by
  rw [cancel]
  split
  · next g hg =>
    exact books_of_same (List.length_modify ..) rfl (OrderedMap.size_insert_of_some _ hg)
  · exact .refl c

theorem books_cancelAll (c : Crew) (now : Nat) (is : List ItemId) :
    Books c (c.cancelAll now is).2 0 0 0 := by
  induction is generalizing c with
  | nil => exact .refl c
  | cons i is ih => exact (books_cancel c now i).trans (ih (c.cancel now i).2)

theorem books_follow (c : Crew) (now : Nat) (desired : List ItemId)
    (behaviour : ItemId → Behaviour) : Books c (c.follow now desired behaviour).2.2
      (Diff.between desired c.handlers.keys).toStart.length 0 0 := by
  refine (books_startAll (OrderedSet.nodup _) (fun i hi => ?_) behaviour).trans
    (books_cancelAll _ now _)
  exact not_mem_keys_iff.1 (Diff.mem_toStart_iff.1 hi).2

theorem books_swept (c : Crew) (now : Nat) : Books c (c.swept now) 0 c.collectExits.1.total
    (c.collectExits.2.abortOverdue now).1 := by
  have habort : Books c.collectExits.2 (c.swept now) 0 0 (c.collectExits.2.abortOverdue now).1 :=
    books_abortWhere c.collectExits.2 now _ _
  simpa only [Nat.zero_add, Nat.add_zero] using (books_collectExits c).trans habort

/-- A pass that returns says what it has done. -/
theorem books_reconcile {desired : List ItemId} {behaviour : ItemId → Behaviour} {p : Pass}
    (h : (c.reconcile now (.ok desired) behaviour).1 = .ok p) :
    Books c (c.reconcile now (.ok desired) behaviour).2 p.started p.removed p.aborted := by
  have hbooks := (books_swept c now).trans (books_follow (c.swept now) now desired behaviour)
  rw [Nat.zero_add] at hbooks
  cases h
  exact hbooks

/-! ### Settling and stopping -/

/-- While a crew settles, nothing is started or aborted. -/
theorem books_settleFrom (c : Crew) (now deadline : Nat) :
    ∃ n, Books c (c.settleFrom now deadline).2.2 0 n 0 := by
  have hpoll := fun c now => books_poll c now deadline
  fun_induction settleFrom c now deadline with
  | case1 c now c' hp => exact ⟨_, by simpa only [hp] using hpoll c now⟩
  | case2 c now c' hp => exact ⟨_, by simpa only [hp] using hpoll c now⟩
  | case3 c now wake c' hp hr ih =>
    have hc : Books c c' 0 c.collectExits.1.total 0 := by simpa only [hp] using hpoll c now
    have hslept := (books_runAll c' now).trans (books_sleep _ now wake)
    obtain ⟨m, -, hreceived⟩ := books_receive ((c'.runAll now).sleep now wake).2
    obtain ⟨n, hrest⟩ := ih
    exact ⟨_, (hc.trans hslept).trans (hreceived.trans hrest)⟩
  | case4 c now wake c' hp hr ih =>
    have hc : Books c c' 0 c.collectExits.1.total 0 := by simpa only [hp] using hpoll c now
    obtain ⟨m, -, hreceived⟩ := books_receive (c'.runAll now)
    obtain ⟨n, hrest⟩ := ih
    exact ⟨_, (hc.trans (books_runAll c' now)).trans (hreceived.trans hrest)⟩

theorem books_settle {timeout : Nat} {done : Bool}
    (h : c.settle now timeout = .ok (done, time, c')) : ∃ n, Books c c' 0 n 0 := by
  rw [settle, deadline] at h
  split at h
  · have hbooks := books_settleFrom c now (now + timeout)
    rwa [show c.settleFrom now (now + timeout) = (done, time, c') from Except.ok.inj h] at hbooks
  · cases h

/-- A crew that stops counts whom it aborts. -/
theorem books_stop (h : c.stop now = .ok (n, time, c')) : ∃ m, Books c c' 0 m n := by
  have hcancel : Books c (c.cancelEvery now) 0 0 0 := books_cancelAll c now _
  rw [stop] at h
  cases hs : (c.cancelEvery now).settle now c.stopTimeout with
  | error e =>
    rw [hs] at h
    cases h
  | ok r =>
    obtain ⟨done, t, d⟩ := r
    rw [hs] at h
    obtain ⟨m, hd⟩ := books_settle hs
    have hbooks : Books c d 0 m 0 := by simpa only [Nat.zero_add] using hcancel.trans hd
    cases done with
    | true =>
      cases h
      exact ⟨m, hbooks⟩
    | false =>
      have hall := hbooks.trans (books_abortWhere d t none fun _ => true)
      rw [Nat.zero_add (d.abortWhere t none fun _ => true).1] at hall
      cases h
      exact ⟨m, hall⟩

end Crew

/-! ### Runs -/

namespace Watch

open Crew (Books Balanced)

variable {x : Watch} {a : Act} {acts : List Act}

/-- Once a crew is dropped it stays so. -/
theorem dropped_of_act (h : (x.act a).dropped = false) : x.dropped = false := by
  cases a with
  | request r =>
    rw [act] at h
    split at h
    · exact h
    · next hx => exact Bool.eq_false_iff.2 hx
  | task g => exact h
  | sleep ms => exact h

/-- Whatever is asked of a crew, its books are kept. -/
theorem books_act (h : (x.act a).dropped = false) :
    ∃ started exited aborted, Books x.crew (x.act a).crew started exited aborted := by
  have hx := dropped_of_act h
  cases a with
  | request r =>
    rw [act, if_neg (Bool.eq_false_iff.1 hx)] at h ⊢
    cases r with
    | reconcile read behaviour =>
      cases read with
      | error e => exact ⟨_, _, _, Crew.books_swept x.crew x.now⟩
      | ok desired => exact ⟨_, _, _, Crew.books_reconcile rfl⟩
    | settle timeout =>
      rw [serve]
      split
      · next done time c hc =>
        obtain ⟨n, hn⟩ := Crew.books_settle hc
        exact ⟨0, n, 0, hn⟩
      · exact ⟨0, 0, 0, .refl x.crew⟩
    | stop =>
      rw [serve]
      split
      · next n time c hc =>
        obtain ⟨m, hm⟩ := Crew.books_stop hc
        exact ⟨0, m, n, hm⟩
      · exact ⟨0, 0, 0, Crew.books_cancelAll x.crew x.now _⟩
    | drop => cases h
  | task g => exact ⟨0, 0, 0, Crew.books_runTask x.crew x.now g⟩
  | sleep ms => exact ⟨0, 0, 0, .refl x.crew⟩

theorem balanced_run (w : WorkerId) (stopTimeout : Nat)
    (h : ((fresh w stopTimeout).run acts).dropped = false) :
    Balanced ((fresh w stopTimeout).run acts).crew := by
  induction acts using List.reverseRecOn with
  | nil => rfl
  | append_singleton as a ih =>
    rw [run_concat] at h ⊢
    obtain ⟨s, x, n, hbooks⟩ := books_act h
    exact hbooks.balanced (ih (dropped_of_act h))

end Watch

end Roster
