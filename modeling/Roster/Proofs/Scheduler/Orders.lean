import Roster.Proofs.Crew.Reports
import Roster.Proofs.Scheduler.Shutdown

/-! Orders in which jobs are done. On the clock of a scheduler the handlers go on before a launch
that is stopping looks at its crew; a crew that is stopped on its own looks first. Either is one of
the runs in which the jobs may come in any order, so what holds of all runs holds of both. -/

namespace Roster

/-! ### Reports that come in time -/

theorem Task.hasReturned_finish {t : Task} {time : Nat} (h : t.reportDue = some time) :
    t.isLive = true ∧ (t.finish time).hasReturned = true := by
  unfold reportDue at h
  split at h
  · cases h
  · next hl =>
    split at h
    · next due hd =>
      cases h
      exact ⟨by simpa using hl, by simp [finish, hd, hasReturned]⟩
    · cases h

namespace Crew

variable {c : Crew} {t : Task} {r : Report} {now time g : Nat}

theorem mem_reports_runTask (h : r ∈ c.reports) (now g : Nat) :
    r ∈ (c.runTask now g).reports := by
  rw [runTask]
  split
  · exact h
  · dsimp only
    split
    · exact List.mem_append_left _ h
    · exact h

/-- A report that is in the queue stays there while tasks go on, and one comes from every task that
returns. -/
theorem mem_reports_foldl {gs : List Nat} (h : r ∈ c.reports ∨ r.generation ∈ gs ∧
    ∃ t, c.tasks[r.generation]? = some t ∧ t.item = r.item ∧ t.isLive = true ∧
      (t.run now).hasReturned = true) :
    r ∈ (gs.foldl (fun c g => c.runTask now g) c).reports := by
  induction gs generalizing c with
  | nil => exact h.resolve_right fun ⟨hg, _⟩ => List.not_mem_nil hg
  | cons g gs ih =>
    refine ih ?_
    obtain hr | ⟨hg, t, ht, hi, hl, hret⟩ := h
    · exact .inl (mem_reports_runTask hr now g)
    · by_cases hgr : g = r.generation
      · subst hgr
        rw [reports_runTask ht hl, if_pos hret, hi]
        exact .inl (List.mem_append_right _ List.mem_cons_self)
      · refine .inr ⟨(List.mem_cons.1 hg).resolve_left (Ne.symm hgr), t, ?_, hi, hl, hret⟩
        rwa [tasks_runTask, List.getElem?_modify_ne _ _ hgr]

/-- Once the tasks have gone on, the next report comes when it is expected. -/
theorem reports_of_nextReport (h : (c.runAll now).nextReport now = some time) :
    ((c.runAll now).runAll time).reports ≠ [] := by
  have hmem := (List.mem_filter.1 (List.min?_mem h)).1
  rw [tasks_runAll, List.filterMap_map, List.mem_filterMap] at hmem
  obtain ⟨t, ht, hdue⟩ := hmem
  obtain ⟨hl, hret⟩ := Task.hasReturned_finish hdue
  obtain ⟨g, hg⟩ := List.mem_iff_getElem?.1 ht
  have hget : (c.runAll now).tasks[g]? = some (t.run now) := by
    rw [tasks_runAll, List.getElem?_map, hg, Option.map_some]
  rw [← (Task.awake_run hl).1.run_eq hl] at hret
  refine List.ne_nil_of_mem (a := ⟨(t.run now).item, g⟩) ?_
  refine mem_reports_foldl (.inr ⟨mem_liveGenerations_iff.2 ?_, _, hget, rfl, hl, hret⟩)
  rw [isLive, hget, Option.any_some]
  exact hl

end Crew

namespace Launch

/-- How a launch is left when settling has come out as `r`. -/
def settled (l : Launch) (r : Bool × Nat × Crew) : Launch :=
  { l with crew := if r.1 then r.2.2 else (r.2.2.abortAll r.2.1).2, stage := .leaving }

theorem look_of_waiting {c c' : Crew} {now deadline wake : Nat} (l : Launch)
    (h : c.poll now deadline = (.waiting wake, c')) :
    { l with crew := c }.look now deadline =
      { l with crew := c', stage := .settling deadline wake } := by
  simp only [look, h]

end Launch

namespace Scheduler

variable {s s' s'' : Scheduler} {l : Launch} {n now time deadline wake : Nat} {p : Act → Prop}

/-! ### Runs of some acts -/

/-- Only acts that `p` holds of lead there. -/
def Reaches (p : Act → Prop) (s s' : Scheduler) : Prop :=
  ∃ acts, (∀ a ∈ acts, p a) ∧ s.run acts = s'

theorem Reaches.refl (p : Act → Prop) (s : Scheduler) : Reaches p s s := ⟨[], by simp, rfl⟩

theorem Reaches.trans (h : Reaches p s s') (h' : Reaches p s' s'') : Reaches p s s'' := by
  obtain ⟨acts, ha, rfl⟩ := h
  obtain ⟨acts', ha', rfl⟩ := h'
  refine ⟨acts ++ acts', fun a hmem => ?_, List.foldl_append⟩
  exact (List.mem_append.1 hmem).elim (ha a) (ha' a)

theorem Reaches.act {a : Act} (h : p a) (s : Scheduler) : Reaches p s (s.act a) :=
  ⟨[a], by simpa using h, rfl⟩

/-! ### The clock -/

/-- Nothing comes from outside: a job is done, or time goes by. -/
def Act.IsOwn : Act → Prop
  | .job _ | .sleep _ => True
  | _ => False

theorem reaches_performAll (s : Scheduler) (jobs : List Job) :
    Reaches Act.IsOwn s (s.performAll jobs) := by
  induction jobs generalizing s with
  | nil => exact .refl _ s
  | cons j jobs ih => exact (Reaches.act (a := .job j) trivial s).trans (ih (s.perform j))

theorem reaches_sweep (s : Scheduler) : Reaches Act.IsOwn s s.sweep :=
  ((reaches_performAll s _).trans (reaches_performAll _ _)).trans (reaches_performAll _ _)

theorem act_sleep_sub (h : s.now ≤ time) :
    s.act (.sleep (time - s.now)) = { s with now := time } := by
  rw [act, Nat.add_sub_cancel' h]

/-- What a scheduler does while its clock runs is one of its runs. -/
theorem reaches_advance (h : s.now ≤ time) : Reaches Act.IsOwn s (s.advance time) := by
  have sleep (s : Scheduler) (time : Nat) (h : s.now ≤ time) :
      Reaches Act.IsOwn s { s with now := time } := by
    rw [← act_sleep_sub h]
    exact .act trivial s
  fun_induction advance s time with
  | case1 s next hdue hle ih =>
    have hswept := ih (by rw [now_sweep]; exact hle)
    exact ((sleep s next (Nat.le_of_lt (lt_nextDue hdue))).trans (reaches_sweep _)).trans hswept
  | case2 s next hdue hle => exact sleep s time h
  | case3 s hdue => exact sleep s time h

/-! ### A crew that is stopped on its own -/

/-- Launch `n` lets a task go on or looks at its crew, or time goes by. -/
def Act.Awaits (n : Nat) : Act → Prop
  | .job (.task m _) | .job (.look m) => m = n
  | .sleep _ => True
  | _ => False

/-- Launch `n` has come to be `l` at the instant `time`, and nothing else has happened. -/
def comeTo (s : Scheduler) (n : Nat) (l : Launch) (time : Nat) : Scheduler :=
  { s.setLaunch n l with now := time }

theorem getElem?_comeTo (hn : n < s.launches.length) :
    (s.comeTo n l time).launches[n]? = some l := List.getElem?_set_self hn

theorem setLaunch_comeTo (l' : Launch) :
    (s.comeTo n l time).setLaunch n l' = s.comeTo n l' time := by
  simp only [comeTo, setLaunch, List.set_set]

theorem reaches_clock (s : Scheduler) (n : Nat) (l : Launch) (h : now ≤ time) :
    Reaches (Act.Awaits n) (s.comeTo n l now) (s.comeTo n l time) := by
  have hsleep : (s.comeTo n l now).act (.sleep (time - now)) = s.comeTo n l time := act_sleep_sub h
  rw [← hsleep]
  exact .act trivial _

theorem reaches_tasks (hn : n < s.launches.length) (l : Launch) (time : Nat) (gs : List Nat) :
    Reaches (Act.Awaits n) (s.comeTo n l time)
      (s.comeTo n { l with crew := gs.foldl (fun c g => c.runTask time g) l.crew } time) := by
  induction gs generalizing l with
  | nil => exact .refl _ _
  | cons g gs ih =>
    have htask : (s.comeTo n l time).act (.job (.task n g)) =
        s.comeTo n { l with crew := l.crew.runTask time g } time := by
      simp only [act, perform, getElem?_comeTo hn, setLaunch_comeTo]
      rfl
    have hfirst := Reaches.act (p := Act.Awaits n) (a := .job (.task n g)) rfl (s.comeTo n l time)
    rw [htask] at hfirst
    exact hfirst.trans (ih { l with crew := l.crew.runTask time g })

/-- Time goes by, and then the tasks go on. -/
theorem reaches_runAll (hn : n < s.launches.length) (l : Launch) (h : now ≤ time) :
    Reaches (Act.Awaits n) (s.comeTo n l now)
      (s.comeTo n { l with crew := l.crew.runAll time } time) :=
  (reaches_clock s n l h).trans (reaches_tasks hn l time l.crew.liveGenerations)

/-- A launch looks at its crew if there is a report or its time has come. -/
theorem reaches_look (hn : n < s.launches.length) (hl : l.stage = .settling deadline wake)
    (h : l.crew.reports ≠ [] ∨ wake ≤ time) :
    Reaches (Act.Awaits n) (s.comeTo n l time)
      (s.comeTo n ({ l with crew := l.crew.receive }.look time deadline) time) := by
  have hawake : (!l.crew.reports.isEmpty || decide (wake ≤ (s.comeTo n l time).now)) = true := by
    rw [Bool.or_eq_true, Bool.not_eq_true', List.isEmpty_eq_false_iff, decide_eq_true_iff]
    exact h
  have hlook : (s.comeTo n l time).act (.job (.look n)) =
      s.comeTo n ({ l with crew := l.crew.receive }.look time deadline) time := by
    simp only [act, perform, getElem?_comeTo hn, look, hl, hawake, if_true, setLaunch_comeTo]
    rfl
  rw [← hlook]
  exact Reaches.act (p := Act.Awaits n) (a := .job (.look n)) rfl _

/-- A launch that is waiting can sleep as its crew does on its own. -/
theorem reaches_sleep (hn : n < s.launches.length) (hl : l.stage = .settling deadline wake)
    (hnow : now < wake)
    (hnext : ∀ due, l.crew.nextReport now = some due → (l.crew.runAll due).reports ≠ []) :
    Reaches (Act.Awaits n) (s.comeTo n l now)
      (s.comeTo n ({ l with crew := (l.crew.sleep now wake).2.receive }.look
        (l.crew.sleep now wake).1 deadline) (l.crew.sleep now wake).1) := by
  -- No report comes in time: the tasks of the last instant have yet to go on.
  have upTo : Reaches (Act.Awaits n) (s.comeTo n l now)
      (s.comeTo n ({ l with crew := (l.crew.runAll (wake - 1)).receive }.look wake deadline)
        wake) := by
    have hbefore : now ≤ wake - 1 := by omega
    have hwork := reaches_runAll (s := s) hn l hbefore
    have hsleep := reaches_clock s n { l with crew := l.crew.runAll (wake - 1) } (Nat.sub_le wake 1)
    exact (hwork.trans hsleep).trans (reaches_look hn hl (.inr (Nat.le_refl wake)))
  obtain ⟨due, hdue, -, heq⟩ | heq := l.crew.sleep_cases now wake <;> rw [heq]
  · have hwork := reaches_runAll (s := s) hn l (Nat.le_of_lt (Crew.lt_of_nextReport hdue))
    exact hwork.trans (reaches_look hn hl (.inl (hnext due hdue)))
  · exact upTo

/-- A launch can settle as its crew does on its own: each of its looks is followed by what comes
between two looks of the crew. -/
theorem reaches_settleFrom (hn : n < s.launches.length) (l : Launch) (c : Crew)
    (now deadline : Nat) :
    Reaches (Act.Awaits n) (s.comeTo n ({ l with crew := c }.look now deadline) now)
      (s.comeTo n (l.settled (c.settleFrom now deadline)) (c.settleFrom now deadline).2.1) := by
  fun_induction Crew.settleFrom c now deadline with
  | case1 c now c' hp =>
    have hlook : { l with crew := c }.look now deadline = l.settled (true, now, c') := by
      simp only [Launch.look, hp]
      rfl
    rw [hlook]
    exact .refl _ _
  | case2 c now c' hp =>
    have hlook : { l with crew := c }.look now deadline = l.settled (false, now, c') := by
      simp only [Launch.look, hp]
      rfl
    rw [hlook]
    exact .refl _ _
  | case3 c now wake c' hp hr ih =>
    have hwait : (c.poll now deadline).1 = .waiting wake := by rw [hp]
    have hwork := reaches_runAll (s := s) hn
      { l with crew := c', stage := .settling deadline wake } (Nat.le_refl now)
    have hsleep := reaches_sleep (s := s) hn
      (l := { l with crew := c'.runAll now, stage := .settling deadline wake }) rfl
      (Crew.lt_of_waiting hwait).1 fun due => Crew.reports_of_nextReport
    rw [l.look_of_waiting hp]
    exact (hwork.trans hsleep).trans ih
  | case4 c now wake c' hp hr ih =>
    have hwork := reaches_runAll (s := s) hn
      { l with crew := c', stage := .settling deadline wake } (Nat.le_refl now)
    rw [l.look_of_waiting hp]
    exact hwork.trans ((reaches_look hn rfl (.inl hr)).trans ih)

/-- What becomes of a crew that is stopped on its own can become of the crew of a launch that is
told to shut down: if its jobs come in some order, the launch is left with the same crew at the same
time, and nothing else has changed. Where the one breaks off, so does the other. -/
theorem shutDown_reaches_stop {due : Nat} (hn : s.launches[n]? = some l)
    (hl : l.stage = .running due) (hc : l.line.closes = true) :
    match l.crew.stop s.now with
    | .ok (_, time, c) => Reaches (Act.Awaits n) (s.act (.job (.shutDown n)))
        (s.comeTo n { l with crew := c, stage := .leaving } time)
    | .error o => s.act (.job (.shutDown n)) = s.setLaunch n
        { l with
          crew := (l.crew.cancelEvery s.now).disband s.now
          stage := .over (.broken o) } := by
  have hlt := (List.getElem?_eq_some_iff.1 hn).1
  rw [act_shutDown hn hl hc]
  by_cases hroom : s.now + l.crew.stopTimeout < clockEnd
  · rw [Launch.beginStop_of_lt hroom, Crew.stop, Crew.settle_of_lt hroom]
    have hsettle := reaches_settleFrom (s := s) hlt l (l.crew.cancelEvery s.now) s.now
      (s.now + l.crew.stopTimeout)
    generalize (l.crew.cancelEvery s.now).settleFrom s.now (s.now + l.crew.stopTimeout) = r
      at hsettle ⊢
    obtain ⟨done, time, c⟩ := r
    cases done <;> exact hsettle
  · rw [Crew.stop_of_le (Nat.le_of_not_lt hroom)]
    simp only [Launch.beginStop, deadline, Crew.stopTimeout_cancelEvery, if_neg hroom]

/-- A handler that takes as long to stop as it may is due just when it would be aborted. -/
def punctual : Scheduler :=
  (unlaunched ⟨1000, 1000, 100⟩ ⟨[("qa", [.stopsSlowly 100])]⟩ (.ofTable .empty)).run
    (retirement ++ [.job (.shutDown 0), .job (.task 0 0), .sleep 100])

/-- Whether it returns or is aborted hangs on which job comes first. -/
example :
    (punctual.run [.job (.task 0 0), .job (.look 0)]).launches.map
      (fun l => l.crew.tasks.map (·.outcome)) = [[some (.ended 100 .returned)]] ∧
    (punctual.run [.job (.look 0), .job (.task 0 0)]).launches.map
      (fun l => l.crew.tasks.map (·.outcome)) = [[some (.aborted 100)]] := by
  decide +kernel

end Scheduler

end Roster
