import Roster.Proofs.Config
import Roster.Proofs.Scheduler.Departure
import Roster.Proofs.Scheduler.Mastery
import Roster.Scheduler.Timeline

/-! Shutting down under a configuration. A crew can be stopped, and its launch goes on to deregister
the worker, exactly if the clock has room for the stop timeout; a configuration may ask for more
than the clock ever has room for. -/

namespace Roster

theorem Phase.isOverdue_iff {now since timeout : Nat} (h : since ≤ now) :
    (stopping since).isOverdue now timeout = true ↔ timeout ≤ now - since := by
  rw [isOverdue, decide_eq_true_eq]
  omega

namespace Crew

variable {c : Crew} {now : Nat}

theorem stopTimeout_cancelEvery (c : Crew) (now : Nat) :
    (c.cancelEvery now).stopTimeout = c.stopTimeout :=
  (Deeds.steps (deeds_cancelEvery c now)).settings.2

theorem stop_of_le (h : clockEnd ≤ now + c.stopTimeout) : c.stop now = .error .deadline := by
  rw [stop, settle, Roster.deadline, if_neg (Nat.not_lt_of_le h)]
  rfl

/-- A crew that stops has no handler left and no task at work. -/
theorem exists_stop (hs : Staffed c) (h : now + c.stopTimeout < clockEnd) : ∃ n time d,
    c.stop now = .ok (n, time, d) ∧ d.handlers = .empty ∧ ∀ t ∈ d.tasks, t.isLive = false := by
  obtain ⟨done, time, d, hsettle, hstop⟩ := stop_of_lt h
  have hlapses := (settles_settleFrom (c.cancelEvery now) now (now + c.stopTimeout)).lapses
  rw [hsettle] at hlapses
  have hstaffed := hs.steps ((Deeds.steps (deeds_cancelEvery c now)).trans hlapses.steps)
  have hvacant := vacant_abortAll d time
  exact ⟨_, time, _, hstop, hvacant.handlers_eq,
    (hstaffed.abortWhere time none _).isLive_of_vacant hvacant⟩

end Crew

namespace Watch

variable {x : Watch} {i : ItemId} {g since stopTimeout : Nat}

/-- A cancellation on record is past, so how long ago it was can be told. -/
theorem Sound.since_le (h : Sound stopTimeout x)
    (he : x.crew.handlers.get? i = some ⟨g, .stopping since⟩) : since ≤ x.now := by
  obtain ⟨t, ht, -, hcancelled⟩ := h.dated.entered i _ he
  exact h.dated.past t (List.mem_of_getElem? ht) since hcancelled

end Watch

namespace Launch

variable {s : Scheduler} {b : Backend} {l l' : Launch} {now d : Nat}

/-! ### One launch -/

theorem beginStop_of_lt (h : now + l.crew.stopTimeout < clockEnd) :
    l.beginStop now =
      { l with crew := l.crew.cancelEvery now }.look now (now + l.crew.stopTimeout) := by
  simp only [beginStop, deadline, Crew.stopTimeout_cancelEvery, if_pos h]

theorem beginStop_of_le (h : clockEnd ≤ now + l.crew.stopTimeout) :
    (l.beginStop now).stage = .over (.broken .deadline) := by
  simp only [beginStop, deadline, Crew.stopTimeout_cancelEvery, if_neg (Nat.not_lt_of_le h)]

/-- The launch is being shut down, and waits for its crew until the deadline at the latest. -/
def Winding (d : Nat) (l : Launch) : Prop :=
  match l.stage with
  | .settling d' wake => d' = d ∧ wake ≤ d
  | .leaving | .over .stopped | .over (.failed _) => True
  | .registering | .electing | .running _ | .over (.broken _) => False

theorem Winding.stage_cases (h : l.Winding d) :
    (∃ wake ≤ d, l.stage = .settling d wake) ∨ l.stage = .leaving ∨
      ∃ close, l.stage = .over close := by
  unfold Winding at h
  split at h
  · next d' wake hl =>
    obtain ⟨rfl, hwake⟩ := h
    exact .inl ⟨wake, hwake, hl⟩
  · next hl => exact .inr (.inl hl)
  · next hl => exact .inr (.inr ⟨_, hl⟩)
  · next hl => exact .inr (.inr ⟨_, hl⟩)
  all_goals exact h.elim

theorem winding_look (l : Launch) (now d : Nat) : (l.look now d).Winding d := by
  unfold look
  split
  · exact trivial
  · exact trivial
  · next wake c hp => exact ⟨rfl, (Crew.le_of_waiting (by rw [hp])).1⟩

theorem Winding.unbroken (h : l.Winding d) (o : Overflow) : l.stage ≠ .over (.broken o) := by
  intro hl
  simp [Winding, hl] at h

/-- At the deadline nothing is waited for any longer. -/
theorem look_of_le (l : Launch) (h : d ≤ now) :
    ∃ c, l.look now d = { l with crew := c, stage := .leaving } := by
  unfold look
  split
  · exact ⟨_, rfl⟩
  · exact ⟨_, rfl⟩
  · next wake c hp =>
    have hlt := (Crew.lt_of_waiting (c := l.crew) (by rw [hp])).2
    omega

theorem Winding.turn (h : l.Winding d) (ht : Turn s l l' b) : l'.Winding d := by
  cases ht with
  | refused e o hl => simp [Winding, hl] at h
  | registered o hl hw => simp [Winding, hl] at h
  | unelected e o hl => simp [Winding, hl] at h
  | won o hl hw => simp [Winding, hl] at h
  | lost o hl hw => simp [Winding, hl] at h
  | passed time' hl => simp [Winding, hl] at h
  | stopped hl hc => simp [Winding, hl] at h
  | ticked time' hl => exact h
  | loopEnded hl hc => exact h
  | worked g => exact h
  | looked hl =>
    obtain ⟨rfl, -⟩ : _ = d ∧ _ := by simpa [Winding, hl] using h
    exact winding_look _ _ _
  | left o hl hloop => exact trivial
  | unregistered e o hl hloop => exact trivial

theorem Turn.worker_eq (ht : Turn s l l' b) : l'.worker = l.worker := by
  cases ht with
  | stopped hl hc => exact (beginStop_installed l s.now).1
  | looked hl => exact (look_installed _ s.now _).1
  | _ => rfl

theorem stopTimeout_look (l : Launch) (now d : Nat) :
    (l.look now d).crew.stopTimeout = l.crew.stopTimeout := by
  have hpoll := (Crew.lapses_poll l.crew now d).steps.settings.2
  unfold look
  split <;> (next hp => rw [hp] at hpoll; exact hpoll)

theorem Turn.stopTimeout_eq (ht : Turn s l l' b) : l'.crew.stopTimeout = l.crew.stopTimeout := by
  cases ht with
  | passed time' hl => exact (Crew.steps_reconcile ..).settings.2
  | stopped hl hc =>
    have hcancelled := Crew.stopTimeout_cancelEvery l.crew s.now
    simp only [beginStop]
    split
    · exact (stopTimeout_look _ s.now _).trans hcancelled
    · exact hcancelled
  | worked g => exact (Crew.Lapses.steps (.single (.task s.now g))).settings.2
  | looked hl =>
    have hreceived := (Crew.Lapses.steps (.single (.receive (c := l.crew)))).settings.2
    exact (stopTimeout_look _ s.now _).trans hreceived
  | _ => rfl

/-- A launch breaks off for nothing but a deadline that the clock has no room for. -/
theorem Turn.unbroken (ht : Turn s l l' b) (hroom : s.now + l.crew.stopTimeout < clockEnd)
    (h : ∀ o, l.stage ≠ .over (.broken o)) (o : Overflow) : l'.stage ≠ .over (.broken o) := by
  cases ht with
  | stopped hl hc =>
    rw [beginStop_of_lt hroom]
    exact (winding_look _ _ _).unbroken o
  | looked hl => exact (winding_look _ _ _).unbroken o
  | ticked time' hl => exact h o
  | loopEnded hl hc => exact h o
  | worked g => exact h o
  | _ => simp

end Launch

namespace Scheduler

variable {s : Scheduler} {l : Launch} {n d : Nat} {timing : Timing}

/-! ### Runs -/

theorem timing_act (s : Scheduler) (a : Act) : (s.act a).timing = s.timing := by
  cases a with
  | signal m value =>
    rw [act, signal]
    split
    · split <;> rfl
    · rfl
  | hangUp m =>
    rw [act, hangUp]
    split <;> rfl
  | job j =>
    rw [act]
    rcases s.perform_cases j with heq | ⟨m, l, -, ht⟩
    · rw [heq]
    · generalize s.perform j = s' at ht ⊢
      cases ht <;> rfl
  | _ => rfl

theorem now_le_act (s : Scheduler) (a : Act) : s.now ≤ (s.act a).now := by
  cases a with
  | signal m value =>
    rw [act, signal]
    split
    · split <;> exact Nat.le_refl _
    · exact Nat.le_refl _
  | hangUp m =>
    rw [act, hangUp]
    split <;> exact Nat.le_refl _
  | job j => exact Nat.le_of_eq (s.now_perform j).symm
  | sleep ms => exact Nat.le_add_right _ _
  | _ => exact Nat.le_refl _

/-- All crews have the stop timeout of the scheduler, and no launch has broken off as long as the
clock has room for it. -/
structure Timed (timing : Timing) (s : Scheduler) : Prop where
  timing_eq : s.timing = timing
  stopTimeout : ∀ (n : Nat) l, s.launches[n]? = some l → l.crew.stopTimeout = timing.stopTimeout
  unbroken : s.now + timing.stopTimeout < clockEnd → ∀ (n : Nat) l, s.launches[n]? = some l →
    ∀ o, l.stage ≠ .over (.broken o)

theorem timed_unlaunched (timing : Timing) (script : Script) (b : Backend) :
    Timed timing (unlaunched timing script b) where
  timing_eq := rfl
  stopTimeout := by simp [unlaunched]
  unbroken := by simp [unlaunched]

theorem Timed.act (h : Timed timing s) (a : Act) : Timed timing (s.act a) where
  timing_eq := (s.timing_act a).trans h.timing_eq
  stopTimeout := by
    intro n l' hn'
    obtain ⟨l, line, hn, rfl⟩ | ⟨w, -, rfl⟩ | ⟨l, hn, ht⟩ := s.act_cases a hn'
    · exact h.stopTimeout n l hn
    · exact congrArg Timing.stopTimeout h.timing_eq
    · exact ht.stopTimeout_eq.trans (h.stopTimeout n l hn)
  unbroken := by
    intro hroom n l' hn'
    have hbefore : s.now + timing.stopTimeout < clockEnd :=
      Nat.lt_of_le_of_lt (Nat.add_le_add_right (s.now_le_act a) _) hroom
    obtain ⟨l, line, hn, rfl⟩ | ⟨w, -, rfl⟩ | ⟨l, hn, ht⟩ := s.act_cases a hn'
    · exact h.unbroken hbefore n l hn
    · intro o
      simp [Launch.fresh]
    · exact ht.unbroken (by rwa [h.stopTimeout n l hn]) (h.unbroken hbefore n l hn)

theorem Timed.run (h : Timed timing s) (acts : List Act) : Timed timing (s.run acts) := by
  induction acts generalizing s with
  | nil => exact h
  | cons a acts ih => exact ih (h.act a)

/-- A launch that is being shut down goes on so. -/
theorem winding_run (hn : s.launches[n]? = some l) (h : l.Winding d) (acts : List Act) :
    ∃ l', (s.run acts).launches[n]? = some l' ∧ l'.Winding d ∧ l'.worker = l.worker := by
  induction acts generalizing s l with
  | nil => exact ⟨l, hn, h, rfl⟩
  | cons a acts ih =>
    obtain ⟨l', hn', ⟨line, rfl⟩ | ht⟩ := exists_act hn a
    · exact ih (l := { l with line }) hn' h
    · obtain ⟨k, hk, hwinding, hworker⟩ := ih hn' (h.turn ht)
      exact ⟨k, hk, hwinding, hworker.trans ht.worker_eq⟩

/-- The jobs by which a launch leaves when its time is up. -/
def farewell (n : Nat) : List Act := [.job (.look n), .job (.endLoop n), .job (.leave n)]

/-- These jobs take the worker `w` of launch `n` out of the registry, unless the call fails. -/
def Deregisters (s : Scheduler) (n : Nat) (w : WorkerId) : Prop :=
  ∃ l, (s.run (farewell n)).launches[n]? = some l ∧
    (l.stage = .over .stopped ∧ w ∉ (s.run (farewell n)).backend.registry.workers ∨
      ∃ e, (s.backend.deregisterWorker w).1 = .error e ∧ l.stage = .over (.failed e))

theorem getElem?_setLaunch_self (hn : s.launches[n]? = some l) (l' : Launch) :
    (s.setLaunch n l').launches[n]? = some l' :=
  List.getElem?_set_self (List.getElem?_eq_some_iff.1 hn).1

theorem setLaunch_self (hn : s.launches[n]? = some l) : s.setLaunch n l = s := by
  obtain ⟨hlt, rfl⟩ := List.getElem?_eq_some_iff.1 hn
  rw [setLaunch, List.set_getElem_self]

theorem exists_look (hn : s.launches[n]? = some l) (h : l.Winding d) (hd : d ≤ s.now)
    (hover : ∀ close, l.stage ≠ .over close) : ∃ c,
      s.perform (.look n) = s.setLaunch n { l with crew := c, stage := .leaving } := by
  obtain ⟨wake, hwake, hl⟩ | hl | ⟨close, hl⟩ := h.stage_cases
  · obtain ⟨c, hc⟩ := Launch.look_of_le { l with crew := l.crew.receive } hd
    have hawake : (!l.crew.reports.isEmpty || decide (wake ≤ s.now)) = true := by
      simp [Nat.le_trans hwake hd]
    simp only [perform, hn, look, hl, hawake, if_true]
    rw [hl] at hc
    exact ⟨c, by rw [hc]⟩
  · refine ⟨l.crew, ?_⟩
    simp only [perform, hn, look, hl]
    rw [← hl]
    exact (setLaunch_self hn).symm
  · exact absurd hl (hover close)

/-- The loop ends when the line closes, if there is one. -/
theorem exists_endLoop (hn : s.launches[n]? = some l) (hc : l.line.closes = true) : ∃ loop : Loop,
    loop.isLive = false ∧ s.perform (.endLoop n) = s.setLaunch n { l with loop } := by
  simp only [perform, hn, endLoop, hc, Bool.and_true]
  split
  · exact ⟨.over, rfl, rfl⟩
  · next hloop => exact ⟨l.loop, by simpa using hloop, (setLaunch_self hn).symm⟩

theorem exists_leave (hn : s.launches[n]? = some l) (hl : l.stage = .leaving)
    (hloop : l.loop.isLive = false) : ∃ l', (s.perform (.leave n)).launches[n]? = some l' ∧
      (l'.stage = .over .stopped ∧ l.worker ∉ (s.perform (.leave n)).backend.registry.workers ∨
        ∃ e, (s.backend.deregisterWorker l.worker).1 = .error e ∧
          l'.stage = .over (.failed e)) := by
  simp only [perform, hn, leave, hl, hloop, decide_true, Bool.not_false, Bool.and_self, if_true]
  have hlt := (List.getElem?_eq_some_iff.1 hn).1
  obtain ⟨o, hr | ⟨e, hr⟩⟩ := s.backend.deregisterWorker_cases l.worker
  · rw [hr]
    refine ⟨_, List.getElem?_set_self hlt, .inl ⟨rfl, fun hmem => ?_⟩⟩
    exact (OrderedSet.mem_erase.1 hmem).2 rfl
  · rw [hr]
    exact ⟨_, List.getElem?_set_self hlt, .inr ⟨e, rfl, rfl⟩⟩

theorem deregisters (hn : s.launches[n]? = some l) (h : l.Winding d) (hd : d ≤ s.now)
    (hc : l.line.closes = true) (hover : ∀ close, l.stage ≠ .over close) :
    s.Deregisters n l.worker := by
  obtain ⟨c, hlook⟩ := exists_look hn h hd hover
  have hn₁ := getElem?_setLaunch_self hn { l with crew := c, stage := .leaving }
  rw [← hlook] at hn₁
  obtain ⟨loop, hloop, hend⟩ := exists_endLoop hn₁ hc
  have hn₂ := getElem?_setLaunch_self hn₁ { l with crew := c, stage := .leaving, loop }
  rw [← hend] at hn₂
  have hbackend : ((s.perform (.look n)).perform (.endLoop n)).backend = s.backend := by
    rw [hend, hlook]
    rfl
  have hleave := exists_leave hn₂ rfl hloop
  rw [hbackend] at hleave
  exact hleave

theorem act_shutDown {time : Nat} (hn : s.launches[n]? = some l) (hl : l.stage = .running time)
    (hc : l.line.closes = true) :
    s.act (.job (.shutDown n)) = s.setLaunch n (l.beginStop s.now) := by
  simp only [act, perform, hn, shutDown, hl, hc, if_true]

/-- Once a launch has begun to shut down, nothing that goes on keeps it from deregistering its
worker when its turn comes after the deadline. -/
theorem leaves_after {time : Nat} (hn : s.launches[n]? = some l) (hl : l.stage = .running time)
    (hc : l.line.closes = true) (hroom : s.now + l.crew.stopTimeout < clockEnd) (more : List Act) :
    ∃ l', ((s.act (.job (.shutDown n))).run more).launches[n]? = some l' ∧
      (l'.stage = .over .stopped ∨ (∃ e, l'.stage = .over (.failed e)) ∨
        (∀ close, l'.stage ≠ .over close) ∧
          (s.now + l.crew.stopTimeout ≤ ((s.act (.job (.shutDown n))).run more).now →
            l'.line.closes = true →
              ((s.act (.job (.shutDown n))).run more).Deregisters n l.worker)) := by
  rw [act_shutDown hn hl hc]
  have hn' := getElem?_setLaunch_self hn (l.beginStop s.now)
  have hwinding : (l.beginStop s.now).Winding (s.now + l.crew.stopTimeout) := by
    rw [Launch.beginStop_of_lt hroom]
    exact Launch.winding_look _ _ _
  obtain ⟨l', hl', hwinding', hworker⟩ := winding_run hn' hwinding more
  rw [(Launch.beginStop_installed l s.now).1] at hworker
  refine ⟨l', hl', ?_⟩
  by_cases hover : ∀ close, l'.stage ≠ .over close
  · refine .inr (.inr ⟨hover, fun hd hc' => ?_⟩)
    rw [← hworker]
    exact deregisters hl' hwinding' hd hc' hover
  · simp only [not_forall, not_not] at hover
    obtain ⟨close, hclose⟩ := hover
    cases close with
    | stopped => exact .inl hclose
    | failed e => exact .inr (.inl ⟨e, hclose⟩)
    | broken o => exact absurd hclose (hwinding'.unbroken o)

/-! ### Configurations -/

/-- Under a configuration that is loaded from a stop timeout of `secs`, however a crew and its tasks
have gone on, every cancellation that it has on record is past, so that the time since then can be
told. If at the call the clock has room for the stop timeout, stopping the crew returns with no
handler left and no task at work; otherwise it breaks off. No launch of a scheduler has broken off
as long as there is room, and one that is told to shut down then has either ended, or deregisters
its worker as soon as the deadline has passed and its turn comes, whatever goes on in the meantime.
Without room it breaks off. -/
theorem shuts_down_in_range {lookup : String → Option String} {c : Config} {secs : Nat}
    (hload : Config.load lookup = .ok c) (hsecs : Config.Means lookup .stopTimeout secs) :
    (∀ (w : WorkerId) (acts : List Watch.Act),
      let x := (Watch.fresh w c.timing.stopTimeout).run acts
      x.dropped = false →
      (∀ i g since, x.crew.handlers.get? i = some ⟨g, .stopping since⟩ → since ≤ x.now ∧
        ((Phase.stopping since).isOverdue x.now (secs * 1000) = true ↔
          secs * 1000 ≤ x.now - since)) ∧
      (x.now + secs * 1000 < clockEnd → ∃ n time d, x.crew.stop x.now = .ok (n, time, d) ∧
        d.handlers = .empty ∧ ∀ t ∈ d.tasks, t.isLive = false) ∧
      (clockEnd ≤ x.now + secs * 1000 → x.crew.stop x.now = .error .deadline)) ∧
    ∀ (script : Script) (b : Backend) (acts : List Act) (n : Nat) (l : Launch),
      let s := (unlaunched c.timing script b).run acts
      s.launches[n]? = some l →
      (s.now + secs * 1000 < clockEnd → ∀ o, l.stage ≠ .over (.broken o)) ∧
      ∀ time, l.stage = .running time → l.line.closes = true →
        (s.now + secs * 1000 < clockEnd → ∀ more,
          let s' := (s.act (.job (.shutDown n))).run more
          ∃ l', s'.launches[n]? = some l' ∧ (l'.stage = .over .stopped ∨
            (∃ e, l'.stage = .over (.failed e)) ∨
            (∀ close, l'.stage ≠ .over close) ∧ (s.now + secs * 1000 ≤ s'.now →
              l'.line.closes = true → s'.Deregisters n l.worker))) ∧
        (clockEnd ≤ s.now + secs * 1000 → ∃ l',
          (s.act (.job (.shutDown n))).launches[n]? = some l' ∧
            l'.stage = .over (.broken .deadline)) := by
  have hstop : c.timing.stopTimeout = secs * 1000 := by
    have hc := (Config.load_eq_ok_iff.1 hload).2.stopTimeout
    rw [Config.timing, hc.unique hsecs]
  rw [hstop]
  refine ⟨fun w acts => ?_, fun script b acts n l => ?_⟩
  · intro x hx
    have hsound : Watch.Sound (secs * 1000) x := ((Watch.sound_fresh w _).run acts).1
    refine ⟨fun i g since he => ?_, fun hroom => ?_, fun hnone => ?_⟩
    · have hpast := hsound.since_le he
      exact ⟨hpast, Phase.isOverdue_iff hpast⟩
    · exact Crew.exists_stop (hsound.staffed hx) (by rwa [hsound.stopTimeout])
    · exact Crew.stop_of_le (by rwa [hsound.stopTimeout])
  · intro s hn
    have htimed : Timed c.timing s := (timed_unlaunched c.timing script b).run acts
    have htimeout := (htimed.stopTimeout n l hn).trans hstop
    rw [← htimeout]
    refine ⟨fun hroom => htimed.unbroken (by rwa [hstop, ← htimeout]) n l hn,
      fun time hl hc => ⟨fun hroom => leaves_after hn hl hc hroom, fun hnone => ?_⟩⟩
    rw [act_shutDown hn hl hc]
    exact ⟨_, getElem?_setLaunch_self hn _, Launch.beginStop_of_le hnone⟩

/-- A worker with a handler that never ends is told to shut down. -/
def retirement : List Act :=
  [.registerItem ⟨"qa", by decide⟩, .launch ⟨1⟩, .job (.register 0), .job (.elect 0),
    .job (.tick 0), .job (.pass 0), .job (.task 0 0), .signal 0 true]

def retiring (timing : Timing) : Scheduler :=
  (unlaunched timing ⟨[("qa", [.stubborn])]⟩ (.ofTable .empty)).run retirement

/-- The stop timeout as its variable's text, and nothing else. -/
def stopWithin (secs : String) (name : String) : Option String :=
  if name = "SUBDIST_STOP_TIMEOUT_SECS" then some secs else none

/-- What is loaded with a stop timeout only. -/
def stoppingWithin (secs : Nat) : Config :=
  ⟨"info", 1000, 1000, secs, 20, 2, some 1000, some 5000, 8⟩

theorem retiring_deregisters : Config.load (stopWithin "2") = .ok (stoppingWithin 2) ∧
    (((retiring (stoppingWithin 2).timing).act (.job (.shutDown 0))).run [.sleep 2000]).Deregisters
      0 ⟨1⟩ := by
  have hload : Config.load (stopWithin "2") = .ok (stoppingWithin 2) := by decide +kernel
  have hsecs : Config.Means (stopWithin "2") .stopTimeout 2 :=
    Config.readVariable_eq_ok_iff.1 (by decide +kernel)
  have hbefore : (retiring (stoppingWithin 2).timing).launches[0]?.map
      (fun l => (l.worker, l.stage, l.line.closes)) = some (⟨1⟩, .running 1000, true) := by
    decide +kernel
  have hafter : (((retiring (stoppingWithin 2).timing).act (.job (.shutDown 0))).run
      [.sleep 2000]).launches[0]?.map (fun l => (l.stage, l.line.closes)) =
        some (.settling 2000 50, true) := by decide +kernel
  obtain ⟨l, hn, hl⟩ := Option.map_eq_some_iff.1 hbefore
  simp only [Prod.mk.injEq] at hl
  obtain ⟨hworker, hstage, hcloses⟩ := hl
  obtain ⟨-, hlaunches⟩ := shuts_down_in_range hload hsecs
  obtain ⟨l', hn', hends⟩ := ((hlaunches _ _ _ 0 l hn).2 1000 hstage hcloses).1
    (by decide +kernel) [.sleep 2000]
  rw [retiring, hn', Option.map_some, Option.some.injEq, Prod.mk.injEq] at hafter
  obtain hstopped | ⟨e, hfailed⟩ | ⟨-, hleaves⟩ := hends
  · rw [hstopped] at hafter
    cases hafter.1
  · rw [hfailed] at hafter
    cases hafter.1
  · rw [← hworker]
    exact ⟨hload, hleaves (by decide +kernel) hafter.2⟩

/-- A launch that is told to shut down under the longest stop timeout. -/
def stranded : Scheduler :=
  (retiring (stoppingWithin 18446744073709551615).timing).act (.job (.shutDown 0))

/-- The longest stop timeout that is accepted is more than the clock has room for at any time: a
crew cannot be stopped, and a launch breaks off with its worker registered and a handler at work. -/
theorem longest_timeout_breaks_off :
    Config.load (stopWithin "18446744073709551615") = .ok (stoppingWithin 18446744073709551615) ∧
    (¬ ∀ lookup c, Config.load lookup = .ok c → ∀ w acts,
      let x := (Watch.fresh w c.timing.stopTimeout).run acts
      x.dropped = false → ∃ r, x.crew.stop x.now = .ok r) ∧
    stranded.launches.map (fun l => (l.stage, l.crew.liveCount)) =
      [(.over (.broken .deadline), 1)] ∧
    stranded.backend.registry.workers.toList = [⟨1⟩] := by
  have hload : Config.load (stopWithin "18446744073709551615") =
      .ok (stoppingWithin 18446744073709551615) := by decide +kernel
  refine ⟨hload, fun h => ?_, by decide +kernel, by decide +kernel⟩
  obtain ⟨r, hr⟩ := h _ _ hload ⟨1⟩ [] rfl
  have hnone : (Watch.fresh ⟨1⟩ (stoppingWithin 18446744073709551615).timing.stopTimeout).crew.stop
      0 = .error .deadline := Crew.stop_of_le (by decide +kernel)
  cases hnone.symm.trans hr

end Scheduler

end Roster
