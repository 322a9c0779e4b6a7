import Roster.Proofs.Crew.Stopping
import Roster.Proofs.Scheduler.Turns

/-! How a launch ends. A crew that is being stopped has only entries that are stopping, so once none
of those is left, or all that are left have been aborted, no task is live; the loop is over before
the worker is deregistered; and a launch that has stopped stays as it is. -/

namespace Roster

namespace Crew

variable {c : Crew}

theorem runTask_of_not_isLive (h : ∀ t ∈ c.tasks, t.isLive = false) (now g : Nat) :
    c.runTask now g = c := by
  refine runTask_eq_self (Bool.eq_false_iff.2 fun hl => ?_) now
  rw [isLive, Option.any_eq_true] at hl
  obtain ⟨t, ht, hl⟩ := hl
  exact Bool.eq_false_iff.1 (h t (List.mem_of_getElem? ht)) hl

end Crew

namespace Launch

variable {s : Scheduler} {b : Backend} {l l' : Launch}

/-- What is known of the crew at each stage. A launch that breaks off leaves tasks behind. -/
def Tended (l : Launch) : Prop :=
  match l.stage with
  | .running _ => l.crew.Staffed
  | .settling .. => l.crew.Staffed ∧ l.crew.Closing
  | .over (.broken _) => True
  | .registering | .electing | .leaving | .over .stopped | .over (.failed _) =>
    l.crew.Staffed ∧ l.crew.Vacant

theorem tended_fresh (w : WorkerId) (stopTimeout : Nat) : Tended (fresh w stopTimeout) :=
  ⟨.fresh w stopTimeout, fun _ => rfl⟩

/-- A look at a crew that is closing finds it vacant, or makes it so, or goes on waiting. -/
theorem tended_look (hs : l.crew.Staffed) (hc : l.crew.Closing) (now deadline : Nat) :
    Tended (l.look now deadline) := by
  have hlapses := Crew.lapses_poll l.crew now deadline
  have hsettled : (l.crew.poll now deadline).1 = .settled → _ := Crew.hasStopping_of_settled
  unfold look
  split
  · next c hp =>
    rw [hp] at hlapses hsettled
    exact ⟨hs.steps hlapses.steps, (hc.lapses hlapses).vacant (hsettled rfl)⟩
  · next c hp =>
    rw [hp] at hlapses
    exact ⟨(hs.steps hlapses.steps).abortWhere now none _, Crew.vacant_abortAll c now⟩
  · next wake c hp =>
    rw [hp] at hlapses
    exact ⟨hs.steps hlapses.steps, hc.lapses hlapses⟩

theorem tended_beginStop (hs : l.crew.Staffed) (now : Nat) : Tended (l.beginStop now) := by
  have hstaffed := hs.steps (Crew.Deeds.steps (Crew.deeds_cancelEvery l.crew now))
  simp only [beginStop]
  split
  · exact tended_look hstaffed (fun _ _ he => Crew.isStopping_cancelEvery he) now _
  · exact trivial

/-- A task that goes on leaves all entries as they are. -/
theorem Tended.runTask (h : l.Tended) (now g : Nat) :
    Tended { l with crew := l.crew.runTask now g } := by
  have hvacant (hv : l.crew.Vacant) : (l.crew.runTask now g).Vacant := by
    intro i
    rw [Crew.handlers_runTask]
    exact hv i
  unfold Tended at h ⊢
  dsimp only
  split at h
  · exact h.runTask now g
  · exact ⟨h.1.runTask now g, h.2.lapses (.single (.task now g))⟩
  · exact trivial
  all_goals exact ⟨h.1.runTask now g, hvacant h.2⟩

theorem Tended.turn (h : l.Tended) (ht : Turn s l l' b) : l'.Tended := by
  cases ht with
  | refused e o hl => simpa [Tended, hl] using h
  | registered o hl hw => simpa [Tended, hl] using h
  | unelected e o hl => simpa [Tended, hl] using h
  | won o hl hw =>
    have hstaffed : l.crew.Staffed ∧ l.crew.Vacant := by simpa [Tended, hl] using h
    exact hstaffed.1
  | lost o hl hw =>
    have hstaffed : l.crew.Staffed ∧ l.crew.Vacant := by simpa [Tended, hl] using h
    exact hstaffed.1
  | passed time' hl =>
    have hstaffed : l.crew.Staffed := by simpa [Tended, hl] using h
    exact hstaffed.steps (Crew.steps_reconcile ..)
  | ticked time' hl => exact h
  | loopEnded hl hc => exact h
  | stopped hl hc =>
    have hstaffed : l.crew.Staffed := by simpa [Tended, hl] using h
    exact tended_beginStop hstaffed s.now
  | worked g => exact h.runTask s.now g
  | looked hl =>
    obtain ⟨hstaffed, hclosing⟩ : l.crew.Staffed ∧ l.crew.Closing := by
      simpa [Tended, hl] using h
    exact tended_look hstaffed.receive (hclosing.lapses (.single .receive)) s.now _
  | left o hl hloop => simpa [Tended, hl] using h
  | unregistered e o hl hloop => simpa [Tended, hl] using h

end Launch

namespace Scheduler

variable {s : Scheduler} {l l' : Launch} {n : Nat}

/-! ### One act -/

/-- What a launch comes from: itself, but for its line; nothing; or itself before a turn. -/
theorem act_cases (s : Scheduler) (a : Act) (hn : (s.act a).launches[n]? = some l') :
    (∃ l line, s.launches[n]? = some l ∧ l' = { l with line }) ∨
    (∃ w, s.launches[n]? = none ∧ l' = .fresh w s.timing.stopTimeout) ∨
    ∃ l, s.launches[n]? = some l ∧ l.Turn s l' (s.act a).backend := by
  have same (hn : s.launches[n]? = some l') :
      ∃ l line, s.launches[n]? = some l ∧ l' = { l with line } := ⟨l', l'.line, hn, rfl⟩
  have lined {m : Nat} {l : Launch} {line : Line} (hm : s.launches[m]? = some l)
      (hn : (s.setLaunch m { l with line }).launches[n]? = some l') :
      ∃ l line, s.launches[n]? = some l ∧ l' = { l with line } := by
    rcases getElem?_setLaunch hn with ⟨rfl, rfl⟩ | ⟨-, hn⟩
    · exact ⟨l, line, hm, rfl⟩
    · exact same hn
  cases a with
  | launch w =>
    rw [act, Scheduler.launch, List.getElem?_append] at hn
    split at hn
    · exact .inl (same hn)
    · next hlt =>
      obtain rfl := List.mem_singleton.1 (List.mem_of_getElem? hn)
      exact .inr (.inl ⟨w, List.getElem?_eq_none (Nat.le_of_not_lt hlt), rfl⟩)
  | signal m value =>
    rw [act, signal] at hn
    split at hn
    · next l hm =>
      split at hn
      · exact .inl (lined hm hn)
      · exact .inl (same hn)
    · exact .inl (same hn)
  | hangUp m =>
    rw [act, hangUp] at hn
    split at hn
    · next l hm => exact .inl (lined hm hn)
    · exact .inl (same hn)
  | job j =>
    rw [act] at hn ⊢
    rcases s.perform_cases j with heq | ⟨m, l, hm, ht⟩
    · rw [heq] at hn
      exact .inl (same hn)
    · generalize s.perform j = s' at ht hn ⊢
      cases ht with
      | idle => exact .inl (same hn)
      | turn log ht =>
        rcases getElem?_setLaunch hn with ⟨rfl, rfl⟩ | ⟨-, hn⟩
        · exact .inr (.inr ⟨l, hm, ht⟩)
        · exact .inl (same hn)
  | _ => exact .inl (same hn)

theorem length_act (s : Scheduler) (a : Act) :
    s.launches.length ≤ (s.act a).launches.length := by
  cases a with
  | launch w => simp [act, Scheduler.launch]
  | signal m value =>
    rw [act, signal]
    split
    · split <;> simp [setLaunch]
    · exact Nat.le_refl _
  | hangUp m =>
    rw [act, hangUp]
    split <;> simp [setLaunch]
  | job j =>
    rw [act]
    rcases s.perform_cases j with heq | ⟨m, l, hm, ht⟩
    · simp [heq]
    · generalize s.perform j = s' at ht ⊢
      cases ht with
      | idle => exact Nat.le_refl _
      | turn log ht => simp [setLaunch]
  | _ => exact Nat.le_refl _

/-- What becomes of a launch: it gets another line, or has a turn. -/
theorem exists_act (hn : s.launches[n]? = some l) (a : Act) :
    ∃ l', (s.act a).launches[n]? = some l' ∧
      ((∃ line, l' = { l with line }) ∨ l.Turn s l' (s.act a).backend) := by
  have hlt := Nat.lt_of_lt_of_le (List.getElem?_eq_some_iff.1 hn).1 (s.length_act a)
  have hn' := List.getElem?_eq_getElem hlt
  refine ⟨_, hn', ?_⟩
  obtain ⟨k, line, hk, heq⟩ | ⟨w, hnone, -⟩ | ⟨k, hk, ht⟩ := s.act_cases a hn'
  · obtain rfl := Option.some.inj (hn.symm.trans hk)
    exact .inl ⟨line, heq⟩
  · rw [hnone] at hn
    cases hn
  · obtain rfl := Option.some.inj (hn.symm.trans hk)
    exact .inr ht

/-! ### Runs -/

theorem tended_unlaunched (timing : Timing) (script : Script) (b : Backend) :
    ∀ (n : Nat) (l : Launch), (unlaunched timing script b).launches[n]? = some l → l.Tended :=
  fun _ _ hn => nomatch hn

theorem tended_act (h : ∀ (n : Nat) (l : Launch), s.launches[n]? = some l → l.Tended) (a : Act) :
    ∀ (n : Nat) (l : Launch), (s.act a).launches[n]? = some l → l.Tended := by
  intro n l' hn'
  obtain ⟨l, line, hn, rfl⟩ | ⟨w, -, rfl⟩ | ⟨l, hn, ht⟩ := s.act_cases a hn'
  · exact h n l hn
  · exact Launch.tended_fresh w s.timing.stopTimeout
  · exact (h n l hn).turn ht

theorem tended_run (h : ∀ (n : Nat) (l : Launch), s.launches[n]? = some l → l.Tended)
    (acts : List Act) :
    ∀ (n : Nat) (l : Launch), (s.run acts).launches[n]? = some l → l.Tended := by
  induction acts generalizing s with
  | nil => exact h
  | cons a acts ih => exact ih (tended_act h a)

end Scheduler

namespace Launch

variable {s : Scheduler} {b : Backend} {l l' : Launch}

/-- A launch that has stopped with all that belonged to it. -/
structure Departed (l : Launch) : Prop where
  stage : l.stage = .over .stopped
  tasks : ∀ t ∈ l.crew.tasks, t.isLive = false
  loop : l.loop.isLive = false

/-- It has no turn that changes it. -/
theorem Departed.turn_eq (h : l.Departed) (ht : Turn s l l' b) : l' = l := by
  have hstage := h.stage
  have hloop := h.loop
  cases ht with
  | ticked time' hl => simp [hl, Loop.isLive] at hloop
  | loopEnded hl hc => simp [hl] at hloop
  | worked g => rw [Crew.runTask_of_not_isLive h.tasks]
  | refused e o hl => simp [hl] at hstage
  | registered o hl hw => simp [hl] at hstage
  | unelected e o hl => simp [hl] at hstage
  | won o hl hw => simp [hl] at hstage
  | lost o hl hw => simp [hl] at hstage
  | passed time' hl => simp [hl] at hstage
  | stopped hl hc => simp [hl] at hstage
  | looked hl => simp [hl] at hstage
  | left o hl hloop => simp [hl] at hstage
  | unregistered e o hl hloop => simp [hl] at hstage

/-- It gets there by deregistering, when nobody is left and the loop is over. -/
theorem Tended.departed (h : l.Tended) (ht : Turn s l l' b) (hbefore : l.stage ≠ .over .stopped)
    (hafter : l'.stage = .over .stopped) :
    l'.Departed ∧ l'.worker ∉ b.registry.workers := by
  have hlooked {l : Launch} {now d : Nat} : (l.look now d).stage ≠ .over .stopped := by
    unfold look
    split <;> simp
  cases ht with
  | left o hl hloop =>
    obtain ⟨hstaffed, hvacant⟩ : l.crew.Staffed ∧ l.crew.Vacant := by
      simpa [Tended, hl] using h
    refine ⟨⟨rfl, hstaffed.isLive_of_vacant hvacant, hloop⟩, fun hmem => ?_⟩
    exact (OrderedSet.mem_erase.1 hmem).2 rfl
  | stopped hl hc =>
    simp only [beginStop] at hafter
    split at hafter
    · exact absurd hafter hlooked
    · simp at hafter
  | looked hl => exact absurd hafter hlooked
  | ticked time' hl => exact absurd hafter hbefore
  | loopEnded hl hc => exact absurd hafter hbefore
  | worked g => exact absurd hafter hbefore
  | _ => simp at hafter

end Launch

namespace Scheduler

variable {s : Scheduler} {l : Launch} {n : Nat}

/-- What comes after a launch has stopped does not reach it. -/
theorem departed_run (hn : s.launches[n]? = some l) (h : l.Departed) (acts : List Act) :
    ∃ line, (s.run acts).launches[n]? = some { l with line } := by
  induction acts generalizing s l with
  | nil => exact ⟨l.line, hn⟩
  | cons a acts ih =>
    obtain ⟨l', hn', ⟨line, rfl⟩ | ht⟩ := exists_act hn a
    · obtain ⟨line', hlast⟩ := ih hn' ⟨h.stage, h.tasks, h.loop⟩
      exact ⟨line', hlast⟩
    · obtain rfl := h.turn_eq ht
      exact ih hn' h

/-- A loop that is over makes no move. -/
theorem perform_tick_of_not_isLive (hn : s.launches[n]? = some l) (h : l.loop.isLive = false) :
    s.perform (.tick n) = s := by
  simp only [perform, hn, tick]
  split
  · next r time hl => simp [hl, Loop.isLive] at h
  · rfl

/-- At the moment when a launch stops, every task that its crew has ever started has ended, its
worker is not registered and its rebalance loop, if it has had one, is over; and however the run
goes on, it stays as it is and its loop makes no move. -/
theorem stops_cleanly {timing : Timing} {script : Script} {b : Backend} {acts : List Act} {a : Act}
    (hs : (unlaunched timing script b).run acts = s)
    (hbefore : (s.launches[n]?.map (·.stage)) ≠ some (.over .stopped))
    (hn : (s.act a).launches[n]? = some l) (hstage : l.stage = .over .stopped) :
    (∀ t ∈ l.crew.tasks, t.isLive = false) ∧
    l.worker ∉ (s.act a).backend.registry.workers ∧
    l.loop.isLive = false ∧
    ∀ more, (∃ line, ((s.act a).run more).launches[n]? = some { l with line }) ∧
      ((s.act a).run more).perform (.tick n) = (s.act a).run more := by
  have htended := tended_run (tended_unlaunched timing script b) acts
  rw [hs] at htended
  have hdeparted : l.Departed ∧ l.worker ∉ (s.act a).backend.registry.workers := by
    obtain ⟨k, line, hk, rfl⟩ | ⟨w, -, rfl⟩ | ⟨k, hk, ht⟩ := s.act_cases a hn
    · exact absurd (by rw [hk, Option.map_some, ← hstage]) hbefore
    · simp [Launch.fresh] at hstage
    · refine (htended n k hk).departed ht (fun hk' => hbefore ?_) hstage
      rw [hk, Option.map_some, hk']
  obtain ⟨hdeparted, hworker⟩ := hdeparted
  refine ⟨hdeparted.tasks, hworker, hdeparted.loop, fun more => ?_⟩
  obtain ⟨line, hmore⟩ := departed_run hn hdeparted more
  exact ⟨⟨line, hmore⟩, perform_tick_of_not_isLive hmore hdeparted.loop⟩

/-- The leader is told to shut down while one of its handlers never ends and another has panicked;
its loop and the launch of another worker are still at work. -/
def departure : List Act :=
  [.registerItem ⟨"t", by decide⟩, .registerItem ⟨"tt", by decide⟩, .launch ⟨1⟩,
    .job (.register 0), .job (.elect 0), .job (.tick 0), .job (.pass 0), .job (.task 0 0),
    .job (.task 0 1), .launch ⟨2⟩, .job (.register 1), .job (.elect 1), .signal 0 true,
    .job (.shutDown 0), .sleep 30000, .job (.look 0), .job (.endLoop 0)]

def departing : Scheduler :=
  (unlaunched .default ⟨[("t", [.stubborn]), ("tt", [.panicsAtOnce])]⟩ (.ofTable .empty)).run
    departure

theorem departure_stops_cleanly :
    departing.launches.map (·.stage) = [.leaving, .running 0] ∧
    ∃ l, (departing.act (.job (.leave 0))).launches[0]? = some l ∧ l.stage = .over .stopped ∧
      l.worker = ⟨1⟩ ∧
      l.crew.tasks.map (·.outcome) = [some (.aborted 30000), some (.ended 0 .panicked)] ∧
      (∀ t ∈ l.crew.tasks, t.isLive = false) ∧
      l.worker ∉ (departing.act (.job (.leave 0))).backend.registry.workers ∧
      l.loop.isLive = false ∧
      ∀ more, (∃ line, ((departing.act (.job (.leave 0))).run more).launches[0]? =
          some { l with line }) ∧
        ((departing.act (.job (.leave 0))).run more).perform (.tick 0) =
          (departing.act (.job (.leave 0))).run more := by
  have hstages : departing.launches.map (·.stage) = [.leaving, .running 0] := by decide +kernel
  have hbefore : departing.launches[0]?.map (·.stage) ≠ some (.over .stopped) := by
    decide +kernel
  have hlast : (departing.act (.job (.leave 0))).launches[0]?.map
      (fun l => (l.stage, l.worker, l.crew.tasks.map (·.outcome))) =
        some (.over .stopped, ⟨1⟩, [some (.aborted 30000), some (.ended 0 .panicked)]) := by
    decide +kernel
  obtain ⟨l, hn, hl⟩ := Option.map_eq_some_iff.1 hlast
  simp only [Prod.mk.injEq] at hl
  exact ⟨hstages, l, hn, hl.1, hl.2.1, hl.2.2, stops_cleanly rfl hbefore hn hl.1⟩

end Scheduler

end Roster
