import Roster.Proofs.Scheduler.Turns

/-! Launches that end before their crew goes to work. Such a launch leaves everything as it was,
except where the election fails: by then its worker is registered, and it stays so. -/

namespace Roster.Scheduler

variable {s s' : Scheduler} {w : WorkerId} {l : Launch} {e : Error}

/-- A launch up to where its crew would go to work, with nothing in between. -/
def attempt (s : Scheduler) (w : WorkerId) : Scheduler :=
  ((s.launch w).2.perform (.register s.launches.length)).perform (.elect s.launches.length)

/-- How an attempt may go: the worker is not registered, or the election fails, or the crew may go
to work. -/
inductive Attempts (s : Scheduler) (w : WorkerId) : Scheduler → Prop
  | refused (e : Error) (o : List (Call × List Spell))
      (h : (s.backend.registerWorker w).1 ≠ .ok true) :
      Attempts s w
        { s with
          backend := { s.backend with outages := o }
          launches := s.launches ++
            [{ Launch.fresh w s.timing.stopTimeout with stage := .over (.failed e) }] }
  | unelected (e : Error) (o : List (Call × List Spell))
      (h : (s.backend.registerWorker w).1 = .ok true) :
      Attempts s w
        { s with
          backend :=
            { s.backend with registry := (s.backend.registry.registerWorker w).2, outages := o }
          launches := s.launches ++
            [{ Launch.fresh w s.timing.stopTimeout with stage := .over (.failed e) }] }
  | begun (b : Backend) (loop : Loop) :
      Attempts s w
        { s with
          backend := b
          launches := s.launches ++
            [{ Launch.fresh w s.timing.stopTimeout with stage := .running s.now, loop }] }

/-- The last launch is the one whose turn it is. -/
theorem set_last (ls : List Launch) (l l' : Launch) :
    (ls ++ [l]).set ls.length l' = ls ++ [l'] := by
  rw [List.set_append_right _ _ (Nat.le_refl _), Nat.sub_self, List.set_cons_zero]

theorem attempts_attempt (s : Scheduler) (w : WorkerId) : Attempts s w (s.attempt w) := by
  have hfirst := s.backend.registerWorker_cases w
  simp only [attempt, launch, perform, List.getElem?_concat_length, register, Launch.fresh,
    if_true, setLaunch, set_last]
  obtain ⟨o, hr | ⟨e, hr⟩⟩ := hfirst
  · cases hw : decide (w ∉ s.backend.registry.workers) with
    | true =>
      rw [hw] at hr
      obtain ⟨o', he | ⟨e, he⟩⟩ := Backend.elect_cases
        { s.backend with registry := (s.backend.registry.registerWorker w).2, outages := o } w
      · simp only [hr, elect, if_true, he, setLaunch, set_last]
        split
        · next h => cases h
        · exact .begun _ _
        · exact .begun _ _
      · simp only [hr, elect, if_true, he, setLaunch, set_last]
        exact .unelected e o' (by rw [hr])
    | false =>
      rw [hw, Registry.registerWorker_of_mem (by simpa using hw)] at hr
      simp only [hr, elect]
      exact .refused _ o (by simp [hr])
  · simp only [hr, elect]
    exact .refused e o (by simp [hr])

/-- A launch that fails before its crew goes to work leaves the table, the election and every other
launch as they were; the registry too if the registration was what failed, and otherwise all but
that its worker is registered, who was not before. -/
theorem failed_attempt (h : (s.attempt w).launches = s.launches ++ [l])
    (he : l.stage = .over (.failed e)) :
    (s.attempt w).backend.table = s.backend.table ∧
    (s.attempt w).backend.election = s.backend.election ∧
    l.crew.tasks = [] ∧
    ((s.attempt w).backend.registry = s.backend.registry ↔
      (s.backend.registerWorker w).1 ≠ .ok true) ∧
    ((s.backend.registerWorker w).1 = .ok true →
      w ∉ s.backend.registry.workers ∧
      (s.attempt w).backend.registry = (s.backend.registry.registerWorker w).2) := by
  have hattempt := s.attempts_attempt w
  generalize s.attempt w = s' at h hattempt
  cases hattempt with
  | refused e' o hr =>
    obtain rfl := List.singleton_inj.1 (List.append_cancel_left h)
    exact ⟨rfl, rfl, rfl, iff_of_true rfl hr, fun hc => absurd hc hr⟩
  | unelected e' o hr =>
    obtain rfl := List.singleton_inj.1 (List.append_cancel_left h)
    have hw : w ∉ s.backend.registry.workers := by
      obtain ⟨o', hc | ⟨e, hc⟩⟩ := s.backend.registerWorker_cases w
      · rw [hc] at hr
        exact of_decide_eq_true (Except.ok.inj hr)
      · rw [hc] at hr
        cases hr
    refine ⟨rfl, rfl, rfl, iff_of_false ?_ (not_not.2 hr), fun _ => ⟨hw, rfl⟩⟩
    intro hsame
    refine hw ?_
    rw [← hsame]
    exact OrderedSet.mem_insert.2 (.inl rfl)
  | begun b loop =>
    obtain rfl := List.singleton_inj.1 (List.append_cancel_left h)
    cases he

/-- Worker 1 is at work. -/
def manned : Scheduler := (unlaunched .default ⟨[]⟩ (.ofTable .empty)).attempt ⟨1⟩

/-- The next election fails. -/
def undecided : Scheduler :=
  unlaunched .default ⟨[]⟩
    { Backend.ofTable .empty with
      outages := [(.elect, [⟨1, some (.staleMove (.stated "injected"))⟩])] }

/-- What an attempt for worker 1 adds if it fails. -/
def failure (e : Error) : Launch :=
  { Launch.fresh ⟨1⟩ Timing.default.stopTimeout with stage := .over (.failed e) }

theorem manned_failed_attempt :
    (manned.attempt ⟨1⟩).launches = manned.launches ++ [failure (.alreadyRunning ⟨1⟩)] ∧
    (manned.attempt ⟨1⟩).backend.registry = manned.backend.registry ∧
    (manned.attempt ⟨1⟩).backend.election = manned.backend.election := by
  have hl : (manned.attempt ⟨1⟩).launches = manned.launches ++ [failure (.alreadyRunning ⟨1⟩)] := by
    decide +kernel
  obtain ⟨-, helection, -, hregistry, -⟩ := failed_attempt hl rfl
  exact ⟨hl, hregistry.2 (by decide), helection⟩

/-- A launch that fails in the election has changed the registry, and its worker cannot be launched
again. -/
theorem unelected_stays_registered :
    (¬ ∀ (s : Scheduler) (w : WorkerId) (l : Launch) (e : Error),
      (s.attempt w).launches = s.launches ++ [l] → l.stage = .over (.failed e) →
        (s.attempt w).backend.registry = s.backend.registry) ∧
    ((undecided.attempt ⟨1⟩).attempt ⟨1⟩).launches =
      [failure (.staleMove (.stated "injected")), failure (.alreadyRunning ⟨1⟩)] := by
  refine ⟨?_, by decide +kernel⟩
  intro h
  have hsame := h undecided ⟨1⟩ (failure (.staleMove (.stated "injected"))) _
    (by decide +kernel) rfl
  have hworkers : (undecided.attempt ⟨1⟩).backend.registry.workers.toList =
      undecided.backend.registry.workers.toList := by rw [hsame]
  exact absurd hworkers (by decide +kernel)

end Roster.Scheduler
