import Roster.Scheduler.Basic

/-!
The scheduler on a clock of its own. At every instant all jobs whose turn it is are done, and then
the clock moves to the next instant at which something is due.
-/

namespace Roster.Scheduler

def performAll (s : Scheduler) (jobs : List Job) : Scheduler := jobs.foldl perform s

/-- The same jobs for each launch, in the order of the launches. -/
def forEach (s : Scheduler) (jobs : Nat → List Job) : Scheduler :=
  s.performAll ((List.range s.launches.length).flatMap jobs)

/-- One job for each task of each launch that has not ended. -/
def forTasks (s : Scheduler) : Scheduler :=
  s.performAll <| s.launches.zipIdx.flatMap fun (l, n) => l.crew.liveGenerations.map (.task n)

/-- Does what is to be done at this instant. A launch makes its pass before its rebalance loop
ticks; handlers go on after that, and before a launch that is stopping looks at its crew. -/
def sweep (s : Scheduler) : Scheduler :=
  let s := s.forEach fun n => [.register n, .elect n, .pass n, .tick n, .shutDown n, .endLoop n]
  s.forTasks.forEach fun n => [.look n, .leave n]

/-- The next instant at which something is due. -/
def nextDue (s : Scheduler) : Option Nat :=
  ((s.launches.flatMap (·.dues)).filter (s.now < ·)).min?

theorem now_perform (s : Scheduler) (j : Job) : (s.perform j).now = s.now := by
  cases j <;> simp only [perform] <;> split <;> try rfl
  · rw [register]; split <;> rfl
  · rw [elect]; split <;> rfl
  · rw [pass]
    split
    · split <;> rfl
    · rfl
  · rw [tick]
    split
    · split <;> rfl
    · rfl
  · rw [endLoop]; split <;> rfl
  · rw [shutDown]
    split
    · split <;> rfl
    · rfl
  · rw [look]
    split
    · split <;> rfl
    · rfl
  · rw [leave]; split <;> rfl

theorem now_performAll (s : Scheduler) (js : List Job) : (s.performAll js).now = s.now := by
  induction js generalizing s with
  | nil => rfl
  | cons j js ih => exact (ih _).trans (now_perform s j)

theorem now_sweep (s : Scheduler) : s.sweep.now = s.now := by
  simp only [sweep, forEach, forTasks, now_performAll]

theorem lt_nextDue {s : Scheduler} {time : Nat} (h : s.nextDue = some time) : s.now < time := by
  simpa using (List.mem_filter.1 (List.min?_mem h)).2

/-- Lets the clock run to `time`. -/
def advance (s : Scheduler) (time : Nat) : Scheduler :=
  match _h : s.nextDue with
  | some next =>
    if next ≤ time then advance { s with now := next }.sweep time else { s with now := time }
  | none => { s with now := time }
termination_by time - s.now
decreasing_by
  have := lt_nextDue _h
  rw [now_sweep]
  simp only
  omega

end Roster.Scheduler
