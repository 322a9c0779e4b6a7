import Roster.Crew.Pass
import Roster.Crew.Settle
import Roster.Rebalance.Tick

/-!
One launch of a worker, from its registration to its deregistration. A launch is told to shut down
on a line of its own, and the launch that wins the election also keeps a rebalance loop, which
listens on the same line.
-/

namespace Roster

/-- The line on which a launch is told to shut down. -/
structure Line where
  /-- The value sent last. -/
  shutdown : Bool
  /-- The sending side is gone. -/
  hungUp : Bool
  deriving DecidableEq, Repr

def Line.closes (l : Line) : Bool := l.shutdown || l.hungUp

/-- How a launch is over. -/
inductive Close where
  | stopped
  | failed (cause : Error)
  /-- The launch broke off, and nothing after that was done. -/
  | broken (cause : Overflow)
  deriving DecidableEq, Repr

inductive Stage where
  | registering
  | electing
  /-- Reconciles at `nextPass` and then at every interval. -/
  | running (nextPass : Nat)
  /-- Every handler is cancelled; the launch looks again at `wake`, or when a report comes. -/
  | settling (deadline wake : Nat)
  /-- No handler is left; the rebalance loop may be. -/
  | leaving
  | over (close : Close)
  deriving DecidableEq, Repr

/-- The rebalance loop of a launch. -/
inductive Loop where
  | absent
  | live (rebalancer : Rebalancer) (nextTick : Nat)
  | over
  deriving DecidableEq, Repr

def Loop.isLive : Loop → Bool
  | .live .. => true
  | .absent | .over => false

structure Launch where
  worker : WorkerId
  line : Line
  stage : Stage
  loop : Loop
  crew : Crew
  deriving DecidableEq

namespace Launch

def fresh (w : WorkerId) (stopTimeout : Nat) : Launch :=
  ⟨w, ⟨false, false⟩, .registering, .absent, .fresh w stopTimeout⟩

/-- The crew is at work or being stopped. -/
def isActive (l : Launch) : Bool :=
  match l.stage with
  | .running _ | .settling .. => true
  | _ => false

/-- Somebody still hears the line. -/
def isListening (l : Launch) : Bool :=
  match l.stage with
  | .registering | .electing | .running _ | .settling .. => true
  | .leaving | .over _ => l.loop.isLive

/-- The first instant after `now` at which something that was due at `time` is due again. -/
def dueAgain (now time interval : Nat) : Nat := now + interval - (now - time) % interval

/-- Looks at a crew that is being stopped: done, out of time, or to be waited for. -/
def look (l : Launch) (now deadline : Nat) : Launch :=
  match l.crew.poll now deadline with
  | (.settled, c) => { l with crew := c, stage := .leaving }
  | (.expired, c) => { l with crew := (c.abortAll now).2, stage := .leaving }
  | (.waiting wake, c) => { l with crew := c, stage := .settling deadline wake }

/-- Cancels every handler and waits for them, until a deadline that has to be on the clock. -/
def beginStop (l : Launch) (now : Nat) : Launch :=
  let c := l.crew.cancelEvery now
  match deadline now c.stopTimeout with
  | .ok d => { l with crew := c }.look now d
  | .error o => { l with crew := c.disband now, stage := .over (.broken o) }

/-- The instants at which something is due, as far as they can be told. -/
def dues (l : Launch) : List Nat :=
  let stage := match l.stage with
    | .running time => [time]
    | .settling _ wake => [wake]
    | _ => []
  let loop := match l.loop with
    | .live _ time => [time]
    | _ => []
  stage ++ loop ++ l.crew.tasks.filterMap fun t => if t.isLive then t.due.map (·.1) else none

/-- Items whose handler has begun and is not over. -/
def activeItems (l : Launch) : List ItemId :=
  (l.crew.tasks.filter fun t => t.started.isSome && t.isLive).map (·.item)

end Launch

end Roster
