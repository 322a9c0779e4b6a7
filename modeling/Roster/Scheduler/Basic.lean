import Roster.Scheduler.Launch
import Roster.Timing

/-!
The scheduler: a backend and the launches of its workers, one after another. A launch goes on in
small jobs, each of which does nothing unless it is its turn; so jobs of all launches may come in
any order.
-/

namespace Roster

structure Scheduler where
  timing : Timing
  script : Script
  now : Nat
  backend : Backend
  launches : List Launch
  /-- What the loops have complained about. -/
  log : List Log.Event

inductive Job where
  | register (launch : Nat)
  | elect (launch : Nat)
  | pass (launch : Nat)
  | tick (launch : Nat)
  | endLoop (launch : Nat)
  | shutDown (launch : Nat)
  | task (launch generation : Nat)
  | look (launch : Nat)
  | leave (launch : Nat)
  deriving DecidableEq, Repr

namespace Scheduler

def new (timing : Timing) (script : Script) : Scheduler :=
  ⟨timing, script, 0, .ofTable .empty, [], []⟩

def setLaunch (s : Scheduler) (n : Nat) (l : Launch) : Scheduler :=
  { s with launches := s.launches.set n l }

/-- How often handlers of the item were started, over all launches. -/
def startCount (s : Scheduler) (i : ItemId) : Nat :=
  (s.launches.flatMap (·.crew.tasks)).countP (·.item = i)

def nextBehaviour (s : Scheduler) (i : ItemId) : Behaviour := s.script.behaviour i (s.startCount i)

/-- A worker that is registered already is not launched again. -/
def register (s : Scheduler) (n : Nat) (l : Launch) : Scheduler :=
  if l.stage = .registering then
    let (result, b) := s.backend.registerWorker l.worker
    let stage : Stage := match result with
      | .error e => .over (.failed e)
      | .ok false => .over (.failed (.alreadyRunning l.worker))
      | .ok true => .electing
    { s with backend := b }.setLaunch n { l with stage }
  else s

/-- The winner gets a rebalance loop. Both loops are due at once. -/
def elect (s : Scheduler) (n : Nat) (l : Launch) : Scheduler :=
  if l.stage = .electing then
    let (result, b) := s.backend.elect l.worker
    let l : Launch := match result with
      | .error e => { l with stage := .over (.failed e) }
      | .ok false => { l with stage := .running s.now }
      | .ok true => { l with stage := .running s.now, loop := .live .fresh s.now }
    { s with backend := b }.setLaunch n l
  else s

def pass (s : Scheduler) (n : Nat) (l : Launch) : Scheduler :=
  match l.stage with
  | .running time =>
    if time ≤ s.now then
      let (read, b) := s.backend.itemsFor l.worker
      let (result, c) := l.crew.reconcile s.now read s.nextBehaviour
      let complaints := match result with
        | .error e => [.reconciliationFailed e]
        | .ok _ => []
      let stage := .running (Launch.dueAgain s.now time s.timing.reconcileInterval)
      { s with backend := b, log := s.log ++ complaints }.setLaunch n { l with crew := c, stage }
    else s
  | _ => s

def tick (s : Scheduler) (n : Nat) (l : Launch) : Scheduler :=
  match l.loop with
  | .live r time =>
    if time ≤ s.now then
      let t := r.tick s.backend
      let complaints := match t.result with
        | .error e => (Rebalancer.complaint e).toList
        | .ok _ => []
      let loop := .live t.rebalancer (Launch.dueAgain s.now time s.timing.rebalanceInterval)
      { s with backend := t.backend, log := s.log ++ complaints }.setLaunch n { l with loop }
    else s
  | _ => s

def endLoop (s : Scheduler) (n : Nat) (l : Launch) : Scheduler :=
  if l.loop.isLive && l.line.closes then s.setLaunch n { l with loop := .over } else s

def shutDown (s : Scheduler) (n : Nat) (l : Launch) : Scheduler :=
  match l.stage with
  | .running _ => if l.line.closes then s.setLaunch n (l.beginStop s.now) else s
  | _ => s

/-- A report wakes a launch that is waiting for its crew, and so does the time it waits until. -/
def look (s : Scheduler) (n : Nat) (l : Launch) : Scheduler :=
  match l.stage with
  | .settling deadline wake =>
    if !l.crew.reports.isEmpty || wake ≤ s.now then
      s.setLaunch n ({ l with crew := l.crew.receive }.look s.now deadline)
    else s
  | _ => s

/-- Waits for the rebalance loop before the worker deregisters. -/
def leave (s : Scheduler) (n : Nat) (l : Launch) : Scheduler :=
  if l.stage = .leaving && !l.loop.isLive then
    let (result, b) := s.backend.deregisterWorker l.worker
    let close : Close := match result with
      | .error e => .failed e
      | .ok _ => .stopped
    { s with backend := b }.setLaunch n { l with stage := .over close }
  else s

def perform (s : Scheduler) (job : Job) : Scheduler :=
  let act (n : Nat) (f : Nat → Launch → Scheduler) : Scheduler :=
    match s.launches[n]? with
    | some l => f n l
    | none => s
  match job with
  | .register n => act n s.register
  | .elect n => act n s.elect
  | .pass n => act n s.pass
  | .tick n => act n s.tick
  | .endLoop n => act n s.endLoop
  | .shutDown n => act n s.shutDown
  | .task n g => act n fun n l => s.setLaunch n { l with crew := l.crew.runTask s.now g }
  | .look n => act n s.look
  | .leave n => act n s.leave

/-- Launches a worker; its first job is still to come. The number of the launch is returned. -/
def launch (s : Scheduler) (w : WorkerId) : Nat × Scheduler :=
  (s.launches.length, { s with launches := s.launches ++ [.fresh w s.timing.stopTimeout] })

/-- Sends a value on the line of a launch, and says whether somebody hears it. -/
def signal (s : Scheduler) (n : Nat) (value : Bool) : Bool × Scheduler :=
  match s.launches[n]? with
  | some l =>
    if !l.line.hungUp && l.isListening then
      (true, s.setLaunch n { l with line := { l.line with shutdown := value } })
    else (false, s)
  | none => (false, s)

/-- Drops the sending side of the line, and says whether it was still there. -/
def hangUp (s : Scheduler) (n : Nat) : Bool × Scheduler :=
  match s.launches[n]? with
  | some l => (!l.line.hungUp, s.setLaunch n { l with line := { l.line with hungUp := true } })
  | none => (false, s)

/-- Items with the workers whose handlers of them are at work, in order. -/
def active (s : Scheduler) : List (ItemId × WorkerId) :=
  have : Ord (ItemId × WorkerId) := ⟨compareLex (compareOn (·.1)) (compareOn (·.2))⟩
  Ordered.sort (s.launches.flatMap fun l => l.activeItems.map (·, l.worker))

def warnings (s : Scheduler) : List Log.Event :=
  Log.sorted ((s.log ++ s.launches.flatMap (·.crew.log)).filter (·.isWarning))

def clearLogs (s : Scheduler) : Scheduler :=
  { s with
    log := []
    launches := s.launches.map fun l => { l with crew := { l.crew with log := [] } } }

end Scheduler

end Roster
