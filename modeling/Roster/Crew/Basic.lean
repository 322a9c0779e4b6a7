import Roster.Handler.Task
import Roster.Log

/-!
The crew of a worker: one handler for each item it has taken up. An entry names the task that
handles its item by generation, the place of the task among all that were ever started; a task that
returns puts a report with its generation into the queue, and the crew learns of it later.
-/

namespace Roster

inductive Phase where
  | running
  /-- Cancelled at that instant and not known to have ended. -/
  | stopping (since : Nat)
  deriving DecidableEq, Repr

def Phase.isStopping : Phase → Bool
  | .running => false
  | .stopping _ => true

/-- Has been stopping for the timeout or longer. -/
def Phase.isOverdue (now timeout : Nat) : Phase → Bool
  | .running => false
  | .stopping since => since + timeout ≤ now

structure Entry where
  generation : Nat
  phase : Phase
  deriving DecidableEq, Repr

/-- The exit of a task that has returned. -/
structure Report where
  item : ItemId
  generation : Nat
  deriving DecidableEq, Repr

structure Crew where
  worker : WorkerId
  /-- How long a cancelled handler may take before it is aborted, in milliseconds. -/
  stopTimeout : Nat
  handlers : OrderedMap ItemId Entry
  /-- All tasks that were ever started, by generation. -/
  tasks : List Task
  /-- Exits that the crew has not learned of, oldest first. -/
  reports : List Report
  log : List Log.Event
  deriving DecidableEq

namespace Crew

def fresh (w : WorkerId) (stopTimeout : Nat) : Crew := ⟨w, stopTimeout, .empty, [], [], []⟩

/-- Items with a handler that is not stopping, ascending. -/
def runningItems (c : Crew) : List ItemId :=
  (c.handlers.filter fun _ e => !e.phase.isStopping).keys

def phaseOf (c : Crew) (i : ItemId) : Option Phase := (c.handlers.get? i).map (·.phase)

/-- Handlers that are running or stopping. -/
def handlerCount (c : Crew) : Nat := c.handlers.size

def hasStopping (c : Crew) : Bool := c.handlers.values.any (·.phase.isStopping)

def isLive (c : Crew) (generation : Nat) : Bool := c.tasks[generation]?.any (·.isLive)

def liveCount (c : Crew) : Nat := c.tasks.countP (·.isLive)

/-- The tasks that have not ended, oldest first. -/
def liveGenerations (c : Crew) : List Nat := (c.tasks.zipIdx.filter (·.1.isLive)).map (·.2)

/-- Starts a handler in the next generation. It does not run yet. -/
def start (c : Crew) (i : ItemId) (b : Behaviour) : Crew :=
  { c with
    handlers := c.handlers.insert i ⟨c.tasks.length, .running⟩
    tasks := c.tasks ++ [.new i b] }

/-- Cancels the item's handler, and says whether it was running. -/
def cancel (c : Crew) (now : Nat) (i : ItemId) : Bool × Crew :=
  match c.handlers.get? i with
  | some ⟨g, .running⟩ =>
    (true, { c with
      handlers := c.handlers.insert i ⟨g, .stopping now⟩
      tasks := c.tasks.modify g (·.cancel now) })
  | _ => (false, c)

/-- Cancels handlers, and counts those that were running. -/
def cancelAll (c : Crew) (now : Nat) : List ItemId → Nat × Crew
  | [] => (0, c)
  | i :: is =>
    let (was, c) := c.cancel now i
    let (n, c) := c.cancelAll now is
    (n + was.toNat, c)

/-- Lets one task go on; if it returns, its report is queued. -/
def runTask (c : Crew) (now g : Nat) : Crew :=
  match c.tasks[g]? with
  | none => c
  | some t =>
    let t' := t.run now
    { c with
      tasks := c.tasks.set g t'
      reports := if t.isLive && t'.hasReturned then c.reports ++ [⟨t.item, g⟩] else c.reports }

/-- Lets every task go on that has not ended. -/
def runAll (c : Crew) (now : Nat) : Crew :=
  c.liveGenerations.foldl (fun c g => c.runTask now g) c

/-- Forgets all handlers and tells them to stop; their tasks go on. -/
def disband (c : Crew) (now : Nat) : Crew :=
  { c with
    handlers := .empty
    tasks := c.handlers.values.foldl (fun ts e => ts.modify e.generation (·.cancel now)) c.tasks }

def records (c : Crew) : List Happening.Record := c.tasks.flatMap (·.records c.worker)

/-- What the tasks have recorded since the crew was as `before`. -/
def recordsSince (c before : Crew) : List Happening.Record :=
  c.tasks.zipIdx.flatMap fun (t, g) =>
    (t.records c.worker).drop ((before.tasks[g]?.map fun t => (t.records c.worker).length).getD 0)

end Crew

end Roster
