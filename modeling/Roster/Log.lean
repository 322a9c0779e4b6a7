import Roster.Json.Document
import Roster.Rebalance.Plan

/-!
What is logged: events of the rebalance, of the handlers and of the loops, each with a level, a
message and named fields. The text of an event is a JSON object with its keys in ascending order.
-/

namespace Roster

namespace Log

inductive Level where
  | debug
  | info
  | warn
  | error
  deriving DecidableEq, Repr

def Level.name : Level → String
  | .debug => "DEBUG"
  | .info => "INFO"
  | .warn => "WARN"
  | .error => "ERROR"

inductive Value where
  | number (n : Nat)
  | text (s : String)
  deriving DecidableEq, Repr

def Value.render : Value → List Char
  | .number n => Decimal.write n
  | .text s => Json.literal s

inductive Event where
  | rebalanceComplete (avg : Nat) (stats : Stats)
  | workerAssignment (worker : WorkerId) (items : List ItemId)
  | assignmentTable (table : Table)
  | exitedWhileRunning (worker : WorkerId) (item : ItemId)
  | stopped (worker : WorkerId) (item : ItemId)
  | endedUnreported (worker : WorkerId) (item : ItemId)
  /-- The timeout is given where it was that handler's own. -/
  | forceAborted (worker : WorkerId) (item : ItemId) (timeout : Option Nat)
  | tickInterrupted (cause : Error)
  | tickFailed (cause : Error)
  | reconciliationFailed (cause : Error)
  deriving DecidableEq

namespace Event

def level : Event → Level
  | rebalanceComplete .. | workerAssignment .. => .info
  | assignmentTable .. | stopped .. => .debug
  | exitedWhileRunning .. | endedUnreported .. | forceAborted .. | tickInterrupted .. => .warn
  | tickFailed .. | reconciliationFailed .. => .error

def message : Event → String
  | rebalanceComplete .. => "Rebalance complete"
  | workerAssignment .. => "Worker assignment"
  | assignmentTable .. => "Assignment table"
  | exitedWhileRunning .. => "Handler exited while running"
  | stopped .. => "Handler stopped"
  | endedUnreported .. => "Handler terminated without reporting"
  | forceAborted .. => "Force aborting handler"
  | tickInterrupted .. => "Rebalance tick interrupted, will retry"
  | tickFailed .. => "Rebalance tick failed"
  | reconciliationFailed .. => "Reconciliation failed"

def isWarning (e : Event) : Bool :=
  match e.level with
  | .warn | .error => true
  | .debug | .info => false

/-- Ascending by name. -/
def fields : Event → List (String × Value)
  | rebalanceComplete avg s =>
    [("avg", .number avg), ("items_assigned", .number s.itemsAssigned),
      ("items_dropped", .number s.itemsDropped), ("items_filled", .number s.itemsFilled),
      ("items_shed", .number s.itemsShed), ("workers_added", .number s.workersAdded),
      ("workers_removed", .number s.workersRemoved)]
  | workerAssignment w items =>
    [("item_count", .number items.length),
      ("items", .text (" ".intercalate (items.map (·.text)))), ("worker_id", .text w.text)]
  | assignmentTable t => [("digest", .text t.digest.text), ("table", .text (Json.writeTable t))]
  | exitedWhileRunning w i | stopped w i | endedUnreported w i =>
    [("item", .text i.text), ("worker_id", .text w.text)]
  | forceAborted w i timeout =>
    [("item", .text i.text)] ++ (timeout.map fun ms => ("timeout_ms", .number ms)).toList ++
      [("worker_id", .text w.text)]
  | tickInterrupted e | tickFailed e | reconciliationFailed e => [("error", .text e.message)]

def fieldText (f : String × Value) : List Char := Json.literal f.1 ++ ':' :: f.2.render

def text (e : Event) : String :=
  .ofList ("\x7b\"fields\":\x7b".toList ++ Json.commas (e.fields.map fieldText) ++
    "\x7d,\"level\":".toList ++ Json.literal e.level.name ++ ",\"message\":".toList ++
    Json.literal e.message ++ ['\x7d'])

/-- Events are ordered by their text. -/
instance : Ord Event := ⟨compareOn text⟩

end Event

/-- A report in which it does not show which of two events came first. -/
def sorted (events : List Event) : List Event := Ordered.sort events

end Log

end Roster
