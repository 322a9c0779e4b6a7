import Roster.Crew.Exits
import Roster.Diff

/-!
One reconciliation pass of a crew: collect exits, abort what is overdue, read what the worker should
handle, start what is missing and cancel what is too much. A failed read ends the pass after the
first two steps.
-/

namespace Roster

structure Pass where
  started : Nat
  cancelled : Nat
  /-- Entries removed because their handler had ended. -/
  removed : Nat
  /-- Handlers aborted because they were overdue. -/
  aborted : Nat
  status : Convergence
  deriving DecidableEq, Repr

namespace Crew

def startAll (c : Crew) (behaviour : ItemId → Behaviour) : List ItemId → Crew
  | [] => c
  | i :: is => (c.start i (behaviour i)).startAll behaviour is

/-- Starts and cancels as the difference to `desired` says. -/
def follow (c : Crew) (now : Nat) (desired : List ItemId) (behaviour : ItemId → Behaviour) :
    Diff ItemId × Nat × Crew :=
  let d := Diff.between desired c.handlers.keys
  (d, (c.startAll behaviour d.toStart).cancelAll now d.toStop)

/-- `read` is the answer of the store at this pass. -/
def reconcile (c : Crew) (now : Nat) (read : Except Error (List ItemId))
    (behaviour : ItemId → Behaviour) : Except Error Pass × Crew :=
  let (exits, c) := c.collectExits
  let (aborted, c) := c.abortOverdue now
  match read with
  | .error e => (.error e, c)
  | .ok desired =>
    let (d, cancelled, c) := c.follow now desired behaviour
    let status := if !d.isEmpty || c.hasStopping then .converging else .converged
    (.ok ⟨d.toStart.length, cancelled, exits.total, aborted, status⟩, c)

end Crew

end Roster
