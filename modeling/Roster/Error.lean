import Roster.Id

/-!
What can go wrong between a worker, the registry and the assignment table, and which failures pass
by themselves.
-/

namespace Roster

/-- Why a move does not fit the table. -/
inductive StaleCause where
  | alreadyOwned (item : ItemId) (worker : WorkerId)
  | unknownWorker (worker : WorkerId)
  | notOwned (item : ItemId) (worker : WorkerId)
  /-- A reason that the store gives in its own words. -/
  | stated (detail : String)
  deriving DecidableEq, Repr

def StaleCause.detail : StaleCause → String
  | .alreadyOwned item worker => "item " ++ item.text ++ " already owned by worker " ++ worker.text
  | .unknownWorker worker => "unknown worker " ++ worker.text
  | .notOwned item worker => "item " ++ item.text ++ " not owned by worker " ++ worker.text
  | .stated detail => detail

inductive Error where
  | noWorkers
  | staleMove (cause : StaleCause)
  | alreadyRunning (worker : WorkerId)
  | invalidId (cause : IdError)
  deriving DecidableEq, Repr

def Error.message : Error → String
  | .noWorkers => "no workers registered"
  | .staleMove cause => "stale move: " ++ cause.detail
  | .alreadyRunning worker => "worker " ++ worker.text ++ " is already running"
  | .invalidId cause => "invalid identifier: " ++ cause.message

/-- A later attempt may succeed with nothing else done. -/
def Error.isTransient : Error → Bool
  | .noWorkers | .staleMove _ => true
  | .alreadyRunning _ | .invalidId _ => false

end Roster
