import Roster.Id

/-!
Single changes of an assignment table.
-/

namespace Roster

inductive Move where
  /-- Gives a worker an entry without items. -/
  | addWorker (worker : WorkerId)
  /-- Takes a worker's entry away with all that it owns. -/
  | removeWorker (worker : WorkerId)
  | drop (item : ItemId) (source : WorkerId)
  | assign (item : ItemId) (target : WorkerId)
  | transfer (item : ItemId) (source target : WorkerId)
  deriving DecidableEq, Repr

end Roster
