import Roster.Id
import Roster.Ordered.Set

/-!
The registry of work items and workers. Items keep the order in which they were registered last;
every call says whether it changed anything.
-/

namespace Roster

/-- A consistent copy of the registry. Items stand in registration order. -/
structure Membership where
  items : List ItemId
  workers : OrderedSet WorkerId
  deriving DecidableEq

structure Registry where
  items : List ItemId
  /-- The same items, for asking whether one is registered. -/
  known : OrderedSet ItemId
  workers : OrderedSet WorkerId
  deriving DecidableEq

namespace Registry

def empty : Registry := ⟨[], .empty, .empty⟩

instance : Inhabited Registry := ⟨empty⟩

def registerItem (r : Registry) (i : ItemId) : Bool × Registry :=
  if i ∈ r.known then (false, r)
  else (true, { r with items := r.items ++ [i], known := r.known.insert i })

def deregisterItem (r : Registry) (i : ItemId) : Bool × Registry :=
  if i ∈ r.known then (true, { r with items := r.items.filter (· ≠ i), known := r.known.erase i })
  else (false, r)

def registerWorker (r : Registry) (w : WorkerId) : Bool × Registry :=
  (w ∉ r.workers, { r with workers := r.workers.insert w })

def deregisterWorker (r : Registry) (w : WorkerId) : Bool × Registry :=
  (w ∈ r.workers, { r with workers := r.workers.erase w })

def membership (r : Registry) : Membership := ⟨r.items, r.workers⟩

end Registry

end Roster
