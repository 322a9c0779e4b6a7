import Roster.Id

/-!
The election of the master. The first worker that tries becomes leader and stays it for good.
-/

namespace Roster

structure Election where
  leader : Option WorkerId
  deriving DecidableEq, Repr, Inhabited

namespace Election

def empty : Election := ⟨none⟩

/-- Says whether the worker is the leader, now or already. -/
def tryLead (e : Election) (w : WorkerId) : Bool × Election :=
  let leader := e.leader.getD w
  (leader = w, ⟨leader⟩)

end Election

end Roster
