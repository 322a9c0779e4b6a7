import Roster.Rebalance.Tick

/-!
A backend with the one rebalancer that works on it.
-/

namespace Roster

structure Cluster where
  backend : Backend
  rebalancer : Rebalancer

namespace Cluster

def ofTable (t : Table) : Cluster := ⟨.ofTable t, .fresh⟩

/-- One tick, with what it logs. -/
def rebalance (c : Cluster) : Except Error Stats × List Log.Event × Cluster :=
  let t := c.rebalancer.tick c.backend
  (t.result, t.log, ⟨t.backend, t.rebalancer⟩)

/-- A new rebalancer, which has not logged a table yet. -/
def restart (c : Cluster) : Cluster := { c with rebalancer := .fresh }

end Cluster

end Roster
