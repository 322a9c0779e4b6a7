/-!
Intervals and time limits, in milliseconds.
-/

namespace Roster

structure Timing where
  rebalanceInterval : Nat
  reconcileInterval : Nat
  /-- How long a cancelled handler may take before it is aborted. -/
  stopTimeout : Nat
  deriving DecidableEq, Repr

def Timing.default : Timing := ⟨1000, 1000, 30000⟩

instance : Inhabited Timing := ⟨.default⟩

end Roster
