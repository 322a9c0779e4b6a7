import Roster.Ordered.Set

/-!
The difference between what should be there and what is: what to start and what to stop, each in
ascending order.
-/

namespace Roster

inductive Convergence where
  | converged
  | converging
  deriving DecidableEq, Repr

structure Diff (α : Type) where
  toStart : List α
  toStop : List α
  deriving DecidableEq, Repr

namespace Diff

variable {α : Type} [Ord α] [Std.TransOrd α] [DecidableEq α]

/-- Order and repeats in the two lists do not matter. -/
def between (desired current : List α) : Diff α :=
  let d := OrderedSet.ofList desired
  let c := OrderedSet.ofList current
  ⟨(d.diff c).toList, (c.diff d).toList⟩

def isEmpty (d : Diff α) : Bool := d.toStart.isEmpty && d.toStop.isEmpty

def status (d : Diff α) : Convergence := if d.isEmpty then .converged else .converging

end Diff

end Roster
