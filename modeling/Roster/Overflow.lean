/-!
Arithmetic that leaves its range. Nothing recovers from it: the computation it occurs in ends.
-/

namespace Roster

inductive Overflow where
  /-- A 64-bit sum. -/
  | sum
  /-- An instant past the last one of the clock. -/
  | deadline
  deriving DecidableEq, Repr

def Overflow.message : Overflow → String
  | .sum => "attempt to add with overflow"
  | .deadline => "overflow when adding duration to instant"

end Roster
