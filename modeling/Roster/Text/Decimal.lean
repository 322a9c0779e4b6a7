/-!
Unsigned decimal numerals: an optional plus sign, then ASCII digits, with a bound on the value.
Leading zeros do not count towards the bound. Reading reports the first fault from the left.
-/

namespace Roster.Decimal

inductive Fault where
  | empty
  | invalidDigit
  | tooLarge
  deriving DecidableEq, Repr

def Fault.message : Fault → String
  | .empty => "cannot parse integer from empty string"
  | .invalidDigit => "invalid digit found in string"
  | .tooLarge => "number too large to fit in target type"

def digit? (c : Char) : Option Nat :=
  if '0' ≤ c ∧ c ≤ '9' then some (c.toNat - '0'.toNat) else none

/-- Reads digits on from the value `acc`, which stays below `limit`. -/
def readFrom (limit acc : Nat) : List Char → Except Fault Nat
  | [] => .ok acc
  | c :: cs => match digit? c with
    | none => .error .invalidDigit
    | some d =>
      if acc * 10 + d < limit then readFrom limit (acc * 10 + d) cs else .error .tooLarge

/-- A sign alone is an invalid digit. -/
def read (limit : Nat) : List Char → Except Fault Nat
  | [] => .error .empty
  | '+' :: c :: cs => readFrom limit 0 (c :: cs)
  | cs => readFrom limit 0 cs

/-- The digits of `n`, without leading zeros. -/
def write (n : Nat) : List Char := Nat.toDigits 10 n

end Roster.Decimal
