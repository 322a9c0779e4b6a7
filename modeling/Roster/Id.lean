import Roster.Ordered.Sort
import Roster.Overflow
import Roster.Text.Decimal

/-!
Identifiers. Workers are numbered with 64 bits; items have a text that is not empty, and nothing is
read into it beyond its order, which is that of its characters.
-/

namespace Roster

inductive IdError where
  | empty
  | invalidWorker (text : String)
  deriving DecidableEq, Repr

def IdError.message : IdError → String
  | .empty => "ID cannot be empty"
  | .invalidWorker text => "invalid worker ID '" ++ text ++ "'"

def IdError.isEmpty : IdError → Bool
  | .empty => true
  | .invalidWorker _ => false

structure WorkerId where
  value : UInt64
  deriving DecidableEq, Repr, Inhabited

namespace WorkerId

instance : Ord WorkerId := ⟨compareOn value⟩

instance : Std.TransOrd WorkerId := inferInstanceAs (Std.TransCmp (compareOn value))

instance : Std.LawfulEqOrd WorkerId where
  eq_of_compare {a b} h := by
    cases a; cases b
    exact congrArg WorkerId.mk (Std.LawfulEqOrd.eq_of_compare h)

/-- How many worker identifiers there are. -/
def count : Nat := UInt64.size

def ofNat (n : Nat) : WorkerId := ⟨.ofNat n⟩

/-- The decimal digits of the number. -/
def text (w : WorkerId) : String := .ofList (Decimal.write w.value.toNat)

def ofText (s : String) : Except IdError WorkerId :=
  match Decimal.read count s.toList with
  | .ok n => .ok (ofNat n)
  | .error .empty => .error .empty
  | .error _ => .error (.invalidWorker s)

/-- The greatest identifier has no successor. -/
def next (w : WorkerId) : Except Overflow WorkerId :=
  if w.value.toNat + 1 < count then .ok ⟨w.value + 1⟩ else .error .sum

end WorkerId

structure ItemId where
  text : String
  text_ne : text ≠ ""
  deriving DecidableEq, Repr

namespace ItemId

instance : Ord ItemId := ⟨compareOn text⟩

instance : Std.TransOrd ItemId := inferInstanceAs (Std.TransCmp (compareOn text))

instance : Std.LawfulEqOrd ItemId where
  eq_of_compare {a b} h := by
    cases a; cases b
    have := Std.LawfulEqOrd.eq_of_compare (α := String) h
    subst this
    rfl

def ofText (s : String) : Except IdError ItemId :=
  if h : s = "" then .error .empty else .ok ⟨s, h⟩

end ItemId

end Roster
