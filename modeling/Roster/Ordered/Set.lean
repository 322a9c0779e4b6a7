import Roster.Ordered.Sort

/-!
Finite sets as strictly ascending lists. A set is its list, so equal sets are equal values, and the
least and the greatest member stand at the ends.
-/

namespace Roster

structure OrderedSet (α : Type) [Ord α] where
  toList : List α
  strict : Ordered.Strict toList

namespace OrderedSet

variable {α : Type} [Ord α]

@[ext] theorem ext {s t : OrderedSet α} (h : s.toList = t.toList) : s = t := by
  cases s; cases t; cases h; rfl

instance [DecidableEq α] : DecidableEq (OrderedSet α) := fun s t =>
  if h : s.toList = t.toList then .isTrue (ext h) else .isFalse fun e => h (e ▸ rfl)

instance : Membership α (OrderedSet α) := ⟨fun s x => x ∈ s.toList⟩

theorem mem_def {x : α} {s : OrderedSet α} : x ∈ s ↔ x ∈ s.toList := .rfl

instance [DecidableEq α] (x : α) (s : OrderedSet α) : Decidable (x ∈ s) :=
  inferInstanceAs (Decidable (x ∈ s.toList))

def empty : OrderedSet α := ⟨[], Ordered.strict_nil⟩

instance : Inhabited (OrderedSet α) := ⟨empty⟩

def size (s : OrderedSet α) : Nat := s.toList.length

def isEmpty (s : OrderedSet α) : Bool := s.toList.isEmpty

/-- The least member. -/
def first? (s : OrderedSet α) : Option α := s.toList.head?

/-- The greatest member. -/
def last? (s : OrderedSet α) : Option α := s.toList.getLast?

/-- All but the least member. -/
def dropFirst (s : OrderedSet α) : OrderedSet α := ⟨s.toList.tail, s.strict.tail⟩

/-- All but the greatest member. -/
def dropLast (s : OrderedSet α) : OrderedSet α :=
  ⟨s.toList.dropLast, s.strict.sublist (List.dropLast_sublist _)⟩

def insert [Std.TransOrd α] (x : α) (s : OrderedSet α) : OrderedSet α :=
  ⟨Ordered.insert x s.toList, Ordered.strict_insert s.strict⟩

def erase [DecidableEq α] (x : α) (s : OrderedSet α) : OrderedSet α :=
  ⟨s.toList.filter (· ≠ x), s.strict.filter _⟩

def ofList [Std.TransOrd α] (l : List α) : OrderedSet α :=
  ⟨Ordered.sortOnce l, Ordered.strict_sortOnce l⟩

/-- The members of `s` that are not in `t`. -/
def diff [DecidableEq α] (s t : OrderedSet α) : OrderedSet α :=
  ⟨s.toList.filter (· ∉ t), s.strict.filter _⟩

@[simp] theorem not_mem_empty (x : α) : x ∉ (empty : OrderedSet α) := List.not_mem_nil

@[simp] theorem mem_insert [Std.TransOrd α] [Std.LawfulEqOrd α] {x z : α} {s : OrderedSet α} :
    z ∈ s.insert x ↔ z = x ∨ z ∈ s := Ordered.mem_insert

@[simp] theorem mem_erase [DecidableEq α] {x z : α} {s : OrderedSet α} :
    z ∈ s.erase x ↔ z ∈ s ∧ z ≠ x := by
  simp [mem_def, erase]

@[simp] theorem mem_ofList [Std.TransOrd α] [Std.LawfulEqOrd α] {z : α} {l : List α} :
    z ∈ ofList l ↔ z ∈ l := Ordered.mem_sortOnce

@[simp] theorem mem_diff [DecidableEq α] {z : α} {s t : OrderedSet α} :
    z ∈ s.diff t ↔ z ∈ s ∧ z ∉ t := by
  simp [mem_def, diff]

end OrderedSet

end Roster
