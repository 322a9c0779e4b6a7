import Roster.Id

/-!
Loads: a worker with the items it owns. Lighter loads come first; of equally many items the greater
list comes first, and of equal lists the smaller worker. Different loads are never equal in this
order, so every tie is broken by content.
-/

namespace Roster

structure Load where
  worker : WorkerId
  items : List ItemId
  ascending : Ordered.Ascending items
  deriving DecidableEq

namespace Load

/-- Repeats are kept. -/
def of (w : WorkerId) (items : List ItemId) : Load :=
  ⟨w, Ordered.sort items, Ordered.ascending_sort items⟩

def size (l : Load) : Nat := l.items.length

def isEmpty (l : Load) : Bool := l.items.isEmpty

/-- An item that is there already is not added again. -/
def insert (l : Load) (i : ItemId) : Load :=
  { l with items := Ordered.insert i l.items, ascending := Ordered.ascending_insert l.ascending }

/-- The load without its greatest item. -/
def dropLast (l : Load) : Load :=
  { l with
    items := l.items.dropLast
    ascending := l.ascending.sublist (List.dropLast_sublist _) }

def order : Load → Load → Ordering :=
  compareLex (compareOn size)
    (compareLex (fun a b => compare b.items a.items) (compareOn worker))

instance : Ord Load := ⟨order⟩

theorem transCmp_items_reversed : Std.TransCmp fun a b : Load => compare b.items a.items where
  eq_swap := Std.OrientedCmp.eq_swap
  isLE_trans h k := Std.TransCmp.isLE_trans k h

instance : Std.TransOrd Load :=
  have := transCmp_items_reversed
  inferInstanceAs (Std.TransCmp (compareLex (compareOn size)
    (compareLex (fun a b => compare b.items a.items) (compareOn worker))))

theorem length_insert_le (i : ItemId) (l : List ItemId) :
    (Ordered.insert i l).length ≤ l.length + 1 := by
  induction l with
  | nil => simp [Ordered.insert]
  | cons j l ih =>
    rw [Ordered.insert]
    split <;> simp
    exact ih

theorem size_insert_le (l : Load) (i : ItemId) : (l.insert i).size ≤ l.size + 1 :=
  length_insert_le i l.items

@[simp] theorem size_dropLast (l : Load) : l.dropLast.size = l.size - 1 := by
  simp [dropLast, size]

end Load

end Roster
