import Roster.Proofs.Ordered

/-! Lists compared by the first elements that differ. The comparison of lists is the lexicographic
order, and it is settled as soon as both lists have gone on to different elements. -/

namespace Roster.Ordered

variable {α : Type} [Ord α] {l k : List α}

theorem compare_eq_lt_iff_lex [Std.LawfulEqOrd α] :
    compare l k = .lt ↔ List.Lex (fun x y => compare x y = .lt) l k := by
  induction l generalizing k with
  | nil => cases k <;> simp
  | cons x l ih =>
    cases k with
    | nil => simp
    | cons y k =>
      rw [List.compare_cons_cons, Ordering.then_eq_lt, ih, List.cons_lex_cons_iff,
        Std.LawfulEqOrd.compare_eq_iff_eq]

/-- At the first place where they differ both lists have an element, and the second list has the
greater one. -/
inductive Parts : List α → List α → Prop where
  | here {x y : α} {l k : List α} (h : compare x y = .lt) : Parts (x :: l) (y :: k)
  | later {x : α} {l k : List α} (h : Parts l k) : Parts (x :: l) (x :: k)

/-- What comes after two lists that have parted makes no difference. -/
theorem Parts.compare_append [Std.ReflOrd α] (h : Parts l k) (m n : List α) :
    compare (l ++ m) (k ++ n) = .lt := by
  induction h with
  | here h =>
    rw [List.cons_append, List.cons_append, List.compare_cons_cons, h]
    rfl
  | later h ih =>
    rw [List.cons_append, List.cons_append, List.compare_cons_cons, Std.compare_self, ih]
    rfl

/-- What two lists begin with in common makes no difference. -/
theorem compare_append_left [Std.ReflOrd α] (l m n : List α) :
    compare (l ++ m) (l ++ n) = compare m n := by
  induction l with
  | nil => rfl
  | cons x l ih =>
    rw [List.cons_append, List.cons_append, List.compare_cons_cons, Std.compare_self, ih]
    rfl

/-- A list comes after what it begins with. -/
theorem compare_self_append [Std.ReflOrd α] (l : List α) (hk : k ≠ []) :
    compare l (l ++ k) = .lt := by
  obtain ⟨x, k, rfl⟩ := List.exists_cons_of_ne_nil hk
  have happend := compare_append_left l [] (x :: k)
  rwa [List.append_nil, List.compare_nil_cons] at happend

end Roster.Ordered
