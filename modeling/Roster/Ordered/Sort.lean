/-!
Ascending lists: placing an element, sorting with repeats kept, and inserting without repeats.
Placing and inserting keep a list ascending; sorting makes one of any list.
-/

namespace Roster.Ordered

variable {α : Type} [Ord α]

/-- Each element is below all later ones. -/
def Strict (l : List α) : Prop := l.Pairwise fun a b => compare a b = .lt

/-- No element is above a later one. -/
def Ascending (l : List α) : Prop := l.Pairwise fun a b => compare a b ≠ .gt

instance (l : List α) : Decidable (Strict l) := inferInstanceAs (Decidable (l.Pairwise _))

instance (l : List α) : Decidable (Ascending l) := inferInstanceAs (Decidable (l.Pairwise _))

/-- Puts `x` in front of the first element that is not below it. -/
def place (x : α) : List α → List α
  | [] => [x]
  | y :: ys => match compare x y with
    | .gt => y :: place x ys
    | _ => x :: y :: ys

/-- Sorts, with repeats kept. -/
def sort (l : List α) : List α := l.foldr place []

/-- Puts `x` in its place unless it is there already. -/
def insert (x : α) : List α → List α
  | [] => [x]
  | y :: ys => match compare x y with
    | .lt => x :: y :: ys
    | .eq => y :: ys
    | .gt => y :: insert x ys

/-- Sorts, with repeats dropped. -/
def sortOnce (l : List α) : List α := l.foldr insert []

theorem strict_nil : Strict ([] : List α) := .nil

theorem Strict.ascending {l : List α} (h : Strict l) : Ascending l :=
  List.Pairwise.imp (by intro a b h; simp [h]) h

theorem mem_place {x z : α} {l : List α} : z ∈ place x l ↔ z = x ∨ z ∈ l := by
  induction l with
  | nil => simp [place]
  | cons y ys ih =>
    rw [place]
    split
    · rw [List.mem_cons, ih, List.mem_cons]
      exact or_left_comm
    · rw [List.mem_cons]

theorem mem_insert_of_mem {x z : α} {l : List α} (h : z ∈ l) : z ∈ insert x l := by
  induction l with
  | nil => simp at h
  | cons y ys ih =>
    rw [insert]
    split
    · exact List.mem_cons_of_mem x h
    · exact h
    · rcases List.mem_cons.1 h with rfl | h
      · exact List.mem_cons_self
      · exact List.mem_cons_of_mem y (ih h)

theorem eq_or_mem_of_mem_insert {x z : α} {l : List α} (h : z ∈ insert x l) : z = x ∨ z ∈ l := by
  induction l with
  | nil => exact .inl (List.mem_singleton.1 h)
  | cons y ys ih =>
    rw [insert] at h
    split at h
    · exact List.mem_cons.1 h
    · exact .inr h
    · rcases List.mem_cons.1 h with rfl | h
      · exact .inr List.mem_cons_self
      · exact (ih h).imp_right (List.mem_cons_of_mem y)

theorem mem_insert_self [Std.LawfulEqOrd α] (x : α) (l : List α) : x ∈ insert x l := by
  induction l with
  | nil => exact List.mem_singleton_self x
  | cons y ys ih =>
    rw [insert]
    split
    · exact List.mem_cons_self
    · next h => rw [Std.LawfulEqOrd.eq_of_compare h]; exact List.mem_cons_self
    · exact List.mem_cons_of_mem y ih

theorem mem_insert [Std.LawfulEqOrd α] {x z : α} {l : List α} :
    z ∈ insert x l ↔ z = x ∨ z ∈ l :=
  ⟨eq_or_mem_of_mem_insert, fun h => h.elim (fun e => e ▸ mem_insert_self x l) mem_insert_of_mem⟩

theorem strict_insert [Std.TransOrd α] {x : α} {l : List α} (h : Strict l) :
    Strict (insert x l) := by
  induction l with
  | nil => exact List.pairwise_singleton _ x
  | cons y ys ih =>
    have ⟨hy, hys⟩ := List.pairwise_cons.1 h
    rw [insert]
    split
    · next hx =>
      refine List.pairwise_cons.2 ⟨fun z hz => ?_, h⟩
      rcases List.mem_cons.1 hz with rfl | hz
      · exact hx
      · exact Std.TransCmp.lt_trans hx (hy z hz)
    · exact h
    · next hx =>
      refine List.pairwise_cons.2 ⟨fun z hz => ?_, ih hys⟩
      rcases eq_or_mem_of_mem_insert hz with rfl | hz
      · exact Std.OrientedCmp.lt_of_gt hx
      · exact hy z hz

theorem ascending_insert [Std.TransOrd α] {x : α} {l : List α} (h : Ascending l) :
    Ascending (insert x l) := by
  induction l with
  | nil => exact List.pairwise_singleton _ x
  | cons y ys ih =>
    have ⟨hy, hys⟩ := List.pairwise_cons.1 h
    rw [insert]
    split
    · next hx =>
      refine List.pairwise_cons.2 ⟨fun z hz => ?_, h⟩
      rcases List.mem_cons.1 hz with rfl | hz
      · simp [hx]
      · have := Std.TransCmp.lt_of_lt_of_isLE hx (Ordering.isLE_iff_ne_gt.2 (hy z hz))
        simp [this]
    · exact h
    · next hx =>
      refine List.pairwise_cons.2 ⟨fun z hz => ?_, ih hys⟩
      rcases eq_or_mem_of_mem_insert hz with rfl | hz
      · simp [Std.OrientedCmp.lt_of_gt hx]
      · exact hy z hz

theorem ascending_place [Std.TransOrd α] {x : α} {l : List α} (h : Ascending l) :
    Ascending (place x l) := by
  induction l with
  | nil => exact List.pairwise_singleton _ x
  | cons y ys ih =>
    have ⟨hy, hys⟩ := List.pairwise_cons.1 h
    rw [place]
    split
    · next hx =>
      refine List.pairwise_cons.2 ⟨fun z hz => ?_, ih hys⟩
      rcases mem_place.1 hz with rfl | hz
      · simp [Std.OrientedCmp.lt_of_gt hx]
      · exact hy z hz
    · next hx =>
      refine List.pairwise_cons.2 ⟨fun z hz => ?_, h⟩
      rcases List.mem_cons.1 hz with rfl | hz
      · exact hx
      · exact Ordering.isLE_iff_ne_gt.1 (Std.TransCmp.isLE_trans
          (Ordering.isLE_iff_ne_gt.2 hx) (Ordering.isLE_iff_ne_gt.2 (hy z hz)))

theorem ascending_sort [Std.TransOrd α] (l : List α) : Ascending (sort l) := by
  induction l with
  | nil => exact List.Pairwise.nil
  | cons x l ih => exact ascending_place ih

theorem strict_sortOnce [Std.TransOrd α] (l : List α) : Strict (sortOnce l) := by
  induction l with
  | nil => exact List.Pairwise.nil
  | cons x l ih => exact strict_insert ih

theorem mem_sort {z : α} {l : List α} : z ∈ sort l ↔ z ∈ l := by
  induction l with
  | nil => simp [sort]
  | cons x l ih =>
    change z ∈ place x (sort l) ↔ _
    rw [mem_place, ih, List.mem_cons]

theorem mem_sortOnce [Std.LawfulEqOrd α] {z : α} {l : List α} : z ∈ sortOnce l ↔ z ∈ l := by
  induction l with
  | nil => simp [sortOnce]
  | cons x l ih =>
    change z ∈ insert x (sortOnce l) ↔ _
    rw [mem_insert, ih, List.mem_cons]

theorem perm_place (x : α) (l : List α) : (place x l).Perm (x :: l) := by
  induction l with
  | nil => exact .refl _
  | cons y ys ih =>
    rw [place]
    split
    · exact (ih.cons y).trans (.swap x y ys)
    · exact .refl _

theorem perm_sort (l : List α) : (sort l).Perm l := by
  induction l with
  | nil => exact .refl _
  | cons x l ih => exact (perm_place x (sort l)).trans (ih.cons x)

end Roster.Ordered
