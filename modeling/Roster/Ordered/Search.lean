import Roster.Ordered.Sort

/-!
Search by halving. A window over the list shrinks to one element, each time by a look at the element
in its middle, and nothing outside the window is looked at again. In an ascending list the search
finds whatever is there, and else ends at the place where it belongs; in a list out of order it may
miss.
-/

namespace Roster.Ordered.Search

variable {α : Type} [Ord α]

/-- Where a search ends. -/
inductive Spot where
  /-- On an element equal to the one sought. -/
  | taken (place : Nat)
  /-- Without one, at the place where it would go. -/
  | vacant (place : Nat)
  deriving DecidableEq, Repr

/-- The place that is left of a window of `size` places from `start` on. While there are more, the
window is cut before its middle; its front stays if the element there is above `x`, else its
back. -/
def narrow (x : α) (l : List α) (start size : Nat) : Nat :=
  if size ≤ 1 then start
  else if (l[start + size / 2]?).any (compare · x = .gt) then narrow x l start (size - size / 2)
  else narrow x l (start + size / 2) (size - size / 2)
termination_by size

def locate (x : α) (l : List α) : Spot :=
  let n := narrow x l 0 l.length
  match l[n]? with
  | none => .vacant n
  | some y => match compare y x with
    | .lt => .vacant (n + 1)
    | .eq => .taken n
    | .gt => .vacant n

def contains (x : α) (l : List α) : Bool :=
  match locate x l with
  | .taken _ => true
  | .vacant _ => false

/-- Takes the element that the search finds off the list. -/
def erase? (x : α) (l : List α) : Option (List α) :=
  match locate x l with
  | .taken n => some (l.eraseIdx n)
  | .vacant _ => none

/-- Puts `x` where the search ends, unless that finds it. -/
def insert (x : α) (l : List α) : List α :=
  match locate x l with
  | .taken _ => l
  | .vacant n => l.insertIdx n x

/-- How many elements are not above `x`. -/
def rank (x : α) (l : List α) : Nat := l.countP (compare · x ≠ .gt)

theorem rank_le_length (x : α) (l : List α) : rank x l ≤ l.length := List.countP_le_length

theorem rank_cons (x a : α) (l : List α) :
    rank x (a :: l) = rank x l + if compare a x = .gt then 0 else 1 := by
  by_cases h : compare a x = .gt <;> simp [rank, h]

theorem gt_of_ge_of_gt [Std.TransOrd α] {a b x : α} (hab : compare a b ≠ .gt)
    (ha : compare a x = .gt) : compare b x = .gt := by
  have hxa : compare x a = .lt := Std.OrientedCmp.lt_of_gt ha
  exact Std.OrientedCmp.gt_of_lt
    (Std.TransCmp.lt_of_lt_of_isLE hxa (Ordering.isLE_iff_ne_gt.2 hab))

theorem rank_eq_zero [Std.TransOrd α] {x a : α} {l : List α} (h : Ascending (a :: l))
    (ha : compare a x = .gt) : rank x (a :: l) = 0 := by
  have ⟨hl, _⟩ := List.pairwise_cons.1 h
  rw [rank, List.countP_eq_zero]
  intro b hb
  rcases List.mem_cons.1 hb with rfl | hb
  · simp [ha]
  · simp [gt_of_ge_of_gt (hl b hb) ha]

/-- In an ascending list the elements above `x` are those from its rank on. -/
theorem gt_iff_rank_le [Std.TransOrd α] {x y : α} {l : List α} (h : Ascending l) {i : Nat}
    (hi : l[i]? = some y) : compare y x = .gt ↔ rank x l ≤ i := by
  induction l generalizing i with
  | nil => simp at hi
  | cons a l ih =>
    have ⟨hl, hs⟩ := List.pairwise_cons.1 h
    by_cases ha : compare a x = .gt
    · rw [rank_eq_zero h ha]
      refine iff_of_true ?_ (Nat.zero_le i)
      rcases List.mem_cons.1 (List.mem_of_getElem? hi) with rfl | hy
      · exact ha
      · exact gt_of_ge_of_gt (hl y hy) ha
    · rw [rank_cons, if_neg ha]
      cases i with
      | zero =>
        cases hi
        simp [ha]
      | succ i => rw [ih hs hi]; omega

theorem narrow_bounds [Std.TransOrd α] {x : α} {l : List α} (h : Ascending l) (start size : Nat)
    (hpos : 0 < size) (hlen : start + size ≤ l.length) (hlow : start = 0 ∨ start < rank x l)
    (hhigh : rank x l ≤ start + size) :
    narrow x l start size < l.length ∧
      (narrow x l start size = 0 ∨ narrow x l start size < rank x l) ∧
      rank x l ≤ narrow x l start size + 1 := by
  fun_induction narrow x l start size with
  | case1 start size hsize => exact ⟨by omega, hlow, by omega⟩
  | case2 start size hsize hgt ih =>
    obtain ⟨y, hy, hc⟩ := (Option.any_eq_true _ _).1 hgt
    have := (gt_iff_rank_le h hy).1 (of_decide_eq_true hc)
    exact ih (by omega) (by omega) hlow (by omega)
  | case3 start size hsize hgt ih =>
    have hy : l[start + size / 2]? = some l[start + size / 2] :=
      List.getElem?_eq_getElem (by omega)
    have : ¬rank x l ≤ start + size / 2 := fun hr =>
      hgt (by rw [hy, Option.any_some, decide_eq_true ((gt_iff_rank_le h hy).2 hr)])
    exact ih (by omega) (by omega) (by omega) (by omega)

section Laws

variable [Std.TransOrd α] [Std.LawfulEqOrd α] {x : α} {l : List α} {n : Nat}

theorem getElem?_narrow (h : Ascending l) (hx : x ∈ l) :
    l[narrow x l 0 l.length]? = some x := by
  have hpos : 0 < l.length := List.length_pos_of_mem hx
  have ⟨hlen, hlow, hhigh⟩ := narrow_bounds (x := x) h 0 l.length hpos (by omega) (.inl rfl)
    (by have := rank_le_length x l; omega)
  obtain ⟨i, hi⟩ := List.mem_iff_getElem?.1 hx
  have hy := List.getElem?_eq_getElem hlen
  have hrank : ¬rank x l ≤ i := fun hr => by
    have := (gt_iff_rank_le h hi).2 hr
    simp [Std.ReflCmp.compare_self] at this
  rcases Nat.lt_or_ge i (narrow x l 0 l.length) with hlt | hge
  · have ⟨hi', hix⟩ := List.getElem?_eq_some_iff.1 hi
    have hle := List.pairwise_iff_getElem.1 h i _ hi' hlen hlt
    rw [hix] at hle
    have hge : compare l[narrow x l 0 l.length] x ≠ .gt := fun hc => by
      have := (gt_iff_rank_le h hy).1 hc
      omega
    rw [hy, Std.LawfulEqOrd.eq_of_compare (Std.OrientedCmp.isLE_antisymm
      (Ordering.isLE_iff_ne_gt.2 hge) (Ordering.isLE_iff_ne_gt.2 hle))]
  · rw [show narrow x l 0 l.length = i by omega, hi]

theorem locate_of_mem (h : Ascending l) (hx : x ∈ l) :
    locate x l = .taken (narrow x l 0 l.length) := by
  simp [locate, getElem?_narrow h hx, Std.ReflCmp.compare_self]

theorem locate_of_not_mem (h : Ascending l) (hx : x ∉ l) : locate x l = .vacant (rank x l) := by
  rcases Nat.eq_zero_or_pos l.length with h0 | hpos
  · obtain rfl := List.eq_nil_of_length_eq_zero h0
    rw [locate, narrow]
    rfl
  · have ⟨hlen, hlow, hhigh⟩ := narrow_bounds (x := x) h 0 l.length hpos (by omega) (.inl rfl)
      (by have := rank_le_length x l; omega)
    have hy := List.getElem?_eq_getElem hlen
    have hgt := gt_iff_rank_le (x := x) h hy
    simp only [locate, hy]
    split
    · next hc =>
      have : ¬rank x l ≤ narrow x l 0 l.length := fun hr => by simp [hgt.2 hr] at hc
      congr 1
      omega
    · next hc =>
      exact absurd (Std.LawfulEqOrd.eq_of_compare hc ▸ List.getElem_mem hlen) hx
    · next hc =>
      have := hgt.1 hc
      congr 1
      omega

theorem contains_iff (h : Ascending l) : contains x l = true ↔ x ∈ l := by
  by_cases hx : x ∈ l
  · simp [contains, locate_of_mem h hx, hx]
  · simp [contains, locate_of_not_mem h hx, hx]

theorem eq_head_of_mem {a b : α} (h : Ascending (a :: b :: l)) (ha : a ∈ b :: l) : b = a := by
  rcases List.mem_cons.1 ha with rfl | ha
  · rfl
  · have ⟨hab, hl⟩ := List.pairwise_cons.1 h
    exact Std.LawfulEqOrd.eq_of_compare (Std.OrientedCmp.isLE_antisymm
      (Ordering.isLE_iff_ne_gt.2 ((List.pairwise_cons.1 hl).1 a ha))
      (Ordering.isLE_iff_ne_gt.2 (hab b List.mem_cons_self)))

/-- Which of several equal elements is taken makes no difference. -/
theorem eraseIdx_eq_erase [DecidableEq α] (h : Ascending l) (hn : l[n]? = some x) :
    l.eraseIdx n = l.erase x := by
  induction l generalizing n with
  | nil => simp at hn
  | cons a l ih =>
    cases n with
    | zero =>
      cases hn
      simp
    | succ n =>
      rw [List.getElem?_cons_succ] at hn
      rw [List.eraseIdx_cons_succ, ih h.of_cons hn]
      by_cases hax : a = x
      · subst hax
        cases l with
        | nil => simp at hn
        | cons b l =>
          rw [eq_head_of_mem h (List.mem_of_getElem? hn)]
          simp
      · rw [List.erase_cons_tail (by simpa using hax)]

theorem erase?_eq [DecidableEq α] (h : Ascending l) :
    erase? x l = if x ∈ l then some (l.erase x) else none := by
  by_cases hx : x ∈ l
  · simp [erase?, locate_of_mem h hx, hx, eraseIdx_eq_erase h (getElem?_narrow h hx)]
  · simp [erase?, locate_of_not_mem h hx, hx]

theorem ordered_insert_of_mem (h : Ascending l) (hx : x ∈ l) : Ordered.insert x l = l := by
  induction l with
  | nil => simp at hx
  | cons a l ih =>
    rw [Ordered.insert]
    split
    · next hlt =>
      rcases List.mem_cons.1 hx with rfl | hx
      · simp [Std.ReflCmp.compare_self] at hlt
      · exact absurd (Std.OrientedCmp.gt_of_lt hlt) ((List.pairwise_cons.1 h).1 x hx)
    · rfl
    · next hgt =>
      rcases List.mem_cons.1 hx with rfl | hx
      · simp [Std.ReflCmp.compare_self] at hgt
      · rw [ih h.of_cons hx]

theorem insertIdx_rank (h : Ascending l) (hx : x ∉ l) :
    l.insertIdx (rank x l) x = Ordered.insert x l := by
  induction l with
  | nil => rfl
  | cons a l ih =>
    rw [Ordered.insert]
    split
    · next hlt =>
      rw [rank_eq_zero h (Std.OrientedCmp.gt_of_lt hlt)]
      rfl
    · next he => exact absurd (Std.LawfulEqOrd.eq_of_compare he ▸ List.mem_cons_self) hx
    · next hgt =>
      have : compare a x ≠ .gt := by simp [Std.OrientedCmp.lt_of_gt hgt]
      rw [rank_cons, if_neg this, List.insertIdx_succ_cons,
        ih h.of_cons fun hl => hx (List.mem_cons_of_mem a hl)]

theorem insert_eq (h : Ascending l) : insert x l = Ordered.insert x l := by
  by_cases hx : x ∈ l
  · rw [insert, locate_of_mem h hx, ordered_insert_of_mem h hx]
  · rw [insert, locate_of_not_mem h hx]
    exact insertIdx_rank h hx

end Laws

end Roster.Ordered.Search
