import Roster.Ordered.Map
import Roster.Ordered.Search
import Roster.Ordered.Set

/-! Ordered lists and sets up to permutation. An ascending list is the only ascending one among its
permutations, so a set is known from its members in any order, and a map from its entries. -/

namespace Roster

namespace Ordered

variable {α : Type} [Ord α]

theorem compare_antisymm [Std.TransOrd α] [Std.LawfulEqOrd α] {a b : α}
    (hab : compare a b ≠ .gt) (hba : compare b a ≠ .gt) : a = b :=
  Std.LawfulEqOrd.eq_of_compare (Std.OrientedCmp.isLE_antisymm
    (Ordering.isLE_iff_ne_gt.2 hab) (Ordering.isLE_iff_ne_gt.2 hba))

/-- What keeps two elements in their order leaves their comparison alone. -/
theorem compare_map {β : Type} [Ord β] [Std.TransOrd α] [Std.LawfulEqOrd α] [Std.TransOrd β]
    {f : α → β} {a b : α} (hab : compare a b = .lt → compare (f a) (f b) = .lt)
    (hba : compare b a = .lt → compare (f b) (f a) = .lt) :
    compare (f a) (f b) = compare a b := by
  cases hc : compare a b with
  | lt => exact hab hc
  | eq => rw [Std.LawfulEqOrd.eq_of_compare hc, Std.compare_self]
  | gt => exact Std.OrientedCmp.gt_of_lt (hba (Std.OrientedCmp.lt_of_gt hc))

theorem Strict.nodup [Std.TransOrd α] {l : List α} (h : Strict l) : l.Nodup :=
  List.Pairwise.imp OrderedMap.ne_of_lt h

theorem strict_iff [Std.TransOrd α] [Std.LawfulEqOrd α] {l : List α} :
    Strict l ↔ Ascending l ∧ l.Nodup := by
  constructor
  · intro h
    exact ⟨h.ascending, h.nodup⟩
  · rintro ⟨ha, hn⟩
    refine List.Pairwise.imp ?_ (List.Pairwise.and ha hn)
    rintro a b ⟨hle, hne⟩
    cases hc : compare a b with
    | lt => rfl
    | eq => exact absurd (Std.LawfulEqOrd.eq_of_compare hc) hne
    | gt => exact absurd hc hle

theorem Ascending.eq_of_perm [Std.TransOrd α] [Std.LawfulEqOrd α] {l k : List α}
    (hl : Ascending l) (hk : Ascending k) (h : l.Perm k) : l = k :=
  h.eq_of_pairwise (fun _ _ _ _ hab hba => compare_antisymm hab hba) hl hk

theorem sort_eq_self [Std.TransOrd α] [Std.LawfulEqOrd α] {l : List α} (h : Ascending l) :
    sort l = l :=
  (ascending_sort l).eq_of_perm h (perm_sort l)

theorem Ascending.sublist {l k : List α} (h : Ascending l) (hk : k.Sublist l) : Ascending k :=
  List.Pairwise.sublist hk h

theorem insert_perm [Std.LawfulEqOrd α] {x : α} {l : List α} (hx : x ∉ l) :
    (insert x l).Perm (x :: l) := by
  induction l with
  | nil => exact .refl _
  | cons y ys ih =>
    rw [insert]
    split
    · exact .refl _
    · next he =>
      have hxy := Std.LawfulEqOrd.eq_of_compare he
      exact absurd (hxy ▸ List.mem_cons_self) hx
    · have hys : x ∉ ys := fun h => hx (List.mem_cons_of_mem y h)
      exact ((ih hys).cons y).trans (.swap x y ys)

/-- An element comes between those below it and those above it. -/
theorem insert_eq_append [Std.TransOrd α] {x : α} {l k : List α}
    (hl : ∀ y ∈ l, compare y x = .lt) (hk : ∀ y ∈ k, compare x y = .lt) :
    insert x (l ++ k) = l ++ x :: k := by
  induction l with
  | nil =>
    cases k with
    | nil => rfl
    | cons y k => rw [List.nil_append, insert, hk y List.mem_cons_self, List.nil_append]
  | cons y l ih =>
    have hgt : compare x y = .gt := Std.OrientedCmp.gt_of_lt (hl y List.mem_cons_self)
    rw [List.cons_append, insert, hgt, List.cons_append,
      ← ih fun z hz => hl z (List.mem_cons_of_mem y hz)]

theorem sortOnce_perm [Std.LawfulEqOrd α] {l : List α} (h : l.Nodup) : (sortOnce l).Perm l := by
  induction l with
  | nil => exact .refl _
  | cons x l ih =>
    obtain ⟨hx, hl⟩ := List.nodup_cons.1 h
    have hx' : x ∉ sortOnce l := fun hm => hx (mem_sortOnce.1 hm)
    exact (insert_perm hx').trans ((ih hl).cons x)

end Ordered

namespace OrderedSet

variable {α : Type} [Ord α]

theorem nodup [Std.TransOrd α] (s : OrderedSet α) : s.toList.Nodup := s.strict.nodup

theorem eq_of_perm [Std.TransOrd α] [Std.LawfulEqOrd α] {s t : OrderedSet α}
    (h : s.toList.Perm t.toList) : s = t :=
  ext (s.strict.ascending.eq_of_perm t.strict.ascending h)

/-- A set is known from its members. -/
theorem eq_of_mem_iff [Std.TransOrd α] [Std.LawfulEqOrd α] {s t : OrderedSet α}
    (h : ∀ x, x ∈ s ↔ x ∈ t) : s = t :=
  eq_of_perm ((List.perm_ext_iff_of_nodup s.nodup t.nodup).2 h)

theorem insert_of_mem [Std.TransOrd α] [Std.LawfulEqOrd α] {x : α} {s : OrderedSet α}
    (hx : x ∈ s) : s.insert x = s := by
  refine eq_of_mem_iff fun y => ?_
  rw [mem_insert]
  constructor
  · rintro (rfl | hy)
    · exact hx
    · exact hy
  · exact .inr

theorem erase_of_not_mem [DecidableEq α] {x : α} {s : OrderedSet α} (hx : x ∉ s) :
    s.erase x = s := by
  refine ext (List.filter_eq_self.2 fun y hy => ?_)
  exact decide_eq_true fun hyx : y = x => hx (hyx ▸ hy)

theorem toList_insert_perm [Std.TransOrd α] [Std.LawfulEqOrd α] {x : α} {s : OrderedSet α}
    (hx : x ∉ s.toList) : (s.insert x).toList.Perm (x :: s.toList) :=
  Ordered.insert_perm hx

theorem toList_ofList_perm [Std.TransOrd α] [Std.LawfulEqOrd α] {l : List α} (h : l.Nodup) :
    (ofList l).toList.Perm l :=
  Ordered.sortOnce_perm h

theorem exists_mem {s : OrderedSet α} (h : s.isEmpty = false) :
    ∃ x, x ∈ s.toList := by
  cases hs : s.toList with
  | nil => simp [isEmpty, hs] at h
  | cons x l => exact ⟨x, List.mem_cons_self⟩

theorem toList_eq_of_first? {s : OrderedSet α} {x : α} (h : s.first? = some x) :
    s.toList = x :: s.dropFirst.toList := by
  obtain ⟨l, hl⟩ := List.head?_eq_some_iff.1 h
  simp [dropFirst, hl]

theorem toList_eq_of_last? {s : OrderedSet α} {x : α} (h : s.last? = some x) :
    s.toList = s.dropLast.toList ++ [x] := by
  obtain ⟨l, hl⟩ := List.getLast?_eq_some_iff.1 h
  simp [dropLast, hl]

theorem first?_le [Std.TransOrd α] {s : OrderedSet α} {x y : α} (h : s.first? = some x)
    (hy : y ∈ s.toList) : compare x y ≠ .gt := by
  have hs := s.strict.ascending
  rw [toList_eq_of_first? h] at hs hy
  rcases List.mem_cons.1 hy with rfl | hy
  · simp [Std.ReflCmp.compare_self]
  · exact (List.pairwise_cons.1 hs).1 y hy

theorem le_last? [Std.TransOrd α] {s : OrderedSet α} {x y : α} (h : s.last? = some x)
    (hy : y ∈ s.toList) : compare y x ≠ .gt := by
  have hs := s.strict.ascending
  rw [toList_eq_of_last? h] at hs hy
  rcases List.mem_append.1 hy with hy | hy
  · exact (List.pairwise_append.1 hs).2.2 y hy x (List.mem_singleton_self x)
  · rw [List.mem_singleton.1 hy]
    simp [Std.ReflCmp.compare_self]

end OrderedSet

namespace OrderedMap

/-- A filter leaves the entries that it holds of. -/
theorem get?_filter_of_get? {κ ν : Type} [Ord κ] [DecidableEq κ] [Std.LawfulEqOrd κ]
    [Std.TransOrd κ] {m : OrderedMap κ ν} {p : κ → ν → Bool} {k : κ} {v : ν}
    (h : m.get? k = some v) (hp : p k v = true) : (m.filter p).get? k = some v := by
  rw [get?_filter, h]
  exact Option.filter_some_pos hp

variable {κ ν : Type} [Ord κ] [Std.TransOrd κ]

theorem put_eq_append {k : κ} {v : ν} {es : List (κ × ν)}
    (h : ∀ e ∈ es, compare e.1 k = .lt) : put k v es = es ++ [(k, v)] := by
  induction es with
  | nil => rfl
  | cons e es ih =>
    have hgt : compare k e.1 = .gt := Std.OrientedCmp.gt_of_lt (h e List.mem_cons_self)
    rw [put, hgt, ih fun f hf => h f (List.mem_cons_of_mem e hf)]
    rfl

/-- A map has as many entries as there are keys. -/
theorem size_eq_length {m : OrderedMap κ ν} {l : List κ} (hn : l.Nodup)
    (h : ∀ k, k ∈ l ↔ k ∈ m.keys) : m.size = l.length := by
  have hperm : m.keys.Perm l :=
    (List.perm_ext_iff_of_nodup (nodup_keys m) hn).2 fun k => (h k).symm
  rw [← hperm.length_eq, keys, List.length_map, size]

omit [Std.TransOrd κ] in
theorem size_filter_add (m : OrderedMap κ ν) (p : κ → ν → Bool) :
    (m.filter p).size + (m.filter fun k v => !p k v).size = m.size := by
  have hsplit := List.length_eq_countP_add_countP (fun e => p e.1 e.2) (l := m.entries)
  simp only [List.countP_eq_length_filter, Bool.not_eq_true, Bool.decide_eq_false] at hsplit
  exact hsplit.symm

variable [DecidableEq κ]

theorem size_erase {m : OrderedMap κ ν} {k : κ} {v : ν} (h : m.get? k = some v) :
    (m.erase k).size + 1 = m.size := by
  have hone : (m.filter fun j _ => !decide (j ≠ k)).size = [k].length := by
    refine size_eq_length (List.pairwise_singleton _ k) fun j => ?_
    rw [List.mem_singleton, mem_keys_iff]
    constructor
    · rintro rfl
      exact ⟨v, by rw [get?_filter, h]; exact Option.filter_some_pos (by simp)⟩
    · rintro ⟨u, hu⟩
      rw [get?_filter, Option.filter_eq_some_iff] at hu
      simpa using hu.2
  rw [← size_filter_add m fun j _ => decide (j ≠ k), hone]
  rfl

variable [Std.LawfulEqOrd κ]

theorem mem_keys_insert_iff {m : OrderedMap κ ν} {k j : κ} {v : ν} :
    j ∈ (m.insert k v).keys ↔ j = k ∨ j ∈ m.keys := by
  rw [mem_keys_iff, mem_keys_iff, get?_insert]
  by_cases hj : j = k <;> simp [hj]

theorem size_insert_of_none {m : OrderedMap κ ν} {k : κ} (v : ν) (h : m.get? k = none) :
    (m.insert k v).size = m.size + 1 := by
  have hk : k ∉ m.keys := by
    rw [mem_keys_iff, h]
    simp
  rw [size_eq_length (List.nodup_cons.2 ⟨hk, nodup_keys m⟩) fun j => ?_, List.length_cons, keys,
    List.length_map, size]
  rw [mem_keys_insert_iff, List.mem_cons]

theorem size_insert_of_some {m : OrderedMap κ ν} {k : κ} {u : ν} (v : ν)
    (h : m.get? k = some u) : (m.insert k v).size = m.size := by
  rw [size_eq_length (nodup_keys m) fun j => ?_, keys, List.length_map, size]
  rw [mem_keys_insert_iff]
  refine ⟨.inr, fun hj => hj.elim ?_ id⟩
  rintro rfl
  exact mem_keys_iff.2 ⟨u, h⟩

omit [DecidableEq κ]

theorem entries_foldl_insert {m : OrderedMap κ ν} {es : List (κ × ν)}
    (h : Ordered.Strict ((m.entries ++ es).map (·.1))) :
    (es.foldl (fun m e => m.insert e.1 e.2) m).entries = m.entries ++ es := by
  induction es generalizing m with
  | nil => simp
  | cons e es ih =>
    have hput : (m.insert e.1 e.2).entries = m.entries ++ [e] := by
      refine put_eq_append ?_
      intro f hf
      rw [List.map_append] at h
      exact (List.pairwise_append.1 h).2.2 f.1 (List.mem_map_of_mem hf) e.1 List.mem_cons_self
    rw [List.foldl_cons, ih, hput, List.append_assoc, List.singleton_append]
    rwa [hput, List.append_assoc, List.singleton_append]

/-- A map is made of its entries. -/
theorem ofList_entries (m : OrderedMap κ ν) : ofList m.entries = m :=
  eq_of_entries (entries_foldl_insert (m := empty) m.strict)

end OrderedMap

end Roster
