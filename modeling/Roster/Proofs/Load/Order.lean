import Mathlib.Data.List.Dedup
import Roster.Load.Basic
import Roster.Proofs.Ordered.Lexicographic

/-! Loads as values and in groups: their order never merges different loads and looks at sizes
first, and a group of loads is apart if no worker and no item is in it twice. -/

namespace Roster.Load

/-! ### The order -/

instance : Std.LawfulEqOrd Load where
  eq_of_compare {a b} h := by
    obtain ⟨hw, hi⟩ := compareLex_eq_eq.1 (compareLex_eq_eq.1 (show order a b = .eq from h)).2
    have hworker : a.worker = b.worker := Std.LawfulEqOrd.eq_of_compare hi
    have hitems : b.items = a.items := Std.LawfulEqOrd.eq_of_compare hw
    cases a; cases b
    cases hworker; cases hitems
    rfl

theorem worker_compare_eq_lt_iff {v w : WorkerId} : compare v w = .lt ↔ v.value < w.value :=
  Std.compare_eq_lt (α := UInt64)

/-- Sizes decide first, then the lists of items, of which the greater one comes first, and then the
workers. -/
theorem compare_eq_lt_iff {a b : Load} : compare a b = .lt ↔
    a.size < b.size ∨ a.size = b.size ∧
      (List.Lex (fun i j => compare i j = .lt) b.items a.items ∨
        a.items = b.items ∧ a.worker.value < b.worker.value) := by
  change order a b = .lt ↔ _
  rw [order, compareLex, compareLex, Ordering.then_eq_lt, Ordering.then_eq_lt,
    Ordered.compare_eq_lt_iff_lex, Std.LawfulEqOrd.compare_eq_iff_eq]
  exact or_congr Nat.compare_eq_lt (and_congr Nat.compare_eq_eq
    (or_congr .rfl (and_congr eq_comm worker_compare_eq_lt_iff)))

theorem lt_of_size_lt {a b : Load} (h : a.size < b.size) : compare a b = .lt :=
  compare_eq_lt_iff.2 (.inl h)

theorem size_le_of_compare {a b : Load} (h : compare a b ≠ .gt) : a.size ≤ b.size :=
  Nat.le_of_not_lt fun hlt => h (Std.OrientedCmp.gt_of_lt (lt_of_size_lt hlt))

/-- Loads are in a total order, in which only the same load is equal to a load. The smaller load
comes first, of equally many items the greater list, and of equal lists the smaller worker. A set of
loads has every load that was put into it, and only equal ones become one. -/
theorem order_lawful (a b c : Load) (ls : List Load) (s : OrderedSet Load) :
    (compare a b = .eq ↔ a = b) ∧
    compare b a = (compare a b).swap ∧
    (∀ o, compare a b = o → compare b c = o → compare a c = o) ∧
    ((compare a b).isLE → (compare b c).isLE → (compare a c).isLE) ∧
    (compare a b = .lt ↔ a.size < b.size ∨ a.size = b.size ∧
      (List.Lex (fun i j => compare i j = .lt) b.items a.items ∨
        a.items = b.items ∧ a.worker.value < b.worker.value)) ∧
    (OrderedSet.ofList ls).toList.Perm ls.dedup ∧
    (a ∉ s → (s.insert a).toList.Perm (a :: s.toList)) := by
  refine ⟨Std.LawfulEqOrd.compare_eq_iff_eq, Std.OrientedCmp.eq_swap, ?_, Std.TransCmp.isLE_trans,
    compare_eq_lt_iff, ?_, OrderedSet.toList_insert_perm⟩
  · rintro (_ | _ | _) hab hbc
    · exact Std.TransCmp.lt_trans hab hbc
    · rw [Std.LawfulEqOrd.eq_of_compare hab, hbc]
    · exact Std.TransCmp.gt_trans hab hbc
  · refine (List.perm_ext_iff_of_nodup (OrderedSet.nodup _) (List.nodup_dedup ls)).2 fun l => ?_
    rw [List.mem_dedup]
    exact OrderedSet.mem_ofList

/-- An item twice. -/
def doubled : Load := .of ⟨4⟩ [⟨"nb", by decide⟩, ⟨"nb", by decide⟩]

def mixed : Load := .of ⟨2⟩ [⟨"nc", by decide⟩, ⟨"na", by decide⟩]

def mixedToo : Load := .of ⟨7⟩ [⟨"na", by decide⟩, ⟨"nc", by decide⟩]

theorem doubled_order_lawful :
    compare doubled mixed = .lt ∧ compare mixed mixedToo = .lt ∧ compare doubled mixedToo = .lt ∧
    (OrderedSet.ofList [mixed, doubled, mixedToo, doubled]).toList.Perm
      [mixed, mixedToo, doubled] ∧
    doubled ∉ OrderedSet.ofList [mixed, mixedToo] ∧
    ((OrderedSet.ofList [mixed, mixedToo]).insert doubled).toList.Perm
      (doubled :: (OrderedSet.ofList [mixed, mixedToo]).toList) := by
  have hlist : compare doubled mixed = .lt := by decide +kernel
  have hworker : compare mixed mixedToo = .lt := by decide +kernel
  have hout : doubled ∉ OrderedSet.ofList [mixed, mixedToo] := by decide +kernel
  have hdedup : [mixed, doubled, mixedToo, doubled].dedup = [mixed, mixedToo, doubled] := by
    decide +kernel
  obtain ⟨-, -, htrans, -, -, hperm, hinsert⟩ := order_lawful doubled mixed mixedToo
    [mixed, doubled, mixedToo, doubled] (.ofList [mixed, mixedToo])
  exact ⟨hlist, hworker, htrans .lt hlist hworker, hdedup ▸ hperm, hout, hinsert hout⟩

/-! ### Items that come and go -/

@[simp] theorem worker_insert (l : Load) (i : ItemId) : (l.insert i).worker = l.worker := rfl

@[simp] theorem worker_dropLast (l : Load) : l.dropLast.worker = l.worker := rfl

theorem mem_items_insert {l : Load} {i j : ItemId} :
    j ∈ (l.insert i).items ↔ j = i ∨ j ∈ l.items := Ordered.mem_insert

theorem items_insert_perm {l : Load} {i : ItemId} (h : i ∉ l.items) :
    (l.insert i).items.Perm (i :: l.items) :=
  Ordered.insert_perm h

theorem size_insert {l : Load} {i : ItemId} (h : i ∉ l.items) :
    (l.insert i).size = l.size + 1 :=
  (items_insert_perm h).length_eq

theorem exists_last {l : Load} (h : 0 < l.size) : ∃ i, l.items.getLast? = some i :=
  ⟨_, List.getLast?_eq_some_getLast (List.length_pos_iff.1 h)⟩

theorem items_dropLast_perm {l : Load} {i : ItemId} (h : l.items.getLast? = some i) :
    (i :: l.dropLast.items).Perm l.items := by
  obtain ⟨k, hk⟩ := List.getLast?_eq_some_iff.1 h
  have : l.dropLast.items = k := by simp [dropLast, hk]
  rw [this, hk]
  exact (List.perm_append_singleton i k).symm

theorem items_dropLast_eq_erase {l : Load} {i : ItemId} (hn : l.items.Nodup)
    (h : l.items.getLast? = some i) : l.dropLast.items = l.items.erase i := by
  obtain ⟨k, hk⟩ := List.getLast?_eq_some_iff.1 h
  have hi : i ∉ k := by
    rw [hk] at hn
    exact fun hm => (List.nodup_append.1 hn).2.2 i hm i (List.mem_singleton_self i) rfl
  simp [dropLast, hk, List.erase_append_right _ hi]

theorem items_of {w : WorkerId} {items : List ItemId} (h : Ordered.Ascending items) :
    (of w items).items = items :=
  Ordered.sort_eq_self h

theorem size_of (w : WorkerId) (items : List ItemId) : (of w items).size = items.length :=
  (Ordered.perm_sort items).length_eq

theorem eq_of {l : Load} {w : WorkerId} {items : List ItemId} (hw : l.worker = w)
    (hi : l.items = items) : l = of w items := by
  subst hw; subst hi
  have := items_of (w := l.worker) l.ascending
  cases l
  simp only [of, Load.mk.injEq, true_and]
  exact this.symm

/-- The items of all the loads. -/
def itemsOf (ls : List Load) : List ItemId := ls.flatMap (·.items)

/-- No worker has two of the loads, and no item is in them twice. -/
structure Apart (ls : List Load) : Prop where
  workers : (ls.map (·.worker)).Nodup
  items : (itemsOf ls).Nodup

@[simp] theorem itemsOf_cons (l : Load) (ls : List Load) :
    itemsOf (l :: ls) = l.items ++ itemsOf ls := rfl

theorem itemsOf_perm {ls ks : List Load} (h : ls.Perm ks) : (itemsOf ls).Perm (itemsOf ks) :=
  h.flatMap_right _

namespace Apart

variable {ls ks : List Load}

theorem nodup (h : Apart ls) : ls.Nodup := List.Nodup.of_map _ h.workers

theorem perm (h : Apart ls) (hp : ls.Perm ks) : Apart ks :=
  ⟨h.workers.perm (hp.map _), h.items.perm (itemsOf_perm hp)⟩

theorem tail {l : Load} (h : Apart (l :: ls)) : Apart ls :=
  ⟨(List.nodup_cons.1 h.workers).2, (List.nodup_append.1 h.items).2.1⟩

theorem worker_ne {l k : Load} (h : Apart (l :: ls)) (hk : k ∈ ls) : k.worker ≠ l.worker := by
  intro he
  have hn : l.worker ∉ ls.map (·.worker) := (List.nodup_cons.1 h.workers).1
  exact hn (he ▸ List.mem_map_of_mem (f := fun l : Load => l.worker) hk)

/-- What a load gives away nobody has. -/
theorem dropLast {l : Load} {i : ItemId} (h : Apart (l :: ls)) (hi : l.items.getLast? = some i) :
    Apart (l.dropLast :: ls) ∧ i ∉ itemsOf (l.dropLast :: ls) := by
  have hp : (i :: itemsOf (l.dropLast :: ls)).Perm (itemsOf (l :: ls)) :=
    (items_dropLast_perm hi).append_right (itemsOf ls)
  obtain ⟨hfree, hn⟩ := List.nodup_cons.1 (hp.nodup_iff.2 h.items)
  exact ⟨⟨h.workers, hn⟩, hfree⟩

/-- A load may take an item that nobody has. -/
theorem insert {l : Load} {i : ItemId} (h : Apart (l :: ls)) (hi : i ∉ itemsOf (l :: ls)) :
    Apart (l.insert i :: ls) := by
  have hl : i ∉ l.items := fun hm => hi (List.mem_append_left _ hm)
  refine ⟨h.workers, ?_⟩
  have hp : (itemsOf (l.insert i :: ls)).Perm (i :: itemsOf (l :: ls)) :=
    (items_insert_perm hl).append_right _
  exact hp.nodup_iff.2 (List.nodup_cons.2 ⟨hi, h.items⟩)

end Apart

/-- The items stay the same when one load hands its last item to another that has it not. -/
theorem itemsOf_handover_perm {light heavy : Load} {ls : List Load} {i : ItemId}
    (hi : heavy.items.getLast? = some i) (hl : i ∉ light.items) :
    (itemsOf (light.insert i :: heavy.dropLast :: ls)).Perm (itemsOf (light :: heavy :: ls)) := by
  have hin := (items_insert_perm hl).append_right (itemsOf (heavy.dropLast :: ls))
  have hout := (items_dropLast_perm hi).append_right (itemsOf ls)
  calc
    (itemsOf (light.insert i :: heavy.dropLast :: ls)).Perm
        (i :: (light.items ++ (heavy.dropLast.items ++ itemsOf ls))) := hin
    List.Perm _ (light.items ++ (i :: heavy.dropLast.items ++ itemsOf ls)) :=
      List.perm_middle.symm
    List.Perm _ (itemsOf (light :: heavy :: ls)) := hout.append_left _

theorem Apart.not_mem_of_last {light heavy : Load} {ls : List Load} {i : ItemId}
    (h : Apart (light :: heavy :: ls)) (hi : heavy.items.getLast? = some i) :
    i ∉ light.items := by
  intro hl
  have hh : i ∈ itemsOf (heavy :: ls) := List.mem_append_left _ (List.mem_of_getLast? hi)
  exact (List.nodup_append.1 h.items).2.2 i hl i hh rfl

theorem Apart.handover {light heavy : Load} {ls : List Load} {i : ItemId}
    (h : Apart (light :: heavy :: ls)) (hi : heavy.items.getLast? = some i) :
    Apart (light.insert i :: heavy.dropLast :: ls) :=
  ⟨h.workers, (itemsOf_handover_perm hi (h.not_mem_of_last hi)).nodup_iff.2 h.items⟩

/-! ### Sizes against an average -/

theorem mul_length_le {ls : List Load} {a : Nat} (h : ∀ l ∈ ls, a ≤ l.size) :
    a * ls.length ≤ (itemsOf ls).length := by
  induction ls with
  | nil => simp
  | cons l ls ih =>
    have hl := h l List.mem_cons_self
    have := ih fun k hk => h k (List.mem_cons_of_mem l hk)
    simp only [itemsOf_cons, List.length_append, List.length_cons, Nat.mul_succ]
    unfold size at hl
    omega

theorem length_le_mul {ls : List Load} {b : Nat} (h : ∀ l ∈ ls, l.size ≤ b) :
    (itemsOf ls).length ≤ b * ls.length := by
  induction ls with
  | nil => simp [itemsOf]
  | cons l ls ih =>
    have hl := h l List.mem_cons_self
    have := ih fun k hk => h k (List.mem_cons_of_mem l hk)
    simp only [itemsOf_cons, List.length_append, List.length_cons, Nat.mul_succ]
    unfold size at hl
    omega

/-- Where loads differ by one item at most, those that have one more hold what `avg` each does not
make up. -/
theorem length_itemsOf_eq {ls : List Load} {avg : Nat}
    (h : ∀ l ∈ ls, l.size = avg ∨ l.size = avg + 1) :
    (itemsOf ls).length = avg * ls.length + ls.countP (·.size = avg + 1) := by
  induction ls with
  | nil => rfl
  | cons l ls ih =>
    have hl := h l List.mem_cons_self
    have := ih fun k hk => h k (List.mem_cons_of_mem l hk)
    have hsize : l.items.length = l.size := rfl
    simp only [itemsOf_cons, List.length_append, List.length_cons, List.countP_cons, Nat.mul_succ,
      decide_eq_true_eq]
    split <;> omega

/-- The number of items by load, rounded down. -/
def average (ls : List Load) : Nat := (itemsOf ls).length / ls.length

theorem average_perm {ls ks : List Load} (h : ls.Perm ks) : average ls = average ks := by
  rw [average, average, (itemsOf_perm h).length_eq, h.length_eq]

theorem exists_size_le_average {ls : List Load} (h : ls ≠ []) :
    ∃ l ∈ ls, l.size ≤ average ls := by
  by_cases hall : ∃ l ∈ ls, l.size ≤ average ls
  · exact hall
  · have hgt : ∀ l ∈ ls, average ls + 1 ≤ l.size := by
      intro l hl
      by_cases hle : l.size ≤ average ls
      · exact absurd ⟨l, hl, hle⟩ hall
      · omega
    have hpos : 0 < ls.length := List.length_pos_iff.2 h
    have hle : average ls + 1 ≤ average ls :=
      (Nat.le_div_iff_mul_le hpos).2 (mul_length_le hgt)
    omega

/-- Where one load is below the average another is above it. -/
theorem exists_average_lt_size {l : Load} {ls : List Load} (hl : l ∈ ls)
    (hlt : l.size < average ls) : ∃ k ∈ ls, average ls < k.size := by
  by_cases hany : ∃ k ∈ ls, average ls < k.size
  · exact hany
  · have hle : ∀ k ∈ ls, k.size ≤ average ls := by
      intro k hk
      by_cases hk' : average ls < k.size
      · exact absurd ⟨k, hk, hk'⟩ hany
      · omega
    have hp := List.perm_cons_erase hl
    have hrest : (itemsOf (ls.erase l)).length ≤ average ls * (ls.erase l).length :=
      length_le_mul fun k hk => hle k (List.mem_of_mem_erase hk)
    have htotal : average ls * ls.length ≤ (itemsOf ls).length := Nat.div_mul_le_self _ _
    rw [(itemsOf_perm hp).length_eq, hp.length_eq] at htotal
    simp only [itemsOf_cons, List.length_append, List.length_cons, Nat.mul_succ] at htotal
    unfold size at hlt
    omega

end Roster.Load
