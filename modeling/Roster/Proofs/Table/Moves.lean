import Mathlib.Data.List.Nodup
import Mathlib.Data.List.Pairwise
import Roster.Proofs.Ordered
import Roster.Table

/-! Tables read as lists of items by worker, and what each kind of move does to these lists where
they stand in ascending order. -/

namespace Roster.Table

/-- Every list stands in ascending order; repeats are allowed. -/
def Ascending (t : Table) : Prop := ∀ e ∈ t.entries, Ordered.Ascending e.2

instance (t : Table) : Decidable t.Ascending :=
  inferInstanceAs (Decidable (∀ e ∈ t.entries, Ordered.Ascending e.2))

/-- The items of all lists, worker by worker. -/
def listed (t : Table) : List ItemId := t.entries.flatMap (·.2)

/-! ### Lists by worker -/

variable {t : Table} {v w : WorkerId} {i : ItemId} {l : List ItemId}

theorem mem_workers_iff : w ∈ t.workers ↔ t.containsWorker w = true := by
  rw [workers, OrderedMap.mem_keys_iff, containsWorker, OrderedMap.contains,
    Option.isSome_iff_exists]

theorem containsWorker_congr {t' : Table} (h : t'.workers = t.workers) :
    t'.containsWorker w = t.containsWorker w := by
  rw [Bool.eq_iff_iff, ← mem_workers_iff, ← mem_workers_iff, h]

theorem get?_eq_some_iff : t.owners.get? w = some l ↔ w ∈ t.workers ∧ t.itemsFor w = l := by
  rw [mem_workers_iff, containsWorker, OrderedMap.contains, itemsFor]
  cases t.owners.get? w <;> simp

theorem get?_of_mem (hw : w ∈ t.workers) : t.owners.get? w = some (t.itemsFor w) :=
  get?_eq_some_iff.2 ⟨hw, rfl⟩

theorem get?_eq_none_iff : t.owners.get? w = none ↔ w ∉ t.workers := by
  rw [mem_workers_iff, containsWorker, OrderedMap.contains]
  cases t.owners.get? w <;> simp

theorem itemsFor_of_not_mem (hw : w ∉ t.workers) : t.itemsFor w = [] := by
  simp [itemsFor, get?_eq_none_iff.2 hw]

theorem mem_workers_of_mem (hi : i ∈ t.itemsFor w) : w ∈ t.workers := by
  by_cases hw : w ∈ t.workers
  · exact hw
  · simp [itemsFor_of_not_mem hw] at hi

theorem nodup_workers (t : Table) : t.workers.Nodup := t.owners.nodup_keys

theorem entries_eq (t : Table) : t.entries = t.workers.map fun w => (w, t.itemsFor w) := by
  have h : ∀ e ∈ t.entries, e = (e.1, t.itemsFor e.1) := by
    intro e he
    have hget : t.owners.get? e.1 = some e.2 := OrderedMap.mem_entries_iff.1 he
    rw [(get?_eq_some_iff.1 hget).2]
  rw [workers, OrderedMap.keys, List.map_map]
  exact (List.map_id' t.entries).symm.trans (List.map_congr_left h)

theorem listed_eq (t : Table) : t.listed = t.workers.flatMap t.itemsFor := by
  rw [listed, entries_eq, List.flatMap_map]

theorem mem_listed_iff : i ∈ t.listed ↔ ∃ w, i ∈ t.itemsFor w := by
  rw [listed_eq, List.mem_flatMap]
  constructor
  · rintro ⟨w, -, hi⟩
    exact ⟨w, hi⟩
  · rintro ⟨w, hi⟩
    exact ⟨w, mem_workers_of_mem hi, hi⟩

/-- An item listed once has one worker. -/
theorem eq_of_mem_itemsFor (hn : t.listed.Nodup) (hv : i ∈ t.itemsFor v)
    (hw : i ∈ t.itemsFor w) : v = w := by
  have hsymm : Std.Symm (Function.onFun List.Disjoint t.itemsFor) :=
    ⟨fun _ _ h => List.disjoint_symm h⟩
  rw [listed_eq, List.nodup_flatMap] at hn
  by_cases hvw : v = w
  · exact hvw
  · have hdisj := hn.2.forall (mem_workers_of_mem hv) (mem_workers_of_mem hw) hvw
    exact absurd hw (hdisj hv)

theorem nodup_itemsFor (hn : t.listed.Nodup) (w : WorkerId) : (t.itemsFor w).Nodup := by
  by_cases hw : w ∈ t.workers
  · rw [listed_eq, List.nodup_flatMap] at hn
    exact hn.1 w hw
  · rw [itemsFor_of_not_mem hw]
    exact List.nodup_nil

/-- If nothing is listed twice, no group of workers lists anything twice. -/
theorem nodup_flatMap_itemsFor {ws : List WorkerId} (hn : t.listed.Nodup) (hws : ws.Nodup) :
    (ws.flatMap t.itemsFor).Nodup := by
  refine List.nodup_flatMap.2 ⟨fun w _ => nodup_itemsFor hn w, hws.imp ?_⟩
  intro v w hne i hv hw
  exact hne (eq_of_mem_itemsFor hn hv hw)

theorem Ascending.itemsFor (h : t.Ascending) (w : WorkerId) :
    Ordered.Ascending (t.itemsFor w) := by
  by_cases hw : w ∈ t.workers
  · exact h (w, t.itemsFor w) (OrderedMap.mem_entries_iff.2 (get?_of_mem hw))
  · rw [itemsFor_of_not_mem hw]
    exact List.Pairwise.nil

theorem ascending_of_itemsFor (h : ∀ w, Ordered.Ascending (t.itemsFor w)) : t.Ascending := by
  intro e he
  rw [entries_eq, List.mem_map] at he
  obtain ⟨w, -, rfl⟩ := he
  exact h w

/-! ### Tables with one list changed, a worker more or a worker less -/

/-- The table with another list for a worker that has one. -/
def withItems (t : Table) (w : WorkerId) (l : List ItemId) : Table :=
  ⟨t.owners.modify w fun _ => l⟩

/-- The table without a worker's list. -/
def without (t : Table) (w : WorkerId) : Table := ⟨t.owners.erase w⟩

@[simp] theorem workers_withItems : (t.withItems w l).workers = t.workers :=
  OrderedMap.keys_modify ..

theorem itemsFor_withItems (hw : w ∈ t.workers) :
    (t.withItems w l).itemsFor v = if v = w then l else t.itemsFor v := by
  unfold itemsFor withItems
  rw [OrderedMap.get?_modify]
  by_cases hv : v = w
  · subst hv
    simp [get?_of_mem hw]
  · simp [hv]

theorem Ascending.withItems (h : t.Ascending) (hw : w ∈ t.workers) (hl : Ordered.Ascending l) :
    (t.withItems w l).Ascending := by
  refine ascending_of_itemsFor ?_
  intro v
  rw [itemsFor_withItems hw]
  split
  · exact hl
  · exact h.itemsFor v

theorem Ascending.erase (h : t.Ascending) (hi : i ∈ t.itemsFor w) :
    (t.withItems w ((t.itemsFor w).erase i)).Ascending :=
  h.withItems (mem_workers_of_mem hi) ((h.itemsFor w).sublist List.erase_sublist)

theorem Ascending.insert (h : t.Ascending) (hw : w ∈ t.workers) :
    (t.withItems w (Ordered.insert i (t.itemsFor w))).Ascending :=
  h.withItems hw (Ordered.ascending_insert (h.itemsFor w))

theorem workers_without : (t.without w).workers = t.workers.filter (· ≠ w) := by
  simp only [workers, OrderedMap.keys, without, OrderedMap.erase, OrderedMap.filter,
    List.filter_map]
  rfl

theorem itemsFor_without : (t.without w).itemsFor v = if v = w then [] else t.itemsFor v := by
  unfold itemsFor without
  rw [OrderedMap.get?_erase]
  split <;> rfl

theorem Ascending.without (h : t.Ascending) (w : WorkerId) : (t.without w).Ascending := by
  refine ascending_of_itemsFor ?_
  intro v
  rw [itemsFor_without]
  split
  · exact List.Pairwise.nil
  · exact h.itemsFor v

theorem mem_workers_withWorker : v ∈ (t.withWorker w l).workers ↔ v = w ∨ v ∈ t.workers := by
  simp only [workers, OrderedMap.mem_keys_iff, withWorker, OrderedMap.get?_insert]
  by_cases hv : v = w <;> simp [hv]

theorem itemsFor_withWorker_nil (hw : w ∉ t.workers) :
    (t.withWorker w []).itemsFor v = t.itemsFor v := by
  unfold itemsFor withWorker
  rw [OrderedMap.get?_insert]
  by_cases hv : v = w
  · subst hv
    simp [get?_eq_none_iff.2 hw, Ordered.sortOnce]
  · simp [hv]

theorem Ascending.withWorker_nil (h : t.Ascending) (hw : w ∉ t.workers) :
    (t.withWorker w []).Ascending := by
  refine ascending_of_itemsFor ?_
  intro v
  rw [itemsFor_withWorker_nil hw]
  exact h.itemsFor v

/-! ### Tables with their lists sorted -/

/-- The table with its lists in ascending order. -/
def sorted (t : Table) : Table := ⟨t.owners.mapValues fun _ l => Ordered.sort l⟩

@[simp] theorem workers_sorted : t.sorted.workers = t.workers := OrderedMap.keys_mapValues ..

theorem itemsFor_sorted : t.sorted.itemsFor w = Ordered.sort (t.itemsFor w) := by
  unfold itemsFor sorted
  rw [OrderedMap.get?_mapValues]
  cases t.owners.get? w <;> rfl

theorem ascending_sorted (t : Table) : t.sorted.Ascending := by
  refine ascending_of_itemsFor ?_
  intro w
  rw [itemsFor_sorted]
  exact Ordered.ascending_sort _

@[simp] theorem containsWorker_sorted : t.sorted.containsWorker w = t.containsWorker w :=
  containsWorker_congr workers_sorted

/-! ### Accepted moves -/

theorem apply_removeWorker : t.apply (.removeWorker w) = .ok (t.without w) := rfl

theorem apply_addWorker (hw : w ∉ t.workers) :
    t.apply (.addWorker w) = .ok (t.withWorker w []) := by
  have hc : t.containsWorker w = false := by simpa [mem_workers_iff] using hw
  simp [apply, check, hc, withWorker, Ordered.sortOnce]

theorem removeItem_eq (ha : t.Ascending) (hi : i ∈ t.itemsFor w) :
    t.removeItem i w = .ok (t.withItems w ((t.itemsFor w).erase i)) := by
  have hs := Ordered.Search.erase?_eq (x := i) (ha.itemsFor w)
  rw [if_pos hi] at hs
  simp [removeItem, get?_of_mem (mem_workers_of_mem hi), hs, withItems]

theorem insertItem_eq (ha : t.Ascending) (hw : w ∈ t.workers) :
    t.insertItem i w = .ok (t.withItems w (Ordered.insert i (t.itemsFor w))) := by
  unfold insertItem withItems
  rw [if_pos (mem_workers_iff.1 hw)]
  congr 2
  refine OrderedMap.ext_get? ?_
  intro v
  rw [OrderedMap.get?_modify, OrderedMap.get?_modify]
  by_cases hv : v = w
  · subst hv
    simp [get?_of_mem hw, Ordered.Search.insert_eq (ha.itemsFor v)]
  · simp [hv]

/-- In lists in order the search finds an owner exactly for the items that are listed. -/
theorem ownerOf_eq_none_iff (ha : t.Ascending) : t.ownerOf i = none ↔ i ∉ t.listed := by
  rw [ownerOf, Option.map_eq_none_iff, List.find?_eq_none, listed, List.mem_flatMap]
  constructor
  · rintro h ⟨e, he, hi⟩
    exact h e he ((Ordered.Search.contains_iff (ha e he)).2 hi)
  · intro h e he hc
    exact h ⟨e, he, (Ordered.Search.contains_iff (ha e he)).1 hc⟩

/-- The owner is the first worker that lists the item. -/
theorem ownerOf_eq_find? (ha : t.Ascending) :
    t.ownerOf i = t.workers.find? fun w => i ∈ t.itemsFor w := by
  have hsearch : ((fun e => Ordered.Search.contains i e.2) ∘ fun w => (w, t.itemsFor w)) =
      fun w => decide (i ∈ t.itemsFor w) := by
    funext w
    rw [Bool.eq_iff_iff, decide_eq_true_iff]
    exact Ordered.Search.contains_iff (ha.itemsFor w)
  rw [ownerOf, entries_eq, List.find?_map, hsearch, Option.map_map]
  exact Option.map_id'

theorem apply_drop (ha : t.Ascending) (hi : i ∈ t.itemsFor w) :
    t.apply (.drop i w) = .ok (t.withItems w ((t.itemsFor w).erase i)) := by
  simp [apply, check, removeItem_eq ha hi]

theorem apply_assign (ha : t.Ascending) (hw : w ∈ t.workers) (hi : i ∉ t.listed) :
    t.apply (.assign i w) = .ok (t.withItems w (Ordered.insert i (t.itemsFor w))) := by
  simp [apply, check, (ownerOf_eq_none_iff ha).2 hi, insertItem_eq ha hw]

theorem apply_transfer (ha : t.Ascending) (hw : w ∈ t.workers) (hi : i ∈ t.itemsFor v)
    (hne : w ≠ v) :
    t.apply (.transfer i v w) = .ok ((t.withItems v ((t.itemsFor v).erase i)).withItems w
      (Ordered.insert i (t.itemsFor w))) := by
  have hw' : w ∈ (t.withItems v ((t.itemsFor v).erase i)).workers := by simpa using hw
  have hins := insertItem_eq (i := i) (ha.erase hi) hw'
  rw [itemsFor_withItems (mem_workers_of_mem hi), if_neg hne] at hins
  simp [apply, check, mem_workers_iff.1 hw, removeItem_eq ha hi, hins]

/-! ### Moves one after the other -/

theorem applyAll_cons {mv : Move} {ms : List Move} {t' : Table} (h : t.apply mv = .ok t') :
    t.applyAll (mv :: ms) =
      ((t'.applyAll ms).1, (t'.applyAll ms).2.map fun f => (f.1 + 1, f.2)) := by
  rw [applyAll, h]

theorem applyAll_cons_eq_none_iff {mv : Move} {ms : List Move} {t' : Table} :
    t.applyAll (mv :: ms) = (t', none) ↔ ∃ u, t.apply mv = .ok u ∧ u.applyAll ms = (t', none) := by
  cases h : t.apply mv with
  | error e => simp [applyAll, h]
  | ok u =>
    rw [applyAll_cons h]
    simp [Prod.ext_iff]

theorem applyAll_append {ms ms' : List Move} {t' : Table} (h : t.applyAll ms = (t', none)) :
    t.applyAll (ms ++ ms') =
      ((t'.applyAll ms').1, (t'.applyAll ms').2.map fun f => (f.1 + ms.length, f.2)) := by
  induction ms generalizing t with
  | nil =>
    cases h
    simp
  | cons mv ms ih =>
    obtain ⟨u, hu, hms⟩ := applyAll_cons_eq_none_iff.1 h
    rw [List.cons_append, applyAll_cons hu, ih hms]
    simp [Function.comp_def, Nat.add_assoc]

end Roster.Table
