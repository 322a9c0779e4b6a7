import Mathlib.Data.List.Dedup
import Roster.Proofs.Rebalance.Resume

/-! What a rebalance comes to. A table whose plan is empty lists each registered item once, shared
out evenly over the registered workers, and a whole plan ends in such a table. -/

namespace Roster

theorem Plan.moves_eq_nil_iff {p : Plan} : p.moves = [] ↔ p.removed = [] ∧ p.added = [] ∧
    p.dropped = [] ∧ p.assigned = [] ∧ p.shed = [] ∧ p.filled = [] := by
  simp [moves]

namespace Planner

open Load LoadQueue Table

variable {t t' : Table} {m : Membership} {w : WorkerId} {i : ItemId} {avg : Nat}

/-- Each registered item is listed once, and the registered workers list `avg` items or one more. -/
structure Level (m : Membership) (avg : Nat) (t : Table) : Prop extends Full m t where
  size : ∀ w ∈ m.workers, (t.itemsFor w).length = avg ∨ (t.itemsFor w).length = avg + 1

theorem Trim.average_queue (h : Trim m t) :
    average t.queue.toList = t.listed.length / m.workers.size := by
  have hlength := h.queue_perm.length_eq
  rw [shares, List.length_map, h.workers] at hlength
  rw [average, h.itemsOf_queue_perm.length_eq, hlength]
  rfl

/-- An empty plan is one for a table in which there is nothing to do. -/
theorem level_of_moves_eq_nil (ha : t.Ascending) (hm : m.workers.isEmpty = false)
    (h : (planFor t m).moves = []) : Level m (planFor t m).avg t := by
  obtain ⟨hr, had, hd, hf, hs, hl⟩ := Plan.moves_eq_nil_iff.1 h
  have hfull := full_of_assigned (trim_of_tidy ha hr had hd) hm hf
  have hapart := hfull.apart_queue
  rw [hfull.planFor_eq] at hs hl ⊢
  have hnone : shed (average t.queue.toList) t.queue = ([], t.queue) := transferWhile_eq_nil hs
  simp only [even, hnone] at hl
  have hexcess : excess (average t.queue.toList) t.queue.toList = 0 := by
    rw [← (shed_counts hapart rfl).2.1, hnone, List.length_nil]
  have hshort : shortage (average t.queue.toList) t.queue.toList = 0 := by
    rw [← (fill_counts hapart rfl).2.1, hl, List.length_nil]
  refine ⟨hfull, ?_⟩
  intro w hw
  have hmem : Load.of w (t.itemsFor w) ∈ t.queue.toList := by
    rw [hfull.queue_perm.mem_iff]
    exact List.mem_map_of_mem (hfull.workers ▸ OrderedSet.mem_def.1 hw)
  have hle := excess_eq_zero_iff.1 hexcess _ hmem
  have hge := shortage_eq_zero_iff.1 hshort _ hmem
  unfold size at hle hge
  rw [items_of (hfull.ascending.itemsFor w)] at hle hge
  change (t.itemsFor w).length = average t.queue.toList ∨
    (t.itemsFor w).length = average t.queue.toList + 1
  omega

namespace Full

theorem exists_lister (h : Full m t) (hi : i ∈ m.items) : ∃ w ∈ m.workers, i ∈ t.itemsFor w := by
  obtain ⟨w, hiw⟩ := mem_listed_iff.1 (h.all i hi)
  exact ⟨w, OrderedSet.mem_def.2 (h.workers ▸ mem_workers_of_mem hiw), hiw⟩

theorem listed_perm (h : Full m t) : t.listed.Perm m.items.dedup :=
  (List.perm_ext_iff_of_nodup h.nodup m.items.nodup_dedup).2 fun i => by
    rw [List.mem_dedup]
    exact ⟨h.registered i, h.all i⟩

theorem average_eq (h : Full m t) :
    average t.queue.toList = m.items.dedup.length / m.workers.size := by
  rw [h.average_queue, h.listed_perm.length_eq]

theorem count_listed (h : Full m t) (i : ItemId) :
    t.listed.count i = if i ∈ m.items then 1 else 0 := by
  rw [h.nodup.count]
  have hi : i ∈ t.listed ↔ i ∈ m.items := ⟨h.registered i, h.all i⟩
  simp only [hi]

end Full

/-- As many workers list one item more as items are left over. -/
theorem Level.countP_eq (h : Level m avg t)
    (havg : avg = m.items.dedup.length / m.workers.size) :
    (m.workers.toList.countP fun w => (t.itemsFor w).length = avg + 1) =
      m.items.dedup.length % m.workers.size := by
  have hsize : ∀ w, (Load.of w (t.itemsFor w)).size = (t.itemsFor w).length := fun w =>
    congrArg List.length (items_of (h.ascending.itemsFor w))
  have hshares : ∀ l ∈ t.shares, l.size = avg ∨ l.size = avg + 1 := by
    intro l hl
    obtain ⟨w, hw, rfl⟩ := List.mem_map.1 hl
    rw [hsize w]
    exact h.size w (OrderedSet.mem_def.2 (h.workers ▸ hw))
  have hcount := length_itemsOf_eq hshares
  rw [itemsOf_shares h.ascending, h.listed_perm.length_eq, shares, List.length_map,
    List.countP_map, h.workers] at hcount
  simp only [Function.comp_def, hsize] at hcount
  have hmod := Nat.div_add_mod m.items.dedup.length m.workers.size
  rw [← havg, Nat.mul_comm] at hmod
  change m.items.dedup.length = avg * m.workers.size + _ at hcount
  omega

/-- A whole plan leaves nothing to do. -/
theorem Proceeds.level (h : Proceeds m t (planFor t m).moves t')
    (hm : m.workers.isEmpty = false) : Level m (planFor t m).avg t' := by
  rw [← h.avg]
  exact level_of_moves_eq_nil h.ascending hm h.moves_eq_nil

theorem exists_level (ha : t.Ascending) (hm : m.workers.isEmpty = false) :
    ∃ t', Proceeds m t (planFor t m).moves t' ∧ Level m (planFor t m).avg t' := by
  obtain ⟨t', hwalk⟩ := exists_walks_moves ha hm
  have h := hwalk.proceeds ha
  exact ⟨t', h, h.level hm⟩

theorem avg_planFor (ha : t.Ascending) (hm : m.workers.isEmpty = false) :
    (planFor t m).avg = m.items.dedup.length / m.workers.size := by
  obtain ⟨t', h, hl⟩ := exists_level ha hm
  rw [← h.avg, hl.planFor_eq]
  exact hl.average_eq

theorem plan_eq (hm : m.workers.isEmpty = false) : plan t m = .ok (planFor t m) := by
  rw [plan, hm]
  rfl

/-- Each move of a rebalance is accepted, and then the registered workers list each registered item
once and nothing else. -/
theorem rebalance_covers (ha : t.Ascending) (hm : m.workers.isEmpty = false) :
    ∃ p t', plan t m = .ok p ∧ t.applyAll p.moves = (t', none) ∧
      t'.workers = m.workers.toList ∧
      ∀ i, t'.listed.count i = if i ∈ m.items then 1 else 0 := by
  obtain ⟨t', h, hl⟩ := exists_level ha hm
  exact ⟨planFor t m, t', plan_eq hm, h.accepted, hl.workers, hl.count_listed⟩

/-- A worker lists one item twice, and one that is not registered; another lists the same item, and
a third, with one of its own, is gone. -/
def untidy : Table where
  owners :=
    { entries :=
        [(⟨1⟩, [⟨"a", by decide⟩, ⟨"a", by decide⟩, ⟨"b", by decide⟩, ⟨"c", by decide⟩,
          ⟨"e", by decide⟩, ⟨"f", by decide⟩, ⟨"x", by decide⟩]),
        (⟨2⟩, [⟨"a", by decide⟩]),
        (⟨9⟩, [⟨"d", by decide⟩])]
      strict := by decide }

def crew : Membership where
  items := [⟨"b", by decide⟩, ⟨"a", by decide⟩, ⟨"d", by decide⟩, ⟨"c", by decide⟩,
    ⟨"e", by decide⟩, ⟨"f", by decide⟩, ⟨"a", by decide⟩]
  workers := .ofList [⟨1⟩, ⟨2⟩, ⟨3⟩]

theorem untidy_covers : untidy.Ascending ∧ crew.workers.isEmpty = false ∧
    ∃ p t', plan untidy crew = .ok p ∧ untidy.applyAll p.moves = (t', none) ∧
      t'.workers = crew.workers.toList ∧
      ∀ i, t'.listed.count i = if i ∈ crew.items then 1 else 0 :=
  ⟨by decide, by decide, rebalance_covers (by decide) (by decide)⟩

/-- After a rebalance each registered worker lists the items divided by the workers, or one more if
it is one of as many as are left over. -/
theorem rebalance_balances (ha : t.Ascending) (hm : m.workers.isEmpty = false) :
    ∃ p t', plan t m = .ok p ∧ t.applyAll p.moves = (t', none) ∧
      p.avg = m.items.dedup.length / m.workers.size ∧
      (∀ w ∈ m.workers, (t'.itemsFor w).length = p.avg ∨ (t'.itemsFor w).length = p.avg + 1) ∧
      (m.workers.toList.countP fun w => (t'.itemsFor w).length = p.avg + 1) =
        m.items.dedup.length % m.workers.size := by
  obtain ⟨t', h, hl⟩ := exists_level ha hm
  have havg := avg_planFor ha hm
  exact ⟨planFor t m, t', plan_eq hm, h.accepted, havg, hl.size, hl.countP_eq havg⟩

theorem untidy_balances : untidy.Ascending ∧ crew.workers.isEmpty = false ∧
    ∃ p t', plan untidy crew = .ok p ∧ untidy.applyAll p.moves = (t', none) ∧
      p.avg = crew.items.dedup.length / crew.workers.size ∧
      (∀ w ∈ crew.workers,
        (t'.itemsFor w).length = p.avg ∨ (t'.itemsFor w).length = p.avg + 1) ∧
      (crew.workers.toList.countP fun w => (t'.itemsFor w).length = p.avg + 1) =
        crew.items.dedup.length % crew.workers.size :=
  ⟨by decide, by decide, rebalance_balances (by decide) (by decide)⟩

end Planner

end Roster
