import Roster.Proofs.Rebalance.Settled

/-! Tables that a rebalance leaves as they are. In a level table every phase of a plan finds nothing
to do, and a table of which no plan makes anything is level; the order of its lists does not count. -/

namespace Roster

namespace Table

variable {t : Table}

theorem listed_sorted_perm (t : Table) : t.sorted.listed.Perm t.listed := by
  rw [listed_eq, listed_eq, workers_sorted]
  refine List.Perm.flatMap_left _ ?_
  intro w _
  rw [itemsFor_sorted]
  exact Ordered.perm_sort _

theorem length_itemsFor_sorted (w : WorkerId) :
    (t.sorted.itemsFor w).length = (t.itemsFor w).length := by
  rw [itemsFor_sorted]
  exact (Ordered.perm_sort _).length_eq

end Table

namespace Planner

open Load LoadQueue Table

variable {t : Table} {m : Membership} {avg : Nat}

namespace Level

theorem size_of_mem_queue {l : Load} (h : Level m avg t) (hl : l ∈ t.queue.toList) :
    l.size = avg ∨ l.size = avg + 1 := by
  obtain ⟨hw, hi⟩ := (mem_shares_iff h.ascending).1 (h.queue_perm.mem_iff.1 hl)
  have hsize := h.size l.worker (OrderedSet.mem_def.2 (h.workers ▸ hw))
  rwa [hi] at hsize

/-- Nobody of a level table has too much, so nothing is shed, and nobody too little, so nothing is
filled. -/
theorem moves_eq_nil (h : Level m avg t)
    (havg : avg = m.items.dedup.length / m.workers.size) : (planFor t m).moves = [] := by
  have hq : average t.queue.toList = avg := h.average_eq.trans havg.symm
  have hexcess : excess avg t.queue.toList = 0 := by
    refine excess_eq_zero_iff.2 ?_
    intro l hl
    have := h.size_of_mem_queue hl
    omega
  have hshort : shortage avg t.queue.toList = 0 := by
    refine shortage_eq_zero_iff.2 ?_
    intro l hl
    have := h.size_of_mem_queue hl
    omega
  have hshed : (shed avg t.queue).1 = [] := by
    rw [← List.length_eq_zero_iff, (shed_counts h.apart_queue hq).2.1, hexcess]
  have hfilled : (fill avg t.queue).1 = [] := by
    rw [← List.length_eq_zero_iff, (fill_counts h.apart_queue hq).2.1, hshort]
  have hnone : shed avg t.queue = ([], t.queue) := transferWhile_eq_nil hshed
  rw [h.planFor_eq, Plan.moves_eq_nil_iff]
  simp only [even, hq, hnone, hfilled, and_self]

end Level

/-- Nothing is planned for a table in order exactly if it is level. -/
theorem moves_eq_nil_iff_level (ha : t.Ascending) (hm : m.workers.isEmpty = false) :
    (planFor t m).moves = [] ↔ Level m (m.items.dedup.length / m.workers.size) t := by
  rw [← avg_planFor ha hm]
  exact ⟨level_of_moves_eq_nil ha hm, fun h => h.moves_eq_nil (avg_planFor ha hm)⟩

/-- A plan has no moves exactly if the table has the registered workers, lists each registered item
once and nothing else, and has everybody list the items divided by the workers, or one more. -/
theorem rebalance_idle_iff (hm : m.workers.isEmpty = false) :
    ∃ p, plan t m = .ok p ∧ (p.moves = [] ↔
      t.workers = m.workers.toList ∧ t.listed.Nodup ∧ (∀ i, i ∈ t.listed ↔ i ∈ m.items) ∧
      ∀ w ∈ m.workers, (t.itemsFor w).length = m.items.dedup.length / m.workers.size ∨
        (t.itemsFor w).length = m.items.dedup.length / m.workers.size + 1) := by
  refine ⟨planFor t m, plan_eq hm, ?_⟩
  have hlisted := t.listed_sorted_perm
  rw [← planFor_sorted, moves_eq_nil_iff_level t.ascending_sorted hm]
  constructor
  · intro h
    refine ⟨t.workers_sorted.symm.trans h.workers, hlisted.nodup_iff.1 h.nodup, ?_, ?_⟩
    · intro i
      rw [← hlisted.mem_iff]
      exact ⟨h.registered i, h.all i⟩
    · intro w hw
      rw [← length_itemsFor_sorted]
      exact h.size w hw
  · rintro ⟨hw, hn, hi, hsize⟩
    refine ⟨⟨⟨t.ascending_sorted, t.workers_sorted.trans hw, hlisted.nodup_iff.2 hn, ?_⟩, ?_⟩, ?_⟩
    · intro i hl
      exact (hi i).1 (hlisted.mem_iff.1 hl)
    · intro i hreg
      exact hlisted.mem_iff.2 ((hi i).2 hreg)
    · intro w hreg
      rw [length_itemsFor_sorted]
      exact hsize w hreg

/-- Everybody has a fair share, but one item is counted twice in it. -/
def repeating : Table :=
  calm.withItems ⟨3⟩ (calm.itemsFor ⟨3⟩ ++ (calm.itemsFor ⟨3⟩).take 1)

theorem calm_idle_iff : team.workers.isEmpty = false ∧
    (∃ p, plan calm team = .ok p ∧ p.moves = []) ∧
    ∃ p, plan repeating team = .ok p ∧ p.moves ≠ [] := by
  have hm : team.workers.isEmpty = false := by decide
  obtain ⟨p, hp, hidle⟩ := rebalance_idle_iff (t := calm) hm
  obtain ⟨p', hp', hbusy⟩ := rebalance_idle_iff (t := repeating) hm
  have hsame : ∀ i, i ∈ calm.listed ↔ i ∈ team.items :=
    fun _ => (show calm.listed.Perm team.items by decide).mem_iff
  refine ⟨hm, ⟨p, hp, hidle.2 ⟨by decide, by decide, hsame, by decide⟩⟩, p', hp', ?_⟩
  intro hnil
  exact absurd (hbusy.1 hnil).2.1 (by decide)

end Planner

end Roster
