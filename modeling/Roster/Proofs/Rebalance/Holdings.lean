import Mathlib.Data.List.Dedup
import Mathlib.Data.List.Perm.Basic
import Roster.Proofs.Rebalance.Dealing
import Roster.Proofs.Rebalance.Survey

/-! What the registered workers keep. A registered item is held by its keeper and by nobody else, so
the holdings are loads apart that items without an owner can be dealt to. -/

namespace Roster.Planner

open Load LoadQueue Table

/-- The items each registered worker keeps. -/
def holdings (t : Table) (m : Membership) : List (WorkerId × List ItemId) :=
  (survey t m.items [] m.workers.toList).1

/-- The registered items that somebody keeps. -/
def held (t : Table) (m : Membership) : List ItemId := (holdings t m).flatMap (·.2)

/-- How many registered items a worker keeps. -/
def keeps (t : Table) (m : Membership) (w : WorkerId) : Nat :=
  m.items.dedup.countP fun i => t.keeper m i = some w

def holdingsLoads (t : Table) (m : Membership) : List Load :=
  (holdings t m).map fun h => Load.of h.1 h.2

def holdingsQueue (t : Table) (m : Membership) : LoadQueue := LoadQueue.ofList (holdingsLoads t m)

variable {t t' : Table} {m m' : Membership} {w : WorkerId} {i : ItemId}

theorem keeper_eq_some_iff (hi : i ∈ m.items) :
    t.keeper m i = some w ↔ ∃ kept, (w, kept) ∈ holdings t m ∧ i ∈ kept := by
  rw [holdings, mem_survey_iff m.workers.nodup, keeper]
  simp [hi]

/-- Registered items stay with their keepers as long as the holdings do. -/
theorem keeper_congr (h : holdings t' m = holdings t m) (hi : i ∈ m.items) :
    t'.keeper m i = t.keeper m i := by
  refine Option.ext ?_
  intro w
  rw [keeper_eq_some_iff hi, keeper_eq_some_iff hi, h]

theorem held_congr (h : holdings t' m' = holdings t m) : held t' m' = held t m := by
  rw [held, held, h]

theorem holdingsQueue_congr (h : holdings t' m' = holdings t m) :
    holdingsQueue t' m' = holdingsQueue t m := by
  rw [holdingsQueue, holdingsQueue, holdingsLoads, holdingsLoads, h]

theorem nodup_held : (held t m).Nodup := nodup_survey.1

theorem mem_items_of_mem_held (h : i ∈ held t m) : i ∈ m.items := (nodup_survey.2 i h).1

/-- What is held and what is dropped is together all that the registered workers list. -/
theorem held_perm : (held t m ++ (survey t m.items [] m.workers.toList).2.map (·.1)).Perm
    (m.workers.toList.flatMap t.itemsFor) := survey_perm

theorem map_fst_holdings : (holdings t m).map (·.1) = m.workers.toList := map_fst_survey

theorem ascending_of_mem_holdings {kept : List ItemId} (h : (w, kept) ∈ holdings t m) :
    Ordered.Ascending kept := ascending_of_mem_survey h

theorem mem_held_iff (hi : i ∈ m.items) : i ∈ held t m ↔ (t.keeper m i).isSome := by
  rw [held, List.mem_flatMap, Option.isSome_iff_exists]
  constructor
  · rintro ⟨h, hmem, hih⟩
    exact ⟨h.1, (keeper_eq_some_iff hi).2 ⟨h.2, hmem, hih⟩⟩
  · rintro ⟨w, hw⟩
    obtain ⟨kept, hmem, hik⟩ := (keeper_eq_some_iff hi).1 hw
    exact ⟨(w, kept), hmem, hik⟩

theorem itemsOf_holdingsLoads_perm :
    (itemsOf (holdingsLoads t m)).Perm (held t m) := by
  rw [itemsOf, holdingsLoads, List.flatMap_map]
  exact List.Perm.flatMap_left _ fun h _ => Ordered.perm_sort h.2

theorem map_worker_holdingsLoads :
    (holdingsLoads t m).map (·.worker) = m.workers.toList := by
  rw [← map_fst_holdings (t := t), holdingsLoads, List.map_map]
  rfl

theorem apart_holdingsLoads : Apart (holdingsLoads t m) where
  workers := map_worker_holdingsLoads ▸ m.workers.nodup
  items := itemsOf_holdingsLoads_perm.nodup_iff.2 nodup_held

theorem holdingsQueue_perm : (holdingsQueue t m).toList.Perm (holdingsLoads t m) :=
  toList_ofList_perm apart_holdingsLoads

theorem ready_holdings (hm : m.workers.isEmpty = false) :
    Ready (held t m) (holdingsQueue t m) where
  nonempty := by
    obtain ⟨w, hw⟩ := OrderedSet.exists_mem hm
    rw [← map_worker_holdingsLoads (t := t)] at hw
    obtain ⟨l, hl, -⟩ := List.mem_map.1 hw
    exact List.ne_nil_of_mem (holdingsQueue_perm.mem_iff.2 hl)
  apart := apart_holdingsLoads.perm holdingsQueue_perm.symm
  owned := fun _ hi =>
    itemsOf_holdingsLoads_perm.mem_iff.1 ((itemsOf_perm holdingsQueue_perm).mem_iff.1 hi)

theorem length_of_mem_holdings {kept : List ItemId} (h : (w, kept) ∈ holdings t m) :
    kept.length = keeps t m w := by
  have hn : kept.Nodup := (List.nodup_flatMap.1 (nodup_held (t := t))).1 (w, kept) h
  have hperm : kept.Perm (m.items.dedup.filter fun i => t.keeper m i = some w) := by
    refine (List.perm_ext_iff_of_nodup hn (m.items.nodup_dedup.filter _)).2 ?_
    intro i
    rw [List.mem_filter, List.mem_dedup, decide_eq_true_eq]
    constructor
    · intro hi
      have hreg : i ∈ m.items := mem_items_of_mem_held (List.mem_flatMap.2 ⟨_, h, hi⟩)
      exact ⟨hreg, (keeper_eq_some_iff hreg).2 ⟨kept, h, hi⟩⟩
    · rintro ⟨hreg, hk⟩
      obtain ⟨kept', h', hi⟩ := (keeper_eq_some_iff hreg).1 hk
      have hkeys : ((holdings t m).map (·.1)).Nodup := map_fst_holdings ▸ m.workers.nodup
      have := List.inj_on_of_nodup_map hkeys h h' rfl
      cases this
      exact hi
  rw [keeps, hperm.length_eq, List.countP_eq_length_filter]

/-- A load of the holdings has what its worker keeps. -/
theorem keeps_of_mem_holdingsLoads {l : Load} (h : l ∈ holdingsLoads t m) :
    l.size = keeps t m l.worker ∧ ∀ i ∈ l.items, i ∈ m.items ∧ t.keeper m i = some l.worker := by
  obtain ⟨⟨w, kept⟩, hk, rfl⟩ := List.mem_map.1 h
  refine ⟨(size_of w kept).trans (length_of_mem_holdings hk), ?_⟩
  intro i hi
  rw [items_of (ascending_of_mem_holdings hk)] at hi
  have hreg : i ∈ m.items := mem_items_of_mem_held (List.mem_flatMap.2 ⟨_, hk, hi⟩)
  exact ⟨hreg, (keeper_eq_some_iff hreg).2 ⟨kept, hk, hi⟩⟩

theorem map_size_holdingsLoads :
    (holdingsLoads t m).map (·.size) = m.workers.toList.map (keeps t m) := by
  rw [← map_fst_holdings (t := t), holdingsLoads, List.map_map, List.map_map]
  refine List.map_congr_left ?_
  intro h hh
  simp only [Function.comp_apply, size_of]
  exact length_of_mem_holdings hh

end Roster.Planner
