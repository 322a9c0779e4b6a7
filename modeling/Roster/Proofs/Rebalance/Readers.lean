import Roster.Proofs.Rebalance.Outcome
import Roster.Proofs.Table.Ownership

/-! What a reader may see between the moves of a rebalance. Only the lightest load of a moment
receives, and only what is listed nowhere is assigned, so no table on the way is worse than the
first one and the last one are. -/

namespace Roster

/-- Who receives an item by the move. -/
def Move.receiver : Move → Option WorkerId
  | .assign _ w | .transfer _ _ w => some w
  | _ => none

namespace Table

variable {t t' : Table} {mv : Move} {w : WorkerId} {i : ItemId}

/-- Nobody but the receiver of a move has more items after it, and the receiver one at most. -/
theorem Changes.length_itemsFor_le (h : Changes t mv t') (w : WorkerId) :
    (t'.itemsFor w).length ≤
      (t.itemsFor w).length + if mv.receiver = some w then 1 else 0 := by
  cases h with
  | kept hw => exact Nat.le_add_right ..
  | added hw =>
    rw [itemsFor_withWorker_nil hw]
    exact Nat.le_add_right ..
  | removed v =>
    rw [itemsFor_without]
    split <;> simp
  | @dropped i v hi =>
    rw [itemsFor_withItems (mem_workers_of_mem hi)]
    split
    · next hv =>
      subst hv
      exact Nat.le_add_right_of_le List.length_erase_le
    · exact Nat.le_add_right ..
  | @assigned i v hi hv =>
    rw [itemsFor_withItems hv]
    by_cases hw : w = v
    · subst hw
      have := Load.length_insert_le i (t.itemsFor w)
      simpa [Move.receiver] using this
    · simp [hw]
  | @transferred i u v rest hi hv hr =>
    have hv' : v ∈ rest.workers := by simpa [hr] using hv
    have hrest : (rest.itemsFor w).length ≤ (t.itemsFor w).length := by
      rw [hr, itemsFor_withItems (mem_workers_of_mem hi)]
      split
      · next hw =>
        subst hw
        exact List.length_erase_le
      · exact Nat.le_refl _
    rw [itemsFor_withItems hv']
    by_cases hw : w = v
    · subst hw
      have := Load.length_insert_le i (rest.itemsFor w)
      simp only [if_true, Move.receiver]
      omega
    · rw [if_neg hw]
      exact Nat.le_add_right_of_le hrest

/-- The item that a move carries comes to its receiver. -/
theorem Changes.mem_of_carried (h : Changes t mv t') (hi : mv.carried = some i) :
    ∃ w ∈ t.workers, i ∈ t'.itemsFor w := by
  cases h with
  | @transferred j v w rest hj hw hr =>
    cases hi
    have hw' : w ∈ rest.workers := by simpa [hr] using hw
    refine ⟨w, hw, ?_⟩
    rw [itemsFor_withItems hw', if_pos rfl]
    exact Ordered.mem_insert_self ..
  | _ => cases hi

end Table

namespace Planner

open Load LoadQueue Table

variable {t t' t'' : Table} {m : Membership} {v w : WorkerId} {i : ItemId} {mv : Move} {p' : Plan}
  {avg : Nat}

/-! ### Who receives -/

theorem Trim.length_listed_le (h : Trim m t) : t.listed.length ≤ m.items.dedup.length :=
  (List.subperm_of_subset h.nodup fun i hi => List.mem_dedup.2 (h.registered i hi)).length_le

/-- The lightest load has no more than everybody can count on in the end. -/
theorem Trim.length_lightest_le {light : Load} {rest : List Load} (h : Trim m t)
    (hp : t.queue.toList.Perm (light :: rest))
    (hl : ∀ l ∈ light :: rest, light.size ≤ l.size) :
    (t.itemsFor light.worker).length ≤ m.items.dedup.length / m.workers.size := by
  obtain ⟨l, hmem, hle⟩ := exists_size_le_average (List.cons_ne_nil light rest)
  rw [← average_perm hp, h.average_queue] at hle
  rw [(of_shares_perm_cons h.ascending (h.queue_perm.symm.trans hp)).2]
  calc
    light.size ≤ l.size := hl l hmem
    _ ≤ t.listed.length / m.workers.size := hle
    _ ≤ m.items.dedup.length / m.workers.size := Nat.div_le_div_right h.length_listed_le

theorem Trim.length_target_le {tr : Transfer} {q' : LoadQueue} (h : Trim m t)
    (hs : t.queue.transferLast = some (tr, q')) :
    (t.itemsFor tr.target).length ≤ m.items.dedup.length / m.workers.size := by
  obtain ⟨light, heavy, rest, hg⟩ := gives_of_transferLast h.apart_queue hs
  rw [hg.target]
  exact h.length_lightest_le hg.before hg.lightest

/-- Who receives by the first move of a plan is not above the average of the end. -/
theorem length_receiver_le (ha : t.Ascending) (hm : m.workers.isEmpty = false)
    (hl : Plan.Leaves (planFor t m) mv p') (hw : mv.receiver = some w) :
    (t.itemsFor w).length ≤ (planFor t m).avg := by
  rw [avg_planFor ha hm]
  cases hc : mv.carried with
  | some i =>
    obtain ⟨hfull, tr, q', rfl, hs, -⟩ := transferLast_of_leaves ha hm hl hc
    cases hw
    exact hfull.length_target_le hs
  | none =>
    cases hl with
    | assigned hr had hd h =>
      cases hw
      have htrim := trim_of_tidy ha hr had hd
      obtain ⟨-, q', t', light, rest, hg, -⟩ := htrim.follows_assigned hm h
      rw [← hg.worker]
      exact htrim.length_lightest_le hg.before hg.lightest
    | shed hr had hd hf h => cases hc
    | filled hr had hd hf hs h => cases hc
    | _ => cases hw

/-- Nobody has more items after a run than before it and received in it. -/
theorem Walks.length_itemsFor_le {ms : List Move} (h : Walks m t ms t') (ha : t.Ascending)
    (w : WorkerId) : (t'.itemsFor w).length ≤
      (t.itemsFor w).length + ms.countP fun mv => mv.receiver = some w := by
  induction h with
  | stay t => exact Nat.le_add_right ..
  | go hl h hs ih =>
    have hfirst := (changes_of_apply ha h.accepted).length_itemsFor_le w
    have hrest := ih h.ascending
    simp only [List.countP_cons, decide_eq_true_eq]
    omega

/-! ### Tables on the way -/

theorem keeper_isSome_iff : (t.keeper m i).isSome ↔ ∃ w ∈ m.workers, i ∈ t.itemsFor w := by
  rw [keeper, List.find?_isSome]
  simp [OrderedSet.mem_def]

/-- Only a plan with nothing to remove carries an item. -/
theorem removed_eq_nil_of_carried (hl : Plan.Leaves (planFor t m) mv p')
    (hi : mv.carried = some i) : (planFor t m).removed = [] := by
  cases hl with
  | shed hr had hd hf h => exact hr
  | filled hr had hd hf hs h => exact hr
  | _ => cases hi

/-- From `t` to `t'` no registered item loses the last registered worker that lists it, no item is
listed more often unless it was not listed at all, and no worker goes above `avg + 1` items. -/
structure Gentle (m : Membership) (avg : Nat) (t t' : Table) : Prop where
  owned : ∀ i ∈ m.items, (t.keeper m i).isSome → (t'.keeper m i).isSome
  copies : ∀ i, t'.listed.count i ≤ max 1 (t.listed.count i)
  loads : ∀ w, (t'.itemsFor w).length ≤ max (t.itemsFor w).length (avg + 1)

theorem Gentle.refl (t : Table) : Gentle m avg t t :=
  ⟨fun _ _ h => h, fun _ => Nat.le_max_right .., fun _ => Nat.le_max_left ..⟩

theorem Gentle.trans (h : Gentle m avg t t') (h' : Gentle m avg t' t'') : Gentle m avg t t'' where
  owned i hi hk := h'.owned i hi (h.owned i hi hk)
  copies i := by
    have := h.copies i
    have := h'.copies i
    omega
  loads w := by
    have := h.loads w
    have := h'.loads w
    omega

theorem Advances.gentle (h : Advances m t mv p' t') (hl : Plan.Leaves (planFor t m) mv p')
    (ha : t.Ascending) (hm : m.workers.isEmpty = false) :
    Gentle m (planFor t m).avg t t' := by
  have hchanges := changes_of_apply ha h.accepted
  refine ⟨?_, hchanges.count_listed_le ha, ?_⟩
  · intro i hi hk
    by_cases hc : mv.carried = some i
    · obtain ⟨w, hw, hiw⟩ := hchanges.mem_of_carried hc
      have hnil := removed_eq_nil_of_carried hl hc
      have hreg : w ∈ m.workers := by
        by_cases hreg : w ∈ m.workers
        · exact hreg
        · have := mem_removed_iff.2 ⟨hw, hreg⟩
          simp [hnil] at this
      exact keeper_isSome_iff.2 ⟨w, hreg, hiw⟩
    · obtain ⟨w, hw⟩ := Option.isSome_iff_exists.1 hk
      exact Option.isSome_iff_exists.2 ⟨w, h.keeper i hi hc w hw⟩
  · intro w
    have hle := hchanges.length_itemsFor_le w
    split at hle
    · next hw =>
      have := length_receiver_le ha hm hl hw
      omega
    · omega

theorem Walks.gentle {ms : List Move} (h : Walks m t ms t') (ha : t.Ascending)
    (hm : m.workers.isEmpty = false) : Gentle m (planFor t m).avg t t' := by
  induction h with
  | stay t => exact .refl t
  | go hl h hs ih =>
    have hrest := ih h.ascending
    rw [h.avg_eq hl] at hrest
    exact (h.gentle hl ha hm).trans hrest

/-- Whatever part of a plan is carried out, a registered item that a registered worker listed is
still listed by one, no item is listed more often than before unless it is listed once, and no
worker has more items than before unless it has no more than it may have in the end. -/
theorem rebalance_spares_readers (ha : t.Ascending) (hm : m.workers.isEmpty = false) :
    ∃ p, plan t m = .ok p ∧ ∀ k ≤ p.moves.length, ∃ t',
      t.applyAll (p.moves.take k) = (t', none) ∧
      (∀ i ∈ m.items, (∃ w ∈ m.workers, i ∈ t.itemsFor w) → ∃ w ∈ m.workers, i ∈ t'.itemsFor w) ∧
      (∀ i, t'.listed.count i ≤ max 1 (t.listed.count i)) ∧
      ∀ w, (t'.itemsFor w).length ≤ max (t.itemsFor w).length (p.avg + 1) := by
  refine ⟨planFor t m, plan_eq hm, ?_⟩
  intro k _
  obtain ⟨t', h⟩ := exists_walks ha hm k
  have hgentle := h.gentle ha hm
  refine ⟨t', (h.proceeds ha).accepted, ?_, hgentle.copies, hgentle.loads⟩
  intro i hi hk
  exact keeper_isSome_iff.1 (hgentle.owned i hi (keeper_isSome_iff.2 hk))

theorem untidy_spares_readers : untidy.Ascending ∧ crew.workers.isEmpty = false ∧
    ∃ p, plan untidy crew = .ok p ∧ ∀ k ≤ p.moves.length, ∃ t',
      untidy.applyAll (p.moves.take k) = (t', none) ∧
      (∀ i ∈ crew.items, (∃ w ∈ crew.workers, i ∈ untidy.itemsFor w) →
        ∃ w ∈ crew.workers, i ∈ t'.itemsFor w) ∧
      (∀ i, t'.listed.count i ≤ max 1 (untidy.listed.count i)) ∧
      ∀ w, (t'.itemsFor w).length ≤ max (untidy.itemsFor w).length (p.avg + 1) :=
  ⟨by decide, by decide, rebalance_spares_readers (by decide) (by decide)⟩

end Planner

end Roster
