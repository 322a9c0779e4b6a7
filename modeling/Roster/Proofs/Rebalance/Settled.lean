import Roster.Proofs.Rebalance.Loops
import Roster.Proofs.Rebalance.Readers

/-! What a change of the membership costs where there was nothing to do. Items that go leave gaps,
and no more items than these are moved to close them; a worker that comes is brought up to the
average by items of the others. -/

namespace Roster

namespace Membership

/-- The membership with a worker more. -/
def join (m : Membership) (w : WorkerId) : Membership :=
  { m with workers := m.workers.insert w }

variable {m : Membership} {w : WorkerId}

@[simp] theorem items_join : (m.join w).items = m.items := rfl

theorem toList_join_perm (hw : w ∉ m.workers) :
    (m.join w).workers.toList.Perm (w :: m.workers.toList) :=
  OrderedSet.toList_insert_perm hw

theorem size_join (hw : w ∉ m.workers) : (m.join w).workers.size = m.workers.size + 1 :=
  (toList_join_perm hw).length_eq

theorem mem_join {v : WorkerId} (hv : v ∈ m.workers) : v ∈ (m.join w).workers :=
  OrderedSet.mem_insert.2 (.inr hv)

theorem mem_join_self (m : Membership) (w : WorkerId) : w ∈ (m.join w).workers :=
  OrderedSet.mem_insert.2 (.inl rfl)

theorem join_nonempty (m : Membership) (w : WorkerId) : (m.join w).workers.isEmpty = false :=
  List.isEmpty_eq_false_iff_exists_mem.2 ⟨w, mem_join_self m w⟩

theorem sum_join (hw : w ∉ m.workers) (k : WorkerId → Nat) :
    ((m.join w).workers.toList.map k).sum = k w + (m.workers.toList.map k).sum :=
  ((toList_join_perm hw).map k).sum_nat

end Membership

namespace Planner

open Load LoadQueue Table Roster.Membership

variable {t t' : Table} {m m' : Membership} {v w : WorkerId} {i : ItemId} {avg c : Nat}

/-! ### The accounts of a plan -/

theorem sum_sub_add (ws : List WorkerId) (k : WorkerId → Nat) (c : Nat) :
    (ws.map fun w => k w - c).sum + ws.length * c =
      (ws.map k).sum + (ws.map fun w => c - k w).sum := by
  induction ws with
  | nil => simp
  | cons w ws ih =>
    simp only [List.map_cons, List.sum_cons, List.length_cons, Nat.succ_mul]
    omega

theorem sum_sub_eq_zero {ws : List WorkerId} {j k : WorkerId → Nat} (h : ∀ w ∈ ws, k w ≤ j w) :
    (ws.map fun w => k w - j w).sum = 0 := by
  rw [List.sum_eq_zero_iff_forall_eq_nat]
  intro n hn
  obtain ⟨w, hw, rfl⟩ := List.mem_map.1 hn
  exact Nat.sub_eq_zero_of_le (h w hw)

/-- Once the items are dealt out each of them has come to somebody. -/
theorem itemsOf_dealt_perm (hm : m.workers.isEmpty = false) :
    (itemsOf (dealt t m).toList).Perm m.items.dedup := by
  have hd := deals_planFor (t := t) hm
  refine (List.perm_ext_iff_of_nodup hd.apart.items m.items.nodup_dedup).2 ?_
  intro i
  rw [hd.held.mem_iff, List.mem_append, hd.mem_iff, List.mem_dedup,
    (itemsOf_perm holdingsQueue_perm).mem_iff, itemsOf_holdingsLoads_perm.mem_iff]
  constructor
  · rintro (⟨hi, -⟩ | hi)
    · exact hi
    · exact mem_items_of_mem_held hi
  · intro hi
    by_cases hh : i ∈ held t m
    · exact .inr hh
    · exact .inl ⟨hi, hh⟩

/-- Each registered item is kept or dealt out. -/
theorem sum_keeps (hm : m.workers.isEmpty = false) :
    (m.workers.toList.map (keeps t m)).sum + (planFor t m).assigned.length =
      m.items.dedup.length := by
  have hsum : (m.workers.toList.map (keeps t m)).sum =
      (itemsOf (holdingsQueue t m).toList).length := by
    rw [← map_size_holdingsLoads, (itemsOf_perm holdingsQueue_perm).length_eq, itemsOf,
      List.length_flatMap]
    rfl
  have hlength := (deals_planFor (t := t) hm).length_items
  rw [hsum, ← (itemsOf_dealt_perm (t := t) hm).length_eq, Nat.add_comm]
  exact hlength.symm

/-- The average of a plan does not go beyond the items, and one more for everybody does. -/
theorem avg_bounds (ha : t.Ascending) (hm : m.workers.isEmpty = false) :
    m.workers.toList.length * (planFor t m).avg ≤ m.items.dedup.length ∧
      m.items.dedup.length < m.workers.toList.length * ((planFor t m).avg + 1) := by
  have hpos : 0 < m.workers.toList.length := by
    obtain ⟨w, hw⟩ := OrderedSet.exists_mem hm
    exact List.length_pos_of_mem hw
  rw [avg_planFor ha hm]
  exact ⟨Nat.mul_div_le .., Nat.lt_mul_div_succ _ hpos⟩

/-! ### Tables for another membership -/

theorem Trim.keeper_eq_some_iff (h : Trim m t) :
    t.keeper m' i = some w ↔ w ∈ m'.workers ∧ i ∈ t.itemsFor w :=
  keeper_eq_some_iff_of_unique fun _ _ _ _ hu hv => eq_of_mem_itemsFor h.nodup hu hv

/-- Nothing is dropped where everything is registered still. -/
theorem Trim.dropped_eq_nil (h : Trim m t) (hreg : ∀ i ∈ m.items, i ∈ m'.items) :
    (planFor t m').dropped = [] := by
  have hkept : ∀ i ∈ m'.workers.toList.flatMap t.itemsFor, i ∈ m'.items ∧ i ∉ [] := by
    intro i hi
    obtain ⟨w, -, hiw⟩ := List.mem_flatMap.1 hi
    exact ⟨hreg i (h.registered i (mem_listed_iff.2 ⟨w, hiw⟩)), List.not_mem_nil⟩
  have hn := nodup_flatMap_itemsFor h.nodup m'.workers.nodup
  exact congrArg (·.2) (survey_eq_self h.ascending hn hkept)

/-- The keeper of an item for as long as the item is registered. -/
def lasting (t : Table) (m m' : Membership) (i : ItemId) : Option WorkerId :=
  if i ∈ m'.items then t.keeper m i else none

theorem lasting_eq_some_iff :
    lasting t m m' i = some w ↔ i ∈ m'.items ∧ t.keeper m i = some w := by
  rw [lasting]
  split <;> simp [*]

namespace Level

theorem keeps_size (h : Level m avg t) (hw : w ∈ m.workers) :
    keeps t m w = avg ∨ keeps t m w = avg + 1 := by
  rw [h.fair.keeps_eq_share hw]
  exact h.fair.size w hw

theorem exists_keeper (h : Level m avg t) (hi : i ∈ m.items) : ∃ w, t.keeper m i = some w := by
  obtain ⟨w, hw⟩ := h.exists_lister hi
  exact ⟨w, h.keeper_eq_some_iff.2 hw⟩

/-- A worker that stays keeps what is registered still. -/
theorem keeps_eq (h : Level m avg t) (hw : w ∈ m.workers) (hw' : w ∈ m'.workers) :
    keeps t m' w = m.items.dedup.countP (lasting t m m' · = some w) := by
  rw [keeps, List.countP_eq_length_filter, List.countP_eq_length_filter]
  refine List.Perm.length_eq ((List.perm_ext_iff_of_nodup (m'.items.nodup_dedup.filter _)
    (m.items.nodup_dedup.filter _)).2 ?_)
  intro i
  simp only [List.mem_filter, List.mem_dedup, decide_eq_true_eq, lasting_eq_some_iff,
    h.keeper_eq_some_iff]
  constructor
  · rintro ⟨hi, -, hiw⟩
    exact ⟨h.registered i (mem_listed_iff.2 ⟨w, hiw⟩), hi, hw, hiw⟩
  · rintro ⟨-, hi, -, hiw⟩
    exact ⟨hi, hw', hiw⟩

theorem keeps_le (h : Level m avg t) (hw : w ∈ m.workers) (hw' : w ∈ m'.workers) :
    keeps t m' w ≤ avg + 1 := by
  have hle : keeps t m' w ≤ keeps t m w := by
    rw [h.keeps_eq hw hw']
    refine List.countP_mono_left ?_
    intro i _ hi
    simp only [decide_eq_true_eq, lasting_eq_some_iff] at hi ⊢
    exact hi.2
  have := h.keeps_size hw
  omega

/-- No more is lacking of what everybody had than there are items gone. -/
theorem shortage_le (h : Level m avg t) (hsub : ∀ w ∈ m'.workers, w ∈ m.workers) (hc : c ≤ avg) :
    (m'.workers.toList.map fun w => c - keeps t m' w).sum ≤
      (m.items.dedup.filter (· ∉ m'.items)).length := by
  have hbefore : ∀ w ∈ m'.workers.toList, c ≤ m.items.dedup.countP (t.keeper m · = some w) := by
    intro w hw
    have := h.keeps_size (hsub w hw)
    unfold keeps at this
    omega
  have hafter : ∀ w ∈ m'.workers.toList,
      c - keeps t m' w = c - m.items.dedup.countP (lasting t m m' · = some w) := by
    intro w hw
    rw [h.keeps_eq (hsub w hw) hw]
  have hstays : (m.items.dedup.countP fun i =>
      (lasting t m m' i).isSome ∧ t.keeper m i ≠ lasting t m m' i) = 0 := by
    rw [List.countP_eq_zero]
    intro i _
    by_cases hi : i ∈ m'.items <;> simp [lasting, hi]
  have hgone : (m.items.dedup.countP (lasting t m m' · = none)) =
      (m.items.dedup.filter (· ∉ m'.items)).length := by
    rw [← List.countP_eq_length_filter]
    refine List.countP_congr ?_
    intro i hi
    obtain ⟨w, hw⟩ := h.exists_keeper (List.mem_dedup.1 hi)
    by_cases hi : i ∈ m'.items <;> simp [lasting, hi, hw]
  rw [List.map_congr_left hafter, ← hgone]
  have := sum_shortage_le m'.workers.nodup hbefore (f := lasting t m m')
  omega

/-! ### Fewer workers -/

/-- Where nobody joins, no more items are moved than there are items gone. -/
theorem length_transfers_le (h : Level m avg t) (hm' : m'.workers.isEmpty = false)
    (hsub : ∀ w ∈ m'.workers, w ∈ m.workers) :
    (planFor t m').shed.length + (planFor t m').filled.length ≤
      (m.items.dedup.filter (· ∉ m'.items)).length := by
  obtain ⟨hshed, hfilled⟩ := length_shed_and_filled (t := t) hm' rfl
  rw [excess_holdings] at hshed hfilled
  rw [shortage_holdings] at hfilled
  obtain ⟨hle, hlt⟩ := avg_bounds h.ascending hm'
  have htotal := sum_keeps (t := t) hm'
  generalize (planFor t m').avg = a at *
  have hmost : ∀ w ∈ m'.workers.toList, keeps t m' w ≤ avg + 1 := fun w hw =>
    h.keeps_le (hsub w hw) hw
  rcases Nat.lt_or_ge a avg with hfall | hrise
  · -- The average falls: nobody lacks what is not gone, and this covers all the excess.
    have hexcess := sum_sub_add m'.workers.toList (keeps t m') (a + 1)
    have hgone := h.shortage_le hsub (c := a + 1) hfall
    have hgone' := h.shortage_le hsub (c := a) (by omega)
    omega
  · have hnone : (m'.workers.toList.map fun w => keeps t m' w - (a + 1)).sum = 0 :=
      sum_sub_eq_zero fun w hw => Nat.le_trans (hmost w hw) (by omega)
    rcases Nat.eq_or_lt_of_le hrise with hsame | hrise
    · -- The average stays: what is lacking is gone.
      have hgone := h.shortage_le hsub (c := a) (by omega)
      omega
    · -- The average rises: what is lacking is dealt out.
      have hshort := sum_sub_add m'.workers.toList (keeps t m') a
      have hfew : (m'.workers.toList.map fun w => keeps t m' w - a).sum = 0 :=
        sum_sub_eq_zero fun w hw => Nat.le_trans (hmost w hw) (by omega)
      omega

/-- Where nobody joins and no item goes, workers that left are removed and items are dealt out. -/
theorem moves_of_grown (h : Level m avg t) (hm' : m'.workers.isEmpty = false)
    (hsub : ∀ w ∈ m'.workers, w ∈ m.workers) (hreg : ∀ i ∈ m.items, i ∈ m'.items) :
    ∀ mv ∈ (planFor t m').moves,
      (∃ w, w ∉ m'.workers ∧ mv = .removeWorker w) ∨ ∃ i w, mv = .assign i w := by
  have hadded : (planFor t m').added = [] := by
    rw [List.eq_nil_iff_forall_not_mem]
    intro w hw
    obtain ⟨hw, hnew⟩ := mem_added_iff.1 hw
    exact hnew (h.workers ▸ OrderedSet.mem_def.1 (hsub w hw))
  have hgone : m.items.dedup.filter (· ∉ m'.items) = [] := by
    rw [List.filter_eq_nil_iff]
    intro i hi
    simpa using hreg i (List.mem_dedup.1 hi)
  have htransfers := h.length_transfers_le hm' hsub
  rw [hgone, List.length_nil] at htransfers
  have hshed : (planFor t m').shed = [] := List.eq_nil_of_length_eq_zero (by omega)
  have hfilled : (planFor t m').filled = [] := List.eq_nil_of_length_eq_zero (by omega)
  intro mv hmv
  simp only [Plan.moves, hadded, h.dropped_eq_nil hreg, hshed, hfilled, List.map_nil,
    List.append_nil, List.mem_append, List.mem_map] at hmv
  rcases hmv with ⟨w, hw, rfl⟩ | ⟨a, -, rfl⟩
  · exact .inl ⟨w, (mem_removed_iff.1 hw).2, rfl⟩
  · exact .inr ⟨a.1, a.2, rfl⟩

/-! ### One worker more -/

theorem not_mem_workers (h : Level m avg t) (hw : w ∉ m.workers) : w ∉ t.workers := by
  rw [h.workers]
  exact hw

/-- Before a new worker has its share nothing but its entry is planned. -/
theorem planFor_join (h : Level m avg t) (hw : w ∉ m.workers) :
    (planFor t (m.join w)).removed = [] ∧ (planFor t (m.join w)).added = [w] ∧
      (planFor t (m.join w)).dropped = [] ∧ (planFor t (m.join w)).assigned = [] := by
  refine ⟨?_, ?_, h.dropped_eq_nil fun _ hi => hi, ?_⟩
  · rw [List.eq_nil_iff_forall_not_mem]
    intro v hv
    obtain ⟨hv, hnot⟩ := mem_removed_iff.1 hv
    rw [h.workers] at hv
    exact hnot (mem_join hv)
  · have hp : (planFor t (m.join w)).added.Perm
        ((w :: m.workers.toList).filter fun v => !t.containsWorker v) :=
      (toList_join_perm hw).filter _
    have hnew : (!t.containsWorker w) = true := by
      simpa [mem_workers_iff] using h.not_mem_workers hw
    have hold : m.workers.toList.filter (fun v => !t.containsWorker v) = [] := by
      rw [List.filter_eq_nil_iff]
      intro v hv
      rw [← h.workers, mem_workers_iff] at hv
      simp [hv]
    rw [List.filter_cons_of_pos (by simpa using hnew), hold] at hp
    exact List.perm_singleton.1 hp
  · rw [← List.length_eq_zero_iff, length_assigned (join_nonempty m w), List.countP_eq_zero]
    intro i hi
    obtain ⟨v, hv⟩ := h.exists_keeper (List.mem_dedup.1 hi)
    obtain ⟨hv, hiv⟩ := h.keeper_eq_some_iff.1 hv
    have hkeeper : t.keeper (m.join w) i = some v :=
      h.keeper_eq_some_iff.2 ⟨mem_join hv, hiv⟩
    simp [hkeeper]

theorem keeps_joined (h : Level m avg t) (hw : w ∉ m.workers) : keeps t (m.join w) w = 0 := by
  rw [keeps, List.countP_eq_zero]
  intro i _
  simp [h.keeper_eq_some_iff, itemsFor_of_not_mem (h.not_mem_workers hw)]

theorem keeps_join (h : Level m avg t) (hv : v ∈ m.workers) :
    keeps t (m.join w) v = keeps t m v := by
  rw [h.keeps_eq hv (mem_join hv), keeps]
  refine List.countP_congr ?_
  intro i hi
  simpa [lasting_eq_some_iff] using fun _ => List.mem_dedup.1 hi

/-- To bring a new worker up to the average as many transfers are made as the average is. -/
theorem length_transfers_join (h : Level m avg t) (hm : m.workers.isEmpty = false)
    (havg : avg = m.items.dedup.length / m.workers.size) (hw : w ∉ m.workers) :
    (planFor t (m.join w)).shed.length + (planFor t (m.join w)).filled.length =
      m.items.dedup.length / (m.workers.size + 1) := by
  have hm' := join_nonempty m w
  obtain ⟨hshed, hfilled⟩ := length_shed_and_filled (t := t) hm' rfl
  obtain ⟨-, hlt⟩ := avg_bounds h.ascending hm'
  have htotal := sum_keeps (t := t) hm'
  have ha := avg_planFor h.ascending hm'
  rw [items_join, size_join hw] at ha
  rw [excess_holdings, sum_join hw, h.keeps_joined hw] at hshed hfilled
  rw [shortage_holdings, sum_join hw, h.keeps_joined hw] at hfilled
  rw [sum_join hw, h.keeps_joined hw] at htotal
  rw [(toList_join_perm hw).length_eq, List.length_cons] at hlt
  obtain ⟨-, -, -, hassigned⟩ := h.planFor_join hw
  rw [hassigned, List.length_nil] at htotal hfilled
  have hfall : (planFor t (m.join w)).avg ≤ avg := by
    obtain ⟨v, hv⟩ := OrderedSet.exists_mem hm
    rw [ha, havg]
    exact Nat.div_le_div_left (Nat.le_succ _) (List.length_pos_of_mem hv)
  rw [← ha]
  generalize (planFor t (m.join w)).avg = a at *
  have hkeeps : ∀ v ∈ m.workers.toList,
      avg ≤ keeps t (m.join w) v ∧ keeps t (m.join w) v ≤ avg + 1 := by
    intro v hv
    have := h.keeps_size hv
    rw [h.keeps_join hv]
    omega
  have hshort : (m.workers.toList.map fun v => a - keeps t (m.join w) v).sum = 0 :=
    sum_sub_eq_zero fun v hv => Nat.le_trans hfall (hkeeps v hv).1
  have hexcess : (m.workers.toList.map fun v => keeps t (m.join w) v - (a + 1)).sum ≤ a := by
    rcases Nat.eq_or_lt_of_le hfall with rfl | hfall
    · rw [sum_sub_eq_zero fun v hv => (hkeeps v hv).2]
      exact Nat.zero_le _
    · -- All of the others have one beyond the new average, so what they have more is not enough
      -- for one more each.
      have hsplit := sum_sub_add m.workers.toList (keeps t (m.join w)) (a + 1)
      have hnone : (m.workers.toList.map fun v => a + 1 - keeps t (m.join w) v).sum = 0 :=
        sum_sub_eq_zero fun v hv => Nat.le_trans hfall (hkeeps v hv).1
      rw [Nat.succ_mul] at hlt
      omega
  omega

theorem moves_join (h : Level m avg t) (hw : w ∉ m.workers) : (planFor t (m.join w)).moves =
    .addWorker w ::
      ((planFor t (m.join w)).shed ++ (planFor t (m.join w)).filled).map Transfer.move := by
  obtain ⟨hr, had, hd, hf⟩ := h.planFor_join hw
  simp [Plan.moves, hr, had, hd, hf]

/-- All of them go to the new worker, as no more than these can come to it. -/
theorem target_eq_of_join (h : Level m avg t) (hm : m.workers.isEmpty = false)
    (havg : avg = m.items.dedup.length / m.workers.size) (hw : w ∉ m.workers) :
    ∀ tr ∈ (planFor t (m.join w)).shed ++ (planFor t (m.join w)).filled, tr.target = w := by
  have hm' := join_nonempty m w
  have hlength := h.length_transfers_join hm havg hw
  have ha := avg_planFor h.ascending hm'
  rw [items_join, size_join hw] at ha
  obtain ⟨t', hwalk⟩ := exists_walks_moves h.ascending hm'
  have hsize := ((hwalk.proceeds h.ascending).level hm').size w (mem_join_self m w)
  have hreceived := hwalk.length_itemsFor_le h.ascending w
  rw [itemsFor_of_not_mem (h.not_mem_workers hw), h.moves_join hw,
    List.countP_cons_of_neg (by simp [Move.receiver]), List.countP_map] at hreceived
  generalize htransfers : (planFor t (m.join w)).shed ++ (planFor t (m.join w)).filled = ts at *
  rw [← List.length_append, htransfers] at hlength
  have hmost := List.countP_le_length (l := ts)
    (p := (fun mv : Move => decide (mv.receiver = some w)) ∘ Transfer.move)
  rw [List.length_nil] at hreceived
  have hall := List.countP_eq_length.1 (Nat.le_antisymm hmost (by omega))
  intro tr htr
  simpa [Transfer.move, Move.receiver] using hall tr htr

end Level

/-- Of a table for which nothing was to be done: if nobody joins, no more items are moved than there
are items gone, and if no item is gone, workers that left are removed, new items are dealt out, and
that is all. If one worker joins, it is added, and then as many items are moved to it, and none to
anybody else, as there are by worker. -/
theorem change_costs {p : Plan} (hp : plan t m = .ok p) (hnil : p.moves = []) :
    (∀ m' : Membership, m'.workers.isEmpty = false → (∀ w ∈ m'.workers, w ∈ m.workers) →
      ∃ p', plan t m' = .ok p' ∧
        (p'.moves.filterMap Move.carried).length ≤
          (m.items.dedup.filter (· ∉ m'.items)).length ∧
        ((∀ i ∈ m.items, i ∈ m'.items) → ∀ mv ∈ p'.moves,
          (∃ w, w ∉ m'.workers ∧ mv = .removeWorker w) ∨ ∃ i w, mv = .assign i w)) ∧
    ∀ w, w ∉ m.workers → ∃ (p' : Plan) (ts : List Transfer), plan t (m.join w) = .ok p' ∧
      p'.moves = .addWorker w :: ts.map Transfer.move ∧
      ts.length = m.items.dedup.length / (m.workers.size + 1) ∧ ∀ tr ∈ ts, tr.target = w := by
  have hm : m.workers.isEmpty = false := by
    rw [plan] at hp
    split at hp
    · contradiction
    · next hm => simpa using hm
  -- The order of the lists counts for nothing, so they may as well be ascending.
  have hplan {m' : Membership} (hm' : m'.workers.isEmpty = false) :
      plan t m' = .ok (planFor t.sorted m') := by rw [planFor_sorted, plan_eq hm']
  rw [hplan hm] at hp
  cases hp
  have ha := t.ascending_sorted
  have h := level_of_moves_eq_nil ha hm hnil
  refine ⟨?_, ?_⟩
  · intro m' hm' hsub
    refine ⟨planFor t.sorted m', hplan hm', ?_, h.moves_of_grown hm' hsub⟩
    rw [Plan.carried_moves, List.length_append, List.length_map, List.length_map]
    exact h.length_transfers_le hm' hsub
  · intro w hw
    have havg := avg_planFor ha hm
    refine ⟨planFor t.sorted (m.join w), _, hplan (join_nonempty m w), h.moves_join hw, ?_,
      h.target_eq_of_join hm havg hw⟩
    rw [List.length_append]
    exact h.length_transfers_join hm havg hw

/-- Everybody has a fair share, out of order. -/
def calm : Table where
  owners :=
    { entries :=
        [(⟨1⟩, [⟨"ba", by decide⟩, ⟨"bd", by decide⟩, ⟨"bb", by decide⟩]),
        (⟨3⟩, [⟨"be", by decide⟩, ⟨"bc", by decide⟩]),
        (⟨4⟩, [⟨"bf", by decide⟩, ⟨"bg", by decide⟩])]
      strict := by decide }

def team : Membership where
  items := [⟨"ba", by decide⟩, ⟨"bb", by decide⟩, ⟨"bc", by decide⟩, ⟨"bd", by decide⟩,
    ⟨"be", by decide⟩, ⟨"bf", by decide⟩, ⟨"bg", by decide⟩]
  workers := .ofList [⟨1⟩, ⟨3⟩, ⟨4⟩]

/-- An item and a worker are gone, and an item is new. -/
def thinned : Membership where
  items := ⟨"bh", by decide⟩ :: team.items.tail
  workers := .ofList [⟨1⟩, ⟨4⟩]

/-- The worker is gone, and the item is new. -/
def laden : Membership where
  items := ⟨"bh", by decide⟩ :: team.items
  workers := .ofList [⟨1⟩, ⟨4⟩]

theorem calm_change_costs : ¬calm.Ascending ∧ plan calm team = .ok (planFor calm team) ∧
    (planFor calm team).moves = [] ∧
    (∃ p', plan calm thinned = .ok p' ∧ (p'.moves.filterMap Move.carried).length ≤ 1) ∧
    (∃ p', plan calm laden = .ok p' ∧ ∀ mv ∈ p'.moves,
      (∃ w, w ∉ laden.workers ∧ mv = .removeWorker w) ∨ ∃ i w, mv = .assign i w) ∧
    ∃ (p' : Plan) (ts : List Transfer), plan calm (team.join ⟨2⟩) = .ok p' ∧
      p'.moves = .addWorker ⟨2⟩ :: ts.map Transfer.move ∧ ts.length = 1 ∧
      ∀ tr ∈ ts, tr.target = ⟨2⟩ := by
  have hnil : (planFor calm team).moves = [] := by decide +kernel
  obtain ⟨hfewer, hmore⟩ := change_costs (t := calm) (m := team) rfl hnil
  obtain ⟨p, hp, hle, -⟩ := hfewer thinned (by decide) (by decide)
  obtain ⟨p', hp', -, hmoves⟩ := hfewer laden (by decide) (by decide)
  exact ⟨by decide, rfl, hnil, ⟨p, hp, hle⟩, ⟨p', hp', hmoves (by decide)⟩,
    hmore ⟨2⟩ (by decide)⟩

end Planner

end Roster
