import Roster.Proofs.Rebalance.Outcome

/-! How many items change hands. No fair table can do without as many changes as there are items in
excess, nor with fewer than are lacking once the items without an owner are dealt out; a plan makes
the larger number of changes and no more. -/

namespace Roster.Planner

open Load LoadQueue Table

variable {t t' : Table} {m : Membership} {w : WorkerId} {i : ItemId} {avg : Nat}

/-- The registered items that have a keeper in `t` and another one, or none, in `t'`. -/
def moved (m : Membership) (t t' : Table) : List ItemId :=
  m.items.dedup.filter fun i => (t.keeper m i).isSome ∧ t'.keeper m i ≠ t.keeper m i

/-- How many registered items a worker lists. -/
def share (m : Membership) (t : Table) (w : WorkerId) : Nat :=
  m.items.dedup.countP (· ∈ t.itemsFor w)

/-- One registered worker lists each registered item, and each of these workers lists `avg` of them
or one more. -/
structure Fair (m : Membership) (avg : Nat) (t : Table) : Prop where
  owned : ∀ i ∈ m.items, ∃! w, w ∈ m.workers ∧ i ∈ t.itemsFor w
  size : ∀ w ∈ m.workers, share m t w = avg ∨ share m t w = avg + 1

/-! ### Items counted by worker -/

section Counting

variable {l : List ItemId} {p q r : ItemId → Prop} [DecidablePred p] [DecidablePred q]
  [DecidablePred r]

theorem countP_le_add (h : ∀ i, p i → q i ∨ r i) :
    (l.countP fun i => p i) ≤ (l.countP fun i => q i) + l.countP fun i => r i := by
  induction l with
  | nil => simp
  | cons i l ih =>
    have hi := h i
    simp only [List.countP_cons, decide_eq_true_eq]
    split <;> split <;> split <;> first | omega | tauto

theorem add_le_countP (hq : ∀ i, q i → p i) (hr : ∀ i, r i → p i) (h : ∀ i, q i → ¬r i) :
    (l.countP fun i => q i) + (l.countP fun i => r i) ≤ l.countP fun i => p i := by
  induction l with
  | nil => simp
  | cons i l ih =>
    have hi := h i
    have hqi := hq i
    have hri := hr i
    simp only [List.countP_cons, decide_eq_true_eq]
    split <;> split <;> split <;> first | omega | tauto

variable {ws : List WorkerId} {f g : ItemId → Option WorkerId}

/-- Each item is counted for one worker at most. -/
theorem sum_countP_le (hn : ws.Nodup) :
    (ws.map fun w => l.countP fun i => p i ∧ f i = some w).sum ≤ l.countP fun i => p i := by
  induction ws generalizing p with
  | nil => simp
  | cons w ws ih =>
    obtain ⟨hw, hws⟩ := List.nodup_cons.1 hn
    have hrest : ∀ v ∈ ws, (l.countP fun i => p i ∧ f i = some v) =
        l.countP fun i => (p i ∧ f i ≠ some w) ∧ f i = some v := by
      intro v hv
      refine List.countP_congr ?_
      intro i _
      simp only [decide_eq_true_eq]
      constructor
      · rintro ⟨hp, hi⟩
        refine ⟨⟨hp, ?_⟩, hi⟩
        intro hiw
        rw [hi, Option.some.injEq] at hiw
        exact hw (hiw ▸ hv)
      · exact fun h => ⟨h.1.1, h.2⟩
    have hsum := ih (p := fun i => p i ∧ f i ≠ some w) hws
    have hsplit := add_le_countP (l := l) (p := p) (q := fun i => p i ∧ f i = some w)
      (r := fun i => p i ∧ f i ≠ some w) (fun _ h => h.1) (fun _ h => h.1)
      (fun _ h h' => h'.2 h.2)
    rw [List.map_cons, List.sum_cons, List.map_congr_left hrest]
    omega

theorem sum_le_sum {a b : WorkerId → Nat} (h : ∀ w ∈ ws, a w ≤ b w) :
    (ws.map a).sum ≤ (ws.map b).sum := by
  induction ws with
  | nil => exact Nat.le_refl _
  | cons w ws ih =>
    have hw := h w List.mem_cons_self
    have := ih fun v hv => h v (List.mem_cons_of_mem w hv)
    simp only [List.map_cons, List.sum_cons]
    omega

/-- If nobody has more than `avg + 1` of the items after, as many as are in excess before leave
their worker. -/
theorem sum_excess_le (hn : ws.Nodup)
    (h : ∀ w ∈ ws, (l.countP fun i => g i = some w) ≤ avg + 1) :
    (ws.map fun w => (l.countP fun i => f i = some w) - (avg + 1)).sum ≤
      l.countP fun i => (f i).isSome ∧ g i ≠ f i := by
  refine Nat.le_trans (sum_le_sum ?_) (sum_countP_le (f := f) hn)
  intro w hw
  have hsplit : (l.countP fun i => f i = some w) ≤ (l.countP fun i => g i = some w) +
      l.countP fun i => ((f i).isSome ∧ g i ≠ f i) ∧ f i = some w := by
    refine countP_le_add ?_
    intro i hi
    by_cases hg : g i = some w
    · exact .inl hg
    · exact .inr ⟨⟨by rw [hi]; rfl, by rw [hi]; exact hg⟩, hi⟩
  have := h w hw
  omega

/-- If everybody has `avg` of the items after, as many as are lacking before come to another
worker, or to one for the first time. -/
theorem sum_shortage_le (hn : ws.Nodup) (h : ∀ w ∈ ws, avg ≤ l.countP fun i => g i = some w) :
    (ws.map fun w => avg - l.countP fun i => f i = some w).sum ≤
      (l.countP fun i => (f i).isSome ∧ g i ≠ f i) + l.countP fun i => f i = none := by
  have hchanged : (ws.map fun w => avg - l.countP fun i => f i = some w).sum ≤
      l.countP fun i => g i ≠ f i := by
    refine Nat.le_trans (sum_le_sum ?_) (sum_countP_le (f := g) hn)
    intro w hw
    have hsplit : (l.countP fun i => g i = some w) ≤ (l.countP fun i => f i = some w) +
        l.countP fun i => g i ≠ f i ∧ g i = some w := by
      refine countP_le_add ?_
      intro i hi
      by_cases hf : f i = some w
      · exact .inl hf
      · exact .inr ⟨fun he => hf (he ▸ hi), hi⟩
    have := h w hw
    omega
  refine Nat.le_trans hchanged (countP_le_add ?_)
  intro i hi
  cases hf : f i with
  | none => exact .inr rfl
  | some w => exact .inl ⟨rfl, hf ▸ hi⟩

end Counting

/-! ### Fair tables -/

namespace Fair

theorem keeper_eq_some_iff (h : Fair m avg t) (hi : i ∈ m.items) (hw : w ∈ m.workers) :
    t.keeper m i = some w ↔ i ∈ t.itemsFor w := by
  obtain ⟨v, -, hunique⟩ := h.owned i hi
  rw [keeper_eq_some_iff_of_unique, and_iff_right hw]
  intro u hu w hw hiu hiw
  rw [hunique u ⟨hu, hiu⟩, hunique w ⟨hw, hiw⟩]

theorem keeps_eq_share (h : Fair m avg t) (hw : w ∈ m.workers) : keeps t m w = share m t w := by
  refine List.countP_congr ?_
  intro i hi
  simp only [decide_eq_true_eq]
  exact h.keeper_eq_some_iff (List.mem_dedup.1 hi) hw

end Fair

theorem Level.fair (h : Level m avg t) : Fair m avg t where
  owned := by
    intro i hi
    obtain ⟨w, hw, hiw⟩ := h.exists_lister hi
    exact ⟨w, ⟨hw, hiw⟩, fun v hv => eq_of_mem_itemsFor h.nodup hv.2 hiw⟩
  size := by
    intro w hw
    have hperm : (t.itemsFor w).Perm (m.items.dedup.filter (· ∈ t.itemsFor w)) := by
      refine (List.perm_ext_iff_of_nodup (nodup_itemsFor h.nodup w) (m.items.nodup_dedup.filter _)).2 ?_
      intro i
      rw [List.mem_filter, List.mem_dedup, decide_eq_true_eq]
      constructor
      · exact fun hi => ⟨h.registered i (mem_listed_iff.2 ⟨w, hi⟩), hi⟩
      · exact fun hi => hi.2
    have hshare : share m t w = (t.itemsFor w).length := by
      rw [share, List.countP_eq_length_filter, hperm.length_eq]
    rw [hshare]
    exact h.size w hw

/-! ### The changes that a plan makes -/

/-- As many items are dealt out as nobody keeps. -/
theorem length_assigned (hm : m.workers.isEmpty = false) : (planFor t m).assigned.length =
    m.items.dedup.countP fun i => t.keeper m i = none := by
  have hd := deals_planFor (t := t) hm
  have hperm : ((planFor t m).assigned.map (·.1)).Perm
      (m.items.dedup.filter fun i => t.keeper m i = none) := by
    refine (List.perm_ext_iff_of_nodup hd.nodup (m.items.nodup_dedup.filter _)).2 ?_
    intro i
    rw [hd.mem_iff, List.mem_filter, List.mem_dedup, decide_eq_true_eq]
    refine and_congr_right ?_
    intro hi
    rw [mem_held_iff hi, Option.not_isSome_iff_eq_none]
  rw [List.countP_eq_length_filter, ← hperm.length_eq, List.length_map]

theorem excess_holdings : excess avg (holdingsQueue t m).toList =
    (m.workers.toList.map fun w => keeps t m w - (avg + 1)).sum := by
  have hsizes := congrArg (List.map (· - (avg + 1))) (map_size_holdingsLoads (t := t) (m := m))
  rw [List.map_map, List.map_map] at hsizes
  rw [excess_perm holdingsQueue_perm]
  exact congrArg List.sum hsizes

theorem shortage_holdings : shortage avg (holdingsQueue t m).toList =
    (m.workers.toList.map fun w => avg - keeps t m w).sum := by
  have hsizes := congrArg (List.map (avg - ·)) (map_size_holdingsLoads (t := t) (m := m))
  rw [List.map_map, List.map_map] at hsizes
  rw [shortage_perm holdingsQueue_perm]
  exact congrArg List.sum hsizes

/-- Workers shed what the holdings have in excess, and are filled with what is lacking still. -/
theorem length_shed_and_filled (hm : m.workers.isEmpty = false) (havg : (planFor t m).avg = avg) :
    (planFor t m).shed.length = excess avg (holdingsQueue t m).toList ∧
      (planFor t m).filled.length = shortage avg (holdingsQueue t m).toList -
        (planFor t m).assigned.length - excess avg (holdingsQueue t m).toList := by
  have hready := ready_holdings (t := t) hm
  have hdealt := (deals_assignAll m.items hready).apart
  have havg' : average (assignAll (held t m) (holdingsQueue t m) m.items).2.toList = avg := havg
  obtain ⟨hexcess, hshort⟩ := assignAll_levels hready havg'
  obtain ⟨hre, hshed, -, hleft⟩ := shed_counts hdealt havg'
  have hfilled := (fill_counts hre.apart (hre.average_eq.trans havg')).2.1
  rw [hexcess] at hshed hleft
  rw [hleft, hshort] at hfilled
  subst havg
  exact ⟨hshed, hfilled⟩

/-- No fair table moves fewer items than the plan does. -/
theorem le_length_moved (hm : m.workers.isEmpty = false) (h : Fair m (planFor t m).avg t') :
    (planFor t m).shed.length + (planFor t m).filled.length ≤ (moved m t t').length := by
  have hmost : ∀ w ∈ m.workers.toList, keeps t' m w ≤ (planFor t m).avg + 1 := by
    intro w hw
    have := h.size w hw
    rw [h.keeps_eq_share hw]
    omega
  have hleast : ∀ w ∈ m.workers.toList, (planFor t m).avg ≤ keeps t' m w := by
    intro w hw
    have := h.size w hw
    rw [h.keeps_eq_share hw]
    omega
  have hexcess : (m.workers.toList.map fun w => keeps t m w - ((planFor t m).avg + 1)).sum ≤
      (moved m t t').length := by
    rw [moved, ← List.countP_eq_length_filter]
    exact sum_excess_le m.workers.nodup hmost
  have hshort : (m.workers.toList.map fun w => (planFor t m).avg - keeps t m w).sum ≤
      (moved m t t').length + (planFor t m).assigned.length := by
    rw [moved, ← List.countP_eq_length_filter, length_assigned hm]
    exact sum_shortage_le m.workers.nodup hleast
  obtain ⟨hshed, hfilled⟩ := length_shed_and_filled hm (rfl : (planFor t m).avg = _)
  rw [← excess_holdings] at hexcess
  rw [← shortage_holdings] at hshort
  omega

/-- An item that moves is one that is transferred. -/
theorem Proceeds.length_moved_le (h : Proceeds m t (planFor t m).moves t') :
    (moved m t t').length ≤ (planFor t m).shed.length + (planFor t m).filled.length := by
  have hsub : moved m t t' ⊆ (planFor t m).moves.filterMap Move.carried := by
    intro i hi
    rw [moved, List.mem_filter, List.mem_dedup] at hi
    obtain ⟨hi, hmoved⟩ := hi
    simp only [Option.isSome_iff_exists, decide_eq_true_eq] at hmoved
    obtain ⟨⟨w, hw⟩, hne⟩ := hmoved
    by_cases hc : i ∈ (planFor t m).moves.filterMap Move.carried
    · exact hc
    · exact absurd ((h.keeper i hi hc w hw).trans hw.symm) hne
  have hle := (List.subperm_of_subset (m.items.nodup_dedup.filter _) hsub).length_le
  rw [Plan.carried_moves, List.length_append, List.length_map, List.length_map] at hle
  exact hle

/-- A rebalance moves as few items from one worker to another as any fair table allows. -/
theorem rebalance_moves_least (ha : t.Ascending) (hm : m.workers.isEmpty = false) :
    ∃ p t', plan t m = .ok p ∧ t.applyAll p.moves = (t', none) ∧ Fair m p.avg t' ∧
      (moved m t t').length = p.stats.itemsShed + p.stats.itemsFilled ∧
      ∀ alt, Fair m p.avg alt →
        p.stats.itemsShed + p.stats.itemsFilled ≤ (moved m t alt).length := by
  obtain ⟨t', h, hl⟩ := exists_level ha hm
  refine ⟨planFor t m, t', plan_eq hm, h.accepted, hl.fair, ?_, ?_⟩
  · exact Nat.le_antisymm h.length_moved_le (le_length_moved hm hl.fair)
  · exact fun alt halt => le_length_moved hm halt

theorem untidy_moves_least : untidy.Ascending ∧ crew.workers.isEmpty = false ∧
    ∃ p t', plan untidy crew = .ok p ∧ untidy.applyAll p.moves = (t', none) ∧
      Fair crew p.avg t' ∧
      (moved crew untidy t').length = p.stats.itemsShed + p.stats.itemsFilled ∧
      ∀ alt, Fair crew p.avg alt →
        p.stats.itemsShed + p.stats.itemsFilled ≤ (moved crew untidy alt).length :=
  ⟨by decide, by decide, rebalance_moves_least (by decide) (by decide)⟩

end Roster.Planner
