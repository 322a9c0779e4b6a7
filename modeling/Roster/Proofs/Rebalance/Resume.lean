import Roster.Proofs.Rebalance.Levels
import Roster.Proofs.Rebalance.Trim

/-! A plan interrupted after any of its moves. Every move of a plan is accepted, and the plan for
the table it leads to is the rest of the plan, so a rebalance can be taken up again from any of the
tables on the way. -/

namespace Roster.Planner

open Load LoadQueue Table

variable {t t' : Table} {m : Membership} {v w : WorkerId} {i : ItemId} {q q' : LoadQueue}

/-! ### Items without an owner -/

/-- The first item to be dealt out is free, and the queue of the table deals it; the others go where
they would have gone. -/
theorem Trim.follows_assigned {as : List (ItemId × WorkerId)} (h : Trim m t)
    (hm : m.workers.isEmpty = false) (hf : (planFor t m).assigned = (i, w) :: as) :
    i ∉ t.listed ∧ ∃ q' t' light rest, Assigns t.queue i w q' light rest ∧
      Follows m t (.assign i w) i q' t' ∧
      assignAll (i :: t.listed) q' m.items = (as, (assignAll t.listed t.queue m.items).2) := by
  rw [h.planFor_eq] at hf
  replace hf : (assignAll t.listed t.queue m.items).1 = (i, w) :: as := hf
  have hready := h.ready hm
  have hdealt : i ∈ (assignAll t.listed t.queue m.items).1.map (·.1) := by
    rw [hf]
    exact List.mem_cons_self
  have hi : i ∈ m.items := (((deals_assignAll m.items hready).mem_iff i).1 hdealt).1
  obtain ⟨hfree, q', hs, hrest⟩ := assignAll_rest hready.nonempty hf
  obtain ⟨t', hfollows⟩ := h.follows_assign hi hfree hs
  obtain ⟨light, rest, hl⟩ := assigns_of_assign hready.apart hs
  exact ⟨hfree, q', t', light, rest, hl, hfollows, hrest⟩

theorem advances_assigned {as : List (ItemId × WorkerId)} (h : Trim m t)
    (hm : m.workers.isEmpty = false) (hf : (planFor t m).assigned = (i, w) :: as) :
    ∃ t', Advances m t (.assign i w) { planFor t m with assigned := as } t' := by
  obtain ⟨hfree, q', t', light, rest, hl, hfollows, hrest⟩ := h.follows_assigned hm hf
  have hlisted : ∀ j, j ∈ t'.listed ↔ j ∈ i :: t.listed := by
    intro j
    rw [← hfollows.trim.itemsOf_queue_perm.mem_iff, hfollows.queue,
      (hl.items_perm ((h.ready hm).not_mem hfree)).mem_iff, List.mem_cons, List.mem_cons,
      h.itemsOf_queue_perm.mem_iff]
  refine ⟨t', hfollows.accepted, hfollows.trim.ascending, ?_, ?_⟩
  · rw [hfollows.trim.planFor_eq, h.planFor_eq, hfollows.queue]
    simp only [spread, assignAll_congr hlisted, hrest]
  · intro j hj _ v hv
    have hji : j ≠ i := by
      rintro rfl
      have hmem : j ∈ t.itemsFor v := by simpa using List.find?_some hv
      exact hfree (mem_listed_iff.2 ⟨v, hmem⟩)
    rw [hfollows.keeper_eq hji, hv]

/-! ### Loads made even -/

/-- What is planned where every item has an owner. -/
def even (q : LoadQueue) : Plan :=
  let avg := average q.toList
  { removed := [], added := [], dropped := [], assigned := []
    shed := (shed avg q).1
    filled := (fill avg (shed avg q).2).1
    avg }

/-- A trim table that lists every registered item. -/
structure Full (m : Membership) (t : Table) : Prop extends Trim m t where
  all : ∀ i ∈ m.items, i ∈ t.listed

theorem full_of_assigned (h : Trim m t) (hm : m.workers.isEmpty = false)
    (hf : (planFor t m).assigned = []) : Full m t := by
  refine ⟨h, ?_⟩
  intro i hi
  rw [h.planFor_eq] at hf
  by_cases hl : i ∈ t.listed
  · exact hl
  · have := ((deals_assignAll m.items (h.ready hm)).mem_iff i).2 ⟨hi, hl⟩
    rw [show (assignAll t.listed t.queue m.items).1 = [] from hf] at this
    simp at this

namespace Full

theorem planFor_eq (h : Full m t) : planFor t m = even t.queue := by
  rw [h.toTrim.planFor_eq, spread, assignAll_of_owned h.all]
  rfl

theorem of_follows {mv : Move} (h : Full m t) (hf : Follows m t mv i q' t')
    (hre : Rearranges t.queue q') : Full m t' := by
  refine ⟨hf.trim, ?_⟩
  intro j hj
  rw [← hf.trim.itemsOf_queue_perm.mem_iff, hf.queue, hre.items.mem_iff,
    h.itemsOf_queue_perm.mem_iff]
  exact h.all j hj

/-- A transfer that the queue makes, made in the table. -/
theorem advances_transfer {tr : Transfer} (h : Full m t)
    (hs : t.queue.transferLast = some (tr, q')) :
    ∃ t', Advances m t tr.move (even q') t' := by
  obtain ⟨light, heavy, rest, hg⟩ := gives_of_transferLast h.apart_queue hs
  have hre := hg.rearranges h.apart_queue
  obtain ⟨t', hf⟩ := h.follows_transfer hs
  refine ⟨t', hf.accepted, hf.trim.ascending, ?_, ?_⟩
  · rw [(h.of_follows hf hre).planFor_eq, hf.queue]
  · intro j _ hj v hv
    have hne : j ≠ tr.item := by
      rintro rfl
      exact hj rfl
    rw [hf.keeper_eq hne, hv]

end Full

theorem even_of_shed {tr : Transfer} {ts : List Transfer} (ha : Apart q.toList)
    (h : (even q).shed = tr :: ts) :
    ∃ q', q.transferLast = some (tr, q') ∧ even q' = { even q with shed := ts } := by
  obtain ⟨q', hs, hrest⟩ := transferWhile_eq_cons h
  obtain ⟨light, heavy, rest, hg⟩ := gives_of_transferLast ha hs
  refine ⟨q', hs, ?_⟩
  have hshed : shed (average q.toList) q' = (ts, (shed (average q.toList) q).2) := hrest
  simp only [even, (hg.rearranges ha).average_eq, hshed]

/-- Once nobody has more than one item too many, filling makes nobody have more. -/
theorem shed_eq_nil_of_gives {tr : Transfer} {light heavy : Load} {rest : List Load} {avg : Nat}
    (ha : Apart q.toList) (havg : average q.toList = avg) (h : (shed avg q).1 = [])
    (hg : Gives q tr q' light heavy rest) : (shed avg q').1 = [] := by
  have hre := hg.rearranges ha
  have hlight := hg.size_le_average
  rw [havg] at hlight
  have hzero := (shed_counts ha havg).2.1
  rw [h, List.length_nil] at hzero
  have hlength := (shed_counts hre.apart (hre.average_eq.trans havg)).2.1
  rw [hg.excess_eq ha hlight, ← hzero] at hlength
  exact List.eq_nil_of_length_eq_zero hlength

theorem even_of_filled {tr : Transfer} {ts : List Transfer} (ha : Apart q.toList)
    (hs : (even q).shed = []) (h : (even q).filled = tr :: ts) :
    ∃ q', q.transferLast = some (tr, q') ∧ even q' = { even q with filled := ts } := by
  have hnone : shed (average q.toList) q = ([], q) := transferWhile_eq_nil hs
  simp only [even, hnone] at h
  obtain ⟨q', hsome, hrest⟩ := transferWhile_eq_cons h
  obtain ⟨light, heavy, rest, hg⟩ := gives_of_transferLast ha hsome
  have hnone' : shed (average q.toList) q' = ([], q') :=
    transferWhile_eq_nil (shed_eq_nil_of_gives ha rfl hs hg)
  have hfill : fill (average q.toList) q' = (ts, (fill (average q.toList) q).2) := hrest
  refine ⟨q', hsome, ?_⟩
  simp only [even, (hg.rearranges ha).average_eq, hnone, hnone', hfill]

/-! ### Any move, and any number of moves -/

/-- A transfer at the head of a plan is the one that the queue of the table makes. -/
theorem transferLast_of_leaves {mv : Move} {p' : Plan} (ha : t.Ascending)
    (hm : m.workers.isEmpty = false) (h : Plan.Leaves (planFor t m) mv p')
    (hc : mv.carried = some i) :
    Full m t ∧ ∃ tr q', mv = tr.move ∧ t.queue.transferLast = some (tr, q') ∧ p' = even q' := by
  cases h with
  | shed hr had hd hf h =>
    have hfull := full_of_assigned (trim_of_tidy ha hr had hd) hm hf
    rw [hfull.planFor_eq] at h ⊢
    obtain ⟨q', hs, heven⟩ := even_of_shed hfull.apart_queue h
    exact ⟨hfull, _, q', rfl, hs, heven.symm⟩
  | filled hr had hd hf hs h =>
    have hfull := full_of_assigned (trim_of_tidy ha hr had hd) hm hf
    rw [hfull.planFor_eq] at hs h ⊢
    obtain ⟨q', hsome, heven⟩ := even_of_filled hfull.apart_queue hs h
    exact ⟨hfull, _, q', rfl, hsome, heven.symm⟩
  | _ => cases hc

/-- The first move of a plan is accepted and leaves a table whose plan is the rest. -/
theorem exists_advances {mv : Move} {p' : Plan} (ha : t.Ascending)
    (hm : m.workers.isEmpty = false) (h : Plan.Leaves (planFor t m) mv p') :
    ∃ t', Advances m t mv p' t' := by
  cases hc : mv.carried with
  | some i =>
    obtain ⟨hfull, tr, q', rfl, hs, rfl⟩ := transferLast_of_leaves ha hm h hc
    exact hfull.advances_transfer hs
  | none =>
    cases h with
    | removed h => exact ⟨_, advances_removed ha h⟩
    | added hr h => exact ⟨_, advances_added ha hr h⟩
    | dropped hr had h => exact ⟨_, advances_dropped ha h⟩
    | assigned hr had hd h => exact advances_assigned (trim_of_tidy ha hr had hd) hm h
    | shed hr had hd hf h => cases hc
    | filled hr had hd hf hs h => cases hc

/-- Carrying out `ms`, the first moves of its plan, takes `t` to `t'`, for which the rest is
planned; registered items that are not carried stay with their keepers. -/
structure Proceeds (m : Membership) (t : Table) (ms : List Move) (t' : Table) : Prop where
  accepted : t.applyAll ms = (t', none)
  ascending : t'.Ascending
  moves : (planFor t m).moves = ms ++ (planFor t' m).moves
  avg : (planFor t' m).avg = (planFor t m).avg
  keeper : ∀ i ∈ m.items, i ∉ ms.filterMap Move.carried → ∀ w, t.keeper m i = some w →
    t'.keeper m i = some w

theorem Proceeds.refl (ha : t.Ascending) : Proceeds m t [] t :=
  ⟨rfl, ha, rfl, rfl, fun _ _ _ _ hw => hw⟩

theorem Proceeds.trans {ms ms' : List Move} {t'' : Table} (h : Proceeds m t ms t')
    (h' : Proceeds m t' ms' t'') : Proceeds m t (ms ++ ms') t'' where
  accepted := by
    rw [applyAll_append h.accepted, h'.accepted]
    rfl
  ascending := h'.ascending
  moves := by rw [h.moves, h'.moves, List.append_assoc]
  avg := h'.avg.trans h.avg
  keeper := by
    intro i hi hnot w hw
    rw [List.filterMap_append, List.mem_append, not_or] at hnot
    exact h'.keeper i hi hnot.2 w (h.keeper i hi hnot.1 w hw)

theorem Advances.avg_eq {mv : Move} {p' : Plan} (h : Advances m t mv p' t')
    (hl : Plan.Leaves (planFor t m) mv p') : (planFor t' m).avg = (planFor t m).avg := by
  rw [h.plan, hl.avg_eq]

/-- One move is a run of its own. -/
theorem Advances.proceeds {mv : Move} {p' : Plan} (h : Advances m t mv p' t')
    (hl : Plan.Leaves (planFor t m) mv p') : Proceeds m t [mv] t' where
  accepted := by
    rw [applyAll_cons h.accepted]
    rfl
  ascending := h.ascending
  moves := by
    rw [hl.moves_eq, h.plan]
    rfl
  avg := h.avg_eq hl
  keeper := by
    intro i hi hnot w hw
    refine h.keeper i hi ?_ w hw
    intro he
    rw [List.filterMap_cons_some he] at hnot
    exact hnot List.mem_cons_self

/-- Carrying out `ms`, the first moves of its plan, one by one takes `t` to `t'`. -/
inductive Walks (m : Membership) : Table → List Move → Table → Prop
  | stay (t : Table) : Walks m t [] t
  | go {t t' t'' : Table} {mv : Move} {p' : Plan} {ms : List Move}
      (hl : Plan.Leaves (planFor t m) mv p') (h : Advances m t mv p' t') (hs : Walks m t' ms t'') :
      Walks m t (mv :: ms) t''

theorem exists_walks (ha : t.Ascending) (hm : m.workers.isEmpty = false) (k : Nat) :
    ∃ t', Walks m t ((planFor t m).moves.take k) t' := by
  induction k generalizing t with
  | zero => exact ⟨t, .stay t⟩
  | succ k ih =>
    rcases (planFor t m).moves_eq_nil_or_leaves with hnil | ⟨mv, p', hl⟩
    · rw [hnil, List.take_nil]
      exact ⟨t, .stay t⟩
    · obtain ⟨t', h⟩ := exists_advances ha hm hl
      obtain ⟨t'', hs⟩ := ih h.ascending
      rw [h.plan] at hs
      rw [hl.moves_eq, List.take_succ_cons]
      exact ⟨t'', .go hl h hs⟩

/-- A run may be cut after any of its moves. -/
theorem Walks.split {t'' : Table} {ms ms' : List Move} (h : Walks m t (ms ++ ms') t'') :
    ∃ t', Walks m t ms t' ∧ Walks m t' ms' t'' := by
  induction ms generalizing t with
  | nil => exact ⟨t, .stay t, h⟩
  | cons mv ms ih =>
    cases h with
    | go hl h hs =>
      obtain ⟨t', hfirst, hrest⟩ := ih hs
      exact ⟨t', .go hl h hfirst, hrest⟩

theorem Walks.proceeds {ms : List Move} (h : Walks m t ms t') (ha : t.Ascending) :
    Proceeds m t ms t' := by
  induction h with
  | stay t => exact .refl ha
  | go hl h hs ih => exact (h.proceeds hl).trans (ih h.ascending)

/-- A plan may be carried out as a whole. -/
theorem exists_walks_moves (ha : t.Ascending) (hm : m.workers.isEmpty = false) :
    ∃ t', Walks m t (planFor t m).moves t' := by
  obtain ⟨t', h⟩ := exists_walks ha hm (planFor t m).moves.length
  rw [List.take_length] at h
  exact ⟨t', h⟩

theorem exists_proceeds (ha : t.Ascending) (hm : m.workers.isEmpty = false) (k : Nat) :
    ∃ t', Proceeds m t ((planFor t m).moves.take k) t' := by
  obtain ⟨t', h⟩ := exists_walks ha hm k
  exact ⟨t', h.proceeds ha⟩

/-- Nothing is left to be done after a whole plan. -/
theorem Proceeds.moves_eq_nil (h : Proceeds m t (planFor t m).moves t') :
    (planFor t' m).moves = [] :=
  List.self_eq_append_right.1 h.moves

theorem Proceeds.moves_eq_drop {k : Nat} (h : Proceeds m t ((planFor t m).moves.take k) t') :
    (planFor t' m).moves = (planFor t m).moves.drop k :=
  List.append_cancel_left (h.moves.symm.trans (List.take_append_drop k _).symm)

end Roster.Planner
