import Roster.Proofs.Rebalance.Holdings

/-! A plan carried out move by move. The first move of a plan leaves the rest of it to be done; as
long as there are workers or listings to remove, a new plan for the changed table is that rest. -/

namespace Roster

/-- The item that goes from one worker to another. -/
def Move.carried : Move → Option ItemId
  | .transfer i _ _ => some i
  | _ => none

namespace Plan

variable {p p' : Plan} {mv : Move}

/-- The first move of `p` is `mv`, and `p'` is what is left of `p` after it. -/
inductive Leaves : Plan → Move → Plan → Prop
  | removed {p : Plan} {w : WorkerId} {ws : List WorkerId} (h : p.removed = w :: ws) :
      Leaves p (.removeWorker w) { p with removed := ws }
  | added {p : Plan} {w : WorkerId} {ws : List WorkerId} (hr : p.removed = [])
      (h : p.added = w :: ws) : Leaves p (.addWorker w) { p with added := ws }
  | dropped {p : Plan} {i : ItemId} {w : WorkerId} {ds : List (ItemId × WorkerId)}
      (hr : p.removed = []) (ha : p.added = []) (h : p.dropped = (i, w) :: ds) :
      Leaves p (.drop i w) { p with dropped := ds }
  | assigned {p : Plan} {i : ItemId} {w : WorkerId} {as : List (ItemId × WorkerId)}
      (hr : p.removed = []) (ha : p.added = []) (hd : p.dropped = [])
      (h : p.assigned = (i, w) :: as) : Leaves p (.assign i w) { p with assigned := as }
  | shed {p : Plan} {t : Transfer} {ts : List Transfer} (hr : p.removed = []) (ha : p.added = [])
      (hd : p.dropped = []) (hf : p.assigned = []) (h : p.shed = t :: ts) :
      Leaves p t.move { p with shed := ts }
  | filled {p : Plan} {t : Transfer} {ts : List Transfer} (hr : p.removed = [])
      (ha : p.added = []) (hd : p.dropped = []) (hf : p.assigned = []) (hs : p.shed = [])
      (h : p.filled = t :: ts) : Leaves p t.move { p with filled := ts }

theorem Leaves.moves_eq (h : Leaves p mv p') : p.moves = mv :: p'.moves := by
  cases h with
  | removed h => simp [moves, h]
  | added hr h => simp [moves, hr, h]
  | dropped hr ha h => simp [moves, hr, ha, h]
  | assigned hr ha hd h => simp [moves, hr, ha, hd, h]
  | shed hr ha hd hf h => simp [moves, hr, ha, hd, hf, h]
  | filled hr ha hd hf hs h => simp [moves, hr, ha, hd, hf, hs, h]

theorem Leaves.avg_eq (h : Leaves p mv p') : p'.avg = p.avg := by
  cases h <;> rfl

/-- A plan without moves, or one with a first move. -/
theorem moves_eq_nil_or_leaves (p : Plan) : p.moves = [] ∨ ∃ mv p', Leaves p mv p' := by
  cases hr : p.removed with
  | cons w ws => exact .inr ⟨_, _, .removed hr⟩
  | nil =>
  cases ha : p.added with
  | cons w ws => exact .inr ⟨_, _, .added hr ha⟩
  | nil =>
  cases hd : p.dropped with
  | cons d ds => exact .inr ⟨_, _, .dropped hr ha hd⟩
  | nil =>
  cases hf : p.assigned with
  | cons a as => exact .inr ⟨_, _, .assigned hr ha hd hf⟩
  | nil =>
  cases hs : p.shed with
  | cons t ts => exact .inr ⟨_, _, .shed hr ha hd hf hs⟩
  | nil =>
  cases hl : p.filled with
  | cons t ts => exact .inr ⟨_, _, .filled hr ha hd hf hs hl⟩
  | nil => exact .inl (by simp [moves, hr, ha, hd, hf, hs, hl])

theorem carried_moves (p : Plan) :
    p.moves.filterMap Move.carried = p.shed.map (·.item) ++ p.filled.map (·.item) := by
  simp [moves, List.filterMap_append, List.filterMap_map, Function.comp_def, Move.carried,
    Transfer.move]

end Plan

namespace Planner
open Table

/-- What is planned once everybody's holdings stand in a queue: items that are not `owned` are
assigned, then loads are made even. -/
def spread (owned : List ItemId) (q : LoadQueue) (items : List ItemId) : Plan :=
  let (assigned, dealt) := assignAll owned q items
  let avg := dealt.totalItems / dealt.workerCount
  let (shed, even) := shed avg dealt
  let (filled, _) := fill avg even
  { removed := [], added := [], dropped := [], assigned, shed, filled, avg }

variable {t t' : Table} {m : Membership} {v w : WorkerId} {i : ItemId}

theorem planFor_eq (t : Table) (m : Membership) :
    planFor t m = { spread (held t m) (holdingsQueue t m) m.items with
      removed := t.workers.filter (· ∉ m.workers)
      added := m.workers.toList.filter fun w => !t.containsWorker w
      dropped := (survey t m.items [] m.workers.toList).2 } :=
  rfl

/-- What is assigned and transferred depends on the holdings alone. -/
theorem planFor_congr (h : holdings t' m = holdings t m) :
    planFor t' m = { planFor t m with
      removed := (planFor t' m).removed
      added := (planFor t' m).added
      dropped := (planFor t' m).dropped } := by
  rw [planFor_eq, planFor_eq, held_congr h, holdingsQueue_congr h]

/-- The order of the lists does not count in a plan. -/
theorem planFor_sorted (t : Table) (m : Membership) : planFor t.sorted m = planFor t m := by
  have hholdings : holdings t.sorted m = holdings t m := congrArg (·.1) survey_sorted
  rw [planFor_eq, planFor_eq, held_congr hholdings, holdingsQueue_congr hholdings, survey_sorted]
  simp only [workers_sorted, containsWorker_sorted]

theorem mem_removed_iff : w ∈ (planFor t m).removed ↔ w ∈ t.workers ∧ w ∉ m.workers := by
  simp [planFor]

theorem mem_added_iff : w ∈ (planFor t m).added ↔ w ∈ m.workers ∧ w ∉ t.workers := by
  simp [planFor, mem_workers_iff, OrderedSet.mem_def]

/-- The items that nobody keeps are dealt out. -/
theorem deals_planFor (hm : m.workers.isEmpty = false) : Deals (held t m) m.items
    (holdingsQueue t m) (planFor t m).assigned
      (assignAll (held t m) (holdingsQueue t m) m.items).2 :=
  deals_assignAll m.items (ready_holdings hm)

/-- Carrying out `mv` takes `t` to `t'`, for which `p'` is planned, and a registered item stays with
its keeper unless it is carried. -/
structure Advances (m : Membership) (t : Table) (mv : Move) (p' : Plan) (t' : Table) : Prop where
  accepted : t.apply mv = .ok t'
  ascending : t'.Ascending
  plan : planFor t' m = p'
  keeper : ∀ i ∈ m.items, mv.carried ≠ some i → ∀ w, t.keeper m i = some w →
    t'.keeper m i = some w

theorem Advances.eq {mv : Move} {p' : Plan} {u : Table} (h : Advances m t mv p' t')
    (hu : t.apply mv = .ok u) : t' = u :=
  Except.ok.inj (h.accepted.symm.trans hu)

/-! ### Workers and listings that have to go -/

theorem filter_ne_of_nodup_cons {ws : List WorkerId} (h : (w :: ws).Nodup) :
    (w :: ws).filter (fun v => v ≠ w) = ws := by
  have hw := (List.nodup_cons.1 h).1
  rw [List.filter_cons_of_neg (by simp), List.filter_eq_self]
  intro v hv
  exact decide_eq_true fun he => hw (he ▸ hv)

theorem nodup_removed : (planFor t m).removed.Nodup := t.nodup_workers.filter _

theorem nodup_added : (planFor t m).added.Nodup := m.workers.nodup.filter _

/-- A move that leaves the holdings alone changes the other parts of the plan alone. -/
theorem advances_of_survey {mv : Move} {removed added : List WorkerId}
    {dropped : List (ItemId × WorkerId)} (happly : t.apply mv = .ok t') (ha : t'.Ascending)
    (hs : survey t' m.items [] m.workers.toList = (holdings t m, dropped))
    (hr : (planFor t' m).removed = removed) (had : (planFor t' m).added = added) :
    Advances m t mv { planFor t m with removed, added, dropped } t' := by
  have hholdings : holdings t' m = holdings t m := congrArg (·.1) hs
  have hdropped : (planFor t' m).dropped = dropped := congrArg (·.2) hs
  refine ⟨happly, ha, ?_, ?_⟩
  · rw [planFor_congr hholdings, hr, had, hdropped]
  · intro i hi _ v hv
    rw [keeper_congr hholdings hi, hv]

theorem added_congr (h : ∀ v ∈ m.workers, v ∈ t'.workers ↔ v ∈ t.workers) :
    (planFor t' m).added = (planFor t m).added := by
  refine List.filter_congr ?_
  intro v hv
  have hv' := h v hv
  rw [mem_workers_iff, mem_workers_iff] at hv'
  rw [Bool.eq_iff_iff.2 hv']

/-- A worker that is not registered does not count in a survey. -/
theorem survey_without (hw : w ∉ m.workers) :
    survey (t.without w) m.items [] m.workers.toList =
      survey t m.items [] m.workers.toList := by
  refine survey_congr ?_
  intro v hv
  rw [itemsFor_without, if_neg]
  rintro rfl
  exact hw hv

/-- Nor does one without items. -/
theorem survey_withWorker_nil (hw : w ∉ t.workers) :
    survey (t.withWorker w []) m.items [] m.workers.toList =
      survey t m.items [] m.workers.toList :=
  survey_congr fun _ _ => itemsFor_withWorker_nil hw

theorem advances_removed {ws : List WorkerId} (ha : t.Ascending)
    (h : (planFor t m).removed = w :: ws) :
    Advances m t (.removeWorker w) { planFor t m with removed := ws } (t.without w) := by
  have hw : w ∉ m.workers := (mem_removed_iff.1 (h ▸ List.mem_cons_self)).2
  have hne : ∀ v ∈ m.workers, v ≠ w := by
    rintro v hv rfl
    exact hw hv
  have hremoved : (planFor (t.without w) m).removed = ws := by
    change (t.without w).workers.filter (· ∉ m.workers) = ws
    rw [workers_without, List.filter_comm]
    change (planFor t m).removed.filter (· ≠ w) = ws
    rw [h]
    exact filter_ne_of_nodup_cons (h ▸ nodup_removed)
  have hadded : (planFor (t.without w) m).added = (planFor t m).added := by
    refine added_congr ?_
    intro v hv
    simp [workers_without, hne v hv]
  exact advances_of_survey apply_removeWorker (ha.without w) (survey_without hw) hremoved hadded

theorem advances_added {ws : List WorkerId} (ha : t.Ascending) (hr : (planFor t m).removed = [])
    (h : (planFor t m).added = w :: ws) :
    Advances m t (.addWorker w) { planFor t m with added := ws } (t.withWorker w []) := by
  obtain ⟨hm, hw⟩ := mem_added_iff.1 (h ▸ List.mem_cons_self)
  have hremoved : (planFor (t.withWorker w []) m).removed = (planFor t m).removed := by
    rw [hr, List.eq_nil_iff_forall_not_mem]
    intro v hv
    obtain ⟨hv, hv'⟩ := mem_removed_iff.1 hv
    rcases mem_workers_withWorker.1 hv with rfl | hv
    · exact hv' hm
    · have : v ∈ (planFor t m).removed := mem_removed_iff.2 ⟨hv, hv'⟩
      simp [hr] at this
  have hadded : (planFor (t.withWorker w []) m).added = ws := by
    have hsplit : (planFor (t.withWorker w []) m).added =
        (planFor t m).added.filter (· ≠ w) := by
      change m.workers.toList.filter (fun v => !(t.withWorker w []).containsWorker v) =
        (m.workers.toList.filter fun v => !t.containsWorker v).filter (· ≠ w)
      rw [List.filter_filter]
      refine List.filter_congr ?_
      intro v _
      have hv : (t.withWorker w []).containsWorker v = true ↔
          v = w ∨ t.containsWorker v = true := by
        rw [← mem_workers_iff, ← mem_workers_iff]
        exact mem_workers_withWorker
      rw [Bool.eq_iff_iff]
      simp [hv, ← Bool.not_eq_true]
    rw [hsplit, h]
    exact filter_ne_of_nodup_cons (h ▸ nodup_added)
  exact advances_of_survey (apply_addWorker hw) (ha.withWorker_nil hw)
    (survey_withWorker_nil hw) hremoved hadded

theorem advances_dropped {ds : List (ItemId × WorkerId)} (ha : t.Ascending)
    (h : (planFor t m).dropped = (i, w) :: ds) :
    Advances m t (.drop i w) { planFor t m with dropped := ds }
      (t.withItems w ((t.itemsFor w).erase i)) := by
  obtain ⟨hi, hsurvey⟩ := survey_drop ha m.workers.nodup h
  have hworkers : (t.withItems w ((t.itemsFor w).erase i)).workers = t.workers :=
    workers_withItems
  have hremoved : (planFor (t.withItems w ((t.itemsFor w).erase i)) m).removed =
      (planFor t m).removed := congrArg (List.filter (· ∉ m.workers)) hworkers
  have hadded : (planFor (t.withItems w ((t.itemsFor w).erase i)) m).added =
      (planFor t m).added := added_congr fun v _ => by rw [hworkers]
  exact advances_of_survey (apply_drop ha hi) (ha.erase hi) hsurvey hremoved hadded

end Planner

end Roster
