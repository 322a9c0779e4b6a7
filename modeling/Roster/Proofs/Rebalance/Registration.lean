import Roster.Proofs.Rebalance.Donors

/-! What the order of registration decides. Two memberships of the same workers and items have the
same items kept, so the same are dropped, as many are dealt out, and the same are given away; the
order has a say in who takes them and in nothing else. -/

namespace Roster

/-- What a move says besides who takes an item. Of an item that is dealt out nothing is said, as the
items are dealt out in the order of their registration. -/
inductive Outline where
  | removeWorker (worker : WorkerId)
  | addWorker (worker : WorkerId)
  | drop (item : ItemId) (source : WorkerId)
  | assign
  | transfer (item : ItemId) (source : WorkerId)
  deriving DecidableEq, Repr

namespace Move

def outline : Move → Outline
  | .removeWorker w => .removeWorker w
  | .addWorker w => .addWorker w
  | .drop i v => .drop i v
  | .assign _ _ => .assign
  | .transfer i v _ => .transfer i v

/-- The item that is dealt out by the move. -/
def dealt : Move → Option ItemId
  | .assign i _ => some i
  | _ => none

end Move

namespace Plan

theorem map_outline_moves (p : Plan) : p.moves.map Move.outline =
    p.removed.map .removeWorker ++ p.added.map .addWorker ++
      p.dropped.map (fun d => .drop d.1 d.2) ++ List.replicate p.assigned.length .assign ++
      (p.shed.map Transfer.gift ++ p.filled.map Transfer.gift).map
        (fun g => .transfer g.1 g.2) := by
  simp [moves, Function.comp_def, Move.outline, Transfer.move, Transfer.gift]

theorem filterMap_dealt_moves (p : Plan) :
    p.moves.filterMap Move.dealt = p.assigned.map (·.1) := by
  simp [moves, List.filterMap_append, List.filterMap_map, Function.comp_def, Move.dealt,
    Transfer.move]

end Plan

namespace Planner

open Load LoadQueue Table

variable {t : Table} {m m' : Membership}

/-- As many items as there are registered, however often and in whatever order. -/
theorem length_dedup_congr (hi : ∀ i, i ∈ m'.items ↔ i ∈ m.items) :
    m'.items.dedup.length = m.items.dedup.length := by
  refine List.Perm.length_eq ((List.perm_ext_iff_of_nodup m'.items.nodup_dedup
    m.items.nodup_dedup).2 ?_)
  intro i
  rw [List.mem_dedup, List.mem_dedup, hi]

theorem survey_reordered (hw : m'.workers = m.workers) (hi : ∀ i, i ∈ m'.items ↔ i ∈ m.items) :
    survey t m'.items [] m'.workers.toList = survey t m.items [] m.workers.toList := by
  rw [hw, survey_congr_registered hi]

theorem holdings_reordered (hw : m'.workers = m.workers)
    (hi : ∀ i, i ∈ m'.items ↔ i ∈ m.items) : holdings t m' = holdings t m :=
  congrArg (·.1) (survey_reordered hw hi)

theorem holdingsQueue_reordered (hw : m'.workers = m.workers)
    (hi : ∀ i, i ∈ m'.items ↔ i ∈ m.items) : holdingsQueue t m' = holdingsQueue t m :=
  holdingsQueue_congr (holdings_reordered hw hi)

/-- The same items are dealt out. -/
theorem assigned_reordered (hm : m.workers.isEmpty = false) (hw : m'.workers = m.workers)
    (hi : ∀ i, i ∈ m'.items ↔ i ∈ m.items) :
    ((planFor t m').assigned.map (·.1)).Perm ((planFor t m).assigned.map (·.1)) := by
  have hm' : m'.workers.isEmpty = false := by rw [hw, hm]
  have hd := deals_planFor (t := t) hm
  have hd' := deals_planFor (t := t) hm'
  refine (List.perm_ext_iff_of_nodup hd'.nodup hd.nodup).2 ?_
  intro i
  rw [hd'.mem_iff, hd.mem_iff, hi, held_congr (holdings_reordered hw hi)]

theorem avg_reordered (hm : m.workers.isEmpty = false) (hw : m'.workers = m.workers)
    (hi : ∀ i, i ∈ m'.items ↔ i ∈ m.items) : (planFor t m').avg = (planFor t m).avg := by
  have hm' : m'.workers.isEmpty = false := by rw [hw, hm]
  rw [← planFor_sorted t m', ← planFor_sorted t m, avg_planFor t.ascending_sorted hm',
    avg_planFor t.ascending_sorted hm, length_dedup_congr hi, hw]

/-- As many items are shed and as many are filled in. -/
theorem length_transfers_reordered (hm : m.workers.isEmpty = false) (hw : m'.workers = m.workers)
    (hi : ∀ i, i ∈ m'.items ↔ i ∈ m.items) :
    (planFor t m').shed.length = (planFor t m).shed.length ∧
      (planFor t m').filled.length = (planFor t m).filled.length := by
  have hm' : m'.workers.isEmpty = false := by rw [hw, hm]
  have hassigned := (assigned_reordered (t := t) hm hw hi).length_eq
  rw [List.length_map, List.length_map] at hassigned
  obtain ⟨hshed, hfilled⟩ := length_shed_and_filled (t := t) hm rfl
  obtain ⟨hshed', hfilled'⟩ := length_shed_and_filled hm' (avg_reordered (t := t) hm hw hi)
  rw [holdingsQueue_reordered hw hi] at hshed' hfilled'
  exact ⟨hshed'.trans hshed.symm, by rw [hfilled', hfilled, hassigned]⟩

/-- Whoever gives an item gives the same one at the same place. -/
theorem gifts_reordered (hm : m.workers.isEmpty = false) (hw : m'.workers = m.workers)
    (hi : ∀ i, i ∈ m'.items ↔ i ∈ m.items) :
    (planFor t m').shed.map Transfer.gift ++ (planFor t m').filled.map Transfer.gift =
      (planFor t m).shed.map Transfer.gift ++ (planFor t m).filled.map Transfer.gift := by
  have hm' : m'.workers.isEmpty = false := by rw [hw, hm]
  obtain ⟨hshed, hfilled⟩ := length_transfers_reordered (t := t) hm hw hi
  rw [gifts_planFor hm', gifts_planFor hm, holdingsQueue_reordered hw hi, hshed, hfilled]

/-- Two memberships of the same workers and items, whatever the order in which the items are
registered and how often, have plans that differ only in who takes the items that are dealt out or
transferred, and in the order in which they are dealt out. -/
theorem rebalance_evicts_alike (hm : m.workers.isEmpty = false) (hw : m'.workers = m.workers)
    (hi : ∀ i, i ∈ m'.items ↔ i ∈ m.items) :
    ∃ p p', plan t m = .ok p ∧ plan t m' = .ok p' ∧ p'.avg = p.avg ∧ p'.stats = p.stats ∧
      p'.moves.map Move.outline = p.moves.map Move.outline ∧
      (p'.moves.filterMap Move.dealt).Perm (p.moves.filterMap Move.dealt) := by
  have hm' : m'.workers.isEmpty = false := by rw [hw, hm]
  have hassigned := assigned_reordered (t := t) hm hw hi
  have hdealt := hassigned.length_eq
  rw [List.length_map, List.length_map] at hdealt
  have hremoved : (planFor t m').removed = (planFor t m).removed := by
    simp only [planFor, hw]
  have hadded : (planFor t m').added = (planFor t m).added := by
    simp only [planFor, hw]
  have hdropped : (planFor t m').dropped = (planFor t m).dropped :=
    congrArg (·.2) (survey_reordered hw hi)
  obtain ⟨hshed, hfilled⟩ := length_transfers_reordered (t := t) hm hw hi
  refine ⟨planFor t m, planFor t m', plan_eq hm, plan_eq hm', avg_reordered hm hw hi, ?_, ?_, ?_⟩
  · simp only [Plan.stats, hremoved, hadded, hdropped, hdealt, hshed, hfilled]
  · rw [Plan.map_outline_moves, Plan.map_outline_moves, hremoved, hadded, hdropped, hdealt,
      gifts_reordered hm hw hi]
  · rw [Plan.filterMap_dealt_moves, Plan.filterMap_dealt_moves]
    exact hassigned

/-- A shift with more to do than the items that anybody has. -/
def busy : Membership where
  items := ⟨"ca", by decide⟩ :: ⟨"cb", by decide⟩ :: ⟨"cc", by decide⟩ :: shift.items
  workers := shift.workers

/-- The same, registered the other way round. -/
def backward : Membership where
  items := busy.items.reverse
  workers := busy.workers

/-- Not everything is the same: the items come to other workers. -/
theorem backward_evicts_alike : busy.workers.isEmpty = false ∧
    backward.workers = busy.workers ∧ (∀ i, i ∈ backward.items ↔ i ∈ busy.items) ∧
    ∃ p p', plan jumbled busy = .ok p ∧ plan jumbled backward = .ok p' ∧ p'.avg = p.avg ∧
      p'.stats = p.stats ∧ p'.moves.map Move.outline = p.moves.map Move.outline ∧
      (p'.moves.filterMap Move.dealt).Perm (p.moves.filterMap Move.dealt) ∧
      p'.moves ≠ p.moves := by
  have hm : busy.workers.isEmpty = false := by decide
  have hi : ∀ i, i ∈ backward.items ↔ i ∈ busy.items := fun _ => List.mem_reverse
  have hw : backward.workers = busy.workers := rfl
  obtain ⟨p, p', hp, hp', havg, hstats, houtline, hdealt⟩ :=
    rebalance_evicts_alike (t := jumbled) hm hw hi
  refine ⟨hm, hw, hi, p, p', hp, hp', havg, hstats, houtline, hdealt, ?_⟩
  obtain rfl := Except.ok.inj hp
  obtain rfl := Except.ok.inj hp'
  decide +kernel

end Planner

end Roster
