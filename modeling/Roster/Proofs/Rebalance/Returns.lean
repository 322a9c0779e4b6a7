import Roster.Proofs.Rebalance.Sides

/-! Items that come back to a worker they were taken from. Which listing of an item stays is settled
before the loads are known, so the keeper may turn out to have too many and hand the item on to one
of those whose listing was dropped. Nobody else gives a dropped item back. -/

namespace Roster.Planner

open Load LoadQueue Table

variable {t : Table} {m : Membership} {v w : WorkerId} {i : ItemId}

theorem drop_mem_moves {p : Plan} : .drop i w ∈ p.moves ↔ (i, w) ∈ p.dropped := by
  simp [Plan.moves, Transfer.move]

theorem assign_mem_moves {p : Plan} : .assign i w ∈ p.moves ↔ (i, w) ∈ p.assigned := by
  simp [Plan.moves, Transfer.move]

/-- What is dropped has a keeper or is not registered, so nobody is assigned it. -/
theorem not_assigned_of_dropped (hm : m.workers.isEmpty = false)
    (h : (i, w) ∈ (planFor t m).dropped) : (i, v) ∉ (planFor t m).assigned := by
  intro hv
  obtain ⟨hi, hfree⟩ := ((deals_planFor hm).mem_iff i).1 (List.mem_map_of_mem (f := (·.1)) hv)
  obtain ⟨hw, hiw⟩ := mem_of_dropped h
  have hkeeper : (t.keeper m i).isSome := keeper_isSome_iff.2 ⟨w, OrderedSet.mem_def.2 hw, hiw⟩
  exact hfree ((mem_held_iff hi).2 hkeeper)

/-- Who hands an item on has kept it, and more than the average; who receives it has kept no more
than the average. -/
theorem keeper_of_transferred (ha : t.Ascending) (hm : m.workers.isEmpty = false)
    (h : .transfer i v w ∈ (planFor t m).moves) :
    (i ∈ m.items ∧ t.keeper m i = some v) ∧
      (planFor t m).avg < keeps t m v ∧ keeps t m w ≤ (planFor t m).avg := by
  obtain ⟨t', hwalk⟩ := exists_walks_moves ha hm
  obtain ⟨before, after, hmoves⟩ := List.append_of_mem h
  rw [hmoves] at hwalk
  obtain ⟨u, hbefore, hafter⟩ := hwalk.split
  have hprog := hbefore.proceeds ha
  have hsides := (hbefore.sided ha hm .refl).sides
  cases hafter with
  | go hl hnext hrest =>
    obtain ⟨hfull, tr, q', htr, hq, -⟩ := transferLast_of_leaves hprog.ascending hm hl rfl
    obtain ⟨light, heavy, rest, hg⟩ := gives_of_transferLast hfull.apart_queue hq
    obtain ⟨rfl, rfl, rfl⟩ : i = tr.item ∧ v = tr.source ∧ w = tr.target := by
      simpa [Transfer.move] using htr
    have havg : average u.queue.toList = (planFor t m).avg := by
      rw [← hprog.avg, hfull.planFor_eq]
      rfl
    rw [List.nil_append, hfull.holdingsLoads_eq] at hsides
    have hnow := hsides.perm hfull.queue_perm.symm
    obtain ⟨hheavy, hlight⟩ := hg.spares havg hnow
    -- The giver has what is left of its holding, and the taker has at least its own.
    obtain ⟨k, hk, hkw, hpre, -⟩ := (hnow.perm hg.before).kept heavy
      (List.mem_cons_of_mem _ List.mem_cons_self)
    obtain ⟨j, hj, hjw, -, hsub⟩ := (hnow.perm hg.before).kept light List.mem_cons_self
    obtain ⟨hksize, hkept⟩ := keeps_of_mem_holdingsLoads hk
    obtain ⟨hjsize, -⟩ := keeps_of_mem_holdingsLoads hj
    have hgiver : heavy.size ≤ k.size := (hpre hheavy).length_le
    have hn : j.items.Nodup := (List.nodup_flatMap.1 apart_holdingsLoads.items).1 j hj
    have htaker : j.size ≤ light.size :=
      (List.subperm_of_subset hn (hsub hlight)).length_le
    have hlt := havg ▸ hg.average_lt_size
    have hle := havg ▸ hg.size_le_average
    rw [hksize, hkw, ← hg.source] at hgiver
    rw [hjsize, hjw, ← hg.target] at htaker
    rw [hkw, ← hg.source] at hkept
    refine ⟨hkept _ ((hpre hheavy).subset (List.mem_of_getLast? hg.item)), ?_, ?_⟩
    · exact Nat.lt_of_lt_of_le hlt hgiver
    · exact Nat.le_trans htaker hle

/-- Nobody is assigned an item that is dropped. It comes back to a worker it was dropped from only
as a transfer from its keeper, who keeps more than the average when this worker keeps no more than
the average. -/
theorem dropped_returns_from_keeper (ha : t.Ascending) (hm : m.workers.isEmpty = false) :
    ∃ p, plan t m = .ok p ∧ ∀ i w, .drop i w ∈ p.moves →
      (∀ v, .assign i v ∉ p.moves) ∧
      ∀ v, .transfer i v w ∈ p.moves →
        v ≠ w ∧ t.keeper m i = some v ∧ i ∈ t.itemsFor v ∧ i ∈ t.itemsFor w ∧
          p.avg < keeps t m v ∧ keeps t m w ≤ p.avg := by
  refine ⟨planFor t m, plan_eq hm, ?_⟩
  intro i w hdrop
  rw [drop_mem_moves] at hdrop
  refine ⟨?_, ?_⟩
  · intro v hassign
    exact not_assigned_of_dropped hm hdrop (assign_mem_moves.1 hassign)
  · intro v htransfer
    obtain ⟨⟨hi, hkeeper⟩, hgiver, htaker⟩ := keeper_of_transferred ha hm htransfer
    have hne : v ≠ w := by
      rintro rfl
      omega
    have hlists : i ∈ t.itemsFor v := by simpa using List.find?_some hkeeper
    exact ⟨hne, hkeeper, hlists, (mem_of_dropped hdrop).2, hgiver, htaker⟩

/-- Both list an item, and it would be enough if the second one alone did. -/
def contested : Table where
  owners :=
    { entries :=
        [(⟨1⟩, [⟨"da", by decide⟩, ⟨"db", by decide⟩]), (⟨2⟩, [⟨"db", by decide⟩])]
      strict := by decide }

def pair : Membership where
  items := [⟨"da", by decide⟩, ⟨"db", by decide⟩]
  workers := .ofList [⟨1⟩, ⟨2⟩]

theorem contested_returns_from_keeper : contested.Ascending ∧ pair.workers.isEmpty = false ∧
    ∃ p, plan contested pair = .ok p ∧ ∀ i w, .drop i w ∈ p.moves →
      (∀ v, .assign i v ∉ p.moves) ∧
      ∀ v, .transfer i v w ∈ p.moves →
        v ≠ w ∧ contested.keeper pair i = some v ∧ i ∈ contested.itemsFor v ∧
          i ∈ contested.itemsFor w ∧ p.avg < keeps contested pair v ∧
          keeps contested pair w ≤ p.avg :=
  ⟨by decide, by decide, dropped_returns_from_keeper (by decide) (by decide)⟩

/-- The second one loses the item and receives it from the first. To drop it from the first would
have been enough. -/
theorem contested_comes_back :
    (¬∀ (t : Table) (m : Membership), t.Ascending → m.workers.isEmpty = false →
      ∀ p, plan t m = .ok p → ∀ i w, .drop i w ∈ p.moves →
        .assign i w ∉ p.moves ∧ ∀ v, .transfer i v w ∉ p.moves) ∧
    (planFor contested pair).moves =
      [.drop ⟨"db", by decide⟩ ⟨2⟩, .transfer ⟨"db", by decide⟩ ⟨1⟩ ⟨2⟩] ∧
    contested.applyAll (planFor contested pair).moves =
      contested.applyAll [.drop ⟨"db", by decide⟩ ⟨1⟩] := by
  have hmoves : (planFor contested pair).moves =
      [.drop ⟨"db", by decide⟩ ⟨2⟩, .transfer ⟨"db", by decide⟩ ⟨1⟩ ⟨2⟩] := by decide +kernel
  refine ⟨?_, hmoves, ?_⟩
  · intro h
    obtain ⟨-, hnever⟩ := h contested pair (by decide) (by decide) _ (plan_eq (by decide))
      ⟨"db", by decide⟩ ⟨2⟩ (by simp [hmoves])
    exact hnever ⟨1⟩ (by simp [hmoves])
  · rw [hmoves]
    decide +kernel

end Roster.Planner
