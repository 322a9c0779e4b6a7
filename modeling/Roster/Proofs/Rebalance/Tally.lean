import Roster.Proofs.Rebalance.Outcome

/-! The statistics of a plan against its moves as they are carried out. Two phases transfer items,
and the tables tell which of them a transfer belongs to: it is shed as long as somebody has more
items than the average and one, and after that it fills. -/

namespace Roster

/-- Somebody has more than `avg + 1` items. -/
def Table.Crowded (t : Table) (avg : Nat) : Prop :=
  ∃ w ∈ t.workers, avg + 1 < (t.itemsFor w).length

instance (t : Table) (avg : Nat) : Decidable (t.Crowded avg) :=
  inferInstanceAs (Decidable (∃ w ∈ t.workers, avg + 1 < (t.itemsFor w).length))

namespace Stats

def none : Stats := ⟨0, 0, 0, 0, 0, 0⟩

/-- Counts one move more, which is made on `t`. -/
def count (s : Stats) (avg : Nat) (t : Table) : Move → Stats
  | .addWorker _ => { s with workersAdded := s.workersAdded + 1 }
  | .removeWorker _ => { s with workersRemoved := s.workersRemoved + 1 }
  | .drop .. => { s with itemsDropped := s.itemsDropped + 1 }
  | .assign .. => { s with itemsAssigned := s.itemsAssigned + 1 }
  | .transfer .. =>
    if t.Crowded avg then { s with itemsShed := s.itemsShed + 1 }
    else { s with itemsFilled := s.itemsFilled + 1 }

end Stats

/-- Counts the moves that are carried out on `t`, up to the first that is refused. -/
def Table.tally (t : Table) (avg : Nat) : List Move → Stats
  | [] => .none
  | mv :: ms => match t.apply mv with
    | .ok t' => (t'.tally avg ms).count avg t mv
    | .error _ => .none

namespace Planner

open Load LoadQueue Table

variable {t t' : Table} {m : Membership} {mv : Move} {p' : Plan} {avg : Nat}

theorem Trim.crowded_iff (h : Trim m t) : t.Crowded avg ↔ excess avg t.queue.toList ≠ 0 := by
  rw [excess_perm h.queue_perm, ne_eq, excess_eq_zero_iff]
  constructor
  · rintro ⟨w, hw, hlt⟩ hall
    have hle := hall _ (List.mem_map_of_mem hw)
    rw [size_of] at hle
    omega
  · intro hnot
    simp only [Classical.not_forall, Nat.not_le] at hnot
    obtain ⟨l, hl, hlt⟩ := hnot
    obtain ⟨w, hw, rfl⟩ := List.mem_map.1 hl
    rw [size_of] at hlt
    exact ⟨w, hw, hlt⟩

/-- A plan sheds if somebody has too much. -/
theorem Full.crowded_iff (h : Full m t) :
    t.Crowded (planFor t m).avg ↔ (planFor t m).shed ≠ [] := by
  rw [h.toTrim.crowded_iff, h.planFor_eq]
  have hlength := (shed_counts h.apart_queue rfl).2.1
  change excess (average t.queue.toList) t.queue.toList ≠ 0 ↔
    (shed (average t.queue.toList) t.queue).1 ≠ []
  rw [← hlength, ne_eq, List.length_eq_zero_iff]

/-- The first move of a plan counts in the phase that it stands in. -/
theorem stats_eq_count (ha : t.Ascending) (hm : m.workers.isEmpty = false)
    (hl : Plan.Leaves (planFor t m) mv p') :
    (planFor t m).stats = p'.stats.count (planFor t m).avg t mv := by
  cases hl with
  | removed h => simp [Plan.stats, Stats.count, h]
  | added hr h => simp [Plan.stats, Stats.count, h]
  | dropped hr had h => simp [Plan.stats, Stats.count, h]
  | assigned hr had hd h => simp [Plan.stats, Stats.count, h]
  | shed hr had hd hf h =>
    have hfull := full_of_assigned (trim_of_tidy ha hr had hd) hm hf
    have hcrowded := hfull.crowded_iff.2 (by simp [h])
    simp [Plan.stats, Stats.count, Transfer.move, hcrowded, h]
  | filled hr had hd hf hs h =>
    have hfull := full_of_assigned (trim_of_tidy ha hr had hd) hm hf
    have hcrowded := mt hfull.crowded_iff.1 (by simp [hs])
    simp [Plan.stats, Stats.count, Transfer.move, hcrowded, h]

theorem stats_of_moves_eq_nil {p : Plan} (h : p.moves = []) : p.stats = .none := by
  obtain ⟨hr, had, hd, hf, hs, hl⟩ := Plan.moves_eq_nil_iff.1 h
  simp [Plan.stats, Stats.none, hr, had, hd, hf, hs, hl]

theorem Walks.tally_eq {ms : List Move} (h : Walks m t ms t') (ha : t.Ascending)
    (hm : m.workers.isEmpty = false) (hend : (planFor t' m).moves = []) :
    t.tally (planFor t m).avg ms = (planFor t m).stats := by
  induction h with
  | stay t => exact (stats_of_moves_eq_nil hend).symm
  | go hl h hs ih =>
    have hrest := ih h.ascending hend
    rw [h.plan, hl.avg_eq] at hrest
    rw [tally, h.accepted]
    simp only [hrest, stats_eq_count ha hm hl]

/-- The statistics of a plan count its moves as they are carried out. -/
theorem tally_moves (ha : t.Ascending) (hm : m.workers.isEmpty = false) :
    t.tally (planFor t m).avg (planFor t m).moves = (planFor t m).stats := by
  obtain ⟨t', h⟩ := exists_walks_moves ha hm
  exact h.tally_eq ha hm (h.proceeds ha).moves_eq_nil

end Planner

end Roster
