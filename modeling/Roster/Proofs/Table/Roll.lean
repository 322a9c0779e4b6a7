import Mathlib.Data.Set.Insert
import Mathlib.Logic.Function.Basic
import Roster.Proofs.Table.InPlace

/-! A table in which items have one owner at most, read as a roll: who works, and who owns what. A
move is refused exactly if the roll does not allow it, and else makes one change of the roll. -/

namespace Roster

/-- The workers there are, and the owner of each item that has one. -/
@[ext] structure Roll where
  workers : Set WorkerId
  owner : ItemId → Option WorkerId

namespace Roll

/-- Moves that do not fit: of an item that the worker does not own, of an item that is to be assigned
and has an owner, and from or to workers that there are not. -/
def Refuses (r : Roll) : Move → Prop
  | .addWorker _ | .removeWorker _ => False
  | .drop i v => v ∉ r.workers ∨ r.owner i ≠ some v
  | .assign i w => r.owner i ≠ none ∨ w ∉ r.workers
  | .transfer i v w => w ∉ r.workers ∨ v ∉ r.workers ∨ r.owner i ≠ some v

/-- The one change that a move makes. -/
def after (r : Roll) : Move → Roll
  | .addWorker w => { r with workers := insert w r.workers }
  | .removeWorker w => ⟨r.workers \ {w}, fun i => if r.owner i = some w then none else r.owner i⟩
  | .drop i _ => { r with owner := Function.update r.owner i none }
  | .assign i w | .transfer i _ w => { r with owner := Function.update r.owner i (some w) }

theorem update_eq_some_iff {r : Roll} {i j : ItemId} {o : Option WorkerId} {v : WorkerId} :
    Function.update r.owner i o j = some v ↔ (j = i ∧ o = some v) ∨ (j ≠ i ∧ r.owner j = some v) := by
  by_cases hj : j = i
  · subst hj
    simp
  · simp [hj]

end Roll

namespace Table

variable {t t' : Table} {r : Roll} {v w : WorkerId} {i j : ItemId} {mv : Move}

/-- Whatever is asked of the table, the roll gives the answer. -/
structure Reads (t : Table) (r : Roll) : Prop where
  containsWorker : ∀ w, t.containsWorker w = true ↔ w ∈ r.workers
  ownerOf : ∀ i, t.ownerOf i = r.owner i
  itemsFor : ∀ w, Ordered.Strict (t.itemsFor w) ∧ ∀ i, i ∈ t.itemsFor w ↔ r.owner i = some w

def roll (t : Table) : Roll where
  workers := {w | w ∈ t.workers}
  owner i := t.workers.find? fun w => i ∈ t.itemsFor w

/-! ### Moves that are accepted -/

theorem Changes.apply_eq (ha : t.Ascending) (h : Changes t mv t') : t.apply mv = .ok t' := by
  cases h with
  | kept hw => simp [apply, check, mem_workers_iff.1 hw]
  | added hw => exact apply_addWorker hw
  | removed w => exact apply_removeWorker
  | dropped hi => exact apply_drop ha hi
  | assigned hi hw => exact apply_assign ha hw hi
  | @transferred i v w rest hi hw hr =>
    subst hr
    have hins := insertItem_eq (i := i) (w := w) (ha.erase hi) (by simpa using hw)
    simp [apply, check, mem_workers_iff.1 hw, removeItem_eq ha hi, hins]

theorem apply_eq_ok_iff (ha : t.Ascending) : t.apply mv = .ok t' ↔ Changes t mv t' :=
  ⟨changes_of_apply ha, fun h => h.apply_eq ha⟩

/-! ### The roll of a table -/

namespace Exclusive

theorem owner_eq_some_iff (h : t.Exclusive) : t.roll.owner i = some w ↔ i ∈ t.itemsFor w := by
  constructor
  · intro ho
    simpa using List.find?_some ho
  · intro hi
    cases ho : t.roll.owner i with
    | none =>
      have := List.find?_eq_none.1 ho w (mem_workers_of_mem hi)
      exact absurd hi (by simpa using this)
    | some v => rw [h.eq_of_mem (v := v) (by simpa using List.find?_some ho) hi]

theorem owner_eq_none_iff (h : t.Exclusive) : t.roll.owner i = none ↔ i ∉ t.listed := by
  rw [Option.eq_none_iff_forall_ne_some, mem_listed_iff, not_exists]
  exact forall_congr' fun w => not_congr h.owner_eq_some_iff

theorem reads_roll (h : t.Exclusive) : t.Reads t.roll where
  containsWorker w := mem_workers_iff.symm
  ownerOf i := ownerOf_eq_find? (exclusive_iff.1 h).1
  itemsFor w := by
    obtain ⟨ha, hn⟩ := exclusive_iff.1 h
    exact ⟨Ordered.strict_iff.2 ⟨ha.itemsFor w, nodup_itemsFor hn w⟩,
      fun i => h.owner_eq_some_iff.symm⟩

/-- The roll of a table is known from who is in it and who lists what. -/
theorem roll_eq (h : t.Exclusive) (hw : ∀ w, w ∈ t.workers ↔ w ∈ r.workers)
    (hi : ∀ i w, i ∈ t.itemsFor w ↔ r.owner i = some w) : t.roll = r := by
  refine Roll.ext (Set.ext hw) (funext fun i => Option.ext fun w => ?_)
  rw [h.owner_eq_some_iff, hi]

theorem mem_itemsFor_erase (h : t.Exclusive) (hi : i ∈ t.itemsFor w) :
    j ∈ (t.withItems w ((t.itemsFor w).erase i)).itemsFor v ↔ j ≠ i ∧ j ∈ t.itemsFor v := by
  rw [itemsFor_withItems (mem_workers_of_mem hi)]
  split
  · next hv =>
    subst hv
    exact (nodup_itemsFor (exclusive_iff.1 h).2 v).mem_erase_iff
  · next hv =>
    refine ⟨fun hj => ⟨?_, hj⟩, And.right⟩
    rintro rfl
    exact hv (h.eq_of_mem hj hi)

end Exclusive

theorem mem_itemsFor_insert (hw : w ∈ t.workers) :
    j ∈ (t.withItems w (Ordered.insert i (t.itemsFor w))).itemsFor v ↔
      (j = i ∧ v = w) ∨ j ∈ t.itemsFor v := by
  rw [itemsFor_withItems hw]
  split
  · next hv =>
    subst hv
    simp [Ordered.mem_insert]
  · next hv => simp [hv]

/-! ### Moves and rolls -/

namespace Exclusive

/-- The roll tells which moves are accepted. -/
theorem exists_changes_iff (h : t.Exclusive) : (∃ t', Changes t mv t') ↔ ¬t.roll.Refuses mv := by
  cases mv with
  | addWorker w =>
    refine iff_of_true ?_ not_false
    by_cases hw : w ∈ t.workers
    · exact ⟨t, .kept hw⟩
    · exact ⟨_, .added hw⟩
  | removeWorker w => exact iff_of_true ⟨_, .removed w⟩ not_false
  | drop i v =>
    simp only [Roll.Refuses, not_or, not_not, h.owner_eq_some_iff]
    constructor
    · rintro ⟨t', hc⟩
      cases hc with
      | dropped hi => exact ⟨mem_workers_of_mem hi, hi⟩
    · rintro ⟨-, hi⟩
      exact ⟨_, .dropped hi⟩
  | assign i w =>
    simp only [Roll.Refuses, not_or, not_not, h.owner_eq_none_iff]
    constructor
    · rintro ⟨t', hc⟩
      cases hc with
      | assigned hi hw => exact ⟨hi, hw⟩
    · rintro ⟨hi, hw⟩
      exact ⟨_, .assigned hi hw⟩
  | transfer i v w =>
    simp only [Roll.Refuses, not_or, not_not, h.owner_eq_some_iff]
    constructor
    · rintro ⟨t', hc⟩
      cases hc with
      | transferred hi hw hr => exact ⟨hw, mem_workers_of_mem hi, hi⟩
    · rintro ⟨hw, -, hi⟩
      exact ⟨_, .transferred hi hw rfl⟩

/-- An accepted move changes the roll as it says. -/
theorem roll_of_changes (h : t.Exclusive) (h' : t'.Exclusive) (hc : Changes t mv t') :
    t'.roll = t.roll.after mv := by
  cases hc with
  | @kept w hw =>
    refine h.roll_eq (fun v => ?_) (fun j v => h.owner_eq_some_iff.symm)
    change v ∈ t.workers ↔ v = w ∨ v ∈ t.workers
    constructor
    · exact .inr
    · rintro (rfl | hv)
      · exact hw
      · exact hv
  | added hw =>
    refine h'.roll_eq (fun v => mem_workers_withWorker) (fun j v => ?_)
    rw [itemsFor_withWorker_nil hw]
    exact h.owner_eq_some_iff.symm
  | removed w =>
    refine h'.roll_eq (fun v => ?_) (fun j v => ?_)
    · rw [workers_without, List.mem_filter]
      simp [Roll.after, roll]
    · rw [itemsFor_without]
      by_cases hv : v = w
      · subst hv
        by_cases ho : t.roll.owner j = some v <;> simp [Roll.after, ho]
      · rw [if_neg hv, ← h.owner_eq_some_iff]
        by_cases ho : t.roll.owner j = some w
        · simp [Roll.after, ho, Ne.symm hv]
        · simp [Roll.after, ho]
  | @dropped i w hi =>
    refine h'.roll_eq (fun v => by rw [workers_withItems]; rfl) (fun j v => ?_)
    rw [h.mem_itemsFor_erase hi, Roll.after, Roll.update_eq_some_iff, h.owner_eq_some_iff]
    simp
  | @assigned i w hi hw =>
    refine h'.roll_eq (fun v => by rw [workers_withItems]; rfl) (fun j v => ?_)
    have hne : j ∈ t.itemsFor v → j ≠ i := by
      rintro hj rfl
      exact hi (mem_listed_iff.2 ⟨v, hj⟩)
    rw [mem_itemsFor_insert hw, Roll.after, Roll.update_eq_some_iff, h.owner_eq_some_iff,
      and_iff_right_of_imp hne]
    simp [eq_comm]
  | @transferred i v w rest hi hw hr =>
    subst hr
    refine h'.roll_eq (fun v => by simp only [workers_withItems]; rfl) (fun j v => ?_)
    rw [mem_itemsFor_insert (by simpa using hw), h.mem_itemsFor_erase hi, Roll.after,
      Roll.update_eq_some_iff, h.owner_eq_some_iff]
    simp [eq_comm]

end Exclusive

/-- In place a move is made as a whole or not at all, in any table. Of a table whose lists are
strictly ascending and have nothing in common, the roll tells which moves are refused; any other move
leaves such a table, with the roll changed in that one way, and whatever is asked of it the roll gives
the answer. -/
theorem apply_refines_roll (t : Table) (mv : Move) :
    (∀ e, t.apply mv = .error e → (edit mv).run t = .error e t) ∧
    (∀ t', t.apply mv = .ok t' → (edit mv).run t = .ok () t') ∧
    (t.Exclusive → t.Reads t.roll ∧ ((∃ e, t.apply mv = .error e) ↔ t.roll.Refuses mv) ∧
      ∀ t', t.apply mv = .ok t' → t'.Exclusive ∧ t'.Reads (t.roll.after mv)) := by
  refine ⟨fun e he => by rw [run_edit, he], fun t' ht => by rw [run_edit, ht], ?_⟩
  intro h
  obtain ⟨ha, -⟩ := exclusive_iff.1 h
  refine ⟨h.reads_roll, ?_, ?_⟩
  · have hrefused : (∃ e, t.apply mv = .error e) ↔ ¬∃ t', t.apply mv = .ok t' := by
      cases t.apply mv <;> simp
    simp only [hrefused, apply_eq_ok_iff ha, h.exists_changes_iff, not_not]
  · intro t' ht
    have h' := h.apply ht
    rw [← h.roll_of_changes h' (changes_of_apply ha ht)]
    exact ⟨h', h'.reads_roll⟩

def desk : Table where
  owners :=
    { entries := [(⟨1⟩, [⟨"ea", by decide⟩, ⟨"eb", by decide⟩]), (⟨2⟩, [⟨"ec", by decide⟩])]
      strict := by decide }

/-- An item goes from its owner to another worker, and does not come from one that has it not. -/
theorem desk_refines_roll : desk.Exclusive ∧
    (∃ e, desk.apply (.transfer ⟨"ea", by decide⟩ ⟨2⟩ ⟨1⟩) = .error e ∧
      (edit (.transfer ⟨"ea", by decide⟩ ⟨2⟩ ⟨1⟩)).run desk = .error e desk) ∧
    ∃ t', (edit (.transfer ⟨"ea", by decide⟩ ⟨1⟩ ⟨2⟩)).run desk = .ok () t' ∧ t'.Exclusive ∧
      t'.Reads (desk.roll.after (.transfer ⟨"ea", by decide⟩ ⟨1⟩ ⟨2⟩)) := by
  have h : desk.Exclusive := by decide
  obtain ⟨hback, -, hrefused⟩ := apply_refines_roll desk (.transfer ⟨"ea", by decide⟩ ⟨2⟩ ⟨1⟩)
  obtain ⟨-, hmade, hroll⟩ := apply_refines_roll desk (.transfer ⟨"ea", by decide⟩ ⟨1⟩ ⟨2⟩)
  obtain ⟨e, he⟩ := (hrefused h).2.1.2 (.inr (.inr (by decide)))
  have hok : ∃ t', desk.apply (.transfer ⟨"ea", by decide⟩ ⟨1⟩ ⟨2⟩) = .ok t' :=
    ⟨_, apply_transfer (exclusive_iff.1 h).1 (by decide) (by decide) (by decide)⟩
  obtain ⟨t', ht⟩ := hok
  exact ⟨h, ⟨e, he, hback e he⟩, t', hmade t' ht, (hroll h).2.2 t' ht⟩

end Table

end Roster
