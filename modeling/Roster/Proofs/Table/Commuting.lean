import Mathlib.Logic.Function.Basic
import Roster.Proofs.Table.InPlace

/-! Moves of different items commute. What a move comes to and what becomes of its item hangs on the
trace of this item alone: the workers, and how often each of them lists it. Other traces stay as they
are, and a table in order is known from its traces. -/

namespace Roster

/-- The item that is dropped, assigned or transferred. -/
def Move.item : Move → Option ItemId
  | .drop i _ | .assign i _ | .transfer i _ _ => some i
  | .addWorker _ | .removeWorker _ => none

/-- What a table says about one item: the workers, and how many copies each of them lists. -/
@[ext] structure Trace where
  workers : List WorkerId
  copies : WorkerId → Nat

namespace Trace

/-- Takes a copy of the item, which is named in case of a refusal, off a worker's list. -/
def remove (s : Trace) (i : ItemId) (w : WorkerId) : Except StaleCause Trace :=
  if w ∉ s.workers then .error (.unknownWorker w)
  else if s.copies w = 0 then .error (.notOwned i w)
  else .ok { s with copies := Function.update s.copies w (s.copies w - 1) }

/-- One copy is enough. -/
def insert (s : Trace) (w : WorkerId) : Except StaleCause Trace :=
  if w ∈ s.workers then .ok { s with copies := Function.update s.copies w (max 1 (s.copies w)) }
  else .error (.unknownWorker w)

end Trace

namespace Table

variable {t t' u : Table} {v w : WorkerId} {i j : ItemId} {l : List ItemId} {mv mv' : Move}

def trace (t : Table) (i : ItemId) : Trace := ⟨t.workers, fun w => (t.itemsFor w).count i⟩

@[simp] theorem workers_trace : (t.trace i).workers = t.workers := rfl

@[simp] theorem copies_trace : (t.trace i).copies w = (t.itemsFor w).count i := rfl

/-! ### The trace of an item -/

theorem copies_eq_of_trace (h : u.trace i = t.trace i) (w : WorkerId) :
    (u.itemsFor w).count i = (t.itemsFor w).count i :=
  congrFun (congrArg Trace.copies h) w

/-- A table in order is known from its workers and the traces of all items. -/
theorem eq_of_trace (ht : t.Ascending) (hu : u.Ascending) (hw : u.workers = t.workers)
    (h : ∀ i, u.trace i = t.trace i) : u = t := by
  have hitems : ∀ w, u.itemsFor w = t.itemsFor w := fun w =>
    (hu.itemsFor w).eq_of_perm (ht.itemsFor w)
      (List.perm_iff_count.2 fun i => copies_eq_of_trace (h i) w)
  have hentries : u.entries = t.entries := by
    rw [entries_eq, entries_eq, hw]
    exact List.map_congr_left fun w _ => by rw [hitems]
  cases u; cases t
  exact congrArg Table.mk (OrderedMap.eq_of_entries hentries)

theorem trace_withItems (hw : w ∈ t.workers) : (t.withItems w l).trace i =
    ⟨t.workers, Function.update (t.trace i).copies w (l.count i)⟩ := by
  refine Trace.ext workers_withItems (funext fun v => ?_)
  rw [copies_trace, itemsFor_withItems hw]
  by_cases hv : v = w
  · subst hv
    simp
  · simp [hv]

theorem trace_withItems_of_count_eq (hw : w ∈ t.workers)
    (hl : l.count j = (t.itemsFor w).count j) : (t.withItems w l).trace j = t.trace j := by
  rw [trace_withItems hw, hl]
  exact Trace.ext rfl (Function.update_eq_self w (t.trace j).copies)

theorem count_insert_self (h : Ordered.Ascending l) :
    (Ordered.insert i l).count i = max 1 (l.count i) := by
  by_cases hi : i ∈ l
  · have := List.count_pos_iff.2 hi
    rw [Ordered.Search.ordered_insert_of_mem h hi]
    omega
  · rw [(Ordered.insert_perm hi).count_eq, List.count_cons_self, List.count_eq_zero.2 hi]
    rfl

theorem count_insert_of_ne (h : Ordered.Ascending l) (hne : j ≠ i) :
    (Ordered.insert i l).count j = l.count j := by
  by_cases hi : i ∈ l
  · rw [Ordered.Search.ordered_insert_of_mem h hi]
  · rw [(Ordered.insert_perm hi).count_eq, List.count_cons_of_ne (Ne.symm hne)]

/-! ### A move and the trace of its item -/

theorem map_trace_removeItem (ha : t.Ascending) :
    (t.removeItem i w).map (·.trace i) = (t.trace i).remove i w := by
  unfold Trace.remove
  by_cases hw : w ∈ t.workers
  · have hs := Ordered.Search.erase?_eq (x := i) (ha.itemsFor w)
    by_cases hi : i ∈ t.itemsFor w
    · simp [removeItem_eq ha hi, trace_withItems hw, hw, List.count_eq_zero, hi, Except.map]
    · rw [if_neg hi] at hs
      simp [removeItem, get?_of_mem hw, hs, hw, List.count_eq_zero, hi, Except.map]
  · simp [removeItem, get?_eq_none_iff.2 hw, hw, Except.map]

theorem map_trace_insertItem (ha : t.Ascending) :
    (t.insertItem i w).map (·.trace i) = (t.trace i).insert w := by
  unfold Trace.insert
  by_cases hw : w ∈ t.workers
  · simp [insertItem_eq ha hw, trace_withItems hw, count_insert_self (ha.itemsFor w), hw,
      Except.map]
  · simp [insertItem_of_not_mem hw, hw, Except.map]

theorem ownerOf_eq_of_trace (ht : t.Ascending) (hu : u.Ascending) (h : u.trace i = t.trace i) :
    u.ownerOf i = t.ownerOf i := by
  have hw : u.workers = t.workers := congrArg Trace.workers h
  have hlists : (fun w => decide (i ∈ u.itemsFor w)) = fun w => decide (i ∈ t.itemsFor w) := by
    funext w
    rw [decide_eq_decide, ← List.count_pos_iff, ← List.count_pos_iff, copies_eq_of_trace h]
  rw [ownerOf_eq_find? hu, ownerOf_eq_find? ht, hw, hlists]

/-- Two outcomes that leave the same trace are the same refusal, or both are tables. -/
theorem cases_of_trace {x y : Except StaleCause Table}
    (h : y.map (·.trace i) = x.map (·.trace i)) :
    (∃ cause, x = .error cause ∧ y = .error cause) ∨
      ∃ t u, x = .ok t ∧ y = .ok u ∧ u.trace i = t.trace i := by
  cases x with
  | error cause =>
    cases y with
    | error cause' =>
      cases h
      exact .inl ⟨cause, rfl, rfl⟩
    | ok u => cases h
  | ok t =>
    cases y with
    | error cause => cases h
    | ok u => exact .inr ⟨t, u, rfl, rfl, Except.ok.inj h⟩

theorem Ascending.removeItem (ha : t.Ascending) (h : t.removeItem i w = .ok t') :
    t'.Ascending := by
  have happly : t.apply (.drop i w) = .ok t' := by rw [Table.apply, check, h]
  exact ha.apply happly

theorem check_eq_of_trace (ht : t.Ascending) (hu : u.Ascending) (hi : mv.item = some i)
    (h : u.trace i = t.trace i) : (u.check mv).map (·.trace i) = (t.check mv).map (·.trace i) := by
  have hw : u.workers = t.workers := congrArg Trace.workers h
  cases mv with
  | addWorker w => cases hi
  | removeWorker w => cases hi
  | drop i v =>
    cases hi
    rw [check, check, map_trace_removeItem hu, map_trace_removeItem ht, h]
  | assign i w =>
    cases hi
    rw [check, check, ownerOf_eq_of_trace ht hu h]
    cases t.ownerOf i with
    | some owner => rfl
    | none =>
      dsimp only
      rw [map_trace_insertItem hu, map_trace_insertItem ht, h]
  | transfer i v w =>
    cases hi
    have hremove : (u.removeItem i v).map (·.trace i) = (t.removeItem i v).map (·.trace i) := by
      rw [map_trace_removeItem hu, map_trace_removeItem ht, h]
    rw [check, check, containsWorker_congr hw]
    split
    · obtain ⟨cause, hct, hcu⟩ | ⟨t', u', ht', hu', h'⟩ := cases_of_trace hremove
      · rw [hct, hcu]
      · rw [ht', hu']
        dsimp only
        rw [map_trace_insertItem (hu.removeItem hu'), map_trace_insertItem (ht.removeItem ht'), h']
    · rfl

/-! ### A move and the traces of other items -/

/-- A move leaves every item alone that it is not about. -/
theorem Changes.trace_eq (h : Changes t mv t') (ha : t.Ascending) (hi : mv.item = some i)
    (hne : j ≠ i) : t'.trace j = t.trace j := by
  cases h with
  | kept hw => rfl
  | added hw => cases hi
  | removed w => cases hi
  | dropped hiw =>
    cases hi
    exact trace_withItems_of_count_eq (mem_workers_of_mem hiw) (List.count_erase_of_ne hne)
  | @assigned i w hfree hw =>
    cases hi
    exact trace_withItems_of_count_eq hw (count_insert_of_ne (ha.itemsFor w) hne)
  | @transferred i v w rest hiv hw hr =>
    cases hi
    subst hr
    have hw' : w ∈ (t.withItems v ((t.itemsFor v).erase i)).workers := by simpa using hw
    rw [trace_withItems_of_count_eq hw' (count_insert_of_ne ((ha.erase hiv).itemsFor w) hne)]
    exact trace_withItems_of_count_eq (mem_workers_of_mem hiv) (List.count_erase_of_ne hne)

/-! ### Two moves -/

theorem Ascending.attempt (ha : t.Ascending) (mv : Move) : (t.attempt mv).2.Ascending := by
  rw [attempt_eq]
  split
  · next h => exact ha.apply h
  · exact ha

theorem trace_attempt (ha : t.Ascending) (hi : mv.item = some i) (hne : j ≠ i) :
    (t.attempt mv).2.trace j = t.trace j := by
  rw [attempt_eq]
  split
  · next h => exact (changes_of_apply ha h).trace_eq ha hi hne
  · rfl

theorem attempt_eq_of_trace (ht : t.Ascending) (hu : u.Ascending) (hi : mv.item = some i)
    (h : u.trace i = t.trace i) : (u.attempt mv).1 = (t.attempt mv).1 ∧
      (u.attempt mv).2.trace i = (t.attempt mv).2.trace i := by
  rw [attempt_eq, attempt_eq, apply, apply]
  obtain ⟨cause, hct, hcu⟩ | ⟨t', u', ht', hu', h'⟩ :=
    cases_of_trace (check_eq_of_trace ht hu hi h)
  · simp [hct, hcu, h]
  · simp [ht', hu', h']

/-- Of two moves of different items each comes to the same, accepted or refused for the same reason,
whichever is made first, and so does the table, for as long as its lists are in order. -/
theorem moves_commute (ha : t.Ascending) (hi : mv.item = some i) (hj : mv'.item = some j)
    (hne : i ≠ j) :
    ((t.attempt mv').2.attempt mv).1 = (t.attempt mv).1 ∧
    ((t.attempt mv).2.attempt mv').1 = (t.attempt mv').1 ∧
    ((t.attempt mv).2.attempt mv').2 = ((t.attempt mv').2.attempt mv).2 := by
  have ha₁ := ha.attempt mv
  have ha₂ := ha.attempt mv'
  obtain ⟨hfirst, htrace⟩ := attempt_eq_of_trace ha ha₂ hi (trace_attempt ha hj hne)
  obtain ⟨hsecond, htrace'⟩ := attempt_eq_of_trace ha ha₁ hj (trace_attempt ha hi (Ne.symm hne))
  have hall : ∀ k, ((t.attempt mv).2.attempt mv').2.trace k =
      ((t.attempt mv').2.attempt mv).2.trace k := by
    intro k
    by_cases hki : k = i
    · subst hki
      rw [htrace, trace_attempt ha₁ hj hne]
    · by_cases hkj : k = j
      · subst hkj
        rw [htrace', trace_attempt ha₂ hi hki]
      · rw [trace_attempt ha₁ hj hkj, trace_attempt ha hi hki, trace_attempt ha₂ hi hki,
          trace_attempt ha hj hkj]
  exact ⟨hfirst, hsecond, eq_of_trace (ha₂.attempt mv) (ha₁.attempt mv')
    (congrArg Trace.workers (hall i)) hall⟩

/-- One list has an item twice. -/
def shelf : Table where
  owners :=
    { entries :=
        [(⟨1⟩, [⟨"fa", by decide⟩, ⟨"fa", by decide⟩, ⟨"fb", by decide⟩]),
        (⟨2⟩, [⟨"fc", by decide⟩])]
      strict := by decide }

/-- One copy is gone, and the other item is on the other list. -/
def reshelved : Table where
  owners :=
    { entries :=
        [(⟨1⟩, [⟨"fa", by decide⟩]), (⟨2⟩, [⟨"fb", by decide⟩, ⟨"fc", by decide⟩])]
      strict := by decide }

/-- A copy is taken off the list that has two. -/
def culling : Move := .drop ⟨"fa", by decide⟩ ⟨1⟩

/-- Another item leaves the same list. -/
def lending : Move := .transfer ⟨"fb", by decide⟩ ⟨1⟩ ⟨2⟩

/-- The item is owned already. -/
def claiming : Move := .assign ⟨"fc", by decide⟩ ⟨1⟩

theorem shelf_moves_commute : shelf.Ascending ∧
    (shelf.attempt culling).1 = .ok () ∧ (shelf.attempt lending).1 = .ok () ∧
    (shelf.attempt lending).2.attempt culling = (.ok (), reshelved) ∧
    (shelf.attempt culling).2.attempt lending = (.ok (), reshelved) ∧
    (shelf.attempt claiming).1 =
      .error (.staleMove (.alreadyOwned ⟨"fc", by decide⟩ ⟨2⟩)) ∧
    ((shelf.attempt culling).2.attempt claiming).1 =
      .error (.staleMove (.alreadyOwned ⟨"fc", by decide⟩ ⟨2⟩)) := by
  have ha : shelf.Ascending := by decide
  have hcull : (shelf.attempt culling).1 = .ok () := by decide +kernel
  have hlend : (shelf.attempt lending).1 = .ok () := by decide +kernel
  have hclaim : (shelf.attempt claiming).1 =
      .error (.staleMove (.alreadyOwned ⟨"fc", by decide⟩ ⟨2⟩)) := by decide +kernel
  have htable : ((shelf.attempt culling).2.attempt lending).2 = reshelved := by decide +kernel
  have hculled : culling.item = some ⟨"fa", by decide⟩ := rfl
  have hlent : lending.item = some ⟨"fb", by decide⟩ := rfl
  have hclaimed : claiming.item = some ⟨"fc", by decide⟩ := rfl
  obtain ⟨hcull', hlend', hboth⟩ := moves_commute ha hculled hlent (by decide)
  obtain ⟨-, hclaim', -⟩ := moves_commute ha hculled hclaimed (by decide)
  exact ⟨ha, hcull, hlend, Prod.ext (hcull'.trans hcull) (hboth.symm.trans htable),
    Prod.ext (hlend'.trans hlend) htable, hclaim, hclaim'.trans hclaim⟩

end Table

end Roster
