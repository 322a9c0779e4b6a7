import Mathlib.Data.List.Flatten
import Roster.Proofs.Table.Moves

/-! Streams of moves, accepted or refused. A move that is accepted keeps the lists in order and
gives no item a second owner, so a table in which items have one owner at most stays one whatever
moves come. -/

namespace Roster.Table

variable {t t' : Table} {v w : WorkerId} {i j : ItemId} {l : List ItemId} {mv : Move}

/-! ### What an accepted move does -/

/-- The change that a move makes to a table in order, and what it takes for the move to be
accepted. -/
inductive Changes (t : Table) : Move → Table → Prop
  | kept {w : WorkerId} (hw : w ∈ t.workers) : Changes t (.addWorker w) t
  | added {w : WorkerId} (hw : w ∉ t.workers) : Changes t (.addWorker w) (t.withWorker w [])
  | removed (w : WorkerId) : Changes t (.removeWorker w) (t.without w)
  | dropped {i : ItemId} {w : WorkerId} (hi : i ∈ t.itemsFor w) :
      Changes t (.drop i w) (t.withItems w ((t.itemsFor w).erase i))
  | assigned {i : ItemId} {w : WorkerId} (hi : i ∉ t.listed) (hw : w ∈ t.workers) :
      Changes t (.assign i w) (t.withItems w (Ordered.insert i (t.itemsFor w)))
  | transferred {i : ItemId} {v w : WorkerId} {rest : Table} (hi : i ∈ t.itemsFor v)
      (hw : w ∈ t.workers) (hr : rest = t.withItems v ((t.itemsFor v).erase i)) :
      Changes t (.transfer i v w) (rest.withItems w (Ordered.insert i (rest.itemsFor w)))

theorem removeItem_of_not_mem (ha : t.Ascending) (hi : i ∉ t.itemsFor w) :
    ∃ cause, t.removeItem i w = .error cause := by
  unfold removeItem
  by_cases hw : w ∈ t.workers
  · have hs := Ordered.Search.erase?_eq (x := i) (ha.itemsFor w)
    rw [if_neg hi] at hs
    simp [get?_of_mem hw, hs]
  · simp [get?_eq_none_iff.2 hw]

theorem insertItem_of_not_mem (hw : w ∉ t.workers) :
    t.insertItem i w = .error (.unknownWorker w) := by
  rw [insertItem, if_neg fun hc => hw (mem_workers_iff.2 hc)]

theorem check_eq_of_apply (h : t.apply mv = .ok t') : t.check mv = .ok t' := by
  cases hc : t.check mv with
  | ok u => simpa [apply, hc] using h
  | error cause => simp [apply, hc] at h

theorem changes_of_apply (ha : t.Ascending) (h : t.apply mv = .ok t') : Changes t mv t' := by
  cases mv with
  | addWorker w =>
    by_cases hw : w ∈ t.workers
    · have hc := check_eq_of_apply h
      rw [check, if_pos (mem_workers_iff.1 hw)] at hc
      cases hc
      exact .kept hw
    · rw [apply_addWorker hw] at h
      cases h
      exact .added hw
  | removeWorker w =>
    rw [apply_removeWorker] at h
    cases h
    exact .removed w
  | drop i w =>
    by_cases hi : i ∈ t.itemsFor w
    · rw [apply_drop ha hi] at h
      cases h
      exact .dropped hi
    · obtain ⟨cause, he⟩ := removeItem_of_not_mem ha hi
      have hc := check_eq_of_apply h
      rw [check, he] at hc
      cases hc
  | assign i w =>
    have hc := check_eq_of_apply h
    rw [check] at hc
    split at hc
    · cases hc
    · next hfree =>
      have hi := (ownerOf_eq_none_iff ha).1 hfree
      by_cases hw : w ∈ t.workers
      · rw [insertItem_eq ha hw] at hc
        cases hc
        exact .assigned hi hw
      · rw [insertItem_of_not_mem hw] at hc
        cases hc
  | transfer i v w =>
    have hc := check_eq_of_apply h
    rw [check] at hc
    split at hc
    · next hw =>
      rw [← mem_workers_iff] at hw
      by_cases hi : i ∈ t.itemsFor v
      · have hw' : w ∈ (t.withItems v ((t.itemsFor v).erase i)).workers := by simpa using hw
        simp only [removeItem_eq ha hi, insertItem_eq (ha.erase hi) hw'] at hc
        cases hc
        exact .transferred hi hw rfl
      · obtain ⟨cause, he⟩ := removeItem_of_not_mem ha hi
        simp only [he] at hc
        cases hc
    · cases hc

theorem Ascending.apply (ha : t.Ascending) (h : t.apply mv = .ok t') : t'.Ascending := by
  cases changes_of_apply ha h with
  | kept hw => exact ha
  | added hw => exact ha.withWorker_nil hw
  | removed w => exact ha.without w
  | dropped hi => exact ha.erase hi
  | assigned hi hw => exact ha.insert hw
  | transferred hi hw hr =>
    subst hr
    exact (ha.erase hi).insert (by simpa using hw)

/-! ### Copies of an item -/

/-- The items of one list, and all others. -/
theorem listed_withItems_perm (hw : w ∈ t.workers) :
    ∃ others, t.listed.Perm (t.itemsFor w ++ others) ∧
      ∀ l, (t.withItems w l).listed.Perm (l ++ others) := by
  have hsplit := List.perm_cons_erase hw
  refine ⟨(t.workers.erase w).flatMap t.itemsFor, ?_, ?_⟩
  · rw [listed_eq]
    exact hsplit.flatMap_right t.itemsFor
  · intro l
    rw [listed_eq, workers_withItems]
    refine (hsplit.flatMap_right _).trans (.of_eq ?_)
    rw [List.flatMap_cons, itemsFor_withItems hw, if_pos rfl]
    congr 1
    refine List.flatMap_congr ?_
    intro u hu
    rw [itemsFor_withItems hw, if_neg (t.nodup_workers.mem_erase_iff.1 hu).1]

theorem count_listed_withItems (hw : w ∈ t.workers) :
    (t.withItems w l).listed.count j + (t.itemsFor w).count j =
      t.listed.count j + l.count j := by
  obtain ⟨others, hold, hnew⟩ := listed_withItems_perm hw
  rw [hold.count_eq, (hnew l).count_eq, List.count_append, List.count_append]
  omega

theorem count_listed_erase (hi : i ∈ t.itemsFor w) :
    (t.withItems w ((t.itemsFor w).erase i)).listed.count j + [i].count j =
      t.listed.count j := by
  have hcount := count_listed_withItems (l := (t.itemsFor w).erase i) (j := j)
    (mem_workers_of_mem hi)
  have hcopy := (List.perm_cons_erase hi).count_eq j
  rw [← List.singleton_append, List.count_append] at hcopy
  omega

theorem count_listed_insert_le (ha : t.Ascending) (hw : w ∈ t.workers) :
    (t.withItems w (Ordered.insert i (t.itemsFor w))).listed.count j ≤
      t.listed.count j + [i].count j := by
  have hcount := count_listed_withItems (l := Ordered.insert i (t.itemsFor w)) (j := j) hw
  have hle : (Ordered.insert i (t.itemsFor w)).count j ≤
      (t.itemsFor w).count j + [i].count j := by
    by_cases hi : i ∈ t.itemsFor w
    · rw [Ordered.Search.ordered_insert_of_mem (ha.itemsFor w) hi]
      omega
    · rw [(Ordered.insert_perm hi).count_eq, ← List.singleton_append, List.count_append]
      omega
  omega

theorem listed_withWorker_nil_perm (hw : w ∉ t.workers) :
    (t.withWorker w []).listed.Perm t.listed := by
  have hworkers : (t.withWorker w []).workers.Perm (w :: t.workers) := by
    refine (List.perm_ext_iff_of_nodup (nodup_workers _) ?_).2 ?_
    · exact List.nodup_cons.2 ⟨hw, t.nodup_workers⟩
    · intro v
      rw [mem_workers_withWorker, List.mem_cons]
  have hitems : (t.withWorker w []).itemsFor = t.itemsFor :=
    funext fun v => itemsFor_withWorker_nil hw
  rw [listed_eq, listed_eq, hitems]
  refine (hworkers.flatMap_right _).trans (.of_eq ?_)
  rw [List.flatMap_cons, itemsFor_of_not_mem hw, List.nil_append]

theorem count_listed_without_le : (t.without w).listed.count j ≤ t.listed.count j :=
  (List.filter_sublist.flatMap _).count_le j

/-- A move gives an item another copy only where it has none. -/
theorem Changes.count_listed_le (h : Changes t mv t') (ha : t.Ascending) (j : ItemId) :
    t'.listed.count j ≤ max 1 (t.listed.count j) := by
  cases h with
  | kept hw => exact Nat.le_max_right ..
  | added hw =>
    rw [(listed_withWorker_nil_perm hw).count_eq]
    exact Nat.le_max_right ..
  | removed w => exact Nat.le_trans count_listed_without_le (Nat.le_max_right ..)
  | dropped hi =>
    have := count_listed_erase (j := j) hi
    omega
  | @assigned i w hi hw =>
    have hle := count_listed_insert_le (i := i) (j := j) ha hw
    by_cases hj : j = i
    · subst hj
      have hnone := List.count_eq_zero.2 hi
      have hone : [j].count j = 1 := by simp
      omega
    · have hnone : [i].count j = 0 := List.count_eq_zero.2 (by simpa using hj)
      omega
  | @transferred i v w rest hi hw hr =>
    subst hr
    have hgone := count_listed_erase (j := j) hi
    have hback := count_listed_insert_le (i := i) (j := j) (ha.erase hi)
      (show w ∈ (t.withItems v ((t.itemsFor v).erase i)).workers by simpa using hw)
    omega

/-! ### One owner at most -/

/-- Each list is strictly ascending, and no two have an item in common. -/
structure Exclusive (t : Table) : Prop where
  strict : ∀ e ∈ t.entries, Ordered.Strict e.2
  apart : t.entries.Pairwise fun e f => ∀ i ∈ e.2, i ∉ f.2

theorem exclusive_iff : t.Exclusive ↔ t.Ascending ∧ t.listed.Nodup := by
  rw [listed, List.nodup_flatMap]
  constructor
  · intro h
    refine ⟨fun e he => (h.strict e he).ascending, fun e he => (h.strict e he).nodup, ?_⟩
    exact h.apart.imp fun hef i he hf => hef i he hf
  · rintro ⟨ha, hn, hd⟩
    refine ⟨fun e he => Ordered.strict_iff.2 ⟨ha e he, hn e he⟩, ?_⟩
    exact hd.imp fun hef i he hf => hef he hf

instance (t : Table) : Decidable t.Exclusive := decidable_of_iff _ exclusive_iff.symm

theorem exclusive_empty : Table.empty.Exclusive := by decide

theorem Exclusive.apply (h : t.Exclusive) (hm : t.apply mv = .ok t') : t'.Exclusive := by
  obtain ⟨ha, hn⟩ := exclusive_iff.1 h
  refine exclusive_iff.2 ⟨ha.apply hm, List.nodup_iff_count_le_one.2 ?_⟩
  intro i
  have hle := (changes_of_apply ha hm).count_listed_le ha i
  have hone := List.nodup_iff_count_le_one.1 hn i
  omega

theorem Exclusive.eq_of_mem (h : t.Exclusive) (hv : i ∈ t.itemsFor v) (hw : i ∈ t.itemsFor w) :
    v = w :=
  eq_of_mem_itemsFor (exclusive_iff.1 h).2 hv hw

/-- Of such a table the search finds the owner. -/
theorem Exclusive.ownerOf_eq_some_iff (h : t.Exclusive) :
    t.ownerOf i = some w ↔ i ∈ t.itemsFor w := by
  obtain ⟨ha, -⟩ := exclusive_iff.1 h
  have hfound {v : WorkerId} (hv : t.ownerOf i = some v) : i ∈ t.itemsFor v := by
    obtain ⟨e, he, rfl⟩ := Option.map_eq_some_iff.1 hv
    have hmem := List.mem_of_find?_eq_some he
    rw [(get?_eq_some_iff.1 (OrderedMap.mem_entries_iff.1 hmem)).2]
    have hcontains : Ordered.Search.contains i e.2 = true := by simpa using List.find?_some he
    exact (Ordered.Search.contains_iff (ha e hmem)).1 hcontains
  refine ⟨hfound, fun hi => ?_⟩
  cases ho : t.ownerOf i with
  | none => exact absurd (mem_listed_iff.2 ⟨w, hi⟩) ((ownerOf_eq_none_iff ha).1 ho)
  | some v => rw [h.eq_of_mem (hfound ho) hi]

/-- The table after a stream of moves. A move that is refused changes nothing. -/
def applyEach (t : Table) : List Move → Table
  | [] => t
  | mv :: ms => match t.apply mv with
    | .ok t' => t'.applyEach ms
    | .error _ => t.applyEach ms

theorem Exclusive.applyEach (h : t.Exclusive) (ms : List Move) : (t.applyEach ms).Exclusive := by
  induction ms generalizing t with
  | nil => exact h
  | cons mv ms ih =>
    rw [Table.applyEach]
    split
    · next hm => exact ih (h.apply hm)
    · exact ih h

/-- No stream of moves, whether they are accepted or refused, shows an item to two workers, if it
starts from an empty table or from one in which items have one owner at most. -/
theorem single_owner_of_stream (h : t = .empty ∨ t.Exclusive) (ms : List Move) :
    (t.applyEach ms).Exclusive ∧
      ∀ i v w, i ∈ (t.applyEach ms).itemsFor v → i ∈ (t.applyEach ms).itemsFor w → v = w := by
  have hstart : t.Exclusive := by
    rcases h with rfl | h
    · exact exclusive_empty
    · exact h
  have hend := hstart.applyEach ms
  exact ⟨hend, fun i v w hv hw => hend.eq_of_mem hv hw⟩

def pair : Table where
  owners :=
    { entries := [(⟨1⟩, [⟨"p", by decide⟩, ⟨"r", by decide⟩]), (⟨2⟩, [⟨"q", by decide⟩])]
      strict := by decide }

/-- Moves of two plans in turn, each made without regard to the other; some are refused. -/
def crossed : List Move :=
  [.transfer ⟨"p", by decide⟩ ⟨1⟩ ⟨2⟩, .transfer ⟨"p", by decide⟩ ⟨1⟩ ⟨3⟩, .addWorker ⟨3⟩,
    .assign ⟨"q", by decide⟩ ⟨1⟩, .assign ⟨"s", by decide⟩ ⟨3⟩, .assign ⟨"s", by decide⟩ ⟨1⟩,
    .transfer ⟨"q", by decide⟩ ⟨2⟩ ⟨3⟩, .removeWorker ⟨2⟩, .assign ⟨"p", by decide⟩ ⟨1⟩,
    .drop ⟨"r", by decide⟩ ⟨2⟩]

theorem pair_single_owner : (pair = .empty ∨ pair.Exclusive) ∧ (pair.applyEach crossed).Exclusive ∧
    ∀ i v w, i ∈ (pair.applyEach crossed).itemsFor v → i ∈ (pair.applyEach crossed).itemsFor w →
      v = w :=
  ⟨.inr (by decide), single_owner_of_stream (.inr (by decide)) crossed⟩

end Roster.Table
