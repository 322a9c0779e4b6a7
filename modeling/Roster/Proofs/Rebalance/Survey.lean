import Mathlib.Data.List.Nodup
import Roster.Proofs.Load.Order
import Roster.Proofs.Table.Moves
import Roster.Rebalance.Planner

/-! The survey that a plan starts with: each registered item is kept by the first worker that lists
it, and every other copy is dropped. Once a drop is carried out, a new survey keeps the same and
drops the rest. -/

namespace Roster

/-- The first registered worker that lists the item. -/
def Table.keeper (t : Table) (m : Membership) (i : ItemId) : Option WorkerId :=
  m.workers.toList.find? fun w => i ∈ t.itemsFor w

/-- Of an item that one worker lists at most, this worker is the keeper. -/
theorem Table.keeper_eq_some_iff_of_unique {t : Table} {m : Membership} {i : ItemId}
    {w : WorkerId} (h : ∀ u ∈ m.workers, ∀ v ∈ m.workers, i ∈ t.itemsFor u → i ∈ t.itemsFor v →
      u = v) : t.keeper m i = some w ↔ w ∈ m.workers ∧ i ∈ t.itemsFor w := by
  have hsome {u : WorkerId} (hk : t.keeper m i = some u) : u ∈ m.workers ∧ i ∈ t.itemsFor u :=
    ⟨List.mem_of_find?_eq_some hk, by simpa using List.find?_some hk⟩
  refine ⟨hsome, ?_⟩
  rintro ⟨hw, hi⟩
  cases hk : t.keeper m i with
  | none =>
    have := List.find?_eq_none.1 hk w hw
    exact absurd hi (by simpa using this)
  | some u => rw [h u (hsome hk).1 w hw (hsome hk).2 hi]

namespace Planner
open Table

variable {registered registered' taken taken' : List ItemId} {i j : ItemId} {l : List ItemId}

/-! ### One worker -/

theorem sift_cons_kept (h : i ∈ registered ∧ i ∉ taken) :
    sift registered taken (i :: l) =
      (i :: (sift registered (i :: taken) l).1, (sift registered (i :: taken) l).2) := by
  rw [sift, if_pos h]

theorem sift_cons_lost (h : ¬(i ∈ registered ∧ i ∉ taken)) :
    sift registered taken (i :: l) =
      ((sift registered taken l).1, i :: (sift registered taken l).2) := by
  rw [sift, if_neg h]

theorem sift_congr (h : ∀ i, i ∈ registered' ↔ i ∈ registered) :
    sift registered' taken l = sift registered taken l := by
  induction l generalizing taken with
  | nil => rfl
  | cons j l ih => simp only [sift, h, ih]

theorem mem_sift_iff :
    i ∈ (sift registered taken l).1 ↔ i ∈ l ∧ i ∈ registered ∧ i ∉ taken := by
  induction l generalizing taken with
  | nil => simp [sift]
  | cons j l ih =>
    by_cases hj : j ∈ registered ∧ j ∉ taken
    · rw [sift_cons_kept hj]
      simp only [List.mem_cons, ih]
      by_cases hij : i = j
      · subst hij
        simp [hj]
      · simp [hij]
    · rw [sift_cons_lost hj]
      simp only [List.mem_cons, ih]
      by_cases hij : i = j
      · subst hij
        simp [hj]
      · simp [hij]

theorem nodup_sift : (sift registered taken l).1.Nodup := by
  induction l generalizing taken with
  | nil => exact List.nodup_nil
  | cons j l ih =>
    by_cases hj : j ∈ registered ∧ j ∉ taken
    · rw [sift_cons_kept hj, List.nodup_cons]
      refine ⟨?_, ih⟩
      intro hm
      exact (mem_sift_iff.1 hm).2.2 List.mem_cons_self
    · rw [sift_cons_lost hj]
      exact ih

theorem sift_sublist : (sift registered taken l).1.Sublist l := by
  induction l generalizing taken with
  | nil => exact .refl _
  | cons j l ih =>
    by_cases hj : j ∈ registered ∧ j ∉ taken
    · rw [sift_cons_kept hj]
      exact ih.cons_cons j
    · rw [sift_cons_lost hj]
      exact ih.cons j

theorem sift_perm : ((sift registered taken l).1 ++ (sift registered taken l).2).Perm l := by
  induction l generalizing taken with
  | nil => exact .refl _
  | cons j l ih =>
    by_cases hj : j ∈ registered ∧ j ∉ taken
    · rw [sift_cons_kept hj]
      exact ih.cons j
    · rw [sift_cons_lost hj]
      exact List.perm_middle.trans (ih.cons j)

/-- Nothing is lost of a list of different registered items that nobody has taken. -/
theorem sift_eq_self (hn : l.Nodup) (h : ∀ i ∈ l, i ∈ registered ∧ i ∉ taken) :
    sift registered taken l = (l, []) := by
  induction l generalizing taken with
  | nil => rfl
  | cons j l ih =>
    obtain ⟨hj, hl⟩ := List.nodup_cons.1 hn
    have hrest : ∀ i ∈ l, i ∈ registered ∧ i ∉ j :: taken := by
      intro i hi
      obtain ⟨hr, ht⟩ := h i (List.mem_cons_of_mem j hi)
      refine ⟨hr, ?_⟩
      intro hm
      rcases List.mem_cons.1 hm with rfl | hm
      · exact hj hi
      · exact ht hm
    rw [sift_cons_kept (h j List.mem_cons_self), ih hl hrest]

/-- Without the first item that is lost, the same is kept and the rest is lost. This needs the
order: of equal items one next to another it does not matter which is gone. -/
theorem sift_erase {lost : List ItemId} (ha : Ordered.Ascending l)
    (h : (sift registered taken l).2 = i :: lost) :
    sift registered taken (l.erase i) = ((sift registered taken l).1, lost) := by
  induction l generalizing taken with
  | nil => simp [sift] at h
  | cons j l ih =>
    by_cases hj : j ∈ registered ∧ j ∉ taken
    · rw [sift_cons_kept hj] at h ⊢
      dsimp only at h ⊢
      have hi : i ∈ l := sift_perm.mem_iff.1
        (List.mem_append_right _ (show i ∈ (sift registered (j :: taken) l).2 by simp [h]))
      have hrest := ih ha.of_cons h
      by_cases hij : j = i
      · -- The copy that is kept stands in front; after it comes the one that is lost.
        subst hij
        cases l with
        | nil => simp at hi
        | cons k l =>
          obtain rfl := Ordered.Search.eq_head_of_mem ha hi
          rw [List.erase_cons_head] at hrest ⊢
          rw [sift_cons_kept hj, hrest]
      · rw [List.erase_cons_tail (by simpa using hij), sift_cons_kept hj, hrest]
    · rw [sift_cons_lost hj] at h ⊢
      cases h
      rw [List.erase_cons_head]

/-! ### All workers -/

variable {t t' : Table} {v w : WorkerId} {ws : List WorkerId}

theorem survey_cons : survey t registered taken (w :: ws) =
    ((w, (sift registered taken (Ordered.sort (t.itemsFor w))).1) ::
      (survey t registered ((sift registered taken (Ordered.sort (t.itemsFor w))).1 ++ taken) ws).1,
    (sift registered taken (Ordered.sort (t.itemsFor w))).2.map (·, w) ++
      (survey t registered
        ((sift registered taken (Ordered.sort (t.itemsFor w))).1 ++ taken) ws).2) :=
  rfl

theorem survey_congr (h : ∀ w ∈ ws, t'.itemsFor w = t.itemsFor w) :
    survey t' registered taken ws = survey t registered taken ws := by
  induction ws generalizing taken with
  | nil => rfl
  | cons w ws ih =>
    rw [survey_cons, survey_cons, h w List.mem_cons_self]
    rw [ih fun v hv => h v (List.mem_cons_of_mem w hv)]

/-- Of the registered items it only counts which they are. -/
theorem survey_congr_registered (h : ∀ i, i ∈ registered' ↔ i ∈ registered) :
    survey t registered' taken ws = survey t registered taken ws := by
  induction ws generalizing taken with
  | nil => rfl
  | cons w ws ih => rw [survey_cons, survey_cons, sift_congr h, ih]

/-- A survey sorts every list before it goes through it. -/
theorem survey_sorted : survey t.sorted registered taken ws = survey t registered taken ws := by
  induction ws generalizing taken with
  | nil => rfl
  | cons w ws ih =>
    rw [survey_cons, survey_cons, itemsFor_sorted,
      Ordered.sort_eq_self (Ordered.ascending_sort (t.itemsFor w)), ih]

theorem map_fst_survey : (survey t registered taken ws).1.map (·.1) = ws := by
  induction ws generalizing taken with
  | nil => rfl
  | cons w ws ih => simp [survey_cons, ih]

theorem ascending_of_mem_survey {kept : List ItemId}
    (h : (w, kept) ∈ (survey t registered taken ws).1) : Ordered.Ascending kept := by
  induction ws generalizing taken with
  | nil => simp [survey] at h
  | cons v ws ih =>
    rw [survey_cons] at h
    rcases List.mem_cons.1 h with he | h
    · cases he
      exact (Ordered.ascending_sort _).sublist sift_sublist
    · exact ih h

/-- A worker keeps an item if it is the first one that lists it. -/
theorem mem_survey_iff (hn : ws.Nodup) :
    (∃ kept, (w, kept) ∈ (survey t registered taken ws).1 ∧ i ∈ kept) ↔
      i ∈ registered ∧ i ∉ taken ∧ ws.find? (fun v => i ∈ t.itemsFor v) = some w := by
  induction ws generalizing taken with
  | nil => simp [survey]
  | cons u ws ih =>
    obtain ⟨hu, hws⟩ := List.nodup_cons.1 hn
    have hsift : i ∈ (sift registered taken (Ordered.sort (t.itemsFor u))).1 ↔
        i ∈ t.itemsFor u ∧ i ∈ registered ∧ i ∉ taken := by
      rw [mem_sift_iff, Ordered.mem_sort]
    have hsplit : (∃ kept, (w, kept) ∈ (survey t registered taken (u :: ws)).1 ∧ i ∈ kept) ↔
        (w = u ∧ i ∈ (sift registered taken (Ordered.sort (t.itemsFor u))).1) ∨
          ∃ kept, (w, kept) ∈ (survey t registered
            ((sift registered taken (Ordered.sort (t.itemsFor u))).1 ++ taken) ws).1 ∧
              i ∈ kept := by
      simp only [survey_cons, List.mem_cons, Prod.mk.injEq]
      constructor
      · rintro ⟨kept, ⟨rfl, rfl⟩ | hk, hi⟩
        · exact .inl ⟨rfl, hi⟩
        · exact .inr ⟨kept, hk, hi⟩
      · rintro (⟨rfl, hi⟩ | ⟨kept, hk, hi⟩)
        · exact ⟨_, .inl ⟨rfl, rfl⟩, hi⟩
        · exact ⟨kept, .inr hk, hi⟩
    rw [hsplit, ih hws, hsift, List.mem_append, hsift, List.find?_cons]
    by_cases hi : i ∈ t.itemsFor u
    · simp only [hi, decide_true, Option.some.injEq]
      constructor
      · rintro (⟨rfl, -, hr, ht⟩ | ⟨hr, ht, -⟩)
        · exact ⟨hr, ht, rfl⟩
        · exact absurd ⟨trivial, hr, fun hm => ht (.inr hm)⟩ fun h => ht (.inl h)
      · rintro ⟨hr, ht, rfl⟩
        exact .inl ⟨rfl, trivial, hr, ht⟩
    · simp [hi]

theorem nodup_survey :
    ((survey t registered taken ws).1.flatMap (·.2)).Nodup ∧
      ∀ i ∈ (survey t registered taken ws).1.flatMap (·.2), i ∈ registered ∧ i ∉ taken := by
  induction ws generalizing taken with
  | nil => simp [survey]
  | cons w ws ih =>
    rw [survey_cons]
    obtain ⟨hn, hr⟩ := @ih ((sift registered taken (Ordered.sort (t.itemsFor w))).1 ++ taken)
    simp only [List.flatMap_cons, List.nodup_append, List.mem_append]
    refine ⟨⟨nodup_sift, hn, ?_⟩, ?_⟩
    · rintro i hi j hj rfl
      exact (hr i hj).2 (List.mem_append_left _ hi)
    · rintro i (hi | hi)
      · exact (mem_sift_iff.1 hi).2
      · have := hr i hi
        exact ⟨this.1, fun h => this.2 (List.mem_append_right _ h)⟩

/-- What is kept and what is dropped is together all that was listed. -/
theorem survey_perm :
    ((survey t registered taken ws).1.flatMap (·.2) ++
      (survey t registered taken ws).2.map (·.1)).Perm (ws.flatMap t.itemsFor) := by
  induction ws generalizing taken with
  | nil => exact .refl _
  | cons w ws ih =>
    rw [survey_cons]
    have hw : ((sift registered taken (Ordered.sort (t.itemsFor w))).1 ++
        (sift registered taken (Ordered.sort (t.itemsFor w))).2).Perm (t.itemsFor w) :=
      sift_perm.trans (Ordered.perm_sort _)
    have hws := @ih ((sift registered taken (Ordered.sort (t.itemsFor w))).1 ++ taken)
    simp only [List.flatMap_cons, List.map_append, List.map_map, Function.comp_def, List.map_id']
    refine List.Perm.trans ?_ (hw.append hws)
    simp only [List.append_assoc]
    refine List.Perm.append_left _ ?_
    simp only [← List.append_assoc]
    exact List.perm_append_comm.append_right _

/-- Nothing is dropped where each item listed is registered and listed once. -/
theorem survey_eq_self (ha : t.Ascending) (hn : (ws.flatMap t.itemsFor).Nodup)
    (h : ∀ i ∈ ws.flatMap t.itemsFor, i ∈ registered ∧ i ∉ taken) :
    survey t registered taken ws = (ws.map fun w => (w, t.itemsFor w), []) := by
  induction ws generalizing taken with
  | nil => rfl
  | cons w ws ih =>
    rw [List.flatMap_cons] at hn h
    obtain ⟨hw, hws, hdisj⟩ := List.nodup_append.1 hn
    have hrest : ∀ i ∈ ws.flatMap t.itemsFor, i ∈ registered ∧ i ∉ t.itemsFor w ++ taken := by
      intro i hi
      obtain ⟨hr, ht⟩ := h i (List.mem_append_right _ hi)
      refine ⟨hr, ?_⟩
      intro hm
      rcases List.mem_append.1 hm with hm | hm
      · exact hdisj i hm i hi rfl
      · exact ht hm
    rw [survey_cons, Ordered.sort_eq_self (ha.itemsFor w),
      sift_eq_self hw fun i hi => h i (List.mem_append_left _ hi)]
    simp only [ih hws hrest, List.map_nil, List.nil_append, List.map_cons]

/-- What is dropped is dropped from a worker that lists it. -/
theorem mem_of_dropped (h : (i, w) ∈ (survey t registered taken ws).2) :
    w ∈ ws ∧ i ∈ t.itemsFor w := by
  induction ws generalizing taken with
  | nil => simp [survey] at h
  | cons v ws ih =>
    rw [survey_cons] at h
    simp only [List.mem_append, List.mem_map, Prod.mk.injEq] at h
    rcases h with ⟨j, hj, rfl, rfl⟩ | h
    · exact ⟨List.mem_cons_self,
        Ordered.mem_sort.1 (sift_perm.mem_iff.1 (List.mem_append_right _ hj))⟩
    · obtain ⟨hw, hi⟩ := ih h
      exact ⟨List.mem_cons_of_mem v hw, hi⟩

/-- Once the first drop is carried out, a survey keeps the same and drops the rest. -/
theorem survey_drop {dropped : List (ItemId × WorkerId)} (ha : t.Ascending) (hn : ws.Nodup)
    (h : (survey t registered taken ws).2 = (i, w) :: dropped) :
    i ∈ t.itemsFor w ∧ survey (t.withItems w ((t.itemsFor w).erase i)) registered taken ws =
      ((survey t registered taken ws).1, dropped) := by
  induction ws generalizing taken with
  | nil => simp [survey] at h
  | cons v ws ih =>
    obtain ⟨hv, hws⟩ := List.nodup_cons.1 hn
    rw [survey_cons, Ordered.sort_eq_self (ha.itemsFor v)] at h
    rw [survey_cons, survey_cons (t := t), Ordered.sort_eq_self (ha.itemsFor v)]
    cases hl : (sift registered taken (t.itemsFor v)).2 with
    | nil =>
      -- The drop is one of a later worker, and the list of `v` stays as it is.
      simp only [hl, List.map_nil, List.nil_append] at h ⊢
      obtain ⟨hi, hs⟩ := ih hws h
      have hvw : v ≠ w := by
        rintro rfl
        exact hv (mem_of_dropped (show (i, v) ∈ _ by rw [h]; exact List.mem_cons_self)).1
      have hitems := itemsFor_withItems (l := (t.itemsFor w).erase i) (v := v)
        (mem_workers_of_mem hi)
      rw [if_neg hvw] at hitems
      refine ⟨hi, ?_⟩
      simp only [hitems, Ordered.sort_eq_self (ha.itemsFor v), hl, hs, List.map_nil,
        List.nil_append]
    | cons j lost =>
      -- The drop is the first one of `v`, and the lists of later workers stay as they are.
      simp only [hl, List.map_cons, List.cons_append, List.cons.injEq, Prod.mk.injEq] at h
      obtain ⟨⟨rfl, rfl⟩, rfl⟩ := h
      have hi : j ∈ t.itemsFor v :=
        sift_perm.mem_iff.1 (List.mem_append_right _ (hl ▸ List.mem_cons_self))
      have hitems (u : WorkerId) := itemsFor_withItems (l := (t.itemsFor v).erase j) (v := u)
        (mem_workers_of_mem hi)
      have herase : Ordered.Ascending ((t.itemsFor v).erase j) :=
        (ha.itemsFor v).sublist List.erase_sublist
      have hlater : ∀ u ∈ ws, (t.withItems v ((t.itemsFor v).erase j)).itemsFor u =
          t.itemsFor u := by
        intro u hu
        rw [hitems, if_neg]
        rintro rfl
        exact hv hu
      refine ⟨hi, ?_⟩
      rw [hitems v, if_pos rfl, Ordered.sort_eq_self herase, sift_erase (ha.itemsFor v) hl,
        survey_congr hlater]

end Planner

end Roster
