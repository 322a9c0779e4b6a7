import Roster.Proofs.Rebalance.Levels

/-! Dealing out the items that nobody owns. Each one that is registered goes to one worker, and
after the first is dealt the others are dealt as they would have been. -/

namespace Roster.Planner
open Load LoadQueue

variable {owned owned' items : List ItemId} {q q' : LoadQueue} {i : ItemId} {w : WorkerId}

theorem assignAll_cons_owned (h : i ∈ owned) :
    assignAll owned q (i :: items) = assignAll owned q items := by
  rw [assignAll, if_pos h]

theorem assignAll_cons_free (h : i ∉ owned) (ha : q.assign i = some (w, q')) :
    assignAll owned q (i :: items) =
      ((i, w) :: (assignAll (i :: owned) q' items).1, (assignAll (i :: owned) q' items).2) := by
  rw [assignAll, if_neg h, ha]

theorem assignAll_of_owned (h : ∀ i ∈ items, i ∈ owned) : assignAll owned q items = ([], q) := by
  induction items with
  | nil => rfl
  | cons i items ih =>
    rw [assignAll_cons_owned (h i List.mem_cons_self)]
    exact ih fun j hj => h j (List.mem_cons_of_mem i hj)

theorem assignAll_congr (h : ∀ i, i ∈ owned' ↔ i ∈ owned) :
    assignAll owned' q items = assignAll owned q items := by
  induction items generalizing owned owned' q with
  | nil => rfl
  | cons i items ih =>
    by_cases hi : i ∈ owned
    · rw [assignAll_cons_owned hi, assignAll_cons_owned ((h i).2 hi), ih h]
    · have hi' : i ∉ owned' := fun hm => hi ((h i).1 hm)
      have hcons : ∀ j, j ∈ i :: owned' ↔ j ∈ i :: owned := fun j => by
        rw [List.mem_cons, List.mem_cons, h j]
      cases ha : q.assign i with
      | none => rw [assignAll, assignAll, if_neg hi, if_neg hi', ha]; exact ih h
      | some r =>
        rw [assignAll_cons_free hi ha, assignAll_cons_free hi' ha, ih hcons]

/-- Once the first item is dealt, the rest goes where it would have gone. -/
theorem assignAll_rest {assigned : List (ItemId × WorkerId)} (hq : q.toList ≠ [])
    (h : (assignAll owned q items).1 = (i, w) :: assigned) :
    i ∉ owned ∧ ∃ q', q.assign i = some (w, q') ∧
      assignAll (i :: owned) q' items = (assigned, (assignAll owned q items).2) := by
  induction items with
  | nil => simp [assignAll] at h
  | cons j items ih =>
    by_cases hj : j ∈ owned
    · rw [assignAll_cons_owned hj] at h ⊢
      obtain ⟨hi, q', ha, hrest⟩ := ih h
      refine ⟨hi, q', ha, ?_⟩
      rw [assignAll_cons_owned (List.mem_cons_of_mem i hj), hrest]
    · obtain ⟨v, q', ha⟩ := exists_assign hq j
      rw [assignAll_cons_free hj ha] at h ⊢
      simp only [List.cons.injEq, Prod.mk.injEq] at h
      obtain ⟨⟨rfl, rfl⟩, hrest⟩ := h
      refine ⟨hj, q', ha, ?_⟩
      rw [assignAll_cons_owned List.mem_cons_self, ← hrest]

/-- A queue that somebody works on and whose items are all owned. -/
structure Ready (owned : List ItemId) (q : LoadQueue) : Prop where
  nonempty : q.toList ≠ []
  apart : Apart q.toList
  owned : ∀ i ∈ itemsOf q.toList, i ∈ owned

theorem Ready.not_mem (h : Ready owned q) (hi : i ∉ owned) : i ∉ itemsOf q.toList :=
  fun hm => hi (h.owned i hm)

theorem Ready.assign (h : Ready owned q) (hi : i ∉ owned) :
    ∃ w q' light rest, q.assign i = some (w, q') ∧ Assigns q i w q' light rest ∧
      Ready (i :: owned) q' := by
  obtain ⟨w, q', hsome⟩ := exists_assign h.nonempty i
  obtain ⟨light, rest, hs⟩ := assigns_of_assign h.apart hsome
  have hi' := h.not_mem hi
  refine ⟨w, q', light, rest, hsome, hs, ?_, hs.apart h.apart hi', ?_⟩
  · intro hnil
    have := hs.after.length_eq
    simp [hnil] at this
  · intro j hj
    rcases List.mem_cons.1 ((hs.items_perm hi').mem_iff.1 hj) with rfl | hj
    · exact List.mem_cons_self
    · exact List.mem_cons_of_mem i (h.owned j hj)

theorem Ready.of_assign (h : Ready owned q) (hi : i ∉ owned) (ha : q.assign i = some (w, q')) :
    Ready (i :: owned) q' := by
  obtain ⟨_, _, _, _, ha', -, h'⟩ := h.assign hi
  cases ha.symm.trans ha'
  exact h'

/-- The items of `assigned` have come to the loads of `q`: they are those of `items` that are not
owned, each once. -/
structure Deals (owned items : List ItemId) (q : LoadQueue) (assigned : List (ItemId × WorkerId))
    (dealt : LoadQueue) : Prop where
  apart : Apart dealt.toList
  held : (itemsOf dealt.toList).Perm (assigned.map (·.1) ++ itemsOf q.toList)
  workers : (dealt.toList.map (·.worker)).Perm (q.toList.map (·.worker))
  mem_iff : ∀ i, i ∈ assigned.map (·.1) ↔ i ∈ items ∧ i ∉ owned

theorem deals_assignAll (items : List ItemId) (h : Ready owned q) :
    Deals owned items q (assignAll owned q items).1 (assignAll owned q items).2 := by
  induction items generalizing owned q with
  | nil => exact ⟨h.apart, .refl _, .refl _, by simp [assignAll]⟩
  | cons i items ih =>
    by_cases hi : i ∈ owned
    · rw [assignAll_cons_owned hi]
      obtain ⟨hapart, hheld, hworkers, hmem⟩ := ih h
      refine ⟨hapart, hheld, hworkers, ?_⟩
      intro j
      rw [hmem, List.mem_cons]
      constructor
      · rintro ⟨hj, hj'⟩
        exact ⟨.inr hj, hj'⟩
      · rintro ⟨rfl | hj, hj'⟩
        · exact absurd hi hj'
        · exact ⟨hj, hj'⟩
    · obtain ⟨w, q', light, rest, hsome, hs, h'⟩ := h.assign hi
      have hp := hs.items_perm (h.not_mem hi)
      rw [assignAll_cons_free hi hsome]
      obtain ⟨hapart, hheld, hworkers, hmem⟩ := ih h'
      refine ⟨hapart, ?_, hworkers.trans hs.workers_perm, ?_⟩
      · exact hheld.trans ((hp.append_left _).trans List.perm_middle)
      · intro j
        rw [List.map_cons, List.mem_cons, hmem, List.mem_cons, List.mem_cons]
        by_cases hij : j = i
        · subst hij
          simp [hi]
        · simp [hij]

namespace Deals

variable {assigned : List (ItemId × WorkerId)} {dealt : LoadQueue}

theorem nodup (h : Deals owned items q assigned dealt) : (assigned.map (·.1)).Nodup :=
  (List.nodup_append.1 (h.held.nodup_iff.1 h.apart.items)).1

theorem length_items (h : Deals owned items q assigned dealt) :
    (itemsOf dealt.toList).length = assigned.length + (itemsOf q.toList).length := by
  rw [h.held.length_eq, List.length_append, List.length_map]

theorem length_eq (h : Deals owned items q assigned dealt) :
    dealt.toList.length = q.toList.length := by
  simpa using h.workers.length_eq

end Deals

/-- Who receives an item has at most the average that there is in the end. -/
theorem Ready.size_le_average {light : Load} {rest : List Load} (h : Ready owned q)
    (hi : i ∉ owned) (hs : Assigns q i w q' light rest) (h' : Ready (i :: owned) q')
    (items : List ItemId) :
    light.size ≤ average (assignAll (i :: owned) q' items).2.toList := by
  have hd : Deals (i :: owned) items q' _ _ := deals_assignAll items h'
  have hmul : light.size * q.toList.length ≤ (itemsOf q.toList).length := by
    rw [hs.before.length_eq, (itemsOf_perm hs.before).length_eq]
    exact mul_length_le hs.lightest
  have hlen : (assignAll (i :: owned) q' items).2.toList.length = q.toList.length := by
    have := hs.workers_perm.length_eq
    simp only [List.length_map] at this
    rw [hd.length_eq, this]
  have hitems := (hs.items_perm (h.not_mem hi)).length_eq
  rw [List.length_cons] at hitems
  rw [average, hlen, Nat.le_div_iff_mul_le (List.length_pos_iff.2 h.nonempty), hd.length_items]
  omega

/-- Dealing leaves the excess over the final average alone, and each item dealt is one less that is
lacking: a worker that receives one has at most the average, and if it has as much nobody lacks
any. -/
theorem assignAll_levels {items : List ItemId} {avg : Nat} (h : Ready owned q)
    (havg : average (assignAll owned q items).2.toList = avg) :
    excess avg (assignAll owned q items).2.toList = excess avg q.toList ∧
      shortage avg (assignAll owned q items).2.toList =
        shortage avg q.toList - (assignAll owned q items).1.length := by
  induction items generalizing owned q with
  | nil => exact ⟨rfl, rfl⟩
  | cons i items ih =>
    by_cases hi : i ∈ owned
    · rw [assignAll_cons_owned hi] at havg ⊢
      exact ih h havg
    · obtain ⟨w, q', light, rest, hsome, hs, h'⟩ := h.assign hi
      have hi' := h.not_mem hi
      rw [assignAll_cons_free hi hsome] at havg ⊢
      dsimp only at havg ⊢
      have hle : light.size ≤ avg := havg ▸ h.size_le_average hi hs h' items
      obtain ⟨hexcess, hshort⟩ := ih h' havg
      rw [hs.excess_eq hi' hle] at hexcess
      rw [hs.shortage_eq hi'] at hshort
      refine ⟨hexcess, ?_⟩
      rw [hshort, List.length_cons]
      omega

end Roster.Planner
