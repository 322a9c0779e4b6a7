import Roster.Proofs.Rebalance.Registration

/-! What a plan reads. Of the table these are the workers and the items listed for the registered
ones, however they are ordered, and of the membership the workers and the order in which the items
come up first. Whatever else differs, the plan is the same. -/

namespace Roster.Planner

open Table

variable {t t' : Table} {m m' : Membership} {registered taken owned items : List ItemId}
  {ws : List WorkerId} {q : LoadQueue}

/-! ### Lists in another order -/

/-- A survey goes by what each worker lists, whatever the order of the list. -/
theorem survey_congr_perm (h : ∀ w ∈ ws, (t'.itemsFor w).Perm (t.itemsFor w)) :
    survey t' registered taken ws = survey t registered taken ws := by
  rw [← survey_sorted, ← survey_sorted (t := t)]
  refine survey_congr ?_
  intro w hw
  rw [itemsFor_sorted, itemsFor_sorted]
  refine (Ordered.ascending_sort _).eq_of_perm (Ordered.ascending_sort _) ?_
  calc
    (Ordered.sort (t'.itemsFor w)).Perm (t'.itemsFor w) := Ordered.perm_sort _
    List.Perm _ (t.itemsFor w) := h w hw
    List.Perm _ (Ordered.sort (t.itemsFor w)) := (Ordered.perm_sort _).symm

/-! ### Items registered again -/

/-- Items that are owned already may be left out. -/
theorem assignAll_filter {p : ItemId → Bool} (h : ∀ i, p i = false → i ∈ owned) :
    assignAll owned q (items.filter p) = assignAll owned q items := by
  induction items generalizing owned q with
  | nil => rfl
  | cons i items ih =>
    by_cases hi : i ∈ owned
    · rw [assignAll_cons_owned hi, List.filter_cons]
      split
      · rw [assignAll_cons_owned hi, ih h]
      · exact ih h
    · have hp : p i = true := by
        cases hp : p i with
        | true => rfl
        | false => exact absurd (h i hp) hi
      rw [List.filter_cons_of_pos hp]
      cases ha : q.assign i with
      | none =>
        rw [assignAll, assignAll, if_neg hi, if_neg hi, ha]
        exact ih h
      | some r =>
        have hcons : ∀ j, p j = false → j ∈ i :: owned := fun j hj =>
          List.mem_cons_of_mem i (h j hj)
        rw [assignAll_cons_free hi ha, assignAll_cons_free hi ha, ih hcons]

/-- An item is dealt out when it comes up first, and is owned when it comes up again. -/
theorem assignAll_eraseDups (h : Ready owned q) :
    assignAll owned q items.eraseDups = assignAll owned q items := by
  -- On the length: what follows the first item is dealt out without the repeats of that item.
  induction hn : items.length using Nat.strongRecOn generalizing owned q items with
  | ind n ih =>
  cases items with
  | nil => rfl
  | cons i items =>
    have hlt : (items.filter fun j => !j == i).length < n := by
      rw [← hn, List.length_cons]
      exact Nat.lt_succ_of_le (List.length_filter_le _ _)
    rw [List.eraseDups_cons]
    by_cases hi : i ∈ owned
    · rw [assignAll_cons_owned hi, assignAll_cons_owned hi, ih _ hlt h rfl]
      refine assignAll_filter ?_
      intro j hj
      have hji : j = i := by simpa using hj
      exact hji ▸ hi
    · obtain ⟨w, q', _, _, ha, -, h'⟩ := h.assign hi
      have hrest : assignAll (i :: owned) q' (items.filter fun j => !j == i) =
          assignAll (i :: owned) q' items := by
        refine assignAll_filter ?_
        intro j hj
        have hji : j = i := by simpa using hj
        exact hji ▸ List.mem_cons_self
      rw [assignAll_cons_free hi ha, assignAll_cons_free hi ha, ih _ hlt h' rfl, hrest]

theorem mem_congr_of_eraseDups (h : m'.items.eraseDups = m.items.eraseDups) (i : ItemId) :
    i ∈ m'.items ↔ i ∈ m.items := by
  rw [← List.mem_eraseDups, h, List.mem_eraseDups]

theorem spread_congr (h : Ready owned q) (hi : m'.items.eraseDups = m.items.eraseDups) :
    spread owned q m'.items = spread owned q m.items := by
  have hassign : assignAll owned q m'.items = assignAll owned q m.items := by
    rw [← assignAll_eraseDups h, hi, assignAll_eraseDups h]
  simp only [spread, hassign]

/-! ### Plans -/

/-- A plan is the same for two tables of the same workers that list the same for each registered one,
in whatever order and whatever others list, and for two memberships of the same workers that
register the same items for the first time in the same order. -/
theorem rebalance_reads_alike (hm : m.workers.isEmpty = false) (hk : t'.workers = t.workers)
    (hl : ∀ w ∈ m.workers, (t'.itemsFor w).Perm (t.itemsFor w)) (hw : m'.workers = m.workers)
    (hi : m'.items.eraseDups = m.items.eraseDups) :
    ∃ p, plan t m = .ok p ∧ plan t' m' = .ok p := by
  have hm' : m'.workers.isEmpty = false := by rw [hw, hm]
  have hsurvey : survey t' m'.items [] m'.workers.toList =
      survey t m.items [] m.workers.toList := by
    rw [survey_reordered hw (mem_congr_of_eraseDups hi)]
    exact survey_congr_perm hl
  have hholdings : holdings t' m' = holdings t m := congrArg (·.1) hsurvey
  have heq : planFor t' m' = planFor t m := by
    rw [planFor_eq, planFor_eq, held_congr hholdings, holdingsQueue_congr hholdings, hsurvey,
      spread_congr (ready_holdings hm) hi]
    simp only [hk, hw, containsWorker_congr hk]
  refine ⟨planFor t m, plan_eq hm, ?_⟩
  rw [plan_eq hm', heq]

/-- Two registered workers, one of them without order in its list, and one that is gone. -/
def rough : Table where
  owners :=
    { entries :=
        [(⟨1⟩, [⟨"gc", by decide⟩, ⟨"ga", by decide⟩, ⟨"gc", by decide⟩, ⟨"gx", by decide⟩]),
        (⟨2⟩, [⟨"gb", by decide⟩, ⟨"ga", by decide⟩]),
        (⟨9⟩, [⟨"gd", by decide⟩])]
      strict := by decide }

/-- The same lists turned around, but for the one of the worker that is gone. -/
def turned : Table where
  owners :=
    { entries :=
        [(⟨1⟩, [⟨"gx", by decide⟩, ⟨"gc", by decide⟩, ⟨"ga", by decide⟩, ⟨"gc", by decide⟩]),
        (⟨2⟩, [⟨"ga", by decide⟩, ⟨"gb", by decide⟩]),
        (⟨9⟩, [⟨"gb", by decide⟩, ⟨"ga", by decide⟩, ⟨"gb", by decide⟩])]
      strict := by decide }

def once : Membership where
  items := [⟨"ge", by decide⟩, ⟨"gb", by decide⟩, ⟨"gd", by decide⟩, ⟨"ga", by decide⟩,
    ⟨"gc", by decide⟩]
  workers := .ofList [⟨1⟩, ⟨2⟩, ⟨3⟩]

def again : Membership where
  items := [⟨"ge", by decide⟩, ⟨"gb", by decide⟩, ⟨"ge", by decide⟩, ⟨"gd", by decide⟩,
    ⟨"gb", by decide⟩, ⟨"ga", by decide⟩, ⟨"gc", by decide⟩, ⟨"ge", by decide⟩]
  workers := once.workers

/-- Workers come and go in this plan, and items are dropped and dealt out. -/
theorem turned_reads_alike : once.workers.isEmpty = false ∧ turned.workers = rough.workers ∧
    (∀ w ∈ once.workers, (turned.itemsFor w).Perm (rough.itemsFor w)) ∧
    again.workers = once.workers ∧ again.items.eraseDups = once.items.eraseDups ∧
    ∃ p, plan rough once = .ok p ∧ plan turned again = .ok p ∧
      p.stats = ⟨1, 1, 3, 2, 0, 0⟩ := by
  have hm : once.workers.isEmpty = false := by decide
  have hk : turned.workers = rough.workers := by decide
  have hl : ∀ w ∈ once.workers, (turned.itemsFor w).Perm (rough.itemsFor w) := by
    change ∀ w ∈ once.workers.toList, _
    decide
  have hi : again.items.eraseDups = once.items.eraseDups := by decide
  obtain ⟨p, hp, hp'⟩ := rebalance_reads_alike hm hk hl rfl hi
  refine ⟨hm, hk, hl, rfl, hi, p, hp, hp', ?_⟩
  obtain rfl := Except.ok.inj hp
  decide +kernel

end Roster.Planner
