import Roster.Diff
import Roster.Id
import Roster.Proofs.Ordered

/-! What a difference lists, and what carrying it out comes to. Both are told by membership alone. -/

namespace Roster.Diff

variable {α : Type} [Ord α] [Std.TransOrd α] [Std.LawfulEqOrd α] [DecidableEq α]
  {desired current : List α} {x : α}

theorem mem_toStart_iff : x ∈ (between desired current).toStart ↔ x ∈ desired ∧ x ∉ current := by
  rw [between, ← OrderedSet.mem_def, OrderedSet.mem_diff, OrderedSet.mem_ofList,
    OrderedSet.mem_ofList]

theorem mem_toStop_iff : x ∈ (between desired current).toStop ↔ x ∈ current ∧ x ∉ desired := by
  rw [between, ← OrderedSet.mem_def, OrderedSet.mem_diff, OrderedSet.mem_ofList,
    OrderedSet.mem_ofList]

theorem isEmpty_between_iff :
    (between desired current).isEmpty = true ↔ ∀ x, x ∈ desired ↔ x ∈ current := by
  simp only [isEmpty, Bool.and_eq_true, List.isEmpty_iff, List.eq_nil_iff_forall_not_mem,
    mem_toStart_iff, mem_toStop_iff, not_and, Decidable.not_not]
  exact ⟨fun h x => ⟨h.1 x, h.2 x⟩, fun h => ⟨fun x => (h x).1, fun x => (h x).2⟩⟩

omit [Std.TransOrd α] [Std.LawfulEqOrd α] [Ord α] [DecidableEq α] in
theorem status_eq_converged_iff (d : Diff α) : d.status = .converged ↔ d.isEmpty = true := by
  rw [status]
  split <;> simp_all

/-- Order and repeats in the two lists do not matter. -/
theorem between_congr {desired' current' : List α} (hd : ∀ x, x ∈ desired ↔ x ∈ desired')
    (hc : ∀ x, x ∈ current ↔ x ∈ current') :
    between desired current = between desired' current' := by
  have hof {l l' : List α} (h : ∀ x, x ∈ l ↔ x ∈ l') :
      OrderedSet.ofList l = OrderedSet.ofList l' :=
    OrderedSet.eq_of_mem_iff fun x => by rw [OrderedSet.mem_ofList, OrderedSet.mem_ofList, h]
  rw [between, hof hd, hof hc, between]

/-! ### Carrying a difference out -/

/-- What is to stop leaves a list, and what is to start comes in. -/
def appliedTo (d : Diff α) (l : List α) : List α := l.filter (· ∉ d.toStop) ++ d.toStart

/-- Carried out on one set, a difference makes it the other. -/
def Leads (d : Diff α) (current desired : List α) : Prop :=
  ∀ x, x ∈ d.appliedTo current ↔ x ∈ desired

omit [Ord α] [Std.TransOrd α] [Std.LawfulEqOrd α] in
theorem mem_appliedTo_iff {d : Diff α} {l : List α} :
    x ∈ d.appliedTo l ↔ x ∈ l ∧ x ∉ d.toStop ∨ x ∈ d.toStart := by
  rw [appliedTo, List.mem_append, List.mem_filter, decide_eq_true_iff]

theorem leads_between : (between desired current).Leads current desired := by
  intro x
  rw [mem_appliedTo_iff, mem_toStart_iff, mem_toStop_iff]
  by_cases hd : x ∈ desired <;> by_cases hc : x ∈ current <;> simp [hd, hc]

/-- Whatever leads from one set to the other starts and stops at least as much. -/
theorem Leads.between_subset {d : Diff α} (h : d.Leads current desired) :
    (between desired current).toStart ⊆ d.toStart ∧
      (between desired current).toStop ⊆ d.toStop := by
  constructor
  · intro x hx
    obtain ⟨hd, hc⟩ := mem_toStart_iff.1 hx
    exact (mem_appliedTo_iff.1 ((h x).2 hd)).resolve_left fun hkept => hc hkept.1
  · intro x hx
    obtain ⟨hc, hd⟩ := mem_toStop_iff.1 hx
    refine Decidable.byContradiction fun hkept => hd ((h x).1 ?_)
    exact mem_appliedTo_iff.2 (.inl ⟨hc, hkept⟩)

/-- The difference of two sets is the least change from one to the other. Both of its lists ascend
strictly; what is to start is none of what is there, and what is to stop is. It leads to the desired
set, and whatever else does so starts and stops all of this as well. It depends on the two sets
alone and changes sides with them, and it is empty, or converged, exactly if they are the same. -/
theorem least_change (desired current : List α) :
    (Ordered.Strict (between desired current).toStart ∧
      Ordered.Strict (between desired current).toStop) ∧
    (∀ x ∈ (between desired current).toStart, x ∉ (between desired current).toStop) ∧
    (∀ x ∈ (between desired current).toStart, x ∉ current) ∧
    (∀ x ∈ (between desired current).toStop, x ∈ current) ∧
    (between desired current).Leads current desired ∧
    (∀ d : Diff α, d.Leads current desired →
      (between desired current).toStart ⊆ d.toStart ∧
        (between desired current).toStop ⊆ d.toStop) ∧
    (∀ desired' current' : List α, (∀ x, x ∈ desired ↔ x ∈ desired') →
      (∀ x, x ∈ current ↔ x ∈ current') →
        between desired' current' = between desired current) ∧
    between current desired =
      ⟨(between desired current).toStop, (between desired current).toStart⟩ ∧
    ((between desired current).isEmpty = true ↔ ∀ x, x ∈ desired ↔ x ∈ current) ∧
    ((between desired current).status = .converged ↔ ∀ x, x ∈ desired ↔ x ∈ current) := by
  refine ⟨⟨OrderedSet.strict _, OrderedSet.strict _⟩, ?_, ?_, ?_, leads_between,
    fun d hd => hd.between_subset, fun _ _ hd hc => (between_congr hd hc).symm, rfl,
    isEmpty_between_iff, (status_eq_converged_iff _).trans isEmpty_between_iff⟩
  · intro x hstart hstop
    exact (mem_toStart_iff.1 hstart).2 (mem_toStop_iff.1 hstop).1
  · intro x hstart hc
    exact (mem_toStart_iff.1 hstart).2 hc
  · intro x hstop
    exact (mem_toStop_iff.1 hstop).1

theorem least_change_of_repeats :
    let za : ItemId := ⟨"za", by decide⟩
    let zb : ItemId := ⟨"zb", by decide⟩
    let zc : ItemId := ⟨"zc", by decide⟩
    let zd : ItemId := ⟨"zd", by decide⟩
    between [zc, zb, za, zb] [zb, zd, zb] = ⟨[za, zc], [zd]⟩ ∧
      between [zb, zd, zb] [zc, zb, za, zb] = ⟨[zd], [za, zc]⟩ ∧
      (⟨[za, zc], [zd]⟩ : Diff ItemId).Leads [zb, zd, zb] [zc, zb, za, zb] := by
  intro za zb zc zd
  have heq : between [zc, zb, za, zb] [zb, zd, zb] = ⟨[za, zc], [zd]⟩ := by decide
  obtain ⟨-, -, -, -, hleads, -, -, hswap, -⟩ := least_change [zc, zb, za, zb] [zb, zd, zb]
  rw [heq] at hleads hswap
  exact ⟨heq, hswap, hleads⟩

end Roster.Diff
