import Mathlib.Data.List.Forall2
import Roster.Proofs.Ordered

/-! Lists of elements that stand for one another. Where a relation between two types of elements
keeps their order, lists of related elements are sorted, searched and compared alike. -/

namespace Roster

open List Relator

/-- Pairs of which the first parts are related by `R` and the second ones by `S`. -/
structure Both {α β γ δ : Type} (R : α → β → Prop) (S : γ → δ → Prop) (p : α × γ) (q : β × δ) :
    Prop where
  fst : R p.1 q.1
  snd : S p.2 q.2

section Ends

variable {α β : Type} {R : α → β → Prop}

theorem rel_head? : (Forall₂ R ⇒ Option.Rel R) head? head? := by
  intro l k h
  cases h with
  | nil => exact .none
  | cons hab h => exact .some hab

theorem rel_getLast? : (Forall₂ R ⇒ Option.Rel R) getLast? getLast? := by
  intro l k h
  rw [getLast?_eq_head?_reverse, getLast?_eq_head?_reverse]
  exact rel_head? (rel_reverse h)

theorem rel_tail : (Forall₂ R ⇒ Forall₂ R) tail tail := by
  intro l k h
  rw [← drop_one, ← drop_one]
  exact forall₂_drop 1 h

theorem rel_dropLast : (Forall₂ R ⇒ Forall₂ R) dropLast dropLast := by
  intro l k h
  rw [dropLast_eq_take, dropLast_eq_take, h.length_eq]
  exact forall₂_take _ h

theorem rel_any {p : α → Bool} {q : β → Bool} (hpq : (R ⇒ Eq) p q) :
    (Option.Rel R ⇒ Eq) (Option.any p) (Option.any q) := by
  intro a b h
  cases h with
  | none => rfl
  | some hab => exact hpq hab

end Ends

namespace Ordered

variable {α β : Type} [Ord α] [Ord β] {R : α → β → Prop}

/-- Two elements compare as those do that they are related to. -/
def Faithful (R : α → β → Prop) : Prop := (R ⇒ R ⇒ Eq) compare compare

namespace Faithful

theorem biUnique [Std.TransOrd α] [Std.LawfulEqOrd α] [Std.TransOrd β] [Std.LawfulEqOrd β]
    (h : Faithful R) : BiUnique R := by
  constructor
  · intro a b c hac hbc
    rw [← Std.compare_eq_iff_eq, h hac hbc, Std.compare_self]
  · intro a b c hab hac
    rw [← Std.compare_eq_iff_eq, ← h hab hac, Std.compare_self]

theorem place (h : Faithful R) : (R ⇒ Forall₂ R ⇒ Forall₂ R) place place := by
  intro a b hab l k hlk
  induction hlk with
  | nil => exact .cons hab .nil
  | @cons c d l k hcd hlk ih =>
    rw [Ordered.place, Ordered.place, h hab hcd]
    cases compare b d with
    | lt => exact .cons hab (.cons hcd hlk)
    | eq => exact .cons hab (.cons hcd hlk)
    | gt => exact .cons hcd ih

theorem sort (h : Faithful R) : (Forall₂ R ⇒ Forall₂ R) sort sort := by
  intro l k hlk
  exact rel_foldr h.place .nil hlk

theorem insert (h : Faithful R) : (R ⇒ Forall₂ R ⇒ Forall₂ R) insert insert := by
  intro a b hab l k hlk
  induction hlk with
  | nil => exact .cons hab .nil
  | @cons c d l k hcd hlk ih =>
    rw [Ordered.insert, Ordered.insert, h hab hcd]
    cases compare b d with
    | lt => exact .cons hab (.cons hcd hlk)
    | eq => exact .cons hcd hlk
    | gt => exact .cons hcd ih

theorem sortOnce (h : Faithful R) : (Forall₂ R ⇒ Forall₂ R) sortOnce sortOnce := by
  intro l k hlk
  exact rel_foldr h.insert .nil hlk

/-- Lists compare by their first elements that differ, so those of related elements compare alike
too. -/
theorem lists (h : Faithful R) : Faithful (Forall₂ R) := by
  intro l k hlk
  induction hlk with
  | nil =>
    intro l' k' hlk'
    cases hlk' <;> rfl
  | cons hab hlk ih =>
    intro l' k' hlk'
    cases hlk' with
    | nil => rfl
    | cons hcd hlk' => rw [List.compare_cons_cons, List.compare_cons_cons, h hab hcd, ih hlk']

end Faithful

end Ordered

namespace OrderedMap

variable {κ μ ν ξ : Type} [Ord κ] [Ord μ] [DecidableEq κ] [DecidableEq μ] [Std.TransOrd κ]
  [Std.TransOrd μ] [Std.LawfulEqOrd κ] [Std.LawfulEqOrd μ] {R : κ → μ → Prop} {S : ν → ξ → Prop}

theorem rel_lookup (h : Ordered.Faithful R) :
    (R ⇒ Forall₂ (Both R S) ⇒ Option.Rel S) lookup lookup := by
  intro j k hjk es fs hef
  induction hef with
  | nil => exact .none
  | @cons e f es fs hef _ ih =>
    rw [lookup_cons_if, lookup_cons_if]
    by_cases hj : j = e.1
    · have hk : k = f.1 := (rel_eq h.biUnique hjk hef.fst).1 hj
      rw [if_pos hj, if_pos hk]
      exact .some hef.snd
    · have hk : k ≠ f.1 := fun hk => hj ((rel_eq h.biUnique hjk hef.fst).2 hk)
      rw [if_neg hj, if_neg hk]
      exact ih

end OrderedMap

end Roster
