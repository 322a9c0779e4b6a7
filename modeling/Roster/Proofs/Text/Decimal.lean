import Mathlib.Data.List.Basic
import Mathlib.Data.List.Induction
import Roster.Text.Decimal

/-! Decimal numerals. What is read are exactly the numerals of numbers below the limit, and of any
other text the first fault is named. A numeral is what is written for its number, but for a sign and
zeros before it. -/

namespace Roster.Decimal

variable {c : Char} {cs ds : List Char} {limit acc n : Nat}

theorem digit?_of_isDigit (h : c.isDigit = true) : digit? c = some (c.toNat - '0'.toNat) := by
  simp only [Char.isDigit, ge_iff_le, Bool.and_eq_true, decide_eq_true_eq] at h
  exact if_pos h

theorem digit?_of_not_isDigit (h : c.isDigit = false) : digit? c = none := by
  refine if_neg fun hc => ?_
  simp only [Char.isDigit, ge_iff_le, Bool.and_eq_false_iff, decide_eq_false_iff_not] at h
  exact h.elim (fun hlow => hlow hc.1) fun hhigh => hhigh hc.2

theorem isDigit_of_mem_write (h : c ∈ write n) : c.isDigit = true :=
  Nat.isDigit_of_mem_toDigits (by decide) (by decide) h

theorem write_ne_nil : write n ≠ [] := Nat.toDigits_ne_nil

theorem le_ofDigitChars (acc : Nat) (cs : List Char) : acc ≤ Nat.ofDigitChars 10 cs acc := by
  induction cs generalizing acc with
  | nil => exact Nat.le_refl acc
  | cons c cs ih =>
    rw [Nat.ofDigitChars_cons]
    exact Nat.le_trans (by omega) (ih _)

/-- What comes first and gives a number below the limit is read before the rest. -/
theorem readFrom_append (hd : ∀ c ∈ ds, c.isDigit = true)
    (hlt : Nat.ofDigitChars 10 ds acc < limit) (cs : List Char) :
    readFrom limit acc (ds ++ cs) = readFrom limit (Nat.ofDigitChars 10 ds acc) cs := by
  induction ds generalizing acc with
  | nil => rfl
  | cons d ds ih =>
    rw [Nat.ofDigitChars_cons, Nat.mul_comm] at hlt ⊢
    have hdigit := digit?_of_isDigit (hd d List.mem_cons_self)
    have hle := le_ofDigitChars (acc * 10 + (d.toNat - '0'.toNat)) ds
    simp only [List.cons_append, readFrom, hdigit]
    rw [if_pos (by omega)]
    exact ih (fun e he => hd e (List.mem_cons_of_mem d he)) hlt

/-- Reading stops at no digit if the number that all of them give is below the limit. -/
theorem readFrom_eq_ok (hd : ∀ c ∈ cs, c.isDigit = true)
    (hlt : Nat.ofDigitChars 10 cs acc < limit) :
    readFrom limit acc cs = .ok (Nat.ofDigitChars 10 cs acc) := by
  rw [← List.append_nil cs, readFrom_append hd hlt, List.append_nil]
  rfl

theorem readFrom_write (h : n < limit) : readFrom limit 0 (write n) = .ok n := by
  have hn : Nat.ofDigitChars 10 (write n) 0 = n := Nat.ofDigitChars_ten_toDigits
  have hread : readFrom limit 0 (write n) = .ok (Nat.ofDigitChars 10 (write n) 0) :=
    readFrom_eq_ok (fun _ hc => isDigit_of_mem_write hc) (by rw [hn]; exact h)
  rwa [hn] at hread

/-- A number other than 0 is written without leading zeros. -/
theorem head?_write_ne (h : n ≠ 0) : (write n).head? ≠ some '0' := by
  induction n using Nat.strongRecOn with
  | _ n ih =>
    by_cases hlt : n < 10
    · have hdigit : ∀ n < 10, n ≠ 0 → n.digitChar ≠ '0' := by decide
      rw [write, Nat.toDigits_of_lt_base hlt, List.head?_cons, ne_eq, Option.some.injEq]
      exact hdigit n hlt h
    · rw [write, Nat.toDigits_of_base_le (by decide) (by omega),
        List.head?_append_of_ne_nil _ Nat.toDigits_ne_nil]
      exact ih (n / 10) (by omega) (by omega)

/-! ### Which texts are numerals -/

/-- One digit or more, with the value `n`. -/
structure Digits (ds : List Char) (n : Nat) : Prop where
  ne_nil : ds ≠ []
  isDigit : ∀ c ∈ ds, c.isDigit = true
  value : Nat.ofDigitChars 10 ds 0 = n

/-- A numeral of `n`: a plus sign or none, then digits, with any number of leading zeros. -/
def Denotes (cs : List Char) (n : Nat) : Prop :=
  ∃ sign ds, cs = sign ++ ds ∧ (sign = [] ∨ sign = ['+']) ∧ Digits ds n

/-- What is to be digits. A sign alone is no sign. -/
def body : List Char → List Char
  | '+' :: c :: cs => c :: cs
  | cs => cs

theorem read_eq (h : cs ≠ []) : read limit cs = readFrom limit 0 (body cs) := by
  unfold read body
  split
  · exact absurd rfl h
  · rfl
  · next hsign =>
    split
    · next => exact absurd rfl (hsign _ _)
    · rfl

theorem Digits.ne_plus (h : Digits ds n) (cs : List Char) : ds ≠ '+' :: cs := by
  rintro rfl
  exact absurd (h.isDigit '+' List.mem_cons_self) (by decide)

theorem body_eq_nil_iff : body cs = [] ↔ cs = [] := by
  unfold body
  split <;> simp

theorem ne_nil_of_body {rest : List Char} (h : body cs = ds ++ c :: rest) : cs ≠ [] := by
  rintro rfl
  simp [body] at h

theorem Digits.body_eq (h : Digits ds n) : body ds = ds := by
  unfold body
  split
  · exact absurd rfl (h.ne_plus _)
  · rfl

theorem denotes_iff : Denotes cs n ↔ Digits (body cs) n := by
  constructor
  · rintro ⟨sign, ds, rfl, rfl | rfl, h⟩
    · rwa [List.nil_append, h.body_eq]
    · obtain ⟨c, rest, rfl⟩ := List.exists_cons_of_ne_nil h.ne_nil
      exact h
  · intro h
    unfold body at h
    split at h
    · exact ⟨['+'], _, rfl, .inr rfl, h⟩
    · exact ⟨[], _, rfl, .inl rfl, h⟩

theorem digits_of_readFrom (h : readFrom limit acc cs = .ok n) :
    (∀ c ∈ cs, c.isDigit = true) ∧ Nat.ofDigitChars 10 cs acc = n ∧ (cs ≠ [] → n < limit) := by
  induction cs generalizing acc with
  | nil =>
    cases h
    exact ⟨fun c hc => absurd hc List.not_mem_nil, rfl, fun hne => absurd rfl hne⟩
  | cons c cs ih =>
    cases hc : c.isDigit with
    | false => simp [readFrom, digit?_of_not_isDigit hc] at h
    | true =>
      simp only [readFrom, digit?_of_isDigit hc] at h
      split at h
      · next hlt =>
        obtain ⟨hd, hvalue, hbound⟩ := ih h
        rw [Nat.ofDigitChars_cons, Nat.mul_comm]
        refine ⟨List.forall_mem_cons.2 ⟨hc, hd⟩, hvalue, fun _ => ?_⟩
        cases cs with
        | nil => exact hvalue ▸ hlt
        | cons d ds => exact hbound (List.cons_ne_nil d ds)
      · cases h

/-- What is read are the numerals of numbers below the limit. -/
theorem read_eq_ok_iff : read limit cs = .ok n ↔ Denotes cs n ∧ n < limit := by
  rw [denotes_iff]
  constructor
  · intro h
    have hne : cs ≠ [] := by
      rintro rfl
      cases h
    rw [read_eq hne] at h
    obtain ⟨hd, hvalue, hbound⟩ := digits_of_readFrom h
    have hbody := mt body_eq_nil_iff.1 hne
    exact ⟨⟨hbody, hd, hvalue⟩, hbound hbody⟩
  · rintro ⟨⟨hne, hd, rfl⟩, hlt⟩
    rw [read_eq (mt body_eq_nil_iff.2 hne)]
    exact readFrom_eq_ok hd hlt

/-! ### What is wrong with other texts -/

/-- The first fault from the left, while the digits before it give a number below the limit. -/
inductive Refused (limit : Nat) (cs : List Char) : Fault → Prop
  | empty (h : cs = []) : Refused limit cs .empty
  | invalidDigit {ds rest : List Char} {c : Char} (h : body cs = ds ++ c :: rest)
      (hd : ∀ d ∈ ds, d.isDigit = true) (hlt : Nat.ofDigitChars 10 ds 0 < limit)
      (hc : c.isDigit = false) : Refused limit cs .invalidDigit
  | tooLarge {ds rest : List Char} {c : Char} (h : body cs = ds ++ c :: rest)
      (hd : ∀ d ∈ ds, d.isDigit = true) (hlt : Nat.ofDigitChars 10 ds 0 < limit)
      (hc : c.isDigit = true) (hle : limit ≤ Nat.ofDigitChars 10 (ds ++ [c]) 0) :
      Refused limit cs .tooLarge

/-- Where reading ends early, it ends at a character that is no digit or takes the number past the
limit. -/
theorem exists_of_readFrom {f : Fault} (hacc : acc < limit)
    (h : readFrom limit acc cs = .error f) : ∃ ds c rest, cs = ds ++ c :: rest ∧
      (∀ d ∈ ds, d.isDigit = true) ∧ Nat.ofDigitChars 10 ds acc < limit ∧
      (c.isDigit = false ∧ f = .invalidDigit ∨
        c.isDigit = true ∧ limit ≤ Nat.ofDigitChars 10 (ds ++ [c]) acc ∧ f = .tooLarge) := by
  induction cs generalizing acc with
  | nil => cases h
  | cons c cs ih =>
    have here : ∀ d ∈ ([] : List Char), d.isDigit = true := by simp
    cases hc : c.isDigit with
    | false =>
      simp only [readFrom, digit?_of_not_isDigit hc, Except.error.injEq] at h
      exact ⟨[], c, cs, rfl, here, hacc, .inl ⟨hc, h.symm⟩⟩
    | true =>
      simp only [readFrom, digit?_of_isDigit hc] at h
      split at h
      · next hlt =>
        obtain ⟨ds, e, rest, rfl, hd, hbelow, hfault⟩ := ih hlt h
        rw [Nat.mul_comm] at hbelow hfault
        exact ⟨c :: ds, e, rest, rfl, List.forall_mem_cons.2 ⟨hc, hd⟩, hbelow, hfault⟩
      · next hge =>
        cases h
        refine ⟨[], c, cs, rfl, here, hacc, .inr ⟨hc, ?_, rfl⟩⟩
        simp only [List.nil_append, Nat.ofDigitChars_cons, Nat.ofDigitChars_nil]
        omega

theorem read_eq_error_iff {f : Fault} (hpos : 0 < limit) :
    read limit cs = .error f ↔ Refused limit cs f := by
  constructor
  · intro h
    by_cases hne : cs = []
    · subst hne
      cases h
      exact .empty rfl
    · rw [read_eq hne] at h
      obtain ⟨ds, c, rest, hbody, hd, hlt, ⟨hc, rfl⟩ | ⟨hc, hle, rfl⟩⟩ := exists_of_readFrom hpos h
      · exact .invalidDigit hbody hd hlt hc
      · exact .tooLarge hbody hd hlt hc hle
  · intro h
    cases h with
    | empty h => rw [h]; rfl
    | invalidDigit h hd hlt hc =>
      rw [read_eq (ne_nil_of_body h), h, readFrom_append hd hlt]
      simp only [readFrom, digit?_of_not_isDigit hc]
    | tooLarge h hd hlt hc hle =>
      rw [read_eq (ne_nil_of_body h), h, readFrom_append hd hlt]
      rw [Nat.ofDigitChars_append, Nat.ofDigitChars_cons, Nat.ofDigitChars_nil, Nat.mul_comm] at hle
      simp only [readFrom, digit?_of_isDigit hc]
      rw [if_neg (by omega)]

theorem Refused.eq_empty_iff {f : Fault} (h : Refused limit cs f) : f = .empty ↔ cs = [] := by
  cases h with
  | empty h => exact iff_of_true rfl h
  | invalidDigit h => exact iff_of_false (by simp) (ne_nil_of_body h)
  | tooLarge h => exact iff_of_false (by simp) (ne_nil_of_body h)

/-! ### Written numerals -/

theorem digits_write (n : Nat) : Digits (write n) n :=
  ⟨write_ne_nil, fun _ hc => isDigit_of_mem_write hc, Nat.ofDigitChars_ten_toDigits⟩

theorem toNat_sub_lt (h : c.isDigit = true) : c.toNat - '0'.toNat < 10 := by
  simp only [Char.isDigit, ge_iff_le, Bool.and_eq_true, decide_eq_true_eq] at h
  have hhigh : c.toNat ≤ '0'.toNat + 9 := h.2
  omega

theorem digitChar_toNat_sub (h : c.isDigit = true) : (c.toNat - '0'.toNat).digitChar = c := by
  have hdigit : ∀ n < 10, n.digitChar.toNat = n + '0'.toNat := by decide
  rw [← Char.toNat_inj, hdigit _ (toNat_sub_lt h)]
  simp only [Char.isDigit, ge_iff_le, Bool.and_eq_true, decide_eq_true_eq] at h
  have hlow : '0'.toNat ≤ c.toNat := h.1
  omega

theorem write_digit (h : c.isDigit = true) : write (c.toNat - '0'.toNat) = [c] := by
  rw [write, Nat.toDigits_of_lt_base (toNat_sub_lt h), digitChar_toNat_sub h]

/-- One more digit on the right goes with ten times the number. -/
theorem write_push (hn : n ≠ 0) (h : c.isDigit = true) :
    write (10 * n + (c.toNat - '0'.toNat)) = write n ++ [c] := by
  have hlt := toNat_sub_lt h
  have hdiv : (10 * n + (c.toNat - '0'.toNat)) / 10 = n := by omega
  have hmod : (10 * n + (c.toNat - '0'.toNat)) % 10 = c.toNat - '0'.toNat := by omega
  rw [write, Nat.toDigits_of_base_le (by decide) (by omega), hdiv, hmod, digitChar_toNat_sub h,
    write]

/-- Digits are zeros and then what is written for their value. -/
theorem exists_zeros (hne : ds ≠ []) (hd : ∀ c ∈ ds, c.isDigit = true) :
    ∃ k, ds = List.replicate k '0' ++ write (Nat.ofDigitChars 10 ds 0) := by
  induction ds using List.reverseRecOn with
  | nil => exact absurd rfl hne
  | append_singleton ds c ih =>
    have hc := hd c (by simp)
    rw [Nat.ofDigitChars_append, Nat.ofDigitChars_cons, Nat.ofDigitChars_nil]
    by_cases hnil : ds = []
    · subst hnil
      rw [Nat.ofDigitChars_nil, Nat.mul_zero, Nat.zero_add, write_digit hc]
      exact ⟨0, rfl⟩
    · obtain ⟨k, hk⟩ := ih hnil fun d hmem => hd d (by simp [hmem])
      by_cases hzero : Nat.ofDigitChars 10 ds 0 = 0
      · -- All digits before the last one are zeros.
        have hwrite : write 0 = ['0'] := rfl
        rw [hzero, hwrite, ← List.replicate_succ'] at hk
        rw [hzero, Nat.mul_zero, Nat.zero_add, write_digit hc]
        exact ⟨k + 1, congrArg (· ++ [c]) hk⟩
      · rw [write_push hzero hc]
        refine ⟨k, ?_⟩
        rw [← List.append_assoc, ← hk]

end Roster.Decimal
