import Roster.Json.Literal

/-! String literals are read back as they were written. Every character is written in one of three
ways, and both the scan for the closing quote and the reading of escapes follow these. -/

namespace Roster.Json

/-- How a character is written within a literal. -/
inductive Escapes : Char → List Char → Prop
  | plain {c : Char} (hquote : c ≠ '"') (hslash : c ≠ '\\') (hcontrol : 0x20 ≤ c.toNat) :
      Escapes c [c]
  | simple {c e : Char} (h : simpleEscape? e = some c) : Escapes c ['\\', e]
  | number {c : Char} (h : c.toNat < 0x20) :
      Escapes c ['\\', 'u', '0', '0', Text.hexDigit (c.toNat / 16), Text.hexDigit c.toNat]

theorem escapes_escapeChar (c : Char) : Escapes c (escapeChar c) := by
  unfold escapeChar
  split
  case h_8 hquote hslash _ _ _ _ _ =>
    split
    · next h => exact .number h
    · next h => exact .plain hquote hslash (by omega)
  all_goals exact .simple rfl

/-! ### Reading escapes -/

variable {c e : Char} {rest : List Char}

theorem unescape?_plain (hslash : c ≠ '\\') (hcontrol : 0x20 ≤ c.toNat) :
    unescape? (c :: rest) = (unescape? rest).map (c :: ·) := by
  have hnot : ¬((decide (c = '\\') || decide (c.toNat < 0x20)) = true) := by
    simp [hslash, hcontrol]
  rw [unescape?.eq_4 c rest (fun _ _ _ _ _ hc _ => hslash hc) (fun _ _ hc _ => hslash hc),
    if_neg hnot]
  cases unescape? rest <;> rfl

theorem unescape?_simple (h : simpleEscape? e = some c) :
    unescape? ('\\' :: e :: rest) = (unescape? rest).map (c :: ·) := by
  have hu : e ≠ 'u' := by
    rintro rfl
    cases h
  rw [unescape?.eq_3 e rest (fun _ _ _ _ _ he _ => hu he), h]
  cases unescape? rest <;> rfl

theorem unit?_of_control :
    ∀ n < 0x20, unit? '0' '0' (Text.hexDigit (n / 16)) (Text.hexDigit n) = some n := by
  decide

theorem unescape?_number (h : c.toNat < 0x20) :
    unescape? ('\\' :: 'u' :: '0' :: '0' :: Text.hexDigit (c.toNat / 16) ::
      Text.hexDigit c.toNat :: rest) = (unescape? rest).map (c :: ·) := by
  have hhigh : isHighHalf c.toNat = false := by
    simp only [isHighHalf, Bool.and_eq_false_iff, decide_eq_false_iff_not]
    omega
  have hlow : isLowHalf c.toNat = false := by
    simp only [isLowHalf, Bool.and_eq_false_iff, decide_eq_false_iff_not]
    omega
  rw [unescape?.eq_2, unit?_of_control c.toNat h]
  simp only [Option.bind_eq_bind, Option.bind_some, hhigh, hlow, Char.ofNat_toNat]
  cases unescape? rest <;> rfl

/-- What is written for a character is read as that character. -/
theorem unescape?_escapeChar (c : Char) (rest : List Char) :
    unescape? (escapeChar c ++ rest) = (unescape? rest).map (c :: ·) := by
  generalize escapeChar c = written, escapes_escapeChar c = h
  cases h with
  | plain hquote hslash hcontrol => exact unescape?_plain hslash hcontrol
  | simple h => exact unescape?_simple h
  | number h => exact unescape?_number h

/-- What stands between the quotes of the literal. -/
def escaped (s : String) : List Char := s.toList.flatMap escapeChar

theorem unescape?_escaped (s : String) : unescape? (escaped s) = some s.toList := by
  unfold escaped
  induction s.toList with
  | nil => rfl
  | cons c cs ih => rw [List.flatMap_cons, unescape?_escapeChar, ih, Option.map_some]

/-- Only an empty literal is read as the empty text. -/
theorem unescape?_eq_some_nil_iff {raw : List Char} : unescape? raw = some [] ↔ raw = [] := by
  fun_cases unescape? raw with
  | case1 => simp
  | case2 a b c d rest =>
    cases hn : unit? a b c d with
    | none => simp
    | some n =>
      simp only [Option.bind_eq_bind, Option.bind_some]
      split
      · split
        · simp [Option.bind_eq_some_iff]
        · simp
      · simp [Option.bind_eq_some_iff]
  | case3 c rest _ => simp [Option.bind_eq_some_iff]
  | case4 c rest _ _ h => simp
  | case5 c rest _ _ h => simp [Option.bind_eq_some_iff]

end Roster.Json
