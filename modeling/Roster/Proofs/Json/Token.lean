import Mathlib.Data.List.Basic
import Roster.Id
import Roster.Json.Token
import Roster.Proofs.Json.Literal
import Roster.Proofs.Text.Decimal

/-! The tokens of what is written. A literal is one token whatever characters it stands for, and so
is a numeral. -/

namespace Roster.Json

variable {c e : Char} {raw cs rest : List Char}

theorem scan_cons (s : Scan) (c : Char) (cs : List Char) :
    scan s (c :: cs) = (s.step c).1 ++ scan (s.step c).2 cs := rfl

theorem scan_mark (h : isMark c = true) (hspace : isSpace c = false) (hquote : c ≠ '"') :
    scan .between (c :: rest) = .mark c :: scan .between rest := by
  simp [scan_cons, Scan.step, Scan.enter, h, hspace, hquote]

/-! ### Literals -/

theorem scan_plain (hquote : c ≠ '"') (hslash : c ≠ '\\') :
    scan (.inText raw) (c :: rest) = scan (.inText (c :: raw)) rest := by
  simp [scan_cons, Scan.step, hquote, hslash]

theorem scan_escape :
    scan (.inText raw) ('\\' :: e :: rest) = scan (.inText (e :: '\\' :: raw)) rest := by
  simp [scan_cons, Scan.step]

theorem hexDigit_ne (n : Nat) : Text.hexDigit n ≠ '"' ∧ Text.hexDigit n ≠ '\\' := by
  have hdigit : ∀ k < 16, k.digitChar ≠ '"' ∧ k.digitChar ≠ '\\' := by decide
  exact hdigit (n % 16) (Nat.mod_lt n (by decide))

/-- No character ends the literal that it is written in. -/
theorem scan_escapeChar (c : Char) (raw rest : List Char) :
    scan (.inText raw) (escapeChar c ++ rest) =
      scan (.inText ((escapeChar c).reverse ++ raw)) rest := by
  generalize escapeChar c = written, escapes_escapeChar c = h
  cases h with
  | plain hquote hslash hcontrol => exact scan_plain hquote hslash
  | simple h => exact scan_escape
  | number h =>
    obtain ⟨hq, hs⟩ := hexDigit_ne (c.toNat / 16)
    obtain ⟨hq', hs'⟩ := hexDigit_ne c.toNat
    simp only [List.cons_append, List.nil_append]
    rw [scan_escape, scan_plain (by decide) (by decide), scan_plain (by decide) (by decide),
      scan_plain hq hs, scan_plain hq' hs']
    rfl

theorem scan_flatMap_escapeChar (cs raw rest : List Char) :
    scan (.inText raw) (cs.flatMap escapeChar ++ rest) =
      scan (.inText ((cs.flatMap escapeChar).reverse ++ raw)) rest := by
  induction cs generalizing raw with
  | nil => rfl
  | cons c cs ih =>
    rw [List.flatMap_cons, List.append_assoc, scan_escapeChar, ih, List.reverse_append,
      List.append_assoc]

theorem scan_literal (s : String) (rest : List Char) :
    scan .between (literal s ++ rest) = .text (escaped s) :: scan .between rest := by
  have hopen : scan .between ('"' :: (escaped s ++ '"' :: rest)) =
      scan (.inText []) (escaped s ++ '"' :: rest) := rfl
  have hclose : scan (.inText (escaped s).reverse) ('"' :: rest) =
      .text (escaped s) :: scan .between rest := by
    simp [scan_cons, Scan.step]
  have hinside := scan_flatMap_escapeChar s.toList [] ('"' :: rest)
  rw [List.append_nil] at hinside
  have hwhole : literal s ++ rest = '"' :: (escaped s ++ '"' :: rest) := by
    simp [literal, escaped]
  rw [hwhole, hopen, ← hclose]
  exact hinside

/-! ### Numerals -/

theorem ne_of_isDigit {d : Char} (h : c.isDigit = true) (hd : d.isDigit = false) : c ≠ d := by
  rintro rfl
  rw [h] at hd
  contradiction

theorem isSpace_of_isDigit (h : c.isDigit = true) : isSpace c = false := by
  have hne (d : Char) (hd : d.isDigit = false) : (c = d) = False := eq_false (ne_of_isDigit h hd)
  simp only [isSpace, hne ' ' rfl, hne '\t' rfl, hne '\n' rfl, hne '\r' rfl]
  rfl

theorem isMark_of_isDigit (h : c.isDigit = true) : isMark c = false := by
  have hne (d : Char) (hd : d.isDigit = false) : (c = d) = False := eq_false (ne_of_isDigit h hd)
  simp only [isMark, hne '\x7b' rfl, hne '\x7d' rfl, hne '[' rfl, hne ']' rfl, hne ',' rfl,
    hne ':' rfl]
  rfl

theorem escapeChar_of_isDigit (h : c.isDigit = true) : escapeChar c = [c] := by
  have hlow : 0x30 ≤ c.toNat := by
    simp only [Char.isDigit, Bool.and_eq_true, decide_eq_true_eq] at h
    exact h.1
  generalize escapeChar c = written, escapes_escapeChar c = hescapes
  cases hescapes with
  | plain _ _ _ => rfl
  | @simple e he =>
    unfold simpleEscape? at he
    split at he <;> cases he <;> contradiction
  | number hcontrol => omega

/-- A numeral needs no escapes. -/
theorem escaped_text (w : WorkerId) : escaped w.text = Decimal.write w.value.toNat := by
  have hdigits : ∀ c ∈ Decimal.write w.value.toNat, escapeChar c = [c] := fun c hc =>
    escapeChar_of_isDigit (Decimal.isDigit_of_mem_write hc)
  rw [escaped, WorkerId.text, String.toList_ofList, List.flatMap_congr hdigits]
  exact List.flatMap_singleton' _

theorem scan_word (h : ∀ c ∈ cs, c.isDigit = true) :
    scan (.inWord raw) cs = [.word (raw.reverse ++ cs)] := by
  induction cs generalizing raw with
  | nil => simp [scan, Scan.finish]
  | cons c cs ih =>
    have hc := h c List.mem_cons_self
    have hquote : c ≠ '"' := ne_of_isDigit hc rfl
    rw [scan_cons]
    simp only [Scan.step, isSpace_of_isDigit hc, isMark_of_isDigit hc, hquote, decide_false,
      Bool.or_false, Bool.false_eq_true, if_false, List.nil_append]
    rw [ih fun d hd => h d (List.mem_cons_of_mem c hd)]
    simp

theorem tokens_text (w : WorkerId) : tokens w.text = [.word (Decimal.write w.value.toNat)] := by
  have hdigits : ∀ c ∈ Decimal.write w.value.toNat, c.isDigit = true := fun _ hc =>
    Decimal.isDigit_of_mem_write hc
  rw [tokens, WorkerId.text, String.toList_ofList]
  cases hcs : Decimal.write w.value.toNat with
  | nil => exact absurd hcs Decimal.write_ne_nil
  | cons c cs =>
    rw [hcs] at hdigits
    have hc := hdigits c List.mem_cons_self
    have hquote : c ≠ '"' := ne_of_isDigit hc rfl
    rw [scan_cons]
    simp only [Scan.step, Scan.enter, isSpace_of_isDigit hc, isMark_of_isDigit hc, hquote,
      Bool.false_eq_true, if_false, List.nil_append]
    exact scan_word fun d hd => hdigits d (List.mem_cons_of_mem c hd)

end Roster.Json
