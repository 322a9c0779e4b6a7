import Mathlib.Algebra.Group.Nat.Defs
import Mathlib.Tactic.SplitIfs
import Roster.Id
import Roster.Proofs.Ordered.Lexicographic
import Roster.Proofs.Text.Bytes

/-! Texts in order. The first byte of a code point tells how many follow and holds its greatest
digits to base 64, each following byte holds the next digit; so greater code points have greater
encodings, and texts come in the same order by their characters, code points and bytes. -/

namespace Roster

namespace Text
open Ordered

/-! ### One code point -/

variable {m n k : Nat}

/-- How many bytes come after the first one. -/
def followers (n : Nat) : Nat :=
  if n ≤ 127 then 0 else if n ≤ 2047 then 1 else if n ≤ 65535 then 2 else 3

/-- The first byte. -/
def lead (n : Nat) : Nat :=
  if n ≤ 127 then n
  else if n ≤ 2047 then n / 64 + 192
  else if n ≤ 65535 then n / 4096 + 224
  else n / 262144 + 240

/-- The last `k` digits to base 64, the greatest first. -/
def digits (n : Nat) : Nat → List UInt8
  | 0 => []
  | k + 1 => .ofNat (n / 64 ^ k % 64 + 128) :: digits n k

theorem toNat_lt (c : Char) : c.toNat < 1114112 :=
  c.valid.elim (fun h => Nat.lt_trans h (by decide)) (fun h => h.2)

theorem lead_lt (h : n < 1114112) : lead n < 256 := by
  unfold lead
  split_ifs <;> omega

theorem encode_eq (c : Char) : String.utf8EncodeChar c =
    UInt8.ofNat (lead c.toNat) :: digits c.toNat (followers c.toNat) := by
  have hc := toNat_lt c
  rw [String.utf8EncodeChar.eq_1, Char.toNat_val, lead, followers]
  generalize c.toNat = n at hc
  split_ifs with h1 h2 h3
  · rfl
  · rw [Nat.mod_eq_of_lt (show n / 64 < 32 by omega)]
    simp [digits]
  · rw [Nat.mod_eq_of_lt (show n / 4096 < 16 by omega)]
    simp [digits]
  · rw [Nat.mod_eq_of_lt (show n / 262144 < 8 by omega)]
    simp [digits]

theorem compare_ofNat (hm : m < 256) (hn : n < 256) :
    compare (UInt8.ofNat m) (UInt8.ofNat n) = compare m n := by
  rw [UInt8.compare_eq_toNat_compare_toNat, UInt8.toNat_ofNat_of_lt' hm,
    UInt8.toNat_ofNat_of_lt' hn]

theorem parts_digits (h : m % 64 ^ k < n % 64 ^ k) : Parts (digits m k) (digits n k) := by
  induction k with
  | zero => omega
  | succ k ih =>
    rw [Nat.mod_pow_succ, Nat.mod_pow_succ] at h
    obtain hd | hd | hd := Nat.lt_trichotomy (m / 64 ^ k % 64) (n / 64 ^ k % 64)
    · refine .here ?_
      rw [compare_ofNat (by omega) (by omega), Nat.compare_eq_lt]
      omega
    · rw [hd] at h
      rw [digits, digits, hd]
      exact .later (ih (by omega))
    · -- A greater digit outweighs all that follow it.
      have hn : n % 64 ^ k < 64 ^ k := Nat.mod_lt n (Nat.pow_pos (by decide))
      have hle := Nat.mul_le_mul_left (64 ^ k) (Nat.succ_le_of_lt hd)
      rw [Nat.mul_succ] at hle
      omega

/-- First bytes are in the order of the code points, or they are equal and the rest decides. -/
theorem lead_lt_or (h : m < n) (hn : n < 1114112) : lead m < lead n ∨
    lead m = lead n ∧ followers m = followers n ∧
      m / 64 ^ followers n = n / 64 ^ followers n := by
  unfold lead followers
  split_ifs <;> omega

theorem parts_encode {c d : Char} (h : c.toNat < d.toNat) :
    Parts (String.utf8EncodeChar c) (String.utf8EncodeChar d) := by
  rw [encode_eq, encode_eq]
  obtain hlt | ⟨hlead, hfollowers, hdiv⟩ := lead_lt_or h (toNat_lt d)
  · refine .here ?_
    rwa [compare_ofNat (lead_lt (toNat_lt c)) (lead_lt (toNat_lt d)), Nat.compare_eq_lt]
  · rw [hlead, hfollowers]
    refine .later (parts_digits ?_)
    have hc := Nat.div_add_mod c.toNat (64 ^ followers d.toNat)
    have hd := Nat.div_add_mod d.toNat (64 ^ followers d.toNat)
    rw [hdiv] at hc
    omega

/-! ### Texts -/

def codePoints (s : String) : List Nat := s.toList.map Char.toNat

variable {s t : String} {cs ds : List Char}

theorem lex_of_compare (h : compare s t = .lt) : List.Lex (· < ·) s.toList t.toList :=
  compareOfLessAndEq_eq_lt.1 h

theorem compare_toNat_of_lex (h : List.Lex (· < ·) cs ds) :
    compare (cs.map Char.toNat) (ds.map Char.toNat) = .lt := by
  induction h with
  | nil => rfl
  | @rel c cs d ds hcd =>
    have hlt : compare c.toNat d.toNat = .lt := Nat.compare_eq_lt.2 hcd
    rw [List.map_cons, List.map_cons, List.compare_cons_cons, hlt]
    rfl
  | cons _ ih =>
    rw [List.map_cons, List.map_cons, List.compare_cons_cons, Std.compare_self, ih]
    rfl

/-- Where two texts part, the encodings of their characters part. -/
theorem compare_encode_of_lex (h : List.Lex (· < ·) cs ds) :
    compare (cs.flatMap String.utf8EncodeChar) (ds.flatMap String.utf8EncodeChar) = .lt := by
  induction h with
  | nil =>
    rw [List.flatMap_cons, encode_eq]
    rfl
  | rel hcd =>
    rw [List.flatMap_cons, List.flatMap_cons]
    exact (parts_encode hcd).compare_append _ _
  | cons _ ih => rwa [List.flatMap_cons, List.flatMap_cons, compare_append_left]

theorem compare_codePoints (s t : String) :
    compare (codePoints s) (codePoints t) = compare s t :=
  compare_map (fun h => compare_toNat_of_lex (lex_of_compare h)) fun h =>
    compare_toNat_of_lex (lex_of_compare h)

theorem compare_bytes (s t : String) : compare (bytes s) (bytes t) = compare s t :=
  compare_map (fun h => compare_encode_of_lex (lex_of_compare h)) fun h =>
    compare_encode_of_lex (lex_of_compare h)

end Text

namespace ItemId
open Text

/-- Items are in the order of their texts byte by byte and also code point by code point, the text
of which another is a continuation coming first. Whatever three items there are, this is a total
order, in which two items are equal only if they have the same text. -/
theorem order_of_bytes (a b c : ItemId) :
    compare a b = compare (bytes a.text) (bytes b.text) ∧
    compare a b = compare (codePoints a.text) (codePoints b.text) ∧
    (compare a b = .lt ↔ List.Lex (· < ·) (bytes a.text) (bytes b.text)) ∧
    (compare a b = .lt ↔ List.Lex (· < ·) (codePoints a.text) (codePoints b.text)) ∧
    (∀ l ≠ [], bytes b.text = bytes a.text ++ l → compare a b = .lt) ∧
    (∀ l ≠ [], codePoints b.text = codePoints a.text ++ l → compare a b = .lt) ∧
    (compare a b = .eq ↔ a.text = b.text) ∧
    compare b a = (compare a b).swap ∧
    ((compare a b).isLE → (compare b c).isLE → (compare a c).isLE) := by
  have hbytes : compare a b = compare (bytes a.text) (bytes b.text) :=
    (compare_bytes a.text b.text).symm
  have hpoints : compare a b = compare (codePoints a.text) (codePoints b.text) :=
    (compare_codePoints a.text b.text).symm
  refine ⟨hbytes, hpoints, ?_, ?_, ?_, ?_, ?_, Std.OrientedCmp.eq_swap, Std.TransCmp.isLE_trans⟩
  · simp only [hbytes, Ordered.compare_eq_lt_iff_lex, Std.compare_eq_lt]
  · simp only [hpoints, Ordered.compare_eq_lt_iff_lex, Std.compare_eq_lt]
  · intro l hl h
    rw [hbytes, h, Ordered.compare_self_append _ hl]
  · intro l hl h
    rw [hpoints, h, Ordered.compare_self_append _ hl]
  · exact Std.LawfulEqOrd.compare_eq_iff_eq (α := String)

def wide : ItemId := ⟨"～", by decide⟩

def wider : ItemId := ⟨"～é", by decide⟩

/-- One character of four bytes, which in UTF-16 would come before those of three. -/
def widest : ItemId := ⟨"😀", by decide⟩

theorem widest_last :
    bytes wider.text = bytes wide.text ++ [195, 169] ∧ compare wide wider = .lt ∧
    compare wider widest = .lt ∧ List.Lex (· < ·) (bytes wider.text) (bytes widest.text) ∧
    (compare wide widest).isLE := by
  have hbytes : bytes wider.text = bytes wide.text ++ [195, 169] := by decide +kernel
  have hlast : compare wider widest = .lt := by decide +kernel
  obtain ⟨-, -, -, -, happend, -, -, -, htrans⟩ := order_of_bytes wide wider widest
  obtain ⟨-, -, hlex, -⟩ := order_of_bytes wider widest wide
  have hfirst : compare wide wider = .lt := happend [195, 169] (by decide) hbytes
  exact ⟨hbytes, hfirst, hlast, hlex.1 hlast, htrans (by rw [hfirst]; rfl) (by rw [hlast]; rfl)⟩

end ItemId

end Roster
