import Mathlib.Data.List.Basic
import Roster.Text.Bytes

/-! Texts and their bytes. The bytes determine the text, and a byte below 128 stands for the
character of that number and occurs in the encoding of no other. -/

namespace Roster.Text

theorem bytes_append (s t : String) : bytes (s ++ t) = bytes s ++ bytes t := by
  simp only [bytes, String.toList_append, List.flatMap_append]

theorem toByteArray_bytes (s : String) : (bytes s).toByteArray = s.toByteArray := by
  rw [← String.utf8Encode_toList, List.utf8Encode, bytes]

theorem bytes_injective : Function.Injective bytes := by
  intro s t h
  rw [← String.toByteArray_inj, ← toByteArray_bytes, ← toByteArray_bytes, h]

theorem bytes_eq_nil {s : String} : bytes s = [] ↔ s = "" :=
  bytes_injective.eq_iff' rfl

/-- Every byte of a longer encoding is at least 128. -/
theorem toNat_of_mem_encode {c : Char} {b : UInt8} (h : b ∈ String.utf8EncodeChar c)
    (hb : b.toNat < 128) : c.toNat = b.toNat := by
  have hmod (n : Nat) : (UInt8.ofNat n).toNat = n % 256 := rfl
  rw [String.utf8EncodeChar.eq_1] at h
  change c.val.toNat = b.toNat
  split at h
  · obtain rfl := List.mem_singleton.1 h
    rw [hmod]
    omega
  · exfalso
    split at h
    · simp only [List.mem_cons, List.not_mem_nil, or_false] at h
      obtain rfl | rfl := h <;> rw [hmod] at hb <;> omega
    · split at h
      · simp only [List.mem_cons, List.not_mem_nil, or_false] at h
        obtain rfl | rfl | rfl := h <;> rw [hmod] at hb <;> omega
      · simp only [List.mem_cons, List.not_mem_nil, or_false] at h
        obtain rfl | rfl | rfl | rfl := h <;> rw [hmod] at hb <;> omega

variable {c : Char} {s : String}

theorem eq_of_mem_encode {d : Char} (hc : c.toNat < 128)
    (h : UInt8.ofNat c.toNat ∈ String.utf8EncodeChar d) : d = c := by
  have hbyte : (UInt8.ofNat c.toNat).toNat = c.toNat := Nat.mod_eq_of_lt (by omega)
  rw [Char.toNat_inj.symm, toNat_of_mem_encode h (by rw [hbyte]; exact hc), hbyte]

theorem mem_of_mem_bytes (hc : c.toNat < 128) (h : UInt8.ofNat c.toNat ∈ bytes s) :
    c ∈ s.toList := by
  obtain ⟨d, hd, h⟩ := List.mem_flatMap.1 h
  exact eq_of_mem_encode hc h ▸ hd

theorem head?_of_head?_bytes (hc : c.toNat < 128)
    (h : (bytes s).head? = some (UInt8.ofNat c.toNat)) : s.toList.head? = some c := by
  rw [bytes] at h
  cases hs : s.toList with
  | nil =>
    rw [hs] at h
    cases h
  | cons d ds =>
    rw [hs, List.flatMap_cons, List.head?_append_of_ne_nil _ String.utf8EncodeChar_ne_nil] at h
    rw [List.head?_cons, eq_of_mem_encode hc (List.mem_of_mem_head? h)]

end Roster.Text
