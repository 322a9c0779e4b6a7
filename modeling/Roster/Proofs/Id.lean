import Roster.Id
import Roster.Proofs.Text.Decimal

/-! Texts of worker identifiers. What is read as a worker are the numerals of 64-bit numbers, any
other text is refused with itself as the reason, and what is shown for a worker is its numeral
without a sign and without leading zeros. -/

namespace Roster.WorkerId

variable {s t : String} {w : WorkerId} {n : Nat}

theorem toNat_value_lt (w : WorkerId) : w.value.toNat < count := w.value.toNat_lt

theorem toNat_value_ofNat (h : n < count) : (ofNat n).value.toNat = n :=
  UInt64.toNat_ofNat_of_lt' h

theorem ofNat_toNat_value (w : WorkerId) : ofNat w.value.toNat = w := by
  rw [ofNat, UInt64.ofNat_toNat]

theorem toList_text (w : WorkerId) : w.text.toList = Decimal.write w.value.toNat :=
  String.toList_ofList

/-! ### Reading -/

theorem ofText_eq_ok_iff : ofText s = .ok w ↔ Decimal.Denotes s.toList w.value.toNat := by
  unfold ofText
  constructor
  · intro h
    split at h
    · next n hread =>
      obtain ⟨hn, hlt⟩ := Decimal.read_eq_ok_iff.1 hread
      cases h
      rwa [toNat_value_ofNat hlt]
    · cases h
    · cases h
  · intro h
    rw [Decimal.read_eq_ok_iff.2 ⟨h, w.toNat_value_lt⟩]
    exact congrArg Except.ok w.ofNat_toNat_value

theorem exists_ofText_iff :
    (∃ w, ofText s = .ok w) ↔ ∃ n, Decimal.Denotes s.toList n ∧ n < count := by
  constructor
  · rintro ⟨w, h⟩
    exact ⟨_, ofText_eq_ok_iff.1 h, w.toNat_value_lt⟩
  · rintro ⟨n, hn, hlt⟩
    exact ⟨ofNat n, ofText_eq_ok_iff.2 (by rwa [toNat_value_ofNat hlt])⟩

/-- What is not read is empty, or is refused for what it is. -/
theorem ofText_cases (s : String) : s ≠ "" ∧ (∃ w, ofText s = .ok w) ∨
    s = "" ∧ ofText s = .error .empty ∨ s ≠ "" ∧ ofText s = .error (.invalidWorker s) := by
  cases hread : Decimal.read count s.toList with
  | ok n =>
    refine .inl ⟨?_, ofNat n, by rw [ofText, hread]⟩
    rintro rfl
    cases hread
  | error f =>
    have hempty := ((Decimal.read_eq_error_iff (by decide)).1 hread).eq_empty_iff
    rw [String.toList_eq_nil_iff] at hempty
    right
    cases f with
    | empty => exact .inl ⟨hempty.1 rfl, by rw [ofText, hread]⟩
    | invalidDigit => exact .inr ⟨mt hempty.2 (by simp), by rw [ofText, hread]⟩
    | tooLarge => exact .inr ⟨mt hempty.2 (by simp), by rw [ofText, hread]⟩

theorem ofText_eq_empty_iff : ofText s = .error .empty ↔ s = "" := by
  obtain ⟨hs, w, hw⟩ | ⟨hs, he⟩ | ⟨hs, he⟩ := ofText_cases s
  · exact iff_of_false (by rw [hw]; simp) hs
  · exact iff_of_true he hs
  · exact iff_of_false (by rw [he]; simp) hs

theorem ofText_eq_invalidWorker_iff : ofText s = .error (.invalidWorker t) ↔
    t = s ∧ s ≠ "" ∧ ¬∃ w, ofText s = .ok w := by
  obtain ⟨hs, w, hw⟩ | ⟨hs, he⟩ | ⟨hs, he⟩ := ofText_cases s
  · exact iff_of_false (by rw [hw]; simp) fun h => h.2.2 ⟨w, hw⟩
  · exact iff_of_false (by rw [he]; simp) fun h => h.2.1 hs
  · simp [he, hs, eq_comm]

/-! ### Showing -/

theorem ofText_text (w : WorkerId) : ofText w.text = .ok w := by
  refine ofText_eq_ok_iff.2 ⟨[], w.text.toList, rfl, .inl rfl, ?_⟩
  rw [toList_text]
  exact Decimal.digits_write _

theorem text_ne (w : WorkerId) : w.text ≠ "" := by
  rw [ne_eq, ← String.toList_eq_nil_iff, toList_text]
  exact Decimal.write_ne_nil

theorem text_of_head? (h : w.text.toList.head? = some '0') : w.text = "0" := by
  have hzero : w.value.toNat = 0 :=
    Decidable.byContradiction fun hne => Decimal.head?_write_ne hne (toList_text w ▸ h)
  rw [text, hzero]
  rfl

/-- What stands before the text that is shown for a worker in one that is read as the worker. -/
theorem exists_padding (h : ofText s = .ok w) : ∃ sign zeros, s = sign ++ zeros ++ w.text ∧
    (sign = "" ∨ sign = "+") ∧ ∀ c ∈ zeros.toList, c = '0' := by
  obtain ⟨sign, ds, hs, hsign, hds⟩ := ofText_eq_ok_iff.1 h
  obtain ⟨k, hk⟩ := Decimal.exists_zeros hds.ne_nil hds.isDigit
  rw [hds.value] at hk
  refine ⟨.ofList sign, .ofList (List.replicate k '0'), ?_, ?_, ?_⟩
  · rw [← String.toList_inj, hs, hk]
    simp only [String.toList_append, String.toList_ofList, toList_text, List.append_assoc]
  · obtain rfl | rfl := hsign
    · exact .inl rfl
    · exact .inr rfl
  · intro c hc
    rw [String.toList_ofList] at hc
    exact List.eq_of_mem_replicate hc

/-- A text is read exactly if it is a plus sign or none and then the decimal digits of a 64-bit
number, after any number of zeros, and it is read as the worker of that number. The empty text is
refused as empty, and any other is refused with itself as the reason. What is shown for a worker is
read as that worker; and it is what any text that is read as the worker comes to when its sign and
its leading zeros are left out. -/
theorem reads_numerals (s : String) :
    (∀ w, ofText s = .ok w ↔ Decimal.Denotes s.toList w.value.toNat) ∧
    ((∃ w, ofText s = .ok w) ↔ ∃ n, Decimal.Denotes s.toList n ∧ n < UInt64.size) ∧
    (ofText s = .error .empty ↔ s = "") ∧
    (∀ t, ofText s = .error (.invalidWorker t) ↔
      t = s ∧ s ≠ "" ∧ ¬∃ n, Decimal.Denotes s.toList n ∧ n < UInt64.size) ∧
    (∀ w : WorkerId, ofText w.text = .ok w) ∧
    ∀ w, ofText s = .ok w → w.text ≠ "" ∧ (w.text.toList.head? = some '0' → w.text = "0") ∧
      ∃ sign zeros, s = sign ++ zeros ++ w.text ∧ (sign = "" ∨ sign = "+") ∧
        ∀ c ∈ zeros.toList, c = '0' := by
  refine ⟨fun w => ofText_eq_ok_iff, exists_ofText_iff, ofText_eq_empty_iff, fun t => ?_,
    ofText_text, fun w h => ⟨w.text_ne, text_of_head?, exists_padding h⟩⟩
  rw [ofText_eq_invalidWorker_iff, exists_ofText_iff]
  rfl

/-- The greatest identifier with a sign and zeros, and the number after it. -/
theorem padded_reads_numeral :
    ofText "+00018446744073709551615" = .ok ⟨18446744073709551615⟩ ∧
    (∃ sign zeros, "+00018446744073709551615" = sign ++ zeros ++ "18446744073709551615" ∧
      (sign = "" ∨ sign = "+") ∧ ∀ c ∈ zeros.toList, c = '0') ∧
    ofText "18446744073709551616" = .error (.invalidWorker "18446744073709551616") := by
  have hread : ofText "+00018446744073709551615" = .ok ⟨18446744073709551615⟩ := by decide +kernel
  obtain ⟨-, -, -, -, -, hshown⟩ := reads_numerals "+00018446744073709551615"
  obtain ⟨-, -, hpadding⟩ := hshown _ hread
  exact ⟨hread, hpadding, by decide +kernel⟩

end Roster.WorkerId
