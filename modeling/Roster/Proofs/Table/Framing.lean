import Mathlib.Data.Prod.Basic
import Roster.Proofs.Text.Bytes
import Roster.Table

/-! What the bytes under a digest tell about a table. The framing is not escaped, so it can be read
back only where no item begins with the mark that ends an entry or holds the one that ends an
item. -/

namespace Roster

namespace Digest

/-- A text without the marks of the framing where they would be read as such. -/
def Plain (text : String) : Prop :=
  '\x00' ∉ text.toList ∧ text.toList.head? ≠ some '\n'

instance (text : String) : Decidable (Plain text) := inferInstanceAs (Decidable (_ ∧ _))

/-- The items of an entry, each with its end. -/
def frameItems (items : List String) : List UInt8 :=
  items.flatMap fun item => Text.bytes item ++ [0]

theorem frameItems_cons (x : String) (xs : List String) :
    frameItems (x :: xs) = Text.bytes x ++ 0 :: frameItems xs := by
  simp only [frameItems, List.flatMap_cons, List.append_assoc, List.singleton_append]

theorem frameEntry_append (owner : String) (items : List String) (rest : List UInt8) :
    frameEntry owner items ++ rest =
      Text.bytes owner ++ 0x3d :: (frameItems items ++ 0x0a :: rest) := by
  simp only [frameEntry, frameItems, List.append_assoc, List.cons_append, List.nil_append]

/-- What stands before the first mark, and what after it, are told apart. -/
theorem before_mark_inj {mark : UInt8} {xs ys rest rest' : List UInt8} (hxs : mark ∉ xs)
    (hys : mark ∉ ys) (h : xs ++ mark :: rest = ys ++ mark :: rest') : xs = ys ∧ rest = rest' := by
  induction xs generalizing ys with
  | nil =>
    cases ys with
    | nil => exact ⟨rfl, (List.cons.inj h).2⟩
    | cons y ys => exact absurd ((List.cons.inj h).1 ▸ List.mem_cons_self) hys
  | cons x xs ih =>
    cases ys with
    | nil => exact absurd ((List.cons.inj h).1 ▸ List.mem_cons_self) hxs
    | cons y ys =>
      rw [List.cons_append, List.cons_append, List.cons.injEq] at h
      obtain ⟨rfl, hrest⟩ := ih (mt (.tail _) hxs) (mt (.tail _) hys) h.2
      exact ⟨by rw [h.1], hrest⟩

theorem nul_notMem_bytes {x : String} (h : Plain x) : 0 ∉ Text.bytes x :=
  fun hm => h.1 (Text.mem_of_mem_bytes (by decide) hm)

/-- Where an item could stand, the end of the entry is told from the item by its first byte. -/
theorem end_ne_item {x : String} (h : Plain x) (hne : x ≠ "") (rest rest' : List UInt8) :
    0x0a :: rest ≠ Text.bytes x ++ rest' := by
  intro heq
  have hhead : (Text.bytes x).head? = some 0x0a := calc
    (Text.bytes x).head? = (Text.bytes x ++ rest').head? :=
      (List.head?_append_of_ne_nil _ (mt Text.bytes_eq_nil.1 hne)).symm
    _ = some 0x0a := by rw [← heq, List.head?_cons]
  exact h.2 (Text.head?_of_head?_bytes (by decide) hhead)

theorem frameItems_inj {xs ys : List String} (hxs : ∀ x ∈ xs, x ≠ "" ∧ Plain x)
    (hys : ∀ y ∈ ys, y ≠ "" ∧ Plain y) {rest rest' : List UInt8}
    (h : frameItems xs ++ 0x0a :: rest = frameItems ys ++ 0x0a :: rest') :
    xs = ys ∧ rest = rest' := by
  induction xs generalizing ys with
  | nil =>
    cases ys with
    | nil => exact ⟨rfl, (List.cons.inj h).2⟩
    | cons y ys =>
      have hy := hys y List.mem_cons_self
      rw [frameItems_cons, List.append_assoc] at h
      exact absurd h (end_ne_item hy.2 hy.1 _ _)
  | cons x xs ih =>
    have hx := hxs x List.mem_cons_self
    rw [frameItems_cons, List.append_assoc, List.cons_append] at h
    cases ys with
    | nil => exact absurd h.symm (end_ne_item hx.2 hx.1 _ _)
    | cons y ys =>
      have hy := hys y List.mem_cons_self
      rw [frameItems_cons, List.append_assoc, List.cons_append] at h
      obtain ⟨hxy, h⟩ := before_mark_inj (nul_notMem_bytes hx.2) (nul_notMem_bytes hy.2) h
      obtain ⟨rfl, hrest⟩ := ih (fun z hz => hxs z (.tail _ hz)) (fun z hz => hys z (.tail _ hz)) h
      exact ⟨by rw [Text.bytes_injective hxy], hrest⟩

/-- Entries that can be read back from their frame. -/
def Legible (entries : List (String × List String)) : Prop :=
  ∀ e ∈ entries, '=' ∉ e.1.toList ∧ ∀ x ∈ e.2, x ≠ "" ∧ Plain x

theorem eq_of_frame_eq {es fs : List (String × List String)} (hes : Legible es) (hfs : Legible fs)
    (h : frame es = frame fs) : es = fs := by
  have hcons (e : String × List String) (es : List (String × List String)) :
      frame (e :: es) = Text.bytes e.1 ++ 0x3d :: (frameItems e.2 ++ 0x0a :: frame es) := by
    rw [frame, List.flatMap_cons, ← frame, frameEntry_append]
  induction es generalizing fs with
  | nil =>
    cases fs with
    | nil => rfl
    | cons f fs =>
      rw [hcons] at h
      exact absurd h.symm (List.append_ne_nil_of_right_ne_nil _ (List.cons_ne_nil _ _))
  | cons e es ih =>
    rw [hcons] at h
    cases fs with
    | nil => exact absurd h (List.append_ne_nil_of_right_ne_nil _ (List.cons_ne_nil _ _))
    | cons f fs =>
      have hequals {g : String × List String} (hg : '=' ∉ g.1.toList) :
          0x3d ∉ Text.bytes g.1 := fun hm => hg (Text.mem_of_mem_bytes (by decide) hm)
      have he := hes e List.mem_cons_self
      have hf := hfs f List.mem_cons_self
      rw [hcons] at h
      obtain ⟨howner, h⟩ := before_mark_inj (hequals he.1) (hequals hf.1) h
      obtain ⟨hitems, h⟩ := frameItems_inj he.2 hf.2 h
      rw [Prod.ext (Text.bytes_injective howner) hitems,
        ih (fun g hg => hes g (.tail _ hg)) (fun g hg => hfs g (.tail _ hg)) h]

/-- The end of an item within an item: one item frames as two. -/
theorem frameEntry_split (owner x y : String) (before after : List String) :
    frameEntry owner (before ++ (x ++ "\x00" ++ y) :: after) =
      frameEntry owner (before ++ x :: y :: after) := by
  have hmark : Text.bytes "\x00" = [0] := by decide
  simp only [frameEntry, List.flatMap_append, List.flatMap_cons, Text.bytes_append, hmark,
    List.append_assoc]

/-- The end of an entry at the start of an item: one entry frames as two. -/
theorem frameEntry_break (owner owner' x : String) (before after : List String) :
    frameEntry owner (before ++ ("\n" ++ owner' ++ "=" ++ x) :: after) =
      frameEntry owner before ++ frameEntry owner' (x :: after) := by
  have hnewline : Text.bytes "\n" = [0x0a] := by decide
  have hequals : Text.bytes "=" = [0x3d] := by decide
  simp only [frameEntry, List.flatMap_append, List.flatMap_cons, Text.bytes_append, hnewline,
    hequals, List.append_assoc, List.cons_append, List.nil_append]

end Digest

namespace WorkerId

theorem text_injective : Function.Injective text := by
  intro v w h
  have hdigits : Nat.toDigits 10 v.value.toNat = Nat.toDigits 10 w.value.toNat :=
    String.ofList_injective h
  have hvalue : v.value.toNat = w.value.toNat := calc
    v.value.toNat = Nat.ofDigitChars 10 (Nat.toDigits 10 v.value.toNat) 0 :=
      Nat.ofDigitChars_ten_toDigits.symm
    _ = Nat.ofDigitChars 10 (Nat.toDigits 10 w.value.toNat) 0 := by rw [hdigits]
    _ = w.value.toNat := Nat.ofDigitChars_ten_toDigits
  exact congrArg WorkerId.mk (UInt64.toNat_inj.1 hvalue)

theorem equals_notMem_text (w : WorkerId) : '=' ∉ w.text.toList := by
  intro h
  rw [text, String.toList_ofList] at h
  exact absurd (Nat.isDigit_of_mem_toDigits (by decide) (by decide) h) (by decide)

end WorkerId

namespace Table

variable {t u : Table}

/-- All items have texts that can be told from the framing. -/
def Legible (t : Table) : Prop := ∀ e ∈ t.entries, ∀ i ∈ e.2, Digest.Plain i.text

instance (t : Table) : Decidable t.Legible := inferInstanceAs (Decidable (∀ e ∈ _, _))

/-- The entries as the digest is given them. -/
def texts (t : Table) : List (String × List String) :=
  t.entries.map fun e => (e.1.text, e.2.map (·.text))

theorem texts_injective : Function.Injective texts := by
  have hitem : Function.Injective ItemId.text := by
    rintro ⟨x, hx⟩ ⟨y, hy⟩ (rfl : x = y)
    rfl
  have hentry : Function.Injective fun e : WorkerId × List ItemId => (e.1.text, e.2.map (·.text)) :=
    Function.Injective.prodMap WorkerId.text_injective hitem.list_map
  rintro ⟨⟨es, hes⟩⟩ ⟨⟨fs, hfs⟩⟩ h
  obtain rfl : es = fs := hentry.list_map h
  rfl

theorem Legible.texts (ht : t.Legible) : Digest.Legible t.texts := by
  intro e he
  obtain ⟨f, hf, rfl⟩ := List.mem_map.1 he
  refine ⟨f.1.equals_notMem_text, ?_⟩
  intro x hx
  obtain ⟨i, hi, rfl⟩ := List.mem_map.1 hx
  exact ⟨i.text_ne, ht f hf i hi⟩

/-- Two tables that can be read back differ in the bytes that are hashed if they differ at all. So
what hides a change from the digest is the hash alone. -/
theorem frame_inj (ht : t.Legible) (hu : u.Legible) :
    (t.frame = u.frame ↔ t = u) ∧
    ((t.digest = u.digest → t.frame = u.frame) → (t.digest = u.digest ↔ t = u)) := by
  have hframe : t.frame = u.frame → t = u :=
    fun h => texts_injective (Digest.eq_of_frame_eq ht.texts hu.texts h)
  exact ⟨⟨hframe, congrArg frame⟩, fun h => ⟨hframe ∘ h, congrArg digest⟩⟩

/-- The items of worker 1, who is alone. -/
def sole (items : List ItemId) : Table := empty.withWorker ⟨1⟩ items

/-- A worker who owns no item, and one more. -/
def handed : Table := (sole []).withWorker ⟨2⟩ [⟨"g", by decide⟩]

/-- Marks within a text do no harm. -/
theorem sole_frame_inj : (sole [⟨"2=g\n", by decide⟩]).Legible ∧ handed.Legible ∧
    ((sole [⟨"2=g\n", by decide⟩]).frame = handed.frame ↔
      sole [⟨"2=g\n", by decide⟩] = handed) ∧
    (sole [⟨"2=g\n", by decide⟩]).frame ≠ handed.frame := by
  have hsole : (sole [⟨"2=g\n", by decide⟩]).Legible := by decide
  have hhanded : handed.Legible := by decide
  obtain ⟨hframe, -⟩ := frame_inj hsole hhanded
  exact ⟨hsole, hhanded, hframe, fun h => absurd (hframe.1 h) (by decide)⟩

/-- Two items and one item with the end of an item in it; an item handed on and an item that begins
as the next entry would. -/
theorem frame_not_injective : ¬ Function.Injective frame ∧
    (sole [⟨"g\x00h", by decide⟩]).frame = (sole [⟨"g", by decide⟩, ⟨"h", by decide⟩]).frame ∧
    (sole [⟨"\n2=g", by decide⟩]).frame = handed.frame := by
  have hsplit : (sole [⟨"g\x00h", by decide⟩]).frame =
      (sole [⟨"g", by decide⟩, ⟨"h", by decide⟩]).frame := by decide +kernel
  exact ⟨fun h => absurd (h hsplit) (by decide), hsplit, by decide +kernel⟩

end Table

end Roster
