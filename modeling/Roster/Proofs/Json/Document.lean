import Roster.Json.Document
import Roster.Proofs.Json.Token
import Roster.Proofs.Ordered

/-! Documents are read back as what was written, so that different tables have different texts. No
literal that stands for the empty text passes anywhere in a document, however it is written. -/

namespace Roster.Json

/-! ### Workers and items -/

theorem worker?_write (w : WorkerId) : worker? (Decimal.write w.value.toNat) = some w := by
  have hlt : w.value.toNat < WorkerId.count := w.value.toNat_lt_size
  have hof : WorkerId.ofNat w.value.toNat = w := by
    cases w
    simp [WorkerId.ofNat]
  have hread := Decimal.readFrom_write hlt
  by_cases hzero : w.value.toNat = 0
  · rw [hzero] at hof ⊢
    exact congrArg some hof
  · have hhead := Decimal.head?_write_ne hzero
    unfold worker?
    split
    · next h => simp [h] at hhead
    · next h => simp [h] at hhead
    · next h => exact absurd h Decimal.write_ne_nil
    · rw [hread]
      exact congrArg some hof

theorem readWorker_writeWorker (w : WorkerId) : readWorker (writeWorker w) = .ok w := by
  simp only [readWorker, writeWorker, tokens_text, worker?_write]

theorem item_escaped (i : ItemId) : item (escaped i.text) = .ok i := by
  rw [item, unescape?_escaped]
  simp only [String.ofList_toList, ItemId.ofText, i.text_ne, dite_false]

theorem readItem_writeItem (i : ItemId) : readItem (writeItem i) = .ok i := by
  have htokens : tokens (writeItem i) = [.text (escaped i.text)] := by
    have := scan_literal i.text []
    rw [List.append_nil] at this
    rw [tokens, writeItem, String.toList_ofList, this]
    rfl
  simp only [readItem, htokens, item_escaped, List.isEmpty_nil, if_true]

/-! ### The tokens of a table -/

def itemTokens (i : ItemId) : List Token := [.text (escaped i.text)]

def separated (parts : List (List Token)) : List Token := [.mark ','].intercalate parts

def entryTokens (e : WorkerId × List ItemId) : List Token :=
  .text (escaped e.1.text) :: .mark ':' :: .mark '[' ::
    separated (e.2.map itemTokens) ++ [.mark ']']

theorem intercalate_cons {α : Type} (sep : α) (x : List α) (xs : List (List α)) :
    [sep].intercalate (x :: xs) = x ++ xs.flatMap (sep :: ·) := by
  induction xs generalizing x with
  | nil => simp
  | cons y ys ih =>
    rw [List.intercalate_cons_cons, ih, List.flatMap_cons]
    simp

/-- What `f` writes is scanned as the tokens that `g` says, whatever follows. -/
def Scans {α : Type} (f : α → List Char) (g : α → List Token) : Prop :=
  ∀ x rest, scan .between (f x ++ rest) = g x ++ scan .between rest

theorem scan_commas {α : Type} {f : α → List Char} {g : α → List Token} (h : Scans f g)
    (xs : List α) (rest : List Char) :
    scan .between (commas (xs.map f) ++ rest) =
      separated (xs.map g) ++ scan .between rest := by
  have hlater : ∀ ys : List α, scan .between ((ys.map f).flatMap (',' :: ·) ++ rest) =
      (ys.map g).flatMap (.mark ',' :: ·) ++ scan .between rest := by
    intro ys
    induction ys with
    | nil => rfl
    | cons y ys ih =>
      simp only [List.map_cons, List.flatMap_cons, List.append_assoc, List.cons_append]
      rw [scan_mark rfl rfl (by decide), h y, ih]
  cases xs with
  | nil => rfl
  | cons x xs =>
    rw [commas, separated, List.map_cons, List.map_cons, intercalate_cons, intercalate_cons,
      List.append_assoc, List.append_assoc, h x, hlater]

theorem scans_item : Scans (fun i : ItemId => literal i.text) itemTokens := fun i rest =>
  scan_literal i.text rest

theorem scans_entry : Scans entryText entryTokens := by
  intro e rest
  simp only [entryText, entryTokens, List.append_assoc, List.cons_append, List.nil_append]
  rw [scan_literal, scan_mark rfl rfl (by decide), scan_mark rfl rfl (by decide),
    scan_commas scans_item, scan_mark rfl rfl (by decide)]

theorem tokens_writeTable (t : Table) : tokens (writeTable t) =
    .mark '\x7b' :: separated (t.entries.map entryTokens) ++ [.mark '\x7d'] := by
  rw [tokens, writeTable, String.toList_ofList, List.cons_append, List.cons_append,
    scan_mark rfl rfl (by decide), scan_commas scans_entry, scan_mark rfl rfl (by decide)]
  rfl

/-! ### Reading a table -/

variable {read : Entries} {expect : Expect} {w : WorkerId} {rest : List Token}

theorem readEntries_cons {read' : Entries} {expect' : Expect} {token : Token}
    (h : step read expect token = .ok (read', expect')) :
    readEntries read expect (token :: rest) = readEntries read' expect' rest := by
  rw [readEntries, h]

theorem step_item (i : ItemId) (items : List ItemId) :
    expectItem w items (escaped i.text) = .ok (.commaOrEnd w (i :: items)) := by
  rw [expectItem, item_escaped]

/-- The items after the first one. -/
theorem readEntries_more (items : List ItemId) (before : List ItemId) :
    readEntries read (.commaOrEnd w before)
        ((items.map itemTokens).flatMap (.mark ',' :: ·) ++ .mark ']' :: rest) =
      readEntries (read.insert w (before.reverse ++ items)) .entryEnd rest := by
  induction items generalizing before with
  | nil =>
    rw [List.append_nil]
    exact readEntries_cons rfl
  | cons i items ih =>
    have hitem : step read (.item w before) (.text (escaped i.text)) =
        .ok (read, .commaOrEnd w (i :: before)) := by
      rw [step, step_item]
      rfl
    simp only [List.map_cons, List.flatMap_cons, itemTokens, List.cons_append, List.nil_append]
    rw [readEntries_cons rfl, readEntries_cons hitem]
    have hrest := ih (i :: before)
    rw [List.reverse_cons, List.append_assoc, List.singleton_append] at hrest
    exact hrest

theorem readEntries_items (items : List ItemId) :
    readEntries read (.itemOrEnd w) (separated (items.map itemTokens) ++ .mark ']' :: rest) =
      readEntries (read.insert w items) .entryEnd rest := by
  cases items with
  | nil => exact readEntries_cons rfl
  | cons i items =>
    have hitem : step read (.itemOrEnd w) (.text (escaped i.text)) =
        .ok (read, .commaOrEnd w [i]) := by
      rw [step, step_item]
      rfl
    rw [separated, List.map_cons, intercalate_cons, itemTokens, List.append_assoc,
      List.singleton_append, readEntries_cons hitem, readEntries_more]
    rfl

/-- An entry may stand first in a table or after another. -/
theorem readEntries_entry (e : WorkerId × List ItemId)
    (h : ∀ raw, step read expect (.text raw) = (expectKey raw).map (read, ·)) :
    readEntries read expect (entryTokens e ++ rest) =
      readEntries (read.insert e.1 e.2) .entryEnd rest := by
  have hkey : step read expect (.text (escaped e.1.text)) = .ok (read, .colon e.1) := by
    rw [h, expectKey, escaped_text, worker?_write]
    rfl
  simp only [entryTokens, List.cons_append, List.append_assoc, List.nil_append]
  rw [readEntries_cons hkey, readEntries_cons rfl, readEntries_cons rfl, readEntries_items]

theorem readEntries_separated (es : List (WorkerId × List ItemId)) :
    readEntries read .keyOrEnd (separated (es.map entryTokens) ++ [.mark '\x7d']) =
      .ok (es.foldl (fun m e => m.insert e.1 e.2) read) := by
  have hlater : ∀ read : Entries, ∀ fs : List (WorkerId × List ItemId),
      readEntries read .entryEnd
          ((fs.map entryTokens).flatMap (.mark ',' :: ·) ++ [.mark '\x7d']) =
        .ok (fs.foldl (fun m e => m.insert e.1 e.2) read) := by
    intro read fs
    induction fs generalizing read with
    | nil => rfl
    | cons f fs ih =>
      simp only [List.map_cons, List.flatMap_cons, List.cons_append, List.append_assoc]
      rw [readEntries_cons rfl, readEntries_entry f fun _ => rfl, ih]
      rfl
  cases es with
  | nil => rfl
  | cons e es =>
    rw [separated, List.map_cons, intercalate_cons, List.append_assoc,
      readEntries_entry e fun _ => rfl, hlater]
    rfl

theorem readTable_writeTable (t : Table) : readTable (writeTable t) = .ok t := by
  rw [readTable, tokens_writeTable, List.cons_append, readEntries_cons rfl,
    readEntries_separated]
  exact congrArg (fun m => Except.ok (Table.mk m)) (OrderedMap.ofList_entries t.owners)

theorem writeTable_injective : Function.Injective writeTable := by
  intro t u h
  have hread : Except.ok t = (Except.ok u : Except Fault Table) := calc
    Except.ok t = readTable (writeTable t) := (readTable_writeTable t).symm
    _ = readTable (writeTable u) := by rw [h]
    _ = Except.ok u := readTable_writeTable u
  exact Except.ok.inj hread

/-! ### Empty texts -/

/-- No literal in a table is empty that is read without a fault. -/
theorem ne_nil_of_step {raw : List Char} {next : Entries × Expect}
    (h : step read expect (.text raw) = .ok next) : raw ≠ [] := by
  rintro rfl
  cases expect <;> cases h

theorem ne_nil_of_readEntries {ts : List Token} {last : Entries}
    (h : readEntries read expect ts = .ok last) : ∀ raw, .text raw ∈ ts → raw ≠ [] := by
  induction ts generalizing read expect with
  | nil => simp
  | cons token ts ih =>
    rw [readEntries] at h
    split at h
    · next read' expect' hstep =>
      intro raw hraw
      rcases List.mem_cons.1 hraw with rfl | hraw
      · exact ne_nil_of_step hstep
      · exact ih h raw hraw
    · contradiction

/-- Every literal of the text stands for at least one character. -/
def Filled (text : String) : Prop := ∀ raw, .text raw ∈ tokens text → unescape? raw ≠ some []

theorem filled_of_readTable {text : String} {t : Table} (h : readTable text = .ok t) :
    Filled text := by
  intro raw hraw
  rw [ne_eq, unescape?_eq_some_nil_iff]
  cases hread : readEntries .empty .table (tokens text) with
  | error f =>
    rw [readTable, hread] at h
    cases h
  | ok last => exact ne_nil_of_readEntries hread raw hraw

/-- The empty item is found before the key that is malformed. -/
example : readTable "\x7b\"1\":[\"a\",\"\"],\"01\":[]\x7d" = .error .emptyId := by
  decide +kernel

theorem tokens_of_readItem {text : String} {i : ItemId} (h : readItem text = .ok i) :
    ∃ raw, tokens text = [.text raw] ∧ item raw = .ok i := by
  unfold readItem at h
  split at h
  · next raw rest htokens =>
    split at h
    · next j hitem =>
      split at h
      · next hrest =>
        cases h
        exact ⟨raw, by rw [htokens, List.isEmpty_iff.1 hrest], hitem⟩
      · cases h
    · cases h
  · cases h

theorem filled_of_readItem {text : String} {i : ItemId} (h : readItem text = .ok i) :
    Filled text := by
  obtain ⟨raw, htokens, hitem⟩ := tokens_of_readItem h
  intro raw' hraw
  rw [htokens, List.mem_singleton, Token.text.injEq] at hraw
  rw [ne_eq, unescape?_eq_some_nil_iff, hraw]
  rintro rfl
  cases hitem

/-- Whatever is written is read back as it was, so that different tables have different texts. What
is read has no empty item, and that is not because an empty literal would be passed over. -/
theorem documents_read_back :
    (∀ t, readTable (writeTable t) = .ok t) ∧
    (∀ w, readWorker (writeWorker w) = .ok w) ∧
    (∀ i, readItem (writeItem i) = .ok i) ∧
    Function.Injective writeTable ∧
    (∀ text i, readItem text = .ok i → i.text ≠ "" ∧ Filled text) ∧
    ∀ text t, readTable text = .ok t →
      (∀ e ∈ t.entries, ∀ i ∈ e.2, i.text ≠ "") ∧ Filled text :=
  ⟨readTable_writeTable, readWorker_writeWorker, readItem_writeItem, writeTable_injective,
    fun _ i h => ⟨i.text_ne, filled_of_readItem h⟩,
    fun _ _ h => ⟨fun _ _ i _ => i.text_ne, filled_of_readTable h⟩⟩

/-- An item twice, items out of order, none, the greatest number, and characters to escape. -/
def rugged : Table where
  owners :=
    { entries :=
        [(⟨0⟩, [⟨"q\"\\", by decide⟩, ⟨"\x00\n\x1f/", by decide⟩, ⟨"q\"\\", by decide⟩]),
        (⟨7⟩, []),
        (⟨18446744073709551615⟩, [⟨"\x7fé😀", by decide⟩])]
      strict := by decide }

/-- The same table written in another way. -/
def ruggedText : String :=
  "\t\x7b \"0\" : [ \"\\u0071\\u0022\\u005C\" , \"\\u0000\\n\\u001f\\/\", \"q\\\"\\\\\" ],\n" ++
    "\"7\":[], \"18446744073709551615\":[\"\x7f\\u00E9\\ud83d\\uDE00\"]\x7d\r"

theorem rugged_reads_back :
    readTable (writeTable rugged) = .ok rugged ∧ readTable ruggedText = .ok rugged ∧
      writeTable rugged ≠ ruggedText ∧
      ((∀ e ∈ rugged.entries, ∀ i ∈ e.2, i.text ≠ "") ∧ Filled ruggedText) ∧
      readItem " \"\\u0022\"" = .ok ⟨"\"", by decide⟩ ∧ Filled " \"\\u0022\"" := by
  have hread : readTable ruggedText = .ok rugged := by decide +kernel
  have hitem : readItem " \"\\u0022\"" = .ok ⟨"\"", by decide⟩ := by decide +kernel
  obtain ⟨hback, -, -, -, hfilledItem, hfilled⟩ := documents_read_back
  exact ⟨hback rugged, hread, by decide +kernel, hfilled ruggedText rugged hread, hitem,
    (hfilledItem _ _ hitem).2⟩

end Roster.Json
