import Roster.Json.Literal
import Roster.Json.Token
import Roster.Table

/-!
Identifiers and tables as JSON documents. A table is an object from worker numbers, each written as
a string, to lists of items. Reading stops at the first thing that is wrong, from the left.
-/

namespace Roster.Json

inductive Fault where
  /-- An item without text. -/
  | emptyId
  | malformed
  deriving DecidableEq, Repr

def Fault.message : Fault → String
  | .emptyId => IdError.empty.message
  | .malformed => "malformed"

/-- A number without sign and without leading zeros. -/
def worker? (chars : List Char) : Option WorkerId :=
  match chars with
  | ['0'] => some (.ofNat 0)
  | '0' :: _ | [] => none
  | chars => (Decimal.readFrom WorkerId.count 0 chars).toOption.map .ofNat

def item (raw : List Char) : Except Fault ItemId :=
  match unescape? raw with
  | none => .error .malformed
  | some s => match ItemId.ofText (.ofList s) with
    | .ok i => .ok i
    | .error _ => .error .emptyId

def readWorker (text : String) : Except Fault WorkerId :=
  match tokens text with
  | [.word chars] => match worker? chars with
    | some w => .ok w
    | none => .error .malformed
  | _ => .error .malformed

def readItem (text : String) : Except Fault ItemId :=
  match tokens text with
  | .text raw :: rest => match item raw with
    | .ok i => if rest.isEmpty then .ok i else .error .malformed
    | .error f => .error f
  | _ => .error .malformed

/-- What may follow in a table, and what of the open entry has been read, items in reverse. -/
inductive Expect where
  | table
  | keyOrEnd
  | key
  | colon (worker : WorkerId)
  | list (worker : WorkerId)
  | itemOrEnd (worker : WorkerId)
  | item (worker : WorkerId) (items : List ItemId)
  | commaOrEnd (worker : WorkerId) (items : List ItemId)
  | entryEnd
  | nothing
  deriving DecidableEq, Repr

abbrev Entries := OrderedMap WorkerId (List ItemId)

def expectKey (raw : List Char) : Except Fault Expect :=
  match worker? raw with
  | some w => .ok (.colon w)
  | none => .error .malformed

def expectItem (w : WorkerId) (items : List ItemId) (raw : List Char) : Except Fault Expect :=
  match item raw with
  | .ok i => .ok (.commaOrEnd w (i :: items))
  | .error f => .error f

/-- A repeated key keeps its last list. -/
def step (read : Entries) : Expect → Token → Except Fault (Entries × Expect)
  | .table, .mark '\x7b' => .ok (read, .keyOrEnd)
  | .keyOrEnd, .mark '\x7d' => .ok (read, .nothing)
  | .keyOrEnd, .text raw => (expectKey raw).map (read, ·)
  | .key, .text raw => (expectKey raw).map (read, ·)
  | .colon w, .mark ':' => .ok (read, .list w)
  | .list w, .mark '[' => .ok (read, .itemOrEnd w)
  | .itemOrEnd w, .mark ']' => .ok (read.insert w [], .entryEnd)
  | .itemOrEnd w, .text raw => (expectItem w [] raw).map (read, ·)
  | .item w items, .text raw => (expectItem w items raw).map (read, ·)
  | .commaOrEnd w items, .mark ',' => .ok (read, .item w items)
  | .commaOrEnd w items, .mark ']' => .ok (read.insert w items.reverse, .entryEnd)
  | .entryEnd, .mark ',' => .ok (read, .key)
  | .entryEnd, .mark '\x7d' => .ok (read, .nothing)
  | _, _ => .error .malformed

def readEntries (read : Entries) (expect : Expect) : List Token → Except Fault Entries
  | [] => if expect = .nothing then .ok read else .error .malformed
  | t :: ts => match step read expect t with
    | .ok (read, expect) => readEntries read expect ts
    | .error f => .error f

def readTable (text : String) : Except Fault Table :=
  (readEntries .empty .table (tokens text)).map fun read => ⟨read⟩

def writeWorker (w : WorkerId) : String := w.text

def writeItem (i : ItemId) : String := .ofList (literal i.text)

/-- The texts with commas between them. -/
def commas (parts : List (List Char)) : List Char := [','].intercalate parts

def entryText (e : WorkerId × List ItemId) : List Char :=
  literal e.1.text ++ ':' :: '[' :: commas (e.2.map fun i => literal i.text) ++ [']']

def writeTable (t : Table) : String :=
  .ofList ('\x7b' :: commas (t.entries.map entryText) ++ ['\x7d'])

end Roster.Json
