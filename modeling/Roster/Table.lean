import Roster.Digest
import Roster.Error
import Roster.Move
import Roster.Ordered.Map
import Roster.Ordered.Search

/-!
The assignment table: which worker owns which items. Every move is checked against the table, and
one that does not fit is refused. Lists are searched by halving, so an item counts as owned if the
search finds it; of ascending lists that is every item.
-/

namespace Roster

structure Table where
  owners : OrderedMap WorkerId (List ItemId)
  deriving DecidableEq

namespace Table

def empty : Table := ⟨.empty⟩

instance : Inhabited Table := ⟨empty⟩

/-- Gives a worker exactly these items, in ascending order and each once. -/
def withWorker (t : Table) (w : WorkerId) (items : List ItemId) : Table :=
  ⟨t.owners.insert w (Ordered.sortOnce items)⟩

def workers (t : Table) : List WorkerId := t.owners.keys

def entries (t : Table) : List (WorkerId × List ItemId) := t.owners.entries

/-- Nothing for a worker without an entry. -/
def itemsFor (t : Table) (w : WorkerId) : List ItemId := (t.owners.get? w).getD []

def containsWorker (t : Table) (w : WorkerId) : Bool := t.owners.contains w

/-- The first worker in whose list the item is found. -/
def ownerOf (t : Table) (i : ItemId) : Option WorkerId :=
  (t.entries.find? fun e => Ordered.Search.contains i e.2).map (·.1)

def workerCount (t : Table) : Nat := t.owners.size

def totalItems (t : Table) : Nat := (t.entries.flatMap (·.2)).length

/-- How many items each worker owns. -/
def loads (t : Table) : List (WorkerId × Nat) := t.entries.map fun e => (e.1, e.2.length)

/-- The bytes that the digest is taken of. -/
def frame (t : Table) : List UInt8 :=
  Digest.frame (t.entries.map fun e => (e.1.text, e.2.map (·.text)))

def digest (t : Table) : Digest := .ofBytes t.frame

/-- Takes one copy of the item off the worker's list. -/
def removeItem (t : Table) (i : ItemId) (w : WorkerId) : Except StaleCause Table :=
  match t.owners.get? w with
  | none => .error (.unknownWorker w)
  | some items => match Ordered.Search.erase? i items with
    | none => .error (.notOwned i w)
    | some rest => .ok ⟨t.owners.modify w fun _ => rest⟩

def insertItem (t : Table) (i : ItemId) (w : WorkerId) : Except StaleCause Table :=
  if t.containsWorker w then .ok ⟨t.owners.modify w (Ordered.Search.insert i)⟩
  else .error (.unknownWorker w)

def check (t : Table) : Move → Except StaleCause Table
  | .addWorker w => .ok (if t.containsWorker w then t else ⟨t.owners.insert w []⟩)
  | .removeWorker w => .ok ⟨t.owners.erase w⟩
  | .drop i source => t.removeItem i source
  | .assign i target => match t.ownerOf i with
    | some owner => .error (.alreadyOwned i owner)
    | none => t.insertItem i target
  | .transfer i source target =>
    if t.containsWorker target then
      match t.removeItem i source with
      | .error cause => .error cause
      | .ok rest => rest.insertItem i target
    else .error (.unknownWorker target)

def apply (t : Table) (m : Move) : Except Error Table :=
  match t.check m with
  | .ok t' => .ok t'
  | .error cause => .error (.staleMove cause)

/-- Applies moves in order up to the first one that is refused, and gives its place and the error. -/
def applyAll (t : Table) : List Move → Table × Option (Nat × Error)
  | [] => (t, none)
  | m :: ms => match t.apply m with
    | .ok t' =>
      let (last, failed) := t'.applyAll ms
      (last, failed.map fun f => (f.1 + 1, f.2))
    | .error e => (t, some (0, e))

end Table

end Roster
