import Roster.Election
import Roster.Registry
import Roster.Table

/-!
The services that all workers share: the assignment table, the registry and the election. Each kind
of call has its spells of outages, and a call that meets one fails without any other effect.
-/

namespace Roster

/-- The kinds of call that can fail. -/
inductive Call where
  | snapshot
  | itemsFor
  | apply
  | registerItem
  | deregisterItem
  | registerWorker
  | deregisterWorker
  | members
  | elect
  deriving DecidableEq, Repr

/-- A number of calls in a row that all meet the same: nothing, or an outage. -/
structure Spell where
  calls : Nat
  outage : Option Error
  deriving DecidableEq, Repr

namespace Spell

/-- What the next call meets, and the spells after it; beyond the last spell it meets nothing. -/
def next : List Spell → Option Error × List Spell
  | [] => (none, [])
  | ⟨0, _⟩ :: rest => next rest
  | ⟨n + 1, e⟩ :: rest => (e, ⟨n, e⟩ :: rest)

end Spell

structure Backend where
  table : Table
  registry : Registry
  election : Election
  /-- What the next calls of a kind meet, for the kinds that meet anything. -/
  outages : List (Call × List Spell)

namespace Backend

def ofTable (t : Table) : Backend := ⟨t, .empty, .empty, []⟩

def spells (b : Backend) (c : Call) : List Spell := (b.outages.lookup c).getD []

def withOutages (b : Backend) (c : Call) (spells : List Spell) : Backend :=
  { b with outages := (c, spells) :: b.outages.filter (·.1 ≠ c) }

theorem lookup_filter_ne {c d : Call} (h : d ≠ c) (l : List (Call × List Spell)) :
    (l.filter (·.1 ≠ c)).lookup d = l.lookup d := by
  induction l with
  | nil => rfl
  | cons e l ih =>
    by_cases he : e.1 = c
    · rw [List.filter_cons_of_neg (by simp [he]), ih, OrderedMap.lookup_cons_if, he, if_neg h]
    · rw [List.filter_cons_of_pos (by simp [he]), OrderedMap.lookup_cons_if, ih,
        OrderedMap.lookup_cons_if]

@[simp] theorem spells_withOutages (b : Backend) (c d : Call) (spells : List Spell) :
    (b.withOutages c spells).spells d = if d = c then spells else b.spells d := by
  by_cases h : d = c
  · simp [Backend.spells, withOutages, OrderedMap.lookup_cons_if, h]
  · simp only [Backend.spells, withOutages, OrderedMap.lookup_cons_if, h, if_false]
    rw [lookup_filter_ne h]

/-- Lets `skip` calls pass and fails the `times` after them, in place of earlier spells. -/
def fail (b : Backend) (c : Call) (skip times : Nat) (e : Error) : Backend :=
  b.withOutages c [⟨skip, none⟩, ⟨times, some e⟩]

/-- Runs `act` unless the call meets an outage. -/
def call {α : Type} (b : Backend) (c : Call) (act : Backend → Except Error α × Backend) :
    Except Error α × Backend :=
  match b.spells c with
  | [] => act b
  | s :: ss => match Spell.next (s :: ss) with
    | (none, rest) => act (b.withOutages c rest)
    | (some e, rest) => (.error e, b.withOutages c rest)

def snapshot (b : Backend) : Except Error Table × Backend :=
  b.call .snapshot fun b => (.ok b.table, b)

def itemsFor (b : Backend) (w : WorkerId) : Except Error (List ItemId) × Backend :=
  b.call .itemsFor fun b => (.ok (b.table.itemsFor w), b)

/-- Moves without meeting an outage. -/
def move (b : Backend) (m : Move) : Except Error Unit × Backend :=
  match b.table.apply m with
  | .ok t => (.ok (), { b with table := t })
  | .error e => (.error e, b)

def apply (b : Backend) (m : Move) : Except Error Unit × Backend := b.call .apply (·.move m)

/-- Stops at the first move that fails; those before it stay applied. -/
def applyAll (b : Backend) : List Move → Except Error Unit × Backend
  | [] => (.ok (), b)
  | m :: ms => match b.apply m with
    | (.ok (), b) => b.applyAll ms
    | (.error e, b) => (.error e, b)

def members (b : Backend) : Except Error Membership × Backend :=
  b.call .members fun b => (.ok b.registry.membership, b)

/-- Changes the registry and says whether that changed anything. -/
def change (b : Backend) (act : Registry → Bool × Registry) : Except Error Bool × Backend :=
  let (changed, r) := act b.registry
  (.ok changed, { b with registry := r })

def registerItem (b : Backend) (i : ItemId) : Except Error Bool × Backend :=
  b.call .registerItem (·.change (·.registerItem i))

def deregisterItem (b : Backend) (i : ItemId) : Except Error Bool × Backend :=
  b.call .deregisterItem (·.change (·.deregisterItem i))

def registerWorker (b : Backend) (w : WorkerId) : Except Error Bool × Backend :=
  b.call .registerWorker (·.change (·.registerWorker w))

def deregisterWorker (b : Backend) (w : WorkerId) : Except Error Bool × Backend :=
  b.call .deregisterWorker (·.change (·.deregisterWorker w))

def elect (b : Backend) (w : WorkerId) : Except Error Bool × Backend :=
  b.call .elect fun b =>
    let (won, e) := b.election.tryLead w
    (.ok won, { b with election := e })

end Backend

end Roster
