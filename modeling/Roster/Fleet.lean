import Roster.Backend
import Roster.Crew.Pass
import Roster.Crew.Settle

/-!
Crews of several workers on one clock and over one backend. After every command all tasks go on as
far as they can at that instant.
-/

namespace Roster

structure Fleet where
  now : Nat
  backend : Backend
  crews : OrderedMap WorkerId Crew
  /-- Crews that were given up; their tasks may still be at work. -/
  gone : OrderedSet WorkerId
  script : Script

namespace Fleet

def ofWorkers (t : Table) (workers : List WorkerId) (stopTimeout : Nat) (s : Script) : Fleet :=
  ⟨0, .ofTable t, .ofList (workers.map fun w => (w, .fresh w stopTimeout)), .empty, s⟩

/-- The crew of a worker, unless it was given up. -/
def crew? (f : Fleet) (w : WorkerId) : Option Crew :=
  if w ∈ f.gone then none else f.crews.get? w

def liveCrews (f : Fleet) : List Crew :=
  (f.crews.filter fun w _ => w ∉ f.gone).values

def putCrew (f : Fleet) (c : Crew) : Fleet := { f with crews := f.crews.insert c.worker c }

/-- How often handlers of the item were started, over all crews. -/
def startCount (f : Fleet) (i : ItemId) : Nat :=
  (f.crews.values.flatMap (·.tasks)).countP (·.item = i)

/-- What the next handler of the item does. -/
def nextBehaviour (f : Fleet) (i : ItemId) : Behaviour := f.script.behaviour i (f.startCount i)

def reconcile (f : Fleet) (c : Crew) : Except Error Pass × Fleet :=
  let (read, b) := f.backend.itemsFor c.worker
  let (result, c) := c.reconcile f.now read f.nextBehaviour
  (result, { f with backend := b }.putCrew c)

def settle (f : Fleet) (c : Crew) (timeout : Nat) : Except Overflow (Bool × Fleet) :=
  (c.settle f.now timeout).map fun (settled, time, c) => (settled, { f with now := time }.putCrew c)

def stop (f : Fleet) (c : Crew) : Except Overflow (Nat × Fleet) :=
  (c.stop f.now).map fun (aborted, time, c) => (aborted, { f with now := time }.putCrew c)

def giveUp (f : Fleet) (c : Crew) : Fleet :=
  { f.putCrew (c.disband f.now) with gone := f.gone.insert c.worker }

def sleep (f : Fleet) (ms : Nat) : Fleet := { f with now := f.now + ms }

/-- Lets all tasks go on at this instant. -/
def runAll (f : Fleet) : Fleet := { f with crews := f.crews.mapValues fun _ c => c.runAll f.now }

/-- What has been recorded since the fleet was as `before`, in order. -/
def recordsSince (f before : Fleet) : List Happening.Record :=
  Ordered.sort (f.crews.entries.flatMap fun e => match before.crews.get? e.1 with
    | some c => e.2.recordsSince c
    | none => e.2.records)

def warnings (f : Fleet) : List Log.Event :=
  Log.sorted ((f.crews.values.flatMap (·.log)).filter (·.isWarning))

def clearLogs (f : Fleet) : Fleet :=
  { f with crews := f.crews.mapValues fun _ c => { c with log := [] } }

end Fleet

end Roster
