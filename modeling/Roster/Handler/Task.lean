import Roster.Handler.Behaviour
import Roster.Ordered.Sort

/-!
One handler at work. A task begins when it first runs, hears of its cancellation when it runs next,
and ends at the instant its behaviour gives, unless it is aborted before.
-/

namespace Roster

inductive Outcome where
  | ended (time : Nat) (how : Ending)
  | aborted (time : Nat)
  deriving DecidableEq, Repr

structure Task where
  item : ItemId
  behaviour : Behaviour
  started : Option Nat
  /-- When it was told to stop. -/
  cancelled : Option Nat
  /-- When it noticed that. -/
  heard : Option Nat
  outcome : Option Outcome
  deriving DecidableEq, Repr

namespace Task

def new (i : ItemId) (b : Behaviour) : Task := ⟨i, b, none, none, none, none⟩

def isLive (t : Task) : Bool := t.outcome.isNone

/-- Has ended by itself and returned. -/
def hasReturned (t : Task) : Bool :=
  match t.outcome with
  | some (.ended _ .returned) => true
  | _ => false

/-- A later cancellation changes nothing. -/
def cancel (now : Nat) (t : Task) : Task := { t with cancelled := some (t.cancelled.getD now) }

def abort (now : Nat) (t : Task) : Task :=
  if t.isLive then { t with outcome := some (.aborted now) } else t

/-- The earlier of two ends. -/
def sooner : Option (Nat × Ending) → Option (Nat × Ending) → Option (Nat × Ending)
  | some a, some b => if b.1 < a.1 then some b else some a
  | some a, none => some a
  | none, b => b

/-- When and how it ends, as far as it can be told. -/
def due (t : Task) : Option (Nat × Ending) :=
  let after (since : Option Nat) (left : Option (Nat × Ending)) : Option (Nat × Ending) := do
    let start ← since
    let (ms, how) ← left
    return (start + ms, how)
  sooner (after t.started t.behaviour.alone) (after t.heard t.behaviour.onCancel)

def begin (now : Nat) (t : Task) : Task := { t with started := some (t.started.getD now) }

def hear (now : Nat) (t : Task) : Task :=
  if t.cancelled.isSome then { t with heard := some (t.heard.getD now) } else t

/-- Ends it if it is due by `now`. -/
def finish (now : Nat) (t : Task) : Task :=
  match t.due with
  | some (time, how) => if time ≤ now then { t with outcome := some (.ended time how) } else t
  | none => t

/-- Lets it go on as far as it can by `now`. -/
def run (now : Nat) (t : Task) : Task :=
  if !t.isLive then t
  else
    let t := (t.begin now).finish now
    if !t.isLive then t else (t.hear now).finish now

/-- When it will report its exit. -/
def reportDue (t : Task) : Option Nat :=
  if !t.isLive then none
  else match t.due with
    | some (time, .returned) => some time
    | _ => none

end Task

/-- Something that a handler records. -/
inductive Happening where
  | cancel
  | finish
  | start
  deriving DecidableEq, Repr

namespace Happening

def name : Happening → String
  | cancel => "cancel"
  | finish => "end"
  | start => "start"

structure Record where
  time : Nat
  kind : Happening
  worker : WorkerId
  item : ItemId
  deriving DecidableEq, Repr

instance : Ord Record :=
  ⟨compareLex (compareOn (·.time)) (compareLex (compareOn (·.kind.name))
    (compareLex (compareOn (·.worker)) (compareOn (·.item))))⟩

end Happening

/-- What the task has recorded so far. A task that panics or is aborted records no end. -/
def Task.records (w : WorkerId) (t : Task) : List Happening.Record :=
  let mark (time : Option Nat) (kind : Happening) : List Happening.Record :=
    (time.map fun time => ⟨time, kind, w, t.item⟩).toList
  let returned : Option Nat := match t.outcome with
    | some (.ended time .returned) => some time
    | _ => none
  mark t.started .start ++ mark (if t.behaviour.notices then t.heard else none) .cancel ++
    mark returned .finish

end Roster
