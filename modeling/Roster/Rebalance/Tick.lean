import Roster.Backend
import Roster.Log
import Roster.Rebalance.Planner

/-!
One tick of the rebalance: plan against fresh copies of table and membership, apply the moves one by
one, then log the table if its digest has changed since it was logged last.
-/

namespace Roster

/-- What is kept from one tick to the next. -/
structure Rebalancer where
  lastDigest : Option Digest
  deriving DecidableEq, Repr, Inhabited

namespace Rebalancer

def fresh : Rebalancer := ⟨none⟩

structure Tick where
  result : Except Error Stats
  rebalancer : Rebalancer
  backend : Backend
  log : List Log.Event

/-- Plans and applies the whole plan. -/
def carryOut (b : Backend) : Except Error Plan × Backend :=
  match b.snapshot with
  | (.error e, b) => (.error e, b)
  | (.ok t, b) => match b.members with
    | (.error e, b) => (.error e, b)
    | (.ok m, b) => match Planner.plan t m with
      | .error e => (.error e, b)
      | .ok p => match b.applyAll p.moves with
        | (.error e, b) => (.error e, b)
        | (.ok (), b) => (.ok p, b)

def summary (p : Plan) : List Log.Event :=
  if p.isEmpty then [] else [.rebalanceComplete p.avg p.stats]

def describe (t : Table) : List Log.Event :=
  t.entries.map (fun e => .workerAssignment e.1 e.2) ++ [.assignmentTable t]

/-- An error leaves the digest as it was. -/
def tick (r : Rebalancer) (b : Backend) : Tick :=
  match carryOut b with
  | (.error e, b) => ⟨.error e, r, b, []⟩
  | (.ok p, b) => match b.snapshot with
    | (.error e, b) => ⟨.error e, r, b, summary p⟩
    | (.ok t, b) =>
      if r.lastDigest = some t.digest then ⟨.ok p.stats, r, b, summary p⟩
      else ⟨.ok p.stats, ⟨some t.digest⟩, b, summary p ++ describe t⟩

/-- What the loop says about a tick that failed; no workers is no news. -/
def complaint : Error → Option Log.Event
  | .noWorkers => none
  | e => if e.isTransient then some (.tickInterrupted e) else some (.tickFailed e)

end Rebalancer

end Roster
