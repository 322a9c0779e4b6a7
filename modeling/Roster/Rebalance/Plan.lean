import Roster.Load.Queue
import Roster.Move

/-!
A plan of moves for one rebalance, kept by phase. The phases follow one another in the order of the
fields, and the statistics count the moves of each.
-/

namespace Roster

/-- How many moves a plan has in each phase. -/
structure Stats where
  workersAdded : Nat
  workersRemoved : Nat
  itemsDropped : Nat
  itemsAssigned : Nat
  itemsShed : Nat
  itemsFilled : Nat
  deriving DecidableEq, Repr

/-- Moves that change who handles an item. -/
def Stats.itemMoves (s : Stats) : Nat :=
  s.itemsDropped + s.itemsAssigned + s.itemsShed + s.itemsFilled

structure Plan where
  removed : List WorkerId
  added : List WorkerId
  /-- Items that a worker loses, with that worker. -/
  dropped : List (ItemId × WorkerId)
  /-- Items without an owner, with the worker that receives them. -/
  assigned : List (ItemId × WorkerId)
  shed : List Transfer
  filled : List Transfer
  /-- Every worker ends with this many items or one more. -/
  avg : Nat
  deriving DecidableEq, Repr

def Transfer.move (t : Transfer) : Move := .transfer t.item t.source t.target

namespace Plan

def moves (p : Plan) : List Move :=
  p.removed.map .removeWorker ++ p.added.map .addWorker ++
    p.dropped.map (fun d => .drop d.1 d.2) ++ p.assigned.map (fun a => .assign a.1 a.2) ++
    p.shed.map (·.move) ++ p.filled.map (·.move)

def stats (p : Plan) : Stats where
  workersAdded := p.added.length
  workersRemoved := p.removed.length
  itemsDropped := p.dropped.length
  itemsAssigned := p.assigned.length
  itemsShed := p.shed.length
  itemsFilled := p.filled.length

def isEmpty (p : Plan) : Bool := p.moves.isEmpty

end Plan

end Roster
