import Roster.Rebalance.Plan
import Roster.Registry
import Roster.Table

/-!
Planning a rebalance from a table and a membership. Workers that left are removed and new ones
added; each registered item stays with the first worker that lists it and every other listing is
dropped; items without an owner go to the lightest worker in turn; then workers above the average
plus one shed, and workers below the average are filled.
-/

namespace Roster.Planner

/-- Splits a worker's items into those that stay and those that go. A registered item stays unless
it is `taken` before. -/
def sift (registered taken : List ItemId) : List ItemId → List ItemId × List ItemId
  | [] => ([], [])
  | i :: is =>
    if i ∈ registered ∧ i ∉ taken then
      let (kept, lost) := sift registered (i :: taken) is
      (i :: kept, lost)
    else
      let (kept, lost) := sift registered taken is
      (kept, i :: lost)

/-- What each worker keeps, and what is dropped from whom. -/
def survey (t : Table) (registered taken : List ItemId) :
    List WorkerId → List (WorkerId × List ItemId) × List (ItemId × WorkerId)
  | [] => ([], [])
  | w :: ws =>
    let (kept, lost) := sift registered taken (Ordered.sort (t.itemsFor w))
    let (holdings, dropped) := survey t registered (kept ++ taken) ws
    ((w, kept) :: holdings, lost.map (·, w) ++ dropped)

/-- Gives each item that is not `owned` yet to the lightest worker of that moment. -/
def assignAll (owned : List ItemId) (q : LoadQueue) :
    List ItemId → List (ItemId × WorkerId) × LoadQueue
  | [] => ([], q)
  | i :: is =>
    if i ∈ owned then assignAll owned q is
    else match q.assign i with
      | none => assignAll owned q is
      | some (w, q) =>
        let (assigned, q) := assignAll (i :: owned) q is
        ((i, w) :: assigned, q)

/-- While some worker has more than `avg + 1` items. -/
def shed (avg : Nat) (q : LoadQueue) : List Transfer × LoadQueue :=
  q.transferWhile fun q => q.heaviest.any (avg + 1 < ·.size)

/-- While some worker has fewer than `avg` items. -/
def fill (avg : Nat) (q : LoadQueue) : List Transfer × LoadQueue :=
  q.transferWhile fun q => q.lightest.any (·.size < avg)

def planFor (t : Table) (m : Membership) : Plan :=
  let workers := m.workers.toList
  let (holdings, dropped) := survey t m.items [] workers
  let start := LoadQueue.ofList (holdings.map fun h => Load.of h.1 h.2)
  let (assigned, dealt) := assignAll (holdings.flatMap (·.2)) start m.items
  let avg := dealt.totalItems / dealt.workerCount
  let (shed, even) := shed avg dealt
  let (filled, _) := fill avg even
  { removed := t.workers.filter (· ∉ m.workers)
    added := workers.filter fun w => !t.containsWorker w
    dropped, assigned, shed, filled, avg }

/-- Without workers there is nothing to plan for. -/
def plan (t : Table) (m : Membership) : Except Error Plan :=
  if m.workers.isEmpty then .error .noWorkers else .ok (planFor t m)

end Roster.Planner
