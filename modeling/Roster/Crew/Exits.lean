import Roster.Crew.Basic

/-!
How entries leave a crew: by the report of a handler that returned, by the notice that one has
ended without a report, and by force. Reports of an earlier generation are ignored.
-/

namespace Roster

structure ExitCounts where
  reported : Nat
  unreported : Nat
  deriving DecidableEq, Repr

def ExitCounts.total (n : ExitCounts) : Nat := n.reported + n.unreported

namespace Crew

/-- Removes the entry that the report is about, and says whether it is there. -/
def onExit (c : Crew) (r : Report) : Bool × Crew :=
  match c.handlers.get? r.item with
  | some e =>
    if e.generation = r.generation then
      let event : Log.Event := match e.phase with
        | .running => .exitedWhileRunning c.worker r.item
        | .stopping _ => .stopped c.worker r.item
      (true, { c with handlers := c.handlers.erase r.item, log := c.log ++ [event] })
    else (false, c)
  | none => (false, c)

/-- Handles reports in order, and counts those that remove an entry. -/
def onExits (c : Crew) : List Report → Nat × Crew
  | [] => (0, c)
  | r :: rs =>
    let (known, c) := c.onExit r
    let (n, c) := c.onExits rs
    (n + known.toNat, c)

/-- Takes the oldest report out of the queue. -/
def receive (c : Crew) : Crew :=
  match c.reports with
  | [] => c
  | r :: rs => (onExit { c with reports := rs } r).2

/-- Handles all reports in the queue. -/
def drain (c : Crew) : Nat × Crew := onExits { c with reports := [] } c.reports

/-- Entries whose task has ended. -/
def ended (c : Crew) : OrderedMap ItemId Entry := c.handlers.filter fun _ e => !c.isLive e.generation

/-- Removes the entries of handlers that have ended. They are noted before the queue is drained: a
task queues its report before it ends, so an entry that was noted and is left when the queue is
empty had no report. -/
def collectExits (c : Crew) : ExitCounts × Crew :=
  let ended := c.ended
  let (reported, c) := c.drain
  let silent := ended.filter fun i e => (c.handlers.get? i).any (·.generation = e.generation)
  (⟨reported, silent.size⟩,
    { c with
      handlers := c.handlers.filter fun i _ => (silent.get? i).isNone
      log := c.log ++ silent.keys.map (.endedUnreported c.worker) })

/-- Aborts the tasks of these generations. -/
def abortTasks (ts : List Task) (now : Nat) (generations : List Nat) : List Task :=
  generations.foldl (fun ts g => ts.modify g (·.abort now)) ts

/-- Removes the entries that `p` holds of and aborts their tasks. -/
def abortWhere (c : Crew) (now : Nat) (timeout : Option Nat) (p : Entry → Bool) : Nat × Crew :=
  let gone := c.handlers.filter fun _ e => p e
  (gone.size,
    { c with
      handlers := c.handlers.filter fun _ e => !p e
      tasks := abortTasks c.tasks now (gone.values.map (·.generation))
      log := c.log ++ gone.keys.map (.forceAborted c.worker · timeout) })

/-- Aborts what has been stopping for the stop timeout or longer. -/
def abortOverdue (c : Crew) (now : Nat) : Nat × Crew :=
  c.abortWhere now (some c.stopTimeout) fun e => e.phase.isOverdue now c.stopTimeout

def abortAll (c : Crew) (now : Nat) : Nat × Crew := c.abortWhere now none fun _ => true

end Crew

end Roster
