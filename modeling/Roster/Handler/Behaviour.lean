import Roster.Id

/-!
How handlers behave: when one ends if left alone, and when it ends once it has heard that it is
cancelled. A script says this for every start of every item.
-/

namespace Roster

/-- How a handler ends by itself. Only one that returns reports its exit. -/
inductive Ending where
  | returned
  | panicked
  deriving DecidableEq, Repr

structure Behaviour where
  /-- How long after its start it ends if it is left alone, if ever. -/
  alone : Option (Nat × Ending)
  /-- How long after it has heard of its cancellation it ends, if that makes it end. -/
  onCancel : Option (Nat × Ending)
  /-- It records that it has heard of its cancellation. -/
  notices : Bool
  deriving DecidableEq, Repr

namespace Behaviour

/-- Waits for its cancellation. -/
def idle : Behaviour := ⟨none, some (0, .returned), false⟩

/-- Never ends. -/
def stubborn : Behaviour := ⟨none, none, false⟩

def returnsAtOnce : Behaviour := ⟨some (0, .returned), none, false⟩

def panicsAtOnce : Behaviour := ⟨some (0, .panicked), none, false⟩

/-- Ends after `ms`, or earlier when cancelled. -/
def runs (ms : Nat) : Behaviour := ⟨some (ms, .returned), some (0, .returned), false⟩

/-- Takes `ms` to end once it is cancelled. -/
def stopsSlowly (ms : Nat) : Behaviour := ⟨none, some (ms, .returned), true⟩

def panicsOnStop : Behaviour := ⟨none, some (0, .panicked), true⟩

end Behaviour

/-- What the handlers of each item do, one behaviour a start. -/
structure Script where
  named : List (String × List Behaviour)
  deriving DecidableEq, Repr

namespace Script

/-- The name that stands for all items that are not named. -/
def wildcard : String := "*"

def behavioursOf (s : Script) (i : ItemId) : List Behaviour :=
  ((s.named.lookup i.text).orElse fun _ => s.named.lookup wildcard).getD [.idle]

/-- The behaviour of start number `n` of the item, from 0; the last one repeats. -/
def behaviour (s : Script) (i : ItemId) (n : Nat) : Behaviour :=
  let all := s.behavioursOf i
  (all[n]?.orElse fun _ => all.getLast?).getD .idle

end Script

end Roster
