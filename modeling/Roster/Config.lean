import Roster.Text.Blank
import Roster.Text.Decimal
import Roster.Text.Quoted
import Roster.Timing

/-!
Configuration from named texts, such as an environment. Each number is optional and is read with
blanks around it; the first check that fails gives the error.
-/

namespace Roster

namespace Config

/-- The variables that hold a number. -/
inductive Variable where
  | rebalanceInterval
  | reconcileInterval
  | stopTimeout
  | initialItems
  | initialWorkers
  | itemGrowthInterval
  | workerGrowthInterval
  | maxWorkers
  deriving DecidableEq, Repr

namespace Variable

def name : Variable → String
  | rebalanceInterval => "SUBDIST_REBALANCE_INTERVAL_MS"
  | reconcileInterval => "SUBDIST_RECONCILE_INTERVAL_MS"
  | stopTimeout => "SUBDIST_STOP_TIMEOUT_SECS"
  | initialItems => "SUBDIST_INITIAL_ITEMS"
  | initialWorkers => "SUBDIST_INITIAL_WORKERS"
  | itemGrowthInterval => "SUBDIST_ITEM_GROWTH_INTERVAL_MS"
  | workerGrowthInterval => "SUBDIST_WORKER_GROWTH_INTERVAL_MS"
  | maxWorkers => "SUBDIST_MAX_WORKERS"

/-- The value when the variable is not set. -/
def fallback : Variable → Nat
  | rebalanceInterval => 1000
  | reconcileInterval => 1000
  | stopTimeout => 30
  | initialItems => 20
  | initialWorkers => 2
  | itemGrowthInterval => 1000
  | workerGrowthInterval => 5000
  | maxWorkers => 8

/-- Values are below this: the count of items has 32 bits, all else 64. -/
def limit : Variable → Nat
  | initialItems => UInt32.size
  | _ => UInt64.size

end Variable

inductive Fault where
  | invalid (v : Variable) (value : String) (cause : Decimal.Fault)
  | zero (v : Variable)
  | tooManyWorkers (initial max : Nat)
  deriving DecidableEq, Repr

def Fault.message : Fault → String
  | .invalid v value _ => "invalid " ++ v.name ++ ": " ++ Text.quoted value
  | .zero v => v.name ++ " must be positive"
  | .tooManyWorkers initial max =>
    Variable.initialWorkers.name ++ " (" ++ .ofList (Decimal.write initial) ++ ") exceeds " ++
      Variable.maxWorkers.name ++ " (" ++ .ofList (Decimal.write max) ++ ")"

/-- What lies behind the message. -/
def Fault.causes : Fault → List String
  | .invalid _ _ cause => [cause.message]
  | _ => []

def readVariable (lookup : String → Option String) (v : Variable) : Except Fault Nat :=
  match lookup v.name with
  | none => .ok v.fallback
  | some value => match Decimal.read v.limit (Text.trim value.toList) with
    | .ok n => .ok n
    | .error cause => .error (.invalid v value cause)

def logLevelName : String := "SUBDIST_LOG_LEVEL"

/-- Nothing grows at an interval of zero. -/
def growthInterval (ms : Nat) : Option Nat := if ms = 0 then none else some ms

end Config

/-- Intervals are in milliseconds, the stop timeout in seconds. -/
structure Config where
  logLevel : String
  rebalanceInterval : Nat
  reconcileInterval : Nat
  stopTimeout : Nat
  initialItems : Nat
  initialWorkers : Nat
  itemGrowthInterval : Option Nat
  workerGrowthInterval : Option Nat
  maxWorkers : Nat
  deriving DecidableEq, Repr

namespace Config

def load (lookup : String → Option String) : Except Fault Config := do
  let rebalance ← readVariable lookup .rebalanceInterval
  let reconcile ← readVariable lookup .reconcileInterval
  let stop ← readVariable lookup .stopTimeout
  if rebalance = 0 then throw (.zero .rebalanceInterval)
  if reconcile = 0 then throw (.zero .reconcileInterval)
  let items ← readVariable lookup .initialItems
  let workers ← readVariable lookup .initialWorkers
  let itemGrowth ← readVariable lookup .itemGrowthInterval
  let workerGrowth ← readVariable lookup .workerGrowthInterval
  let max ← readVariable lookup .maxWorkers
  if max < workers then throw (.tooManyWorkers workers max)
  return {
    logLevel := (lookup logLevelName).getD "info"
    rebalanceInterval := rebalance
    reconcileInterval := reconcile
    stopTimeout := stop
    initialItems := items
    initialWorkers := workers
    itemGrowthInterval := growthInterval itemGrowth
    workerGrowthInterval := growthInterval workerGrowth
    maxWorkers := max }

def timing (c : Config) : Timing := ⟨c.rebalanceInterval, c.reconcileInterval, c.stopTimeout * 1000⟩

end Config

end Roster
