import Roster.Ordered.Sort
import Roster.Ordered.Set
import Roster.Ordered.Map
import Roster.Ordered.Search
import Roster.Text.Blank
import Roster.Text.Bytes
import Roster.Text.Decimal
import Roster.Text.Printable
import Roster.Text.Quoted
import Roster.Hash.Sha256
import Roster.Diff
import Roster.Digest
import Roster.Id
import Roster.Error
import Roster.Move
import Roster.Table
import Roster.Json.Document
import Roster.Load.Basic
import Roster.Load.Queue
import Roster.Election
import Roster.Rebalance.Plan
import Roster.Rebalance.Planner
import Roster.Config
import Roster.Backend
import Roster.Log
import Roster.Rebalance.Tick
import Roster.Crew.Basic
import Roster.Crew.Exits
import Roster.Crew.Pass
import Roster.Crew.Settle
import Roster.Fleet
import Roster.Scheduler.Basic
import Roster.Scheduler.Timeline
import Roster.Cluster
import Roster.Proofs.Ordered.Lexicographic
import Roster.Proofs.Text.Order
import Roster.Proofs.Load.Order
import Roster.Proofs.Load.Queue
import Roster.Proofs.Load.Pile
import Roster.Proofs.Load.Transfers
import Roster.Proofs.Table.Ownership
import Roster.Proofs.Rebalance.Survey
import Roster.Proofs.Rebalance.Levels
import Roster.Proofs.Rebalance.Dealing
import Roster.Proofs.Rebalance.Steps
import Roster.Proofs.Rebalance.Trim
import Roster.Proofs.Rebalance.Resume
import Roster.Proofs.Rebalance.Outcome
import Roster.Proofs.Rebalance.Readers
import Roster.Proofs.Rebalance.Churn
import Roster.Proofs.Rebalance.Tally
import Roster.Proofs.Backend
import Roster.Proofs.Rebalance.Retry
import Roster.Proofs.Cluster
import Roster.Proofs.Diff
import Roster.Proofs.Id
import Roster.Proofs.Config
import Roster.Proofs.Crew.Steps
import Roster.Proofs.Crew.Staffing
import Roster.Proofs.Crew.Convergence
import Roster.Proofs.Fleet
import Roster.Proofs.Scheduler.Turns
import Roster.Proofs.Scheduler.Mastery
import Roster.Proofs.Scheduler.Admission
import Roster.Proofs.Table.Framing
import Roster.Proofs.Crew.Dated
import Roster.Proofs.Crew.History
import Roster.Proofs.Crew.Watch
import Roster.Proofs.Rebalance.Journal
import Roster.Proofs.Scheduler.Departure
import Roster.Proofs.Scheduler.Shutdown
import Roster.Proofs.Scheduler.Orders
import Roster.Proofs.Json.Document
import Roster.Proofs.Rebalance.Loops
import Roster.Proofs.Rebalance.Sides
import Roster.Proofs.Rebalance.Settled
import Roster.Proofs.Rebalance.Donors
import Roster.Proofs.Rebalance.Idle
import Roster.Proofs.Rebalance.Registration
import Roster.Proofs.Rebalance.Returns
import Roster.Proofs.Renaming.Lists
import Roster.Proofs.Renaming.Loads
import Roster.Proofs.Renaming.Plans
import Roster.Proofs.Renaming.Maps
import Roster.Proofs.Table.Roll
import Roster.Proofs.Table.Commuting
import Roster.Proofs.Rebalance.Relevance
import Roster.Proofs.Rebalance.Rounds
import Roster.Proofs.Crew.Difference
import Roster.Proofs.Crew.Outage
import Roster.Proofs.Crew.Rest
import Roster.Proofs.Crew.Ledger
import Roster.Proofs.Crew.Reports
import Roster.Proofs.Crew.Settling
import Roster.Proofs.Crew.Stopping
