import Roster.Cluster
import Roster.Proofs.Rebalance.Retry
import Roster.Proofs.Rebalance.Tally
import Roster.Proofs.Table.Ownership

/-! Whole runs of a cluster, with outages at any call. Nothing that happens in a run puts a list out
of order, and that is all a tick needs: if it succeeds the table is what the registry asks for,
however the run has gone before. -/

namespace Roster

namespace Rebalancer
open Planner

variable {b b' : Backend} {r : Rebalancer} {s : Stats} {e : Error}

/-- The plan `p` for what was at hand has been carried out to the end, and the table is as the
registry asks for. -/
structure Completes (b : Backend) (p : Plan) (s : Stats) (b' : Backend) : Prop where
  planned : (planned b).1 = .ok p
  applied : b.table.applyAll p.moves = (b'.table, none)
  registry : b'.registry = b.registry
  workers : b'.table.workers = b.registry.workers.toList
  owned : ∀ i, b'.table.listed.count i = if i ∈ b.registry.items then 1 else 0
  avg : p.avg = b.registry.items.dedup.length / b.registry.workers.size
  loads : ∀ w ∈ b.registry.workers,
    (b'.table.itemsFor w).length = p.avg ∨ (b'.table.itemsFor w).length = p.avg + 1
  stats : s = b.table.tally p.avg p.moves

/-- What was planned, if anything was, has been carried out in part. -/
structure Breaks (b b' : Backend) : Prop where
  registry : b'.registry = b.registry
  table : match (planned b).1 with
    | .ok p => ∃ ms, ms <+: p.moves ∧ b.table.applyAll ms = (b'.table, none)
    | .error _ => b'.table = b.table

theorem Completes.mem_items_iff {p : Plan} {i : ItemId} (h : Completes b p s b') :
    i ∈ b.registry.items ↔ ∃ w, i ∈ b'.table.itemsFor w := by
  rw [← Table.mem_listed_iff, ← List.count_pos_iff (l := Table.listed _), h.owned]
  split
  · next hi => exact iff_of_true hi Nat.one_pos
  · next hi => exact iff_of_false hi (Nat.lt_irrefl 0)

theorem Completes.mem_workers {p : Plan} {i : ItemId} {w : WorkerId} (h : Completes b p s b')
    (hi : i ∈ b'.table.itemsFor w) : w ∈ b.registry.workers := by
  have hmem := Table.mem_workers_of_mem hi
  rwa [h.workers] at hmem

theorem Completes.exclusive {p : Plan} (h : Completes b p s b') (ha : b'.table.Ascending) :
    b'.table.Exclusive := by
  refine Table.exclusive_iff.2 ⟨ha, List.nodup_iff_count_le_one.2 fun i => ?_⟩
  rw [h.owned]
  split <;> omega

/-- Only a plan gets a tick any further. -/
theorem tick_of_not_planned (r : Rebalancer) (h : (planned b).1 = .error e) :
    ∃ o, r.tick b = ⟨.error e, r, { b with outages := o }, []⟩ := by
  obtain ⟨o, hp | ⟨e', hp⟩⟩ := planned_cases b
  · have hnot : plan b.table b.registry.membership = .error e := by
      rwa [hp] at h
    refine ⟨o, ?_⟩
    simp only [tick, carryOut_eq, hp, hnot]
  · rw [hp] at h
    cases h
    refine ⟨o, ?_⟩
    simp only [tick, carryOut_eq, hp]

/-- A plan is made only where there are workers, and it is the one for what is at hand. -/
theorem of_planned {p : Plan} (h : (planned b).1 = .ok p) :
    b.registry.workers.isEmpty = false ∧ p = b.plan := by
  obtain ⟨o, hp | ⟨e, hp⟩⟩ := planned_cases b
  · rw [hp] at h
    cases hm : b.registry.workers.isEmpty with
    | true =>
      rw [plan, show b.registry.membership.workers.isEmpty = true from hm, if_pos rfl] at h
      cases h
    | false =>
      rw [plan_backend hm] at h
      exact ⟨rfl, (Except.ok.inj h).symm⟩
  · rw [hp] at h
    cases h

theorem completes_of_tick (ha : b.table.Ascending) (h : (r.tick b).result = .ok s) :
    ∃ p, Completes b p s (r.tick b).backend := by
  cases hp : (planned b).1 with
  | error e =>
    obtain ⟨o, htick⟩ := tick_of_not_planned r hp
    rw [htick] at h
    cases h
  | ok p =>
    obtain ⟨hm, rfl⟩ := of_planned hp
    obtain ⟨k, t', o, -, hback, hok⟩ := tick_cases r ha hm
    obtain ⟨rfl, hlead⟩ := hok s h
    have hlevel := Proceeds.level hlead hm
    rw [hback]
    refine ⟨b.plan, ?_⟩
    exact
      { planned := hp
        applied := hlead.accepted
        registry := rfl
        workers := hlevel.workers
        owned := hlevel.count_listed
        avg := avg_planFor ha hm
        loads := hlevel.size
        stats := (tally_moves ha (m := b.registry.membership) hm).symm }

theorem breaks_of_tick (r : Rebalancer) (ha : b.table.Ascending) : Breaks b (r.tick b).backend := by
  cases hp : (planned b).1 with
  | error e =>
    obtain ⟨o, htick⟩ := tick_of_not_planned r hp
    rw [htick]
    exact ⟨rfl, by rw [hp]⟩
  | ok p =>
    obtain ⟨hm, rfl⟩ := of_planned hp
    obtain ⟨k, t', o, hlead, hback, -⟩ := tick_cases r ha hm
    rw [hback]
    refine ⟨rfl, ?_⟩
    rw [hp]
    exact ⟨b.plan.moves.take k, List.take_prefix .., hlead.accepted⟩

theorem ascending_tick (r : Rebalancer) (ha : b.table.Ascending) :
    (r.tick b).backend.table.Ascending := by
  cases hp : (planned b).1 with
  | error e =>
    obtain ⟨o, htick⟩ := tick_of_not_planned r hp
    rw [htick]
    exact ha
  | ok p =>
    obtain ⟨k, t', o, hlead, hback, -⟩ := tick_cases r ha (of_planned hp).1
    rw [hback]
    exact hlead.ascending

end Rebalancer

/-! ### Lists stay in order -/

namespace Backend

variable {b : Backend}

theorem table_registryCall (b : Backend) (c : Call) (f : Registry → Bool × Registry) :
    (b.call c (·.change f)).2.table = b.table := by
  obtain ⟨o, hc | ⟨e, hc⟩⟩ := b.call_cases c (·.change f)
  · rw [hc]
    rfl
  · rw [hc]

theorem ascending_apply (ha : b.table.Ascending) (mv : Move) : (b.apply mv).2.table.Ascending := by
  obtain ⟨o, hc | ⟨e, hc⟩⟩ := b.call_cases .apply (·.move mv)
  · rw [apply, hc, move]
    split
    · next h => exact ha.apply h
    · exact ha
  · rw [apply, hc]
    exact ha

end Backend

namespace Cluster

variable {c : Cluster} {b : Backend} {k : Rebalancer.Tick}

/-- What may happen to a cluster. -/
inductive Act where
  | registerItem (i : ItemId)
  | deregisterItem (i : ItemId)
  | registerWorker (w : WorkerId)
  | deregisterWorker (w : WorkerId)
  /-- A move that comes from elsewhere. -/
  | move (mv : Move)
  /-- From now on the ticks are those of a rebalancer that is new, or that was at work before. -/
  | takeOver (r : Rebalancer)
  | rebalance
  /-- What the next calls meet is changed. -/
  | outages (o : List (Call × List Spell))

def act (c : Cluster) : Act → Cluster
  | .registerItem i => { c with backend := (c.backend.registerItem i).2 }
  | .deregisterItem i => { c with backend := (c.backend.deregisterItem i).2 }
  | .registerWorker w => { c with backend := (c.backend.registerWorker w).2 }
  | .deregisterWorker w => { c with backend := (c.backend.deregisterWorker w).2 }
  | .move mv => { c with backend := (c.backend.apply mv).2 }
  | .takeOver r => { c with rebalancer := r }
  | .rebalance => c.rebalance.2.2
  | .outages o => { c with backend := { c.backend with outages := o } }

def run (c : Cluster) (acts : List Act) : Cluster := acts.foldl act c

theorem ascending_act (ha : c.backend.table.Ascending) (a : Act) :
    (c.act a).backend.table.Ascending := by
  cases a with
  | registerItem i =>
    rw [act, Backend.registerItem, Backend.table_registryCall]
    exact ha
  | deregisterItem i =>
    rw [act, Backend.deregisterItem, Backend.table_registryCall]
    exact ha
  | registerWorker w =>
    rw [act, Backend.registerWorker, Backend.table_registryCall]
    exact ha
  | deregisterWorker w =>
    rw [act, Backend.deregisterWorker, Backend.table_registryCall]
    exact ha
  | move mv => exact Backend.ascending_apply ha mv
  | takeOver r => exact ha
  | rebalance => exact Rebalancer.ascending_tick c.rebalancer ha
  | outages o => exact ha

theorem ascending_run (ha : c.backend.table.Ascending) (acts : List Act) :
    (c.run acts).backend.table.Ascending := by
  induction acts generalizing c with
  | nil => exact ha
  | cons a acts ih => exact ih (ascending_act ha a)

/-- Whatever a run has been through, a tick that succeeds brings the table to what the registry asks
for, and one that fails leaves the first moves of its plan. Without outages it succeeds. -/
theorem rebalance_stabilises (ha : c.backend.table.Ascending) (acts : List Act)
    (hb : (c.run acts).backend = b) (hk : (c.run acts).rebalancer.tick b = k) :
    (∀ s, k.result = .ok s → ∃ p, Rebalancer.Completes b p s k.backend) ∧
      (∀ e, k.result = .error e → Rebalancer.Breaks b k.backend) ∧
      (b.outages = [] → b.registry.workers.isEmpty = false → ∃ s, k.result = .ok s) := by
  have hasc := ascending_run ha acts
  subst hb hk
  refine ⟨?_, ?_, ?_⟩
  · intro s hs
    exact Rebalancer.completes_of_tick hasc hs
  · intro e _
    exact Rebalancer.breaks_of_tick _ hasc
  · intro hq hm
    exact ⟨_, Rebalancer.tick_of_quiet _ hasc hm hq⟩

/-- A tick fails after two of its moves, and until the next one an item is assigned that nobody has
registered, a worker comes and an item goes. -/
def upset : List Act :=
  [.registerWorker ⟨1⟩, .registerWorker ⟨2⟩, .registerItem ⟨"u", by decide⟩,
    .registerItem ⟨"v", by decide⟩,
    .outages [(.apply, [⟨2, none⟩, ⟨1, some (.staleMove (.stated "injected"))⟩])], .rebalance,
    .move (.assign ⟨"z", by decide⟩ ⟨1⟩), .registerWorker ⟨3⟩, .deregisterItem ⟨"v", by decide⟩,
    .takeOver .fresh, .outages []]

def ending : Cluster := (ofTable Planner.untidy).run upset

def lastTick : Rebalancer.Tick := ending.rebalancer.tick ending.backend

theorem upset_stabilises :
    (ofTable Planner.untidy).backend.table.Ascending ∧ ending.backend.outages = [] ∧
      ending.backend.registry.workers.isEmpty = false ∧
      (∀ s, lastTick.result = .ok s →
        ∃ p, Rebalancer.Completes ending.backend p s lastTick.backend) ∧
      (∀ e, lastTick.result = .error e → Rebalancer.Breaks ending.backend lastTick.backend) ∧
      (ending.backend.outages = [] → ending.backend.registry.workers.isEmpty = false →
        ∃ s, lastTick.result = .ok s) :=
  ⟨by decide, rfl, by decide +kernel, rebalance_stabilises (by decide) upset rfl rfl⟩

end Cluster

end Roster
