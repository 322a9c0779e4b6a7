import Roster.Proofs.Backend
import Roster.Proofs.Rebalance.Outcome
import Roster.Rebalance.Tick

/-! Ticks that fail and are tried again. Wherever outages stop a tick, the next one takes the
rebalance up again, so the last one ends in the table of a tick without outages. -/

namespace Roster

namespace Planner
open Table

variable {t t' : Table} {m : Membership}

theorem proceeds_of_applyAll {k : Nat} (ha : t.Ascending) (hm : m.workers.isEmpty = false)
    (h : t.applyAll ((planFor t m).moves.take k) = (t', none)) :
    Proceeds m t ((planFor t m).moves.take k) t' := by
  obtain ⟨u, hu⟩ := exists_proceeds ha hm k
  have : u = t' := by
    have := hu.accepted.symm.trans h
    simpa using this
  exact this ▸ hu

end Planner

/-- What is planned for the table and the registry at hand. -/
def Backend.plan (b : Backend) : Plan := Planner.planFor b.table b.registry.membership

/-- Carrying out `ms`, the first moves of the plan at hand, takes the table to `t'`. -/
def Backend.Leads (b : Backend) (ms : List Move) (t' : Table) : Prop :=
  Planner.Proceeds b.registry.membership b.table ms t'

namespace Rebalancer
open Planner

variable {b b' : Backend} {r : Rebalancer}

theorem plan_backend (hm : b.registry.workers.isEmpty = false) :
    Planner.plan b.table b.registry.membership = .ok b.plan :=
  plan_eq (m := b.registry.membership) hm

/-- What a tick plans, if it comes to that. -/
def planned (b : Backend) : Except Error Plan × Backend :=
  match b.snapshot with
  | (.error e, b) => (.error e, b)
  | (.ok t, b) => match b.members with
    | (.error e, b) => (.error e, b)
    | (.ok m, b) => (Planner.plan t m, b)

theorem carryOut_eq (b : Backend) : carryOut b = match planned b with
    | (.error e, b) => (.error e, b)
    | (.ok p, b) => match b.applyAll p.moves with
      | (.error e, b) => (.error e, b)
      | (.ok (), b) => (.ok p, b) := by
  obtain ⟨o, hs | ⟨e, hs⟩⟩ := b.snapshot_cases
  · obtain ⟨o', hc | ⟨e, hc⟩⟩ := Backend.members_cases { b with outages := o }
    · simp only [carryOut, planned, hs, hc]
      cases Planner.plan b.table b.registry.membership <;> rfl
    · simp only [carryOut, planned, hs, hc]
  · simp only [carryOut, planned, hs]

/-- Planning changes nothing, and meets an outage or plans for what is at hand. -/
theorem planned_cases (b : Backend) : ∃ o,
    planned b = (Planner.plan b.table b.registry.membership, { b with outages := o }) ∨
      ∃ e, planned b = (.error e, { b with outages := o }) := by
  obtain ⟨o, hs | ⟨e, hs⟩⟩ := b.snapshot_cases
  · obtain ⟨o', hc | ⟨e, hc⟩⟩ := Backend.members_cases { b with outages := o }
    · exact ⟨o', .inl (by simp only [planned, hs, hc])⟩
    · exact ⟨o', .inr ⟨e, by simp only [planned, hs, hc]⟩⟩
  · exact ⟨o, .inr ⟨e, by simp only [planned, hs]⟩⟩

/-- A tick carries out the plan, or the first moves of it where it meets an outage. -/
theorem carryOut_cases (ha : b.table.Ascending) (hm : b.registry.workers.isEmpty = false) :
    ∃ o, (∃ t', b.Leads b.plan.moves t' ∧
        carryOut b = (.ok b.plan, { b with table := t', outages := o })) ∨
      ∃ e k t', b.Leads (b.plan.moves.take k) t' ∧
        carryOut b = (.error e, { b with table := t', outages := o }) := by
  rw [carryOut_eq]
  obtain ⟨o, hp | ⟨e, hp⟩⟩ := planned_cases b
  · rw [hp, plan_backend hm]
    obtain ⟨t', h, -⟩ := exists_level ha (m := b.registry.membership) hm
    have hall : b.table.applyAll b.plan.moves = (t', none) := h.accepted
    obtain ⟨o', hall | ⟨e, k, u, hu, hall⟩⟩ :=
      Backend.applyAll_cases (b := { b with outages := o }) hall
    · exact ⟨o', .inl ⟨t', h, by simp only [hall]⟩⟩
    · exact ⟨o', .inr ⟨e, k, u, proceeds_of_applyAll ha hm hu, by simp only [hall]⟩⟩
  · rw [hp]
    exact ⟨o, .inr ⟨e, 0, b.table, .refl ha, rfl⟩⟩

theorem carryOut_of_quiet (ha : b.table.Ascending) (hm : b.registry.workers.isEmpty = false)
    (hq : b.outages = []) : ∃ t', b.Leads b.plan.moves t' ∧
      carryOut b = (.ok b.plan, { b with table := t' }) := by
  have hplan := plan_backend hm
  obtain ⟨t', h, -⟩ := exists_level ha (m := b.registry.membership) hm
  have hall : b.applyAll b.plan.moves = (.ok (), { b with table := t' }) :=
    Backend.applyAll_of_quiet hq h.accepted
  refine ⟨t', h, ?_⟩
  simp only [carryOut, Backend.snapshot, Backend.members, Backend.call_of_quiet hq, hplan, hall]

/-- A tick changes the table by the first moves of the plan, and by all of them if it succeeds. -/
theorem tick_cases (r : Rebalancer) (ha : b.table.Ascending)
    (hm : b.registry.workers.isEmpty = false) :
    ∃ k t' o, b.Leads (b.plan.moves.take k) t' ∧
      (r.tick b).backend = { b with table := t', outages := o } ∧
      ∀ s, (r.tick b).result = .ok s → s = b.plan.stats ∧ b.Leads b.plan.moves t' := by
  obtain ⟨o, ⟨t', h, hc⟩ | ⟨e, k, t', h, hc⟩⟩ := carryOut_cases ha hm
  · have htake : b.Leads (b.plan.moves.take b.plan.moves.length) t' := by rwa [List.take_length]
    obtain ⟨o', hs | ⟨e, hs⟩⟩ := Backend.snapshot_cases { b with table := t', outages := o }
    · refine ⟨b.plan.moves.length, t', o', htake, ?_⟩
      simp only [tick, hc, hs]
      split
      · exact ⟨rfl, fun s hs => ⟨(Except.ok.inj hs).symm, h⟩⟩
      · exact ⟨rfl, fun s hs => ⟨(Except.ok.inj hs).symm, h⟩⟩
    · have htick : r.tick b =
          ⟨.error e, r, { b with table := t', outages := o' }, summary b.plan⟩ := by
        simp only [tick, hc, hs]
      rw [htick]
      exact ⟨b.plan.moves.length, t', o', htake, rfl, fun s hs => nomatch hs⟩
  · have htick : r.tick b = ⟨.error e, r, { b with table := t', outages := o }, []⟩ := by
      simp only [tick, hc]
    rw [htick]
    exact ⟨k, t', o, h, rfl, fun s hs => nomatch hs⟩

/-- Without outages a tick succeeds. -/
theorem tick_of_quiet (r : Rebalancer) (ha : b.table.Ascending)
    (hm : b.registry.workers.isEmpty = false) (hq : b.outages = []) :
    (r.tick b).result = .ok b.plan.stats := by
  obtain ⟨t', h, hc⟩ := carryOut_of_quiet ha hm hq
  simp only [tick, hc, Backend.snapshot,
    Backend.call_of_quiet (b := { b with table := t' }) hq]
  split <;> rfl

/-- From `b` on, ticks alone have changed the table, and nothing the registry; elections and
outages may have come in between. -/
inductive Retries (b : Backend) : Backend → Prop
  | start {b' : Backend} (ht : b'.table = b.table) (hr : b'.registry = b.registry) : Retries b b'
  | tick {b' b'' : Backend} (r : Rebalancer) (h : Retries b b')
      (ht : b''.table = (r.tick b').backend.table)
      (hr : b''.registry = (r.tick b').backend.registry) : Retries b b''

/-- However often it is tried, a rebalance is on its way from `b`. -/
theorem Retries.leads (h : Retries b b') (ha : b.table.Ascending)
    (hm : b.registry.workers.isEmpty = false) :
    b'.registry = b.registry ∧ ∃ ms, b.Leads ms b'.table := by
  induction h with
  | start ht hr =>
    refine ⟨hr, [], ?_⟩
    rw [ht]
    exact .refl ha
  | @tick c _ r h ht hr ih =>
    obtain ⟨hr', ms, hlead⟩ := ih
    obtain ⟨k, t', o, hk, hback, -⟩ := tick_cases r hlead.ascending (hr' ▸ hm)
    rw [hback] at ht hr
    rw [Backend.Leads, hr'] at hk
    refine ⟨hr.trans hr', ms ++ c.plan.moves.take k, ?_⟩
    rw [ht]
    exact hlead.trans hk

/-- A tick that succeeds in the end leads to where one without outages leads at once. -/
theorem Retries.table_eq (h : Retries b b') (ha : b.table.Ascending)
    (hm : b.registry.workers.isEmpty = false) {s : Stats} (hs : (r.tick b').result = .ok s) :
    b.Leads b.plan.moves (r.tick b').backend.table := by
  obtain ⟨hr, ms, hlead⟩ := h.leads ha hm
  obtain ⟨k, t', o, -, hback, hok⟩ := tick_cases r hlead.ascending (hr ▸ hm)
  have hrest := (hok s hs).2
  rw [hback]
  rw [Backend.Leads, Backend.plan, hr] at hrest
  have hall := hlead.trans hrest
  rw [← hlead.moves] at hall
  exact hall

/-- After any number of its moves the plan for what they lead to is the rest of the plan. So however
often a tick is tried again, once it succeeds the table is that of a tick without outages. -/
theorem rebalance_resumes {t : Table} {m : Membership} (ha : t.Ascending)
    (hm : m.workers.isEmpty = false) :
    ∃ p, Planner.plan t m = .ok p ∧
      (∀ k ≤ p.moves.length, ∃ t' q, t.applyAll (p.moves.take k) = (t', none) ∧
        Planner.plan t' m = .ok q ∧ q.avg = p.avg ∧ q.moves = p.moves.drop k) ∧
      ∀ b b' : Backend, b.table = t → b.registry.membership = m → Retries b b' →
        ∀ r r' : Rebalancer, (r.tick { b with outages := [] }).result = .ok p.stats ∧
          (b'.outages = [] → ∃ s, (r'.tick b').result = .ok s) ∧
          ∀ s, (r'.tick b').result = .ok s →
            (r'.tick b').backend.table = (r.tick { b with outages := [] }).backend.table := by
  refine ⟨planFor t m, plan_eq hm, ?_, ?_⟩
  · intro k _
    obtain ⟨t', h⟩ := exists_proceeds ha hm k
    exact ⟨t', planFor t' m, h.accepted, plan_eq hm, h.avg, h.moves_eq_drop⟩
  · rintro b b' rfl rfl h r r'
    obtain ⟨hr, ms, hlead⟩ := h.leads ha hm
    have hquiet := tick_of_quiet (b := { b with outages := [] }) r ha hm rfl
    refine ⟨hquiet, ?_, ?_⟩
    · intro hq
      exact ⟨_, tick_of_quiet r' hlead.ascending (hr ▸ hm) hq⟩
    · intro s hs
      have hstart : Retries b { b with outages := [] } := .start rfl rfl
      have hlast := h.table_eq ha hm hs
      have hplain := hstart.table_eq ha hm hquiet
      simpa using hlast.accepted.symm.trans hplain.accepted

theorem untidy_resumes : untidy.Ascending ∧ crew.workers.isEmpty = false ∧
    ∃ p, Planner.plan untidy crew = .ok p ∧
      (∀ k ≤ p.moves.length, ∃ t' q, untidy.applyAll (p.moves.take k) = (t', none) ∧
        Planner.plan t' crew = .ok q ∧ q.avg = p.avg ∧ q.moves = p.moves.drop k) ∧
      ∀ b b' : Backend, b.table = untidy → b.registry.membership = crew → Retries b b' →
        ∀ r r' : Rebalancer, (r.tick { b with outages := [] }).result = .ok p.stats ∧
          (b'.outages = [] → ∃ s, (r'.tick b').result = .ok s) ∧
          ∀ s, (r'.tick b').result = .ok s →
            (r'.tick b').backend.table = (r.tick { b with outages := [] }).backend.table :=
  ⟨by decide, by decide, rebalance_resumes (by decide) (by decide)⟩

end Rebalancer

end Roster
