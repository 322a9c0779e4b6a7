import Roster.Backend
import Roster.Proofs.Table.Moves

/-! Calls under outages. A call that meets one changes nothing but what later calls meet, and any
other call acts as it does where there are no outages at all. -/

namespace Roster.Backend

variable {b : Backend} {t' : Table} {mv : Move} {ms : List Move}

theorem call_cases {α : Type} (b : Backend) (c : Call) (act : Backend → Except Error α × Backend) :
    ∃ o, b.call c act = act { b with outages := o } ∨
      ∃ e, b.call c act = (.error e, { b with outages := o }) := by
  unfold call
  split
  · exact ⟨b.outages, .inl rfl⟩
  · split
    · exact ⟨_, .inl rfl⟩
    · exact ⟨_, .inr ⟨_, rfl⟩⟩

theorem call_of_quiet {α : Type} (h : b.outages = []) (c : Call)
    (act : Backend → Except Error α × Backend) : b.call c act = act b := by
  have hspells : b.spells c = [] := by simp [spells, h]
  rw [call, hspells]

theorem snapshot_cases (b : Backend) : ∃ o, b.snapshot = (.ok b.table, { b with outages := o }) ∨
    ∃ e, b.snapshot = (.error e, { b with outages := o }) :=
  b.call_cases .snapshot fun b => (.ok b.table, b)

theorem members_cases (b : Backend) :
    ∃ o, b.members = (.ok b.registry.membership, { b with outages := o }) ∨
      ∃ e, b.members = (.error e, { b with outages := o }) :=
  b.call_cases .members fun b => (.ok b.registry.membership, b)

theorem apply_cases (h : b.table.apply mv = .ok t') :
    ∃ o, b.apply mv = (.ok (), { b with table := t', outages := o }) ∨
      ∃ e, b.apply mv = (.error e, { b with outages := o }) := by
  obtain ⟨o, hc | hc⟩ := b.call_cases .apply (·.move mv)
  · refine ⟨o, .inl ?_⟩
    rw [apply, hc]
    simp only [move, h]
  · exact ⟨o, .inr hc⟩

/-- Moves that the table accepts are applied up to the first that meets an outage. -/
theorem applyAll_cases (h : b.table.applyAll ms = (t', none)) :
    ∃ o, b.applyAll ms = (.ok (), { b with table := t', outages := o }) ∨
      ∃ e k u, b.table.applyAll (ms.take k) = (u, none) ∧
        b.applyAll ms = (.error e, { b with table := u, outages := o }) := by
  induction ms generalizing b with
  | nil =>
    cases h
    exact ⟨b.outages, .inl rfl⟩
  | cons mv ms ih =>
    obtain ⟨u, hu, hms⟩ := Table.applyAll_cons_eq_none_iff.1 h
    obtain ⟨o, ha | ⟨e, ha⟩⟩ := apply_cases hu
    · rw [applyAll, ha]
      obtain ⟨o', hs | ⟨e, k, v, hk, hs⟩⟩ := ih (b := { b with table := u, outages := o }) hms
      · exact ⟨o', .inl hs⟩
      · refine ⟨o', .inr ⟨e, k + 1, v, ?_, hs⟩⟩
        rw [List.take_succ_cons, Table.applyAll_cons_eq_none_iff]
        exact ⟨u, hu, hk⟩
    · rw [applyAll, ha]
      exact ⟨o, .inr ⟨e, 0, b.table, rfl, rfl⟩⟩

theorem applyAll_of_quiet (hq : b.outages = []) (h : b.table.applyAll ms = (t', none)) :
    b.applyAll ms = (.ok (), { b with table := t' }) := by
  induction ms generalizing b with
  | nil =>
    cases h
    rfl
  | cons mv ms ih =>
    obtain ⟨u, hu, hms⟩ := Table.applyAll_cons_eq_none_iff.1 h
    have ha : b.apply mv = (.ok (), { b with table := u }) := by
      rw [apply, call_of_quiet hq]
      simp only [move, hu]
    rw [applyAll, ha]
    exact ih (b := { b with table := u }) hq hms

/-! ### Calls that leave the registry and the election alone -/

/-- Only the table and what later calls meet may have changed. -/
structure Spares (b b' : Backend) : Prop where
  registry : b'.registry = b.registry
  election : b'.election = b.election

theorem Spares.refl (b : Backend) : Spares b b := ⟨rfl, rfl⟩

theorem Spares.trans {b' b'' : Backend} (h : Spares b b') (h' : Spares b' b'') : Spares b b'' :=
  ⟨h'.registry.trans h.registry, h'.election.trans h.election⟩

theorem spares_call {α : Type} (c : Call) {act : Backend → Except Error α × Backend}
    (h : ∀ b, Spares b (act b).2) : Spares b (b.call c act).2 := by
  obtain ⟨o, hc | ⟨e, hc⟩⟩ := b.call_cases c act
  · rw [hc]
    have hact := h { b with outages := o }
    exact ⟨hact.registry, hact.election⟩
  · rw [hc]
    exact ⟨rfl, rfl⟩

theorem spares_snapshot (b : Backend) : Spares b b.snapshot.2 :=
  spares_call .snapshot fun b => .refl b

theorem spares_members (b : Backend) : Spares b b.members.2 :=
  spares_call .members fun b => .refl b

theorem spares_itemsFor (b : Backend) (w : WorkerId) : Spares b (b.itemsFor w).2 :=
  spares_call .itemsFor fun b => .refl b

theorem spares_apply (b : Backend) (mv : Move) : Spares b (b.apply mv).2 := by
  refine spares_call .apply fun b => ?_
  rw [move]
  split <;> exact ⟨rfl, rfl⟩

theorem spares_applyAll (b : Backend) (ms : List Move) : Spares b (b.applyAll ms).2 := by
  induction ms generalizing b with
  | nil => exact .refl b
  | cons mv ms ih =>
    have happly := spares_apply b mv
    rw [applyAll]
    split
    · next b' h =>
      rw [h] at happly
      exact happly.trans (ih b')
    · next e b' h =>
      rw [h] at happly
      exact happly

/-- A call about an item leaves the workers alone. -/
theorem workers_itemCall (b : Backend) (c : Call) (f : Registry → Bool × Registry)
    (hf : ∀ r, (f r).2.workers = r.workers) :
    (b.call c (·.change f)).2.registry.workers = b.registry.workers ∧
      (b.call c (·.change f)).2.election = b.election := by
  obtain ⟨o, hc | ⟨e, hc⟩⟩ := b.call_cases c (·.change f)
  · rw [hc]
    exact ⟨hf b.registry, rfl⟩
  · rw [hc]
    exact ⟨rfl, rfl⟩

/-! ### Calls about workers -/

theorem registerWorker_cases (b : Backend) (w : WorkerId) :
    ∃ o, b.registerWorker w = (.ok (decide (w ∉ b.registry.workers)),
        { b with registry := (b.registry.registerWorker w).2, outages := o }) ∨
      ∃ e, b.registerWorker w = (.error e, { b with outages := o }) :=
  b.call_cases .registerWorker (·.change (·.registerWorker w))

theorem deregisterWorker_cases (b : Backend) (w : WorkerId) :
    ∃ o, b.deregisterWorker w = (.ok (decide (w ∈ b.registry.workers)),
        { b with registry := (b.registry.deregisterWorker w).2, outages := o }) ∨
      ∃ e, b.deregisterWorker w = (.error e, { b with outages := o }) :=
  b.call_cases .deregisterWorker (·.change (·.deregisterWorker w))

theorem elect_cases (b : Backend) (w : WorkerId) :
    ∃ o, b.elect w = (.ok (b.election.tryLead w).1,
        { b with election := (b.election.tryLead w).2, outages := o }) ∨
      ∃ e, b.elect w = (.error e, { b with outages := o }) :=
  b.call_cases .elect fun b => (.ok (b.election.tryLead w).1,
    { b with election := (b.election.tryLead w).2 })

end Roster.Backend
