import Mathlib.Data.List.Induction
import Roster.Proofs.Crew.History

/-! One crew on a clock, whatever it is asked to do and however its handlers behave. No handler is
aborted before it has had the stop timeout since its cancellation, and none that has had it outlives
a pass; and each that was told to stop was told so once, by a request that may tell it. -/

namespace Roster

open Crew (Dated Staffed Succeeds Evolves Unwanted)

/-- A crew on a clock. Once it is dropped it can be asked for nothing more, and what is left of its
tasks goes on. -/
structure Watch where
  now : Nat
  crew : Crew
  dropped : Bool

namespace Watch

variable {x : Watch} {stopTimeout : Nat}

def fresh (w : WorkerId) (stopTimeout : Nat) : Watch := ⟨0, .fresh w stopTimeout, false⟩

/-- What a crew is asked to do. -/
inductive Request where
  /-- The store answers `read`. -/
  | reconcile (read : Except Error (List ItemId)) (behaviour : ItemId → Behaviour)
  | settle (timeout : Nat)
  | stop
  | drop

inductive Act where
  | request (r : Request)
  /-- A task goes on. -/
  | task (generation : Nat)
  | sleep (ms : Nat)

/-- A deadline beyond the clock ends the call; a crew that stops has been cancelled by then. -/
def serve (x : Watch) : Request → Watch
  | .reconcile read behaviour =>
    { x with crew := (x.crew.reconcile x.now read behaviour).2 }
  | .settle timeout =>
    match x.crew.settle x.now timeout with
    | .ok (_, time, c) => { x with now := time, crew := c }
    | .error _ => x
  | .stop =>
    match x.crew.stop x.now with
    | .ok (_, time, c) => { x with now := time, crew := c }
    | .error _ => { x with crew := x.crew.cancelEvery x.now }
  | .drop => { x with crew := x.crew.disband x.now, dropped := true }

def act (x : Watch) : Act → Watch
  | .request r => if x.dropped then x else x.serve r
  | .task g => { x with crew := x.crew.runTask x.now g }
  | .sleep ms => { x with now := x.now + ms }

def run (x : Watch) (acts : List Act) : Watch := acts.foldl act x

/-- Whether the handler of an item may be told to stop by it. -/
def Request.Dismisses : Request → ItemId → Prop
  | .reconcile read _, i => Unwanted read i
  | .settle _, _ => False
  | .stop, _ => True
  | .drop, _ => True

def Act.Dismisses : Act → ItemId → Prop
  | .request r, i => r.Dismisses i
  | .task _, _ => False
  | .sleep _, _ => False

/-! ### One act -/

/-- What is true of a crew on a clock at all times. -/
structure Sound (stopTimeout : Nat) (x : Watch) : Prop where
  dated : Dated x.now x.crew
  staffed : x.dropped = false → Staffed x.crew
  stopTimeout : x.crew.stopTimeout = stopTimeout

theorem sound_fresh (w : WorkerId) (stopTimeout : Nat) : Sound stopTimeout (fresh w stopTimeout) :=
  ⟨.fresh w stopTimeout, fun _ => .fresh w stopTimeout, rfl⟩

theorem Sound.deeds {unwanted : ItemId → Prop} {time : Nat} {c : Crew}
    (h : Sound stopTimeout x) (hd : Crew.Deeds x.now unwanted x.crew c) (hle : x.now ≤ time) :
    Sound stopTimeout { x with now := time, crew := c } ∧ Evolves x.now unwanted x.crew c := by
  have hs := Crew.Deeds.steps hd
  exact ⟨⟨(h.dated.deeds hd).wait hle, fun hx => (h.staffed hx).steps hs,
    hs.settings.2.trans h.stopTimeout⟩, .deeds h.dated hd⟩

theorem Sound.serve (h : Sound stopTimeout x) (r : Request) :
    Sound stopTimeout (x.serve r) ∧ Evolves x.now r.Dismisses x.crew (x.serve r).crew := by
  have hnow := Nat.le_refl x.now
  cases r with
  | reconcile read behaviour =>
    exact h.deeds (Crew.deeds_reconcile x.crew x.now read behaviour) hnow
  | settle timeout =>
    rw [Watch.serve]
    split
    · next done time c hc =>
      have hsettles := Crew.settles_settle hc
      exact h.deeds (hsettles.lapses.deeds x.now _) hsettles.le
    · exact ⟨h, .refl x.now _ x.crew⟩
  | stop =>
    rw [Watch.serve]
    split
    · next n time c hc =>
      have hs := Crew.steps_stop hc
      exact ⟨⟨h.dated.stop hc, fun hx => (h.staffed hx).steps hs,
        hs.settings.2.trans h.stopTimeout⟩, .stop h.dated hc⟩
    · exact h.deeds (Crew.deeds_cancelEvery x.crew x.now) hnow
  | drop =>
    exact ⟨⟨h.dated.disband, (fun hdropped => nomatch hdropped), h.stopTimeout⟩,
      .disband x.crew x.now⟩

theorem Sound.act (h : Sound stopTimeout x) (a : Act) :
    Sound stopTimeout (x.act a) ∧ Evolves x.now a.Dismisses x.crew (x.act a).crew := by
  cases a with
  | request r =>
    rw [Watch.act]
    split
    · exact ⟨h, .refl x.now _ x.crew⟩
    · exact h.serve r
  | task g =>
    exact h.deeds (.single (.lapse (.task x.now g))) (Nat.le_refl x.now)
  | sleep ms =>
    exact ⟨⟨h.dated.wait (Nat.le_add_right _ _), h.staffed, h.stopTimeout⟩, .refl x.now _ x.crew⟩

/-! ### Many acts -/

theorem run_concat (x : Watch) (acts : List Act) (a : Act) :
    x.run (acts ++ [a]) = (x.run acts).act a := List.foldl_append

theorem Sound.run (h : Sound stopTimeout x) (acts : List Act) :
    Sound stopTimeout (x.run acts) ∧ Succeeds x.crew (x.run acts).crew := by
  induction acts generalizing x with
  | nil => exact ⟨h, .refl x.crew⟩
  | cons a as ih =>
    obtain ⟨hact, hevolves⟩ := h.act a
    obtain ⟨hrun, hsucceeds⟩ := ih hact
    exact ⟨hrun, hevolves.toSucceeds.trans hsucceeds⟩

/-- A handler is aborted only after the stop timeout since its cancellation, and whoever has been
stopping for so long when a pass begins is gone when it is over, whether or not the store could be
read. -/
theorem grace_before_abort (w : WorkerId) (stopTimeout : Nat) (acts : List Act) :
    let x := (fresh w stopTimeout).run acts
    (∀ t ∈ x.crew.tasks, ∀ time, t.outcome = some (.aborted time) →
      ∃ since, t.cancelled = some since ∧ since + stopTimeout ≤ time) ∧
    (x.dropped = false → ∀ i e since, x.crew.handlers.get? i = some e →
      e.phase = .stopping since → since + stopTimeout ≤ x.now →
      ∀ read behaviour,
        (∀ j e', (x.crew.reconcile x.now read behaviour).2.handlers.get? j = some e' →
          e'.generation ≠ e.generation) ∧
        (x.crew.reconcile x.now read behaviour).2.isLive e.generation = false) := by
  intro x
  obtain ⟨hsound, -⟩ := (sound_fresh w stopTimeout).run acts
  refine ⟨?_, ?_⟩
  · intro t ht time ho
    obtain ⟨-, since, hs, hdue⟩ := hsound.dated.graced t ht time ho
    rw [hsound.stopTimeout] at hdue
    exact ⟨since, hs, hdue⟩
  · intro hx i e since he hp hdue read behaviour
    have hover : e.phase.isOverdue x.now x.crew.stopTimeout = true := by
      rw [hp, hsound.stopTimeout]
      simpa [Phase.isOverdue] using hdue
    have hgone : ∀ j e', (x.crew.reconcile x.now read behaviour).2.handlers.get? j = some e' →
        e'.generation ≠ e.generation :=
      fun _ _ => hsound.dated.generation_ne_of_reconcile he hover read behaviour
    refine ⟨hgone, ?_⟩
    have hstaffed := (hsound.staffed hx).steps (Crew.steps_reconcile x.crew x.now read behaviour)
    unfold Crew.isLive
    cases ht : (x.crew.reconcile x.now read behaviour).2.tasks[e.generation]? with
    | none => rfl
    | some t =>
      -- A live task would have an entry.
      refine Bool.eq_false_iff.2 fun hl => ?_
      obtain ⟨p, hp⟩ := hstaffed.entered _ t ht hl
      exact hgone _ _ hp rfl

def lodger : ItemId := ⟨"l", by decide⟩

/-- A handler that never ends is told to stop after a second, and five more go by. -/
def eviction : List Act :=
  [.request (.reconcile (.ok [lodger]) fun _ => .stubborn), .task 0, .sleep 1000,
    .request (.reconcile (.ok []) fun _ => .stubborn), .sleep 5000]

/-- A pass that cannot read the store. -/
def blindPass : Act := .request (.reconcile (.error .noWorkers) fun _ => .stubborn)

theorem eviction_grace_before_abort :
    ((fresh ⟨1⟩ 5000).run eviction).crew.handlers.get? lodger = some ⟨0, .stopping 1000⟩ ∧
    (((fresh ⟨1⟩ 5000).run eviction).act blindPass).crew.isLive 0 = false ∧
    ∃ t ∈ ((fresh ⟨1⟩ 5000).run (eviction ++ [blindPass])).crew.tasks,
      t.outcome = some (.aborted 6000) ∧
        ∃ since, t.cancelled = some since ∧ since + 5000 ≤ 6000 := by
  obtain ⟨-, hgone⟩ := grace_before_abort ⟨1⟩ 5000 eviction
  obtain ⟨hgrace, -⟩ := grace_before_abort ⟨1⟩ 5000 (eviction ++ [blindPass])
  have hentry : ((fresh ⟨1⟩ 5000).run eviction).crew.handlers.get? lodger =
      some ⟨0, .stopping 1000⟩ := by decide
  have htask : ∃ t ∈ ((fresh ⟨1⟩ 5000).run (eviction ++ [blindPass])).crew.tasks,
      t.outcome = some (.aborted 6000) := by decide
  obtain ⟨t, ht, ho⟩ := htask
  exact ⟨hentry, (hgone rfl lodger _ 1000 hentry rfl (by decide) _ _).2, t, ht, ho,
    hgrace t ht 6000 ho⟩

/-! ### Who was told to stop, when and by what -/

/-- Some act of the run told the task to stop, at the instant that it has on record. -/
theorem exists_dismissal {g since : Nat} {t : Task} (hx : Sound stopTimeout x) (acts : List Act)
    (hfresh : x.crew.tasks = []) (ht : (x.run acts).crew.tasks[g]? = some t)
    (hs : t.cancelled = some since) :
    ∃ before a after, acts = before ++ a :: after ∧ (x.run before).now = since ∧
      a.Dismisses t.item ∧
      g ∈ ((x.run before).act a).crew.cancelledSince (x.run before).crew := by
  induction acts using List.reverseRecOn generalizing t with
  | nil => simp [run, hfresh] at ht
  | append_singleton as a ih =>
    obtain ⟨hsound, -⟩ := hx.run as
    obtain ⟨-, hevolves⟩ := hsound.act a
    rw [run_concat] at ht
    obtain ⟨u, hu, hold | ⟨hnone, rfl, hw⟩⟩ := hevolves.cancelled g t since ht hs
    · -- It was cancelled before the last act.
      obtain ⟨before, b, after, rfl, hnow, hb, hg⟩ := ih hu hold
      exact ⟨before, b, after ++ [a], by simp, hnow, hevolves.item_eq hu ht ▸ hb, hg⟩
    · refine ⟨as, a, [], rfl, rfl, hw, Crew.mem_cancelledSince_iff.2 ⟨?_, ?_⟩⟩
      · exact Crew.isCancelled_iff.2 ⟨t, _, ht, hs⟩
      · simp [Crew.isCancelled, hu, hnone]

/-- At all times phase, cancellation and its instant agree. An entry that has begun to stop never
runs again, and one that is gone does not come back; a pass counts the tasks that it cancels, and no
task is cancelled twice. Each was cancelled by an act that dismisses its item: a pass whose store
does not want it, a stop or the end of the crew. -/
theorem lifecycle (w : WorkerId) (stopTimeout : Nat) (acts : List Act) :
    let x := (fresh w stopTimeout).run acts
    (∀ i e, x.crew.handlers.get? i = some e →
      ∃ t, x.crew.tasks[e.generation]? = some t ∧ t.item = i ∧ e.Agrees t) ∧
    (∀ a i e, (x.act a).crew.handlers.get? i = some e →
      x.crew.tasks.length ≤ e.generation → e.phase = .running) ∧
    (∀ more, Succeeds x.crew (x.run more).crew) ∧
    (∀ read behaviour p, (x.crew.reconcile x.now read behaviour).1 = .ok p →
      p.cancelled = ((x.crew.reconcile x.now read behaviour).2.cancelledSince x.crew).length) ∧
    (∀ a more b g, g ∈ (x.act a).crew.cancelledSince x.crew →
      g ∉ (((x.act a).run more).act b).crew.cancelledSince ((x.act a).run more).crew) ∧
    ∀ (g : Nat) (t : Task) (since : Nat), x.crew.tasks[g]? = some t →
      t.cancelled = some since → ∃ before a after, acts = before ++ a :: after ∧
        ((fresh w stopTimeout).run before).now = since ∧ a.Dismisses t.item ∧
        g ∈ (((fresh w stopTimeout).run before).act a).crew.cancelledSince
          ((fresh w stopTimeout).run before).crew := by
  intro x
  have hfresh := sound_fresh w stopTimeout
  obtain ⟨hsound, -⟩ := hfresh.run acts
  refine ⟨fun i e he => hsound.dated.agrees he, ?_, ?_, ?_, ?_, ?_⟩
  · intro a i e he hlen
    obtain ⟨hact, hevolves⟩ := hsound.act a
    exact hevolves.phase_of_begun hact.dated he hlen
  · intro more
    exact (hsound.run more).2
  · intro read behaviour p hp
    exact hsound.dated.cancelled_reconcile hp
  · intro a more b g hg hagain
    obtain ⟨hact, -⟩ := hsound.act a
    have hkept := (hact.run more).2.isCancelled (Crew.mem_cancelledSince_iff.1 hg).1
    rw [(Crew.mem_cancelledSince_iff.1 hagain).2] at hkept
    cases hkept
  · intro g t since ht hs
    exact exists_dismissal hfresh acts rfl ht hs

theorem eviction_lifecycle :
    (∃ t, ((fresh ⟨1⟩ 5000).run eviction).crew.tasks[0]? = some t ∧ t.item = lodger ∧
      Entry.Agrees ⟨0, .stopping 1000⟩ t) ∧
    ((((fresh ⟨1⟩ 5000).run (eviction.take 3)).crew.reconcile 1000 (.ok [])
      fun _ => .stubborn).2.cancelledSince
        ((fresh ⟨1⟩ 5000).run (eviction.take 3)).crew).length = 1 ∧
    ∃ before a after, eviction = before ++ a :: after ∧
      ((fresh ⟨1⟩ 5000).run before).now = 1000 ∧ a.Dismisses lodger ∧
      0 ∈ (((fresh ⟨1⟩ 5000).run before).act a).crew.cancelledSince
        ((fresh ⟨1⟩ 5000).run before).crew := by
  obtain ⟨hagrees, -, -, -, -, hcause⟩ := lifecycle ⟨1⟩ 5000 eviction
  obtain ⟨-, -, -, hcount, -⟩ := lifecycle ⟨1⟩ 5000 (eviction.take 3)
  obtain ⟨t, ht, hi, ha⟩ := hagrees lodger ⟨0, .stopping 1000⟩ (by decide)
  have hs : t.cancelled = some 1000 := by
    rcases ha with ⟨hrunning, -⟩ | ⟨since, hstopping, hs⟩
    · cases hrunning
    · cases hstopping
      exact hs
  refine ⟨⟨t, ht, hi, ha⟩, ?_, hi ▸ hcause 0 t 1000 ht hs⟩
  exact (hcount (.ok []) (fun _ => .stubborn) ⟨0, 1, 0, 0, .converging⟩ rfl).symm

end Watch

end Roster
