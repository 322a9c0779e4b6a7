import Roster.Proofs.Crew.Watch

/-! A crew whose store cannot be read. Nothing begins and nothing is told to stop; entries leave
when their tasks have ended or are overdue, and those of live handlers that run stay, however long
it lasts. -/

namespace Roster

namespace Crew

variable {c c' c'' : Crew} {i : ItemId} {e : Entry} {now g : Nat} {t t' : Task}

/-- From `c` to `c'` tasks go on and entries leave; no task begins or is told to stop. -/
structure Wanes (c c' : Crew) : Prop where
  ages : Ages c.tasks c'.tasks
  cancelled : c'.tasks.map (·.cancelled) = c.tasks.map (·.cancelled)
  entries : ∀ i e, c'.handlers.get? i = some e → c.handlers.get? i = some e

theorem map_modify_of_eq {α : Type} {p : Task → α} {f : Task → Task} (hf : ∀ t, p (f t) = p t)
    (ts : List Task) (g : Nat) : (ts.modify g f).map p = ts.map p := by
  refine List.ext_getElem? fun k => ?_
  rw [List.getElem?_map, List.getElem?_map, List.getElem?_modify]
  cases ts[k]? with
  | none => rfl
  | some t =>
    refine congrArg some ?_
    split
    · exact hf t
    · rfl

theorem map_cancelled_abortTasks (ts : List Task) (now : Nat) (gs : List Nat) :
    (abortTasks ts now gs).map (·.cancelled) = ts.map (·.cancelled) := by
  induction gs generalizing ts with
  | nil => rfl
  | cons g gs ih => exact (ih _).trans (map_modify_of_eq (fun _ => Task.cancelled_abort) ts g)

namespace Wanes

theorem refl (c : Crew) : Wanes c c := ⟨.refl c.tasks, rfl, fun _ _ he => he⟩

theorem trans (h : Wanes c c') (h' : Wanes c' c'') : Wanes c c'' where
  ages := h.ages.trans h'.ages
  cancelled := h'.cancelled.trans h.cancelled
  entries i e he := h.entries i e (h'.entries i e he)

theorem lapse (h : Lapse c c') : Wanes c c' := by
  have hentries (i : ItemId) (e : Entry) : c'.handlers.get? i = some e →
      c.handlers.get? i = some e := h.get?_of
  cases h with
  | task now g =>
    refine ⟨?_, ?_, hentries⟩
    · rw [tasks_runTask]
      exact ages_modify (fun _ => Task.item_run) (fun _ hl => by rwa [run_of_not_isLive hl]) _ g
    · rw [tasks_runTask]
      exact map_modify_of_eq (fun _ => Task.cancelled_run) c.tasks g
  | receive =>
    have htasks := tasks_receive c
    exact ⟨htasks ▸ .refl c.tasks, congrArg _ htasks, hentries⟩
  | forget keep hk => exact ⟨.refl c.tasks, rfl, hentries⟩
  | note log => exact ⟨.refl c.tasks, rfl, hentries⟩

theorem lapses (h : Lapses c c') : Wanes c c' := by
  induction h with
  | refl => exact refl c
  | tail _ hl ih => exact ih.trans (lapse hl)

theorem abortWhere (c : Crew) (now : Nat) (timeout : Option Nat) (p : Entry → Bool) :
    Wanes c (c.abortWhere now timeout p).2 :=
  ⟨ages_abortTasks c.tasks now _, map_cancelled_abortTasks c.tasks now _,
    fun _ _ he => (get?_of_abortWhere he).1⟩

theorem swept (c : Crew) (now : Nat) : Wanes c (c.swept now) :=
  (lapses (lapses_collectExits c)).trans (abortWhere _ now _ _)

theorem cancelled_eq (h : Wanes c c') (ht : c.tasks[g]? = some t) (ht' : c'.tasks[g]? = some t') :
    t'.cancelled = t.cancelled := by
  have hg := congrArg (·[g]?) h.cancelled
  simp only [List.getElem?_map, ht, ht', Option.map_some] at hg
  exact Option.some.inj hg

/-- Whose handler is live has its entry still. -/
theorem get?_of_isLive (h : Wanes c c') (hd : Dated now c) (hs : Staffed c')
    (he : c.handlers.get? i = some e) (hl : c'.isLive e.generation = true) :
    c'.handlers.get? i = some e := by
  rw [isLive, Option.any_eq_true] at hl
  obtain ⟨t', ht', hl⟩ := hl
  obtain ⟨t, ht, hti, -⟩ := h.ages.kept _ t' ht'
  obtain ⟨u, hu, hui, -⟩ := hd.entered i e he
  obtain rfl := Option.some.inj (ht.symm.trans hu)
  obtain ⟨p, hp⟩ := hs.entered _ t' ht' hl
  rw [← hti, hui] at hp
  have hsame := h.entries i _ hp
  rw [he] at hsame
  rw [hp, Option.some.inj hsame]

end Wanes

/-! ### One pass -/

/-- The tasks whose entries have been stopping for the timeout or longer. -/
def overdueGenerations (c : Crew) (now : Nat) : List Nat :=
  (c.handlers.filter fun _ e => e.phase.isOverdue now c.stopTimeout).values.map (·.generation)

theorem mem_overdueGenerations_iff : g ∈ c.overdueGenerations now ↔
    ∃ i e, c.handlers.get? i = some e ∧ e.generation = g ∧
      e.phase.isOverdue now c.stopTimeout = true := by
  rw [overdueGenerations, List.mem_map]
  constructor
  · rintro ⟨e, he, rfl⟩
    obtain ⟨⟨i, e⟩, hmem, rfl⟩ := List.mem_map.1 he
    rw [OrderedMap.mem_entries_iff, OrderedMap.get?_filter, Option.filter_eq_some_iff] at hmem
    exact ⟨i, e, hmem.1, rfl, hmem.2⟩
  · rintro ⟨i, e, he, rfl, hover⟩
    refine ⟨e, List.mem_map_of_mem (f := (·.2)) (a := (i, e)) ?_, rfl⟩
    exact OrderedMap.mem_entries_iff.2 (OrderedMap.get?_filter_of_get? he hover)

/-- Exactly the tasks of overdue entries are aborted. Those of them that had ended are collected
before, which comes to the same, since to abort what has ended changes nothing. -/
theorem getElem?_swept (h : Staffed c) (now g : Nat) : (c.swept now).tasks[g]? =
    c.tasks[g]?.map fun t => if g ∈ c.overdueGenerations now then t.abort now else t := by
  have hswept : (c.swept now).tasks[g]? = c.collectExits.2.tasks[g]?.map fun t =>
      if g ∈ c.collectExits.2.overdueGenerations now then t.abort now else t :=
    getElem?_abortTasks c.collectExits.2.tasks now _ g
  have htimeout : c.collectExits.2.stopTimeout = c.stopTimeout := (steps_collectExits c).settings.2
  rw [hswept, tasks_collectExits]
  cases ht : c.tasks[g]? with
  | none => rfl
  | some t =>
    rw [Option.map_some, Option.map_some]
    cases hl : t.isLive with
    | false => simp only [Task.abort_of_not_isLive hl, ite_self]
    | true =>
      have hlive : c.isLive g = true := by rw [isLive, ht, Option.any_some, hl]
      refine congrArg some (if_congr ?_ rfl rfl)
      simp only [mem_overdueGenerations_iff, get?_collectExits h, htimeout,
        Option.filter_eq_some_iff]
      refine exists_congr fun i => exists_congr fun e => ⟨fun h => ⟨h.1.1, h.2⟩, ?_⟩
      rintro ⟨he, rfl, hover⟩
      exact ⟨⟨he, hlive⟩, rfl, hover⟩

end Crew

/-! ### Many passes -/

namespace Watch

open Crew (Wanes)

variable {x : Watch} {stopTimeout : Nat} {a : Act} {acts : List Act} {i : ItemId} {e : Entry}

/-- No pass reads the store, and nobody stops the crew or drops it. -/
def Act.Waits : Act → Prop
  | .request (.reconcile (.error _) _) => True
  | .request (.settle _) => True
  | .request _ => False
  | .task _ => True
  | .sleep _ => True

theorem Act.Waits.wanes (h : a.Waits) (x : Watch) :
    Wanes x.crew (x.act a).crew ∧ (x.act a).dropped = x.dropped := by
  cases a with
  | request r =>
    rw [act]
    split
    · exact ⟨.refl x.crew, rfl⟩
    · cases r with
      | reconcile read behaviour =>
        cases read with
        | error err => exact ⟨.swept x.crew x.now, rfl⟩
        | ok desired => exact h.elim
      | settle timeout =>
        rw [serve]
        split
        · next done time c hc => exact ⟨.lapses (Crew.settles_settle hc).lapses, rfl⟩
        · exact ⟨.refl x.crew, rfl⟩
      | stop => exact h.elim
      | drop => exact h.elim
  | task g => exact ⟨.lapse (.task x.now g), rfl⟩
  | sleep ms => exact ⟨.refl x.crew, rfl⟩

theorem wanes_run (h : ∀ a ∈ acts, a.Waits) (x : Watch) :
    Wanes x.crew (x.run acts).crew ∧ (x.run acts).dropped = x.dropped := by
  induction acts generalizing x with
  | nil => exact ⟨.refl x.crew, rfl⟩
  | cons a as ih =>
    obtain ⟨hact, hdropped⟩ := (h a List.mem_cons_self).wanes x
    obtain ⟨hrun, hrest⟩ := ih (fun b hb => h b (.tail a hb)) (x.act a)
    exact ⟨hact.trans hrun, hrest.trans hdropped⟩

/-- Who runs while nobody is told to stop is neither cancelled nor aborted, and has an entry for as
long as it has not ended. -/
theorem Sound.spared {y : Watch} (hx : Sound stopTimeout x) (hy : Sound stopTimeout y)
    (hlive : y.dropped = false) (hw : Wanes x.crew y.crew)
    (he : x.crew.handlers.get? i = some e) (hp : e.phase = .running) :
    ∃ t, y.crew.tasks[e.generation]? = some t ∧ t.cancelled = none ∧
      (∀ time, t.outcome ≠ some (.aborted time)) ∧
      (t.isLive = true → y.crew.handlers.get? i = some e) := by
  obtain ⟨t, ht, -, hnone⟩ := hx.dated.entered i e he
  rw [hp, Phase.since?] at hnone
  have hlt := hx.dated.generation_lt he
  rw [← hw.ages.length] at hlt
  have ht' := List.getElem?_eq_getElem hlt
  rw [← hw.cancelled_eq ht ht'] at hnone
  refine ⟨_, ht', hnone, fun time ho => ?_, fun hl => ?_⟩
  · -- Only what has been cancelled is aborted.
    obtain ⟨-, since, hs, -⟩ := hy.dated.graced _ (List.mem_of_getElem? ht') time ho
    rw [hnone] at hs
    cases hs
  · refine hw.get?_of_isLive hx.dated (hy.staffed hlive) he ?_
    rw [Crew.isLive, ht', Option.any_some, hl]

/-- A pass that cannot read the store returns the error. It starts and cancels nothing; it removes
the entries whose tasks have ended and those that are overdue, whose tasks it aborts, and leaves the
others and their tasks as they were. However many such passes there are, and whatever else goes on
meanwhile, who runs is neither cancelled nor aborted, and keeps its entry until it ends. -/
theorem outage_spares_handlers (w : WorkerId) (stopTimeout : Nat) (acts : List Act) :
    let x := (fresh w stopTimeout).run acts
    x.dropped = false →
    (∀ err behaviour,
      let c := (x.crew.reconcile x.now (.error err) behaviour).2
      (x.crew.reconcile x.now (.error err) behaviour).1 = .error err ∧
      c.handlers = x.crew.handlers.filter (fun _ e =>
        x.crew.isLive e.generation && !e.phase.isOverdue x.now stopTimeout) ∧
      c.tasks.map (·.cancelled) = x.crew.tasks.map (·.cancelled) ∧
      (∀ g, c.tasks[g]? = x.crew.tasks[g]?.map fun t =>
        if g ∈ x.crew.overdueGenerations x.now then t.abort x.now else t) ∧
      ∀ i e, x.crew.handlers.get? i = some e → x.crew.isLive e.generation = true →
        e.phase.isOverdue x.now stopTimeout = false →
        c.handlers.get? i = some e ∧ c.tasks[e.generation]? = x.crew.tasks[e.generation]?) ∧
    ∀ outage, (∀ a ∈ outage, a.Waits) → ∀ i e, x.crew.handlers.get? i = some e →
      e.phase = .running →
      ∃ t, (x.run outage).crew.tasks[e.generation]? = some t ∧ t.cancelled = none ∧
        (∀ time, t.outcome ≠ some (.aborted time)) ∧
        (t.isLive = true → (x.run outage).crew.handlers.get? i = some e) := by
  intro x hx
  have hsound : Sound stopTimeout x := ((sound_fresh w stopTimeout).run acts).1
  have hstaffed := hsound.staffed hx
  refine ⟨fun err behaviour => ?_, fun outage hwaits i e he hp => ?_⟩
  · intro c
    have hentries : ∀ i, c.handlers.get? i = (x.crew.handlers.get? i).filter fun e =>
        x.crew.isLive e.generation && !e.phase.isOverdue x.now stopTimeout := by
      rw [← hsound.stopTimeout]
      exact Crew.get?_swept hstaffed x.now
    have htasks := Crew.getElem?_swept hstaffed x.now
    refine ⟨rfl, OrderedMap.ext_get? fun i => ?_, (Wanes.swept x.crew x.now).cancelled, htasks,
      fun i e he hl hover => ⟨?_, ?_⟩⟩
    · rw [hentries, OrderedMap.get?_filter]
    · rw [hentries, he]
      exact Option.filter_some_pos (by rw [hl, hover]; rfl)
    · -- No overdue entry is of the same task.
      have hnot : e.generation ∉ x.crew.overdueGenerations x.now := by
        intro hg
        obtain ⟨j, e', he', hgen, hover'⟩ := Crew.mem_overdueGenerations_iff.1 hg
        obtain rfl := hsound.dated.eq_of_generation he' he hgen
        obtain rfl := Option.some.inj (he'.symm.trans he)
        rw [hsound.stopTimeout, hover] at hover'
        cases hover'
      refine (htasks e.generation).trans ?_
      simp [hnot]
  · obtain ⟨hwanes, hdropped⟩ := wanes_run hwaits x
    exact hsound.spared (hsound.run outage).1 (hdropped.trans hx) hwanes he hp

/-- Handlers of the first two items never end; that of the third returns at once, that of the fourth
panics, and that of the last never ends. -/
def mixedBehaviour (i : ItemId) : Behaviour :=
  if i.text = "tc" then .returnsAtOnce else if i.text = "td" then .panicsAtOnce else .stubborn

def mixedItems : List ItemId :=
  [⟨"ta", by decide⟩, ⟨"tb", by decide⟩, ⟨"tc", by decide⟩, ⟨"td", by decide⟩, ⟨"te", by decide⟩]

/-- One handler runs, one is stopping, one has returned, one has panicked, and one is overdue. -/
def mixed : Watch :=
  (fresh ⟨1⟩ 5000).run
    [.request (.reconcile (.ok mixedItems) mixedBehaviour), .sleep 1000,
      .request (.reconcile (.ok (mixedItems.eraseIdx 4)) mixedBehaviour), .sleep 3000,
      .request (.reconcile (.ok ((mixedItems.eraseIdx 4).eraseIdx 1)) mixedBehaviour),
      .sleep 2000, .task 2, .task 3]

def mixedOutage : List Act :=
  [blindPass, .sleep 1000, .task 0, blindPass, .sleep 3000, blindPass]

theorem mixed_outage_spares_handlers :
    mixed.dropped = false ∧ mixed.crew.handlers.keys = mixedItems ∧
    (mixed.crew.reconcile mixed.now (.error .noWorkers) mixedBehaviour).2.handlers.values =
      [⟨0, .running⟩, ⟨1, .stopping 4000⟩] ∧
    mixed.crew.overdueGenerations mixed.now = [4] ∧
    (mixed.crew.reconcile mixed.now (.error .noWorkers) mixedBehaviour).2.tasks[4]? =
      mixed.crew.tasks[4]?.map (·.abort 6000) ∧
    (mixed.run mixedOutage).crew.handlers.values = [⟨0, .running⟩] ∧
    (mixed.run mixedOutage).crew.handlers.get? ⟨"ta", by decide⟩ = some ⟨0, .running⟩ := by
  have hdropped : mixed.dropped = false := by decide
  obtain ⟨hpass, houtage⟩ := outage_spares_handlers ⟨1⟩ 5000 _ hdropped
  obtain ⟨-, hhandlers, -, htasks, -⟩ := hpass .noWorkers mixedBehaviour
  have hwaits : ∀ a ∈ mixedOutage, a.Waits := by simp [mixedOutage, blindPass, Act.Waits]
  obtain ⟨t, ht, -, -, hkept⟩ :=
    houtage mixedOutage hwaits ⟨"ta", by decide⟩ ⟨0, .running⟩ (by decide) rfl
  refine ⟨hdropped, by decide, (congrArg OrderedMap.values hhandlers).trans (by decide),
    by decide, (htasks 4).trans (by decide), by decide, hkept ?_⟩
  have hlive : (mixed.run mixedOutage).crew.isLive 0 = true := by decide
  rw [Crew.isLive, Option.any_eq_true] at hlive
  obtain ⟨u, hu, hlive⟩ := hlive
  rwa [← Option.some.inj (hu.symm.trans ht)]

end Watch

end Roster
