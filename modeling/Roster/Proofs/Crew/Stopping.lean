import Mathlib.Data.List.Nodup
import Roster.Proofs.Crew.Convergence
import Roster.Proofs.Crew.Settling

/-! How a crew stops. All its handlers are told to stop before any is aborted; it settles, and what
has not ended by then is aborted and counted, so that no handler is left and no task is live. -/

namespace Roster

namespace Crew

variable {c c' : Crew} {i : ItemId} {e : Entry} {now time g : Nat} {t t' : Task}

/-- No handler is left. -/
def Vacant (c : Crew) : Prop := ∀ i, c.handlers.get? i = none

/-- Every handler that is left has been told to stop. -/
def Closing (c : Crew) : Prop :=
  ∀ i e, c.handlers.get? i = some e → e.phase.isStopping = true

theorem Closing.lapses {c' : Crew} (h : Closing c) (hl : Lapses c c') : Closing c' :=
  fun i e he => h i e (hl.get?_of he)

theorem Closing.vacant (h : Closing c) (hs : c.hasStopping = false) : Vacant c := by
  refine fun i => Option.eq_none_iff_forall_ne_some.2 fun e he => ?_
  have hnot := hasStopping_eq_false_iff.1 hs i e he
  rw [h i e he] at hnot
  cases hnot

theorem vacant_abortAll (c : Crew) (now : Nat) : Vacant (c.abortAll now).2 := by
  refine fun i => Option.eq_none_iff_forall_ne_some.2 fun e he => ?_
  exact absurd (get?_of_abortWhere he).2 (by simp)

/-- Where no handler is left, every task that was ever started has ended. -/
theorem Staffed.isLive_of_vacant (h : Staffed c) (hv : Vacant c) :
    ∀ t ∈ c.tasks, t.isLive = false := by
  intro t ht
  obtain ⟨g, hg⟩ := List.mem_iff_getElem?.1 ht
  exact h.not_isLive_of_get? (hv t.item) hg rfl

theorem Vacant.handlers_eq (h : Vacant c) : c.handlers = .empty :=
  OrderedMap.ext_get? fun i => h i

/-! ### Telling all to stop -/

theorem closing_cancelEvery (c : Crew) (now : Nat) : (c.cancelEvery now).Closing :=
  fun _ _ he => isStopping_cancelEvery he

theorem map_outcome_cancelAll (c : Crew) (now : Nat) (is : List ItemId) :
    (c.cancelAll now is).2.tasks.map (·.outcome) = c.tasks.map (·.outcome) := by
  induction is generalizing c with
  | nil => rfl
  | cons i is ih =>
    refine (ih (c.cancel now i).2).trans ?_
    unfold cancel
    split
    · exact map_modify_of_eq (f := Task.cancel now) (fun _ => rfl) c.tasks _
    · rfl

/-- To tell all handlers to stop neither ends nor aborts any. -/
theorem getElem?_cancelEvery (now : Nat) (ht : c.tasks[g]? = some t) :
    ∃ t', (c.cancelEvery now).tasks[g]? = some t' ∧ t'.outcome = t.outcome := by
  have hg := congrArg (·[g]?) (map_outcome_cancelAll c now c.handlers.keys)
  simp only [List.getElem?_map, ht, Option.map_some, Option.map_eq_some_iff] at hg
  exact hg

theorem getElem?_of_cancelEvery (ht : (c.cancelEvery now).tasks[g]? = some t') :
    ∃ t, c.tasks[g]? = some t ∧ t'.outcome = t.outcome := by
  have hg := congrArg (·[g]?) (map_outcome_cancelAll c now c.handlers.keys).symm
  rw [cancelEvery] at ht
  simp only [List.getElem?_map, ht, Option.map_some, Option.map_eq_some_iff] at hg
  obtain ⟨t, ht, hout⟩ := hg
  exact ⟨t, ht, hout.symm⟩

/-- Each task that is live has been told to stop then, if not earlier. -/
theorem cancelled_cancelEvery (hd : Dated now c) (hs : Staffed c) (ht : c.tasks[g]? = some t)
    (hl : t.isLive = true) : ∃ t' since, (c.cancelEvery now).tasks[g]? = some t' ∧
      t'.cancelled = some since ∧ since ≤ now := by
  have hdeeds := deeds_cancelEvery c now
  have hdated := hd.deeds hdeeds
  obtain ⟨t', ht', hout⟩ := getElem?_cancelEvery now ht
  have hl' : t'.isLive = true := by rwa [Task.isLive, hout]
  obtain ⟨p, hp⟩ := (hs.steps (Deeds.steps hdeeds)).entered g t' ht' hl'
  obtain ⟨u, hu, -, hc⟩ := hdated.entered _ _ hp
  obtain rfl := Option.some.inj (ht'.symm.trans hu)
  cases p with
  | running => cases isStopping_cancelEvery hp
  | stopping since => exact ⟨t', since, ht', hc, hdated.past t' (List.mem_of_getElem? ht') since hc⟩

theorem Wanes.getElem? (h : Wanes c c') (ht : c.tasks[g]? = some t) :
    ∃ t', c'.tasks[g]? = some t' ∧ t'.cancelled = t.cancelled := by
  have hlt := (List.getElem?_eq_some_iff.1 ht).1
  rw [← h.ages.length] at hlt
  have ht' := List.getElem?_eq_getElem hlt
  exact ⟨_, ht', h.cancelled_eq ht ht'⟩

/-- While a crew waits, nobody is aborted. -/
theorem Lapses.aborted_of (h : Lapses c c') (ht : c'.tasks[g]? = some t')
    (ho : t'.outcome = some (.aborted time)) :
    ∃ t, c.tasks[g]? = some t ∧ t.outcome = some (.aborted time) := by
  induction h generalizing t' with
  | refl => exact ⟨t', ht, ho⟩
  | tail hpre hl ih =>
    obtain ⟨f, hf, hrun⟩ := hl.tasks
    rw [hf, Option.map_eq_some_iff] at ht
    obtain ⟨t, ht, rfl⟩ := ht
    rcases hrun g t with hsame | ⟨at', hran⟩
    · exact ih ht (hsame ▸ ho)
    · exact ih ht (Task.aborted_of_run (hran ▸ ho))

/-! ### Aborting what is left -/

theorem nodup_generations (hd : Dated now c) :
    (c.handlers.values.map (·.generation)).Nodup := by
  have hentries : c.handlers.entries.Nodup := (OrderedMap.nodup_keys c.handlers).of_map _
  rw [OrderedMap.values, List.map_map]
  refine hentries.map_on ?_
  rintro ⟨i, e⟩ hi ⟨j, e'⟩ hj hg
  rw [OrderedMap.mem_entries_iff] at hi hj
  obtain rfl := hd.eq_of_generation hi hj hg
  rw [Option.some.inj (hi.symm.trans hj)]

theorem mem_generations_iff (hs : Staffed c)
    (hl : ∀ i e, c.handlers.get? i = some e → c.isLive e.generation = true) :
    g ∈ c.handlers.values.map (·.generation) ↔ c.isLive g = true := by
  rw [List.mem_map]
  constructor
  · rintro ⟨e, he, rfl⟩
    obtain ⟨i, hi⟩ := exists_get?_of_mem_values he
    exact hl i e hi
  · intro hg
    obtain ⟨t, ht, hlive⟩ := (Option.any_eq_true ..).1 hg
    obtain ⟨p, hp⟩ := hs.entered g t ht hlive
    exact ⟨_, mem_values hp, rfl⟩

/-- Where all entries are of live tasks, there are as many of one as of the other. -/
theorem size_eq_liveCount (hd : Dated now c) (hs : Staffed c)
    (hl : ∀ i e, c.handlers.get? i = some e → c.isLive e.generation = true) :
    c.handlers.size = c.liveCount := by
  have hperm : (c.handlers.values.map (·.generation)).Perm
      ((List.range c.tasks.length).filter c.isLive) := by
    refine (List.perm_ext_iff_of_nodup (nodup_generations hd) (List.nodup_range.filter _)).2
      fun g => ?_
    rw [mem_generations_iff hs hl, List.mem_filter, List.mem_range]
    refine ⟨fun hg => ⟨?_, hg⟩, fun h => h.2⟩
    obtain ⟨t, ht, -⟩ := (Option.any_eq_true ..).1 hg
    exact (List.getElem?_eq_some_iff.1 ht).1
  have hlength := hperm.length_eq
  rw [List.length_map, OrderedMap.values, List.length_map, ← List.countP_eq_length_filter] at hlength
  exact hlength.trans (countP_getElem? c.tasks (·.isLive) (Nat.le_refl _))

/-- To abort all handlers is then to abort all live tasks and no others. -/
theorem abortAll_of_live (hd : Dated now c) (hs : Staffed c)
    (hl : ∀ i e, c.handlers.get? i = some e → c.isLive e.generation = true) (time : Nat) :
    (c.abortAll time).1 = c.liveCount ∧ (c.abortAll time).2.tasks = c.tasks.map (·.abort time) := by
  have hall : (c.handlers.filter fun _ _ => true) = c.handlers :=
    filter_handlers_eq_self (p := fun _ => true) fun _ _ => rfl
  refine ⟨?_, List.ext_getElem? fun g => ?_⟩
  · rw [← size_eq_liveCount hd hs hl, abortAll, abortWhere, hall]
  · rw [abortAll, abortWhere, hall, getElem?_abortTasks, List.getElem?_map]
    cases ht : c.tasks[g]? with
    | none => rfl
    | some t =>
      refine congrArg some ?_
      split
      · rfl
      · next hg =>
        rw [mem_generations_iff hs hl, isLive, ht, Option.any_some, Bool.not_eq_true] at hg
        exact (Task.abort_of_not_isLive hg).symm

/-- A crew that stops aborts what is left when it has settled. If it has settled in time, there is
nothing left. -/
theorem stop_of_lt (h : now + c.stopTimeout < clockEnd) : ∃ done time d,
    (c.cancelEvery now).settleFrom now (now + c.stopTimeout) = (done, time, d) ∧
      c.stop now = .ok ((d.abortAll time).1, time, (d.abortAll time).2) := by
  have hfst := settleFrom_fst (c.cancelEvery now) now (now + c.stopTimeout)
  have hlapses := (settles_settleFrom (c.cancelEvery now) now (now + c.stopTimeout)).lapses
  rw [stop, settle_of_lt h]
  generalize (c.cancelEvery now).settleFrom now (now + c.stopTimeout) = r at hfst hlapses ⊢
  obtain ⟨done, time, d⟩ := r
  refine ⟨done, time, d, rfl, ?_⟩
  cases done with
  | false => rfl
  | true =>
    have hvacant := ((closing_cancelEvery c now).lapses hlapses).vacant (by simpa using hfst)
    have hnone : d.abortAll time = (0, d) := by
      refine abortWhere_of_none fun e he => ?_
      obtain ⟨i, hi⟩ := exists_get?_of_mem_values he
      rw [hvacant i] at hi
      cases hi
    rw [hnone]
    rfl

end Crew

namespace Watch

open Crew (Lapses Staffed Dated)

/-- A stop whose deadline the clock has room for returns within the stop timeout. No handler is left
then and no task is live. When the crew has settled, and collected exits for the last time, every
handler that was live at the call has been told to stop, and none has been aborted by this call; the
tasks that are live then are counted and aborted, and all others stay as they are. -/
theorem stop_leaves_nothing (w : WorkerId) (stopTimeout : Nat) (acts : List Act) :
    let x := (fresh w stopTimeout).run acts
    x.dropped = false → x.now + stopTimeout < clockEnd →
    ∃ (n time : Nat) (c : Crew) (done : Bool) (b d : Crew),
      x.crew.stop x.now = .ok (n, time, c) ∧ x.now ≤ time ∧ time ≤ x.now + stopTimeout ∧
      c.handlers = .empty ∧ (∀ t ∈ c.tasks, t.isLive = false) ∧
      (x.crew.cancelEvery x.now).settle x.now stopTimeout = .ok (done, time, d) ∧
      Lapses (x.crew.cancelEvery x.now) b ∧ d = b.collectExits.2 ∧
      (∀ (g : Nat) (t : Task), x.crew.tasks[g]? = some t → t.isLive = true →
        ∃ t' since, d.tasks[g]? = some t' ∧ t'.cancelled = some since ∧ since ≤ x.now) ∧
      (∀ (g : Nat) (t' : Task) (s : Nat), d.tasks[g]? = some t' →
        t'.outcome = some (.aborted s) →
        ∃ t, x.crew.tasks[g]? = some t ∧ t.outcome = some (.aborted s)) ∧
      n = d.liveCount ∧
      ∀ g : Nat, c.tasks[g]? = d.tasks[g]?.map fun t : Task =>
        if t.isLive then { t with outcome := some (.aborted time) } else t := by
  intro x hx hclock
  have hsound : Sound stopTimeout x := ((sound_fresh w stopTimeout).run acts).1
  have hstaffed := hsound.staffed hx
  have hdeeds := Crew.deeds_cancelEvery x.crew x.now
  have hsettles := Crew.settles_settleFrom (x.crew.cancelEvery x.now) x.now (x.now + stopTimeout)
  obtain ⟨b, hb, hlast⟩ :=
    Crew.exists_collectExits_settleFrom (x.crew.cancelEvery x.now) x.now (x.now + stopTimeout)
  have hle := Crew.settleFrom_le (c := x.crew.cancelEvery x.now)
    (Nat.le_add_right x.now stopTimeout)
  have hlive := fun i e => Crew.isLive_of_settleFrom (i := i) (e := e)
    (x.crew.cancelEvery x.now) x.now (x.now + stopTimeout)
  have hroom : x.now + x.crew.stopTimeout < clockEnd := by rwa [hsound.stopTimeout]
  obtain ⟨done, time, d, hsettle, hstop⟩ := Crew.stop_of_lt hroom
  rw [hsound.stopTimeout] at hsettle
  rw [hsettle] at hsettles hlast hle hlive
  -- What is left when the crew has settled are the handlers of the tasks that are live.
  have hleft := (Crew.Deeds.steps hdeeds).trans hsettles.lapses.steps
  have hstaffed' : Staffed d := hstaffed.steps hleft
  have hdated' : Dated x.now d :=
    (hsound.dated.deeds hdeeds).deeds (hsettles.lapses.deeds x.now fun _ => True)
  obtain ⟨hcount, htasks⟩ := Crew.abortAll_of_live hdated' hstaffed' hlive time
  have hvacant := Crew.vacant_abortAll d time
  refine ⟨_, time, _, done, b, d, hstop, hsettles.le, hle, hvacant.handlers_eq, ?_, ?_, hb, hlast,
    ?_, ?_, hcount, fun g => ?_⟩
  · exact (hstaffed'.abortWhere time none _).isLive_of_vacant hvacant
  · rw [Crew.settle_of_lt hclock, hsettle]
  · intro g t ht hl
    obtain ⟨t', since, ht', hc, hsince⟩ :=
      Crew.cancelled_cancelEvery hsound.dated hstaffed ht hl
    obtain ⟨u, hu, hsame⟩ := (Crew.Wanes.lapses hsettles.lapses).getElem? ht'
    exact ⟨u, since, hu, hsame.trans hc, hsince⟩
  · intro g t' s ht' ho
    obtain ⟨u, hu, hout⟩ := hsettles.lapses.aborted_of ht' ho
    obtain ⟨t, ht, hsame⟩ := Crew.getElem?_of_cancelEvery hu
    exact ⟨t, ht, hsame.symm.trans hout⟩
  · rw [htasks, List.getElem?_map]
    rfl

def partingItems : List ItemId :=
  [⟨"xa", by decide⟩, ⟨"xb", by decide⟩, ⟨"xc", by decide⟩, ⟨"xd", by decide⟩]

/-- Told to stop, the handler of the second item takes a while and that of the third panics; the
others never end. -/
def partingBehaviour (i : ItemId) : Behaviour :=
  if i.text = "xb" then .stopsSlowly 700
  else if i.text = "xc" then .panicsOnStop else .stubborn

/-- One of four handlers has been told to stop a second after they began. -/
def parting : List Act :=
  [.request (.reconcile (.ok partingItems) partingBehaviour), .task 0, .task 1, .task 2, .task 3,
    .sleep 1000, .request (.reconcile (.ok (partingItems.take 3)) partingBehaviour)]

theorem parting_leaves_nothing :
    ((fresh ⟨1⟩ 2000).run parting).crew.handlers.values =
      [⟨0, .running⟩, ⟨1, .running⟩, ⟨2, .running⟩, ⟨3, .stopping 1000⟩] ∧
    ∃ c d : Crew, ((fresh ⟨1⟩ 2000).run parting).crew.stop 1000 = .ok (2, 3000, c) ∧
      c.handlers = .empty ∧ (∀ t ∈ c.tasks, t.isLive = false) ∧ d.liveCount = 2 ∧
      ∃ t, d.tasks[0]? = some t ∧ t.cancelled.isSome = true := by
  have hnow : ((fresh ⟨1⟩ 2000).run parting).now = 1000 := rfl
  have hclock : ((fresh ⟨1⟩ 2000).run parting).now + 2000 < clockEnd := by
    rw [hnow]
    decide
  obtain ⟨n, time, c, done, b, d, hstop, -, -, hempty, hover, -, -, -, htold, -, hcount, -⟩ :=
    stop_leaves_nothing ⟨1⟩ 2000 parting rfl hclock
  rw [hnow] at hstop
  have hvalue : (((fresh ⟨1⟩ 2000).run parting).crew.stop 1000).map (fun r => (r.1, r.2.1)) =
      .ok (2, 3000) := by decide +kernel
  rw [hstop] at hvalue
  cases hvalue
  have htask : ∃ t, ((fresh ⟨1⟩ 2000).run parting).crew.tasks[0]? = some t ∧ t.isLive = true :=
    ⟨_, rfl, rfl⟩
  obtain ⟨t, ht, hl⟩ := htask
  obtain ⟨t', since, ht', hc, -⟩ := htold 0 t ht hl
  exact ⟨by decide, c, d, hstop, hempty, hover, hcount.symm, t', ht', by rw [hc]; rfl⟩

end Watch

end Roster
