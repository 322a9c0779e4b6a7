import Roster.Proofs.Crew.Outage

/-! How long a crew waits for handlers that have been told to stop. It looks at its entries after
every wait, and a wait is short and ends at the deadline at the latest; so settling is over shortly
after the last of these handlers, or at the deadline, and says which. -/

namespace Roster

namespace Task

open Crew (run_of_not_isLive)

variable {t : Task} {now time : Nat}

/-- It has begun, and has heard of its cancellation if there was one. -/
structure Awake (t : Task) : Prop where
  started : t.started.isSome = true
  heard : t.cancelled.isSome = true → t.heard.isSome = true

theorem finish_of_isLive (h : (t.finish now).isLive = true) : t.finish now = t := by
  unfold finish at h ⊢
  split
  · next due how hd =>
    rw [hd] at h
    split
    · next hle => simp [hle, isLive] at h
    · rfl
  · rfl

theorem begin_of_started (h : t.started.isSome = true) : t.begin now = t := by
  obtain ⟨since, hs⟩ := Option.isSome_iff_exists.1 h
  rw [begin, hs, Option.getD_some, ← hs]

theorem hear_of_heard (h : t.cancelled.isSome = true → t.heard.isSome = true) :
    t.hear now = t := by
  unfold hear
  split
  · next hc =>
    obtain ⟨since, hs⟩ := Option.isSome_iff_exists.1 (h hc)
    rw [hs, Option.getD_some, ← hs]
  · rfl

theorem awake_hear (h : t.started.isSome = true) : (t.hear now).Awake := by
  unfold hear
  split
  · exact ⟨h, fun _ => rfl⟩
  · next hc => exact ⟨h, fun hc' => absurd hc' hc⟩

theorem started_finish : (t.finish now).started = t.started := by
  unfold finish
  split
  · split <;> rfl
  · rfl

/-- Whoever has gone on and not ended is awake, and is not due yet. -/
theorem awake_run (h : (t.run now).isLive = true) :
    (t.run now).Awake ∧ (t.run now).finish now = t.run now := by
  unfold run at h ⊢
  split at h
  · next hl => simp [h] at hl
  · next hl =>
    rw [if_neg hl]
    dsimp only at h ⊢
    split at h
    · next hb => simp [h] at hb
    · next hb =>
      rw [if_neg hb, finish_of_isLive h]
      refine ⟨awake_hear ?_, finish_of_isLive h⟩
      rw [started_finish]
      rfl

/-- All that can still happen to one who is awake is that it ends. -/
theorem Awake.run_eq (h : t.Awake) (hl : t.isLive = true) (now : Nat) :
    t.run now = t.finish now := by
  rw [run, begin_of_started h.started]
  simp only [hl, Bool.not_true, Bool.false_eq_true, if_false]
  split
  · rfl
  · next hf =>
    have hsame : t.finish now = t := finish_of_isLive (by simpa using hf)
    rw [hsame, hear_of_heard h.heard, hsame]

theorem run_self (t : Task) (now : Nat) : (t.run now).run now = t.run now := by
  cases hl : (t.run now).isLive with
  | false => exact run_of_not_isLive hl now
  | true =>
    obtain ⟨hawake, hfinish⟩ := awake_run hl
    exact (hawake.run_eq hl now).trans hfinish

/-- Who has ended by `now` has done so by any later time. -/
theorem finish_finish (hl : t.isLive = true) (h : now ≤ time)
    (hf : (t.finish now).isLive = false) : t.finish time = t.finish now := by
  unfold finish at hf ⊢
  cases hd : t.due with
  | none => rfl
  | some due =>
    simp only [hd] at hf ⊢
    split at hf
    · next hle => rw [if_pos hle, if_pos (Nat.le_trans hle h)]
    · rw [hl] at hf
      cases hf

/-- Once a task has gone on, it does not matter whether it is let go on before `time`. -/
theorem run_run (t : Task) (start : Nat) (h : now ≤ time) :
    ((t.run start).run now).run time = (t.run start).run time := by
  cases hl : (t.run start).isLive with
  | false => rw [run_of_not_isLive hl]
  | true =>
    have hawake := (awake_run hl).1
    rw [hawake.run_eq hl now]
    cases hf : ((t.run start).finish now).isLive with
    | true => rw [finish_of_isLive hf]
    | false =>
      rw [run_of_not_isLive hf, hawake.run_eq hl time, finish_finish hl h hf]

/-- A task that goes on from `now` and is left alone has ended by `time`. -/
def EndsBy (now time : Nat) (t : Task) : Prop := ((t.run now).run time).isLive = false

instance (now time : Nat) (t : Task) : Decidable (t.EndsBy now time) :=
  inferInstanceAs (Decidable (_ = false))

/-- It has then ended when it goes on at any time from there. -/
theorem EndsBy.not_isLive {later : Nat} (h : t.EndsBy now time) (hle : time ≤ later) :
    ((t.run now).run later).isLive = false := by
  rw [← run_run t now hle, run_of_not_isLive h]
  exact h

/-- When it goes on between, that does not change when it ends. -/
theorem EndsBy.run {between later : Nat} (h : t.EndsBy now time) (hb : between ≤ later)
    (hle : later ≤ time) : ((t.run now).run between).EndsBy later time := by
  rw [EndsBy, run_run t now hb, run_run t now hle]
  exact h

end Task

namespace Crew

variable {c c' : Crew} {i : ItemId} {e : Entry} {now time deadline wake g : Nat}

/-! ### Tasks while time goes by -/

theorem mem_liveGenerations_iff : g ∈ c.liveGenerations ↔ c.isLive g = true := by
  simp only [liveGenerations, List.mem_map, List.mem_filter, Prod.exists,
    List.mem_zipIdx_iff_getElem?, isLive, Option.any_eq_true]
  constructor
  · rintro ⟨t, k, ⟨ht, hl⟩, rfl⟩
    exact ⟨t, ht, hl⟩
  · rintro ⟨t, ht, hl⟩
    exact ⟨t, g, ⟨ht, hl⟩, rfl⟩

theorem tasks_runAll (c : Crew) (now : Nat) : (c.runAll now).tasks = c.tasks.map (·.run now) := by
  have hfold (gs : List Nat) (c : Crew) : (gs.foldl (fun c g => c.runTask now g) c).tasks =
      gs.foldl (fun ts g => ts.modify g (·.run now)) c.tasks := by
    induction gs generalizing c with
    | nil => rfl
    | cons g gs ih => rw [List.foldl_cons, ih, tasks_runTask, List.foldl_cons]
  refine List.ext_getElem? fun g => ?_
  rw [runAll, hfold, getElem?_foldl_modify fun t => t.run_self now, List.getElem?_map]
  cases ht : c.tasks[g]? with
  | none => rfl
  | some t =>
    refine congrArg some ?_
    split
    · rfl
    · next hg =>
      -- Who is passed over has ended.
      rw [mem_liveGenerations_iff, isLive, ht, Option.any_some, Bool.not_eq_true] at hg
      exact (run_of_not_isLive hg now).symm

/-! ### What a look at the entries leaves -/

theorem isLive_of_collectExits (h : c.collectExits.2.handlers.get? i = some e) :
    c.isLive e.generation = true := by
  rw [collectExits_eq, OrderedMap.get?_filter, Option.filter_eq_some_iff, isLive_drain] at h
  exact h.2

/-! ### Settling -/

/-- Every handler that has been told to stop has ended by `time`, if all go on from `now`. -/
def StopsBy (c : Crew) (now time : Nat) : Prop :=
  ∀ e ∈ c.handlers.values, e.phase.isStopping = true →
    ∀ t ∈ c.tasks[e.generation]?, t.EndsBy now time

instance (c : Crew) (now time : Nat) : Decidable (c.StopsBy now time) :=
  inferInstanceAs (Decidable (∀ e ∈ _, _))

theorem Lapses.mem_values (h : Lapses c c') (he : e ∈ c'.handlers.values) :
    e ∈ c.handlers.values := by
  obtain ⟨i, hi⟩ := exists_get?_of_mem_values he
  exact Crew.mem_values (h.get?_of hi)

/-- It does not matter for that when the tasks go on meanwhile. -/
theorem StopsBy.lapses {between later : Nat} (h : c.StopsBy now time) (hl : Lapses c c')
    (ht : c'.tasks = c.tasks.map fun t => (t.run now).run between) (hb : between ≤ later)
    (hle : later ≤ time) : c'.StopsBy later time := by
  intro e he hs t' ht'
  rw [ht, List.getElem?_map, Option.mem_def, Option.map_eq_some_iff] at ht'
  obtain ⟨t, hmem, rfl⟩ := ht'
  exact (h e (hl.mem_values he) hs t hmem).run hb hle

/-- Once the tasks have gone on for long enough, whoever is stopping has ended. -/
theorem StopsBy.not_isLive {later : Nat} (h : c.StopsBy now time) (hl : Lapses c c')
    (ht : c'.tasks = c.tasks.map fun t => (t.run now).run later) (hle : time ≤ later)
    (he : e ∈ c'.handlers.values) (hs : e.phase.isStopping = true) :
    c'.isLive e.generation = false := by
  rw [isLive, ht, List.getElem?_map]
  cases hg : c.tasks[e.generation]? with
  | none => rfl
  | some t => exact (h e (hl.mem_values he) hs t hg).not_isLive hle

/-- If all who are stopping have ended, there is nothing to wait for. -/
theorem settleFrom_of_ended
    (h : ∀ e ∈ c.handlers.values, e.phase.isStopping = true → c.isLive e.generation = false) :
    c.settleFrom now deadline = (true, now, c.collectExits.2) := by
  have hcalm : c.collectExits.2.hasStopping = false := by
    refine hasStopping_eq_false_iff.2 fun i e he => Bool.eq_false_iff.2 fun hs => ?_
    have hlive := isLive_of_collectExits he
    rw [h e (mem_values ((lapses_collectExits c).get?_of he)) hs] at hlive
    cases hlive
  have hpoll : c.poll now deadline = (.settled, c.collectExits.2) := by
    obtain ⟨-, hp⟩ | ⟨hs, -⟩ | ⟨hs, -⟩ := c.poll_cases now deadline
    · exact hp
    all_goals rw [hcalm] at hs; cases hs
  rw [settleFrom]
  split
  · next c' hp =>
    rw [hpoll] at hp
    cases hp
    rfl
  · next c' hp =>
    rw [hpoll] at hp
    cases hp
  · next wake c' hp =>
    rw [hpoll] at hp
    cases hp

theorem le_of_waiting (h : (c.poll now deadline).1 = .waiting wake) :
    wake ≤ deadline ∧ wake ≤ now + settlePoll := by
  obtain ⟨-, hp⟩ | ⟨-, -, hp⟩ | ⟨-, -, hp⟩ := c.poll_cases now deadline <;> rw [hp] at h <;>
    cases h
  exact ⟨Nat.min_le_left _ _, Nat.min_le_right _ _⟩

/-- A crew that goes on after a look has the tasks that it had, at work until `now`. -/
theorem worked_of_poll {p : Poll} (hp : c.poll now deadline = (p, c')) :
    Lapses c (c'.runAll now).receive ∧
      (c'.runAll now).receive.tasks = c.tasks.map fun t => (t.run now).run now := by
  have hlapses := lapses_poll c now deadline
  have htasks := tasks_poll c now deadline
  rw [hp] at hlapses htasks
  refine ⟨(hlapses.trans (lapses_runAll c' now)).tail .receive, ?_⟩
  rw [tasks_receive, tasks_runAll, htasks]
  simp only [Task.run_self]

/-- One that sleeps has them at work until it wakes up or until just before. -/
theorem slept_of_poll {p : Poll} (hp : c.poll now deadline = (p, c')) (wake : Nat) :
    ∃ last, Lapses c ((c'.runAll now).sleep now wake).2.receive ∧
      ((c'.runAll now).sleep now wake).2.receive.tasks =
        c.tasks.map (fun t => (t.run now).run last) ∧
      last ≤ ((c'.runAll now).sleep now wake).1 ∧
      ((c'.runAll now).sleep now wake).1 ≤ last + 1 ∧
      ((c'.runAll now).sleep now wake).1 ≤ wake := by
  have hlapses := lapses_poll c now deadline
  have htasks := tasks_poll c now deadline
  rw [hp] at hlapses htasks
  obtain ⟨last, hrun, htimes⟩ := (c'.runAll now).exists_runAll_sleep now wake
  refine ⟨last, ?_, ?_, htimes⟩
  · have hslept := (lapses_runAll c' now).trans (lapses_sleep _ now wake)
    exact (hlapses.trans hslept).tail .receive
  · rw [tasks_receive, hrun, tasks_runAll, tasks_runAll, htasks, List.map_map]
    rfl

/-- Settling ends by the deadline. -/
theorem settleFrom_le (h : now ≤ deadline) : (c.settleFrom now deadline).2.1 ≤ deadline := by
  fun_induction settleFrom c now deadline with
  | case1 c now c' hp => exact h
  | case2 c now c' hp => exact h
  | case3 c now wake c' hp hr ih =>
    have hwait : (c.poll now deadline).1 = .waiting wake := by rw [hp]
    obtain ⟨-, -, -, -, -, hwake⟩ := slept_of_poll hp wake
    exact ih (Nat.le_trans hwake (le_of_waiting hwait).1)
  | case4 c now wake c' hp hr ih => exact ih h

/-- If every handler that is stopping has ended by `time` and that is before the deadline, this is
noticed at the next look. -/
theorem settleFrom_of_stopsBy (h : c.StopsBy now time) (hnow : now ≤ time) (hd : time < deadline) :
    (c.settleFrom now deadline).1 = true ∧
      (c.settleFrom now deadline).2.1 ≤ min (time + settlePoll) deadline := by
  fun_induction settleFrom c now deadline with
  | case1 c now c' hp =>
    refine ⟨rfl, ?_⟩
    dsimp only
    omega
  | case2 c now c' hp =>
    have hexpired := le_of_expired (c := c) (by rw [hp])
    omega
  | case3 c now wake c' hp hr ih =>
    have hwait : (c.poll now deadline).1 = .waiting wake := by rw [hp]
    obtain ⟨hdeadline, hpoll⟩ := le_of_waiting hwait
    obtain ⟨last, hl, ht, hle, hlate, hwake⟩ := slept_of_poll hp wake
    rcases Nat.lt_or_ge time ((c'.runAll now).sleep now wake).1 with hover | hgoing
    · -- All have ended during this sleep.
      have hended : ∀ e ∈ ((c'.runAll now).sleep now wake).2.receive.handlers.values,
          e.phase.isStopping = true →
            ((c'.runAll now).sleep now wake).2.receive.isLive e.generation = false :=
        fun e he hs => h.not_isLive hl ht (by omega) he hs
      rw [settleFrom_of_ended hended]
      refine ⟨rfl, ?_⟩
      dsimp only
      omega
    · exact ih (h.lapses hl ht hle hgoing) hgoing
  | case4 c now wake c' hp hr ih =>
    obtain ⟨hl, ht⟩ := worked_of_poll hp
    exact ih (h.lapses hl ht (Nat.le_refl now) hnow) hnow

theorem hasStopping_of_expired (h : (c.poll now deadline).1 = .expired) :
    (c.poll now deadline).2.hasStopping = true := by
  obtain ⟨-, hp⟩ | ⟨hs, -, hp⟩ | ⟨-, -, hp⟩ := c.poll_cases now deadline <;> rw [hp] at h ⊢ <;>
    cases h
  exact hs

/-- It says whether any handler is still stopping. -/
theorem settleFrom_fst (c : Crew) (now deadline : Nat) :
    (c.settleFrom now deadline).1 = !(c.settleFrom now deadline).2.2.hasStopping := by
  fun_induction settleFrom c now deadline with
  | case1 c now c' hp =>
    have hcalm : (c.poll now deadline).2.hasStopping = false :=
      hasStopping_of_settled (by rw [hp])
    rw [hp] at hcalm
    exact congrArg not hcalm.symm
  | case2 c now c' hp =>
    have hbusy : (c.poll now deadline).2.hasStopping = true :=
      hasStopping_of_expired (by rw [hp])
    rw [hp] at hbusy
    exact congrArg not hbusy.symm
  | case3 c now wake c' hp hr ih => exact ih
  | case4 c now wake c' hp hr ih => exact ih

/-- The last thing it does is to collect exits. -/
theorem exists_collectExits_settleFrom (c : Crew) (now deadline : Nat) :
    ∃ b, Lapses c b ∧ (c.settleFrom now deadline).2.2 = b.collectExits.2 := by
  fun_induction settleFrom c now deadline with
  | case1 c now c' hp => exact ⟨c, .refl, by rw [← poll_snd c now deadline, hp]⟩
  | case2 c now c' hp => exact ⟨c, .refl, by rw [← poll_snd c now deadline, hp]⟩
  | case3 c now wake c' hp hr ih =>
    obtain ⟨last, hl, -⟩ := slept_of_poll hp wake
    obtain ⟨b, hb, heq⟩ := ih
    exact ⟨b, hl.trans hb, heq⟩
  | case4 c now wake c' hp hr ih =>
    obtain ⟨b, hb, heq⟩ := ih
    exact ⟨b, (worked_of_poll hp).1.trans hb, heq⟩

/-- So whoever has an entry then has not ended. -/
theorem isLive_of_settleFrom (c : Crew) (now deadline : Nat)
    (he : (c.settleFrom now deadline).2.2.handlers.get? i = some e) :
    (c.settleFrom now deadline).2.2.isLive e.generation = true := by
  obtain ⟨b, -, heq⟩ := exists_collectExits_settleFrom c now deadline
  rw [heq] at he ⊢
  rw [isLive, tasks_collectExits]
  exact isLive_of_collectExits he

/-- While a crew waits, the entry of a handler that has not ended stays as it is. -/
theorem Lapses.get?_of_isLive (h : Lapses c c') (hd : Dated now c) (hs : Staffed c)
    (he : c.handlers.get? i = some e) (hl : c'.isLive e.generation = true) :
    c'.handlers.get? i = some e :=
  (Wanes.lapses h).get?_of_isLive hd (hs.steps h.steps) he hl

/-- The entries of those that have ended go, and no others. -/
theorem get?_settleFrom (hd : Dated now c) (hs : Staffed c) (deadline : Nat) (i : ItemId) :
    (c.settleFrom now deadline).2.2.handlers.get? i =
      (c.handlers.get? i).filter fun e => (c.settleFrom now deadline).2.2.isLive e.generation := by
  have hl := (settles_settleFrom c now deadline).lapses
  refine Option.ext fun e => ?_
  rw [Option.filter_eq_some_iff]
  constructor
  · exact fun he => ⟨hl.get?_of he, isLive_of_settleFrom c now deadline he⟩
  · exact fun ⟨he, hlive⟩ => hl.get?_of_isLive hd hs he hlive

theorem settle_of_lt {timeout : Nat} (h : now + timeout < clockEnd) :
    c.settle now timeout = .ok (c.settleFrom now (now + timeout)) := by
  rw [settle, Roster.deadline, if_pos h]
  rfl

end Crew

namespace Watch

open Crew (Lapses)

/-- Settling for a timeout that the clock has room for returns, by the deadline. It says whether no
handler is stopping any more, and it says no only at the deadline. If all that were stopping have
ended by some time before the deadline, whether they returned or panicked, it is over at most 50
milliseconds later, and at once if they had ended when it began. The entries of handlers that have
ended go; at no moment is an entry missing or changed whose handler has not. -/
theorem settles_in_time (w : WorkerId) (stopTimeout timeout : Nat) (acts : List Act) :
    let x := (fresh w stopTimeout).run acts
    x.dropped = false → x.now + timeout < clockEnd →
    ∃ done time c, x.crew.settle x.now timeout = .ok (done, time, c) ∧
      x.now ≤ time ∧ time ≤ x.now + timeout ∧
      (done = true ↔ ∀ e ∈ c.handlers.values, e.phase.isStopping = false) ∧
      (done = false → time = x.now + timeout) ∧
      (∀ u, x.now ≤ u → u < x.now + timeout → x.crew.StopsBy x.now u →
        done = true ∧ time ≤ min (u + 50) (x.now + timeout)) ∧
      ((∀ e ∈ x.crew.handlers.values, e.phase.isStopping = true →
        x.crew.isLive e.generation = false) → done = true ∧ time = x.now) ∧
      c.handlers = x.crew.handlers.filter (fun _ e => c.isLive e.generation) ∧
      Lapses x.crew c ∧
      ∀ d, Lapses x.crew d → ∀ i e, x.crew.handlers.get? i = some e →
        d.isLive e.generation = true → d.handlers.get? i = some e := by
  intro x hx hclock
  have hsound : Sound stopTimeout x := ((sound_fresh w stopTimeout).run acts).1
  have hstaffed := hsound.staffed hx
  have hsettles := Crew.settles_settleFrom x.crew x.now (x.now + timeout)
  have hle := Crew.settleFrom_le (c := x.crew) (Nat.le_add_right x.now timeout)
  refine ⟨_, _, _, Crew.settle_of_lt hclock, hsettles.le, hle, ?_, ?_, ?_, ?_, ?_,
    hsettles.lapses, ?_⟩
  · rw [Crew.settleFrom_fst, Bool.not_eq_true', Crew.hasStopping, List.any_eq_false]
    simp only [Bool.not_eq_true]
  · exact fun hdone => Nat.le_antisymm hle (hsettles.expired hdone)
  · exact fun u hu hd hstops => Crew.settleFrom_of_stopsBy hstops hu hd
  · intro hended
    rw [Crew.settleFrom_of_ended hended]
    exact ⟨rfl, rfl⟩
  · refine OrderedMap.ext_get? fun i => ?_
    rw [Crew.get?_settleFrom hsound.dated hstaffed, OrderedMap.get?_filter]
  · exact fun d hd i e he hlive => hd.get?_of_isLive hsound.dated hstaffed he hlive

def slowItems : List ItemId := [⟨"wa", by decide⟩, ⟨"wb", by decide⟩, ⟨"wc", by decide⟩]

/-- Told to stop, the handler of the second item returns after a while, and that of the third panics
a little later; the first one goes on. -/
def slowBehaviour (i : ItemId) : Behaviour :=
  if i.text = "wb" then .stopsSlowly 120
  else if i.text = "wc" then ⟨none, some (130, .panicked), false⟩ else .stubborn

/-- Two of three handlers have been told to stop a second after they began. -/
def slow : List Act :=
  [.request (.reconcile (.ok slowItems) slowBehaviour), .task 0, .task 1, .task 2, .sleep 1000,
    .request (.reconcile (.ok (slowItems.take 1)) slowBehaviour)]

theorem slow_settles_in_time :
    ((fresh ⟨1⟩ 5000).run slow).crew.handlers.values =
      [⟨0, .running⟩, ⟨1, .stopping 1000⟩, ⟨2, .stopping 1000⟩] ∧
    ((fresh ⟨1⟩ 5000).run slow).crew.StopsBy 1000 1130 ∧
    ∃ c, ((fresh ⟨1⟩ 5000).run slow).crew.settle 1000 500 = .ok (true, 1170, c) ∧
      1170 ≤ min (1130 + 50) 1500 ∧ (∀ e ∈ c.handlers.values, e.phase.isStopping = false) ∧
      c.handlers = ((fresh ⟨1⟩ 5000).run slow).crew.handlers.filter
        (fun _ e => c.isLive e.generation) := by
  have hnow : ((fresh ⟨1⟩ 5000).run slow).now = 1000 := rfl
  have hclock : ((fresh ⟨1⟩ 5000).run slow).now + 500 < clockEnd := by
    rw [hnow]
    decide
  have hstops : ((fresh ⟨1⟩ 5000).run slow).crew.StopsBy 1000 1130 := by decide
  obtain ⟨done, time, c, hsettle, -, -, hdone, -, hsoon, -, hentries, -⟩ :=
    settles_in_time ⟨1⟩ 5000 500 slow rfl hclock
  rw [hnow] at hsettle hsoon
  have hvalue : (((fresh ⟨1⟩ 5000).run slow).crew.settle 1000 500).map (fun r => (r.1, r.2.1)) =
      .ok (true, 1170) := by decide +kernel
  rw [hsettle] at hvalue
  cases hvalue
  obtain ⟨-, htime⟩ := hsoon 1130 (by decide) (by decide) hstops
  exact ⟨by decide, hstops, c, hsettle, htime, hdone.1 rfl, hentries⟩

end Watch

end Roster
