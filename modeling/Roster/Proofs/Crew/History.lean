import Roster.Proofs.Crew.Dated

/-! What becomes of the handlers of a crew as time goes by. An entry that was there before may have
begun to stop or be gone, and no other change is possible; a task that was cancelled stays cancelled
since the same instant, and only what is unwanted is cancelled. -/

namespace Roster

/-- From `t` to `t'` a task goes on, and is not told to stop unless its item is unwanted. -/
structure Task.Told (now : Nat) (unwanted : ItemId → Prop) (t t' : Task) : Prop where
  item : t'.item = t.item
  cancelled : t'.cancelled = t.cancelled ∨
    t.cancelled = none ∧ t'.cancelled = some now ∧ unwanted t.item

theorem Task.told_cancel {now : Nat} {unwanted : ItemId → Prop} {t : Task} (h : unwanted t.item) :
    Told now unwanted t (t.cancel now) := by
  refine ⟨rfl, ?_⟩
  cases hc : t.cancelled with
  | none => exact .inr ⟨rfl, by simp [cancel, hc], h⟩
  | some since => exact .inl (by simp [cancel, hc])

namespace Crew

variable {c c' c'' : Crew} {i : ItemId} {e e' : Entry} {now time g n : Nat} {t t' : Task}
  {unwanted : ItemId → Prop}

/-- From `c` to `c'` handlers have gone on, and nothing that was over has come back. -/
structure Succeeds (c c' : Crew) : Prop where
  tasks : ∀ (g : Nat) (t : Task), c.tasks[g]? = some t → ∃ t', c'.tasks[g]? = some t' ∧
    t'.item = t.item ∧ ∀ since, t.cancelled = some since → t'.cancelled = some since
  entries : ∀ i e', c'.handlers.get? i = some e' → c.tasks.length ≤ e'.generation ∨
    ∃ e, c.handlers.get? i = some e ∧ e.generation = e'.generation ∧
      (e'.phase = e.phase ∨ e.phase = .running)

/-- It is known why each task was cancelled: at `now`, where its item was unwanted. -/
structure Evolves (now : Nat) (unwanted : ItemId → Prop) (c c' : Crew) : Prop
    extends Succeeds c c' where
  cancelled : ∀ (g : Nat) (t' : Task) (since : Nat), c'.tasks[g]? = some t' →
    t'.cancelled = some since → ∃ t, c.tasks[g]? = some t ∧
      (t.cancelled = some since ∨ t.cancelled = none ∧ since = now ∧ unwanted t'.item)
  begun : ∀ (g : Nat) (t' : Task), c'.tasks[g]? = some t' → c.tasks.length ≤ g →
    ¬ unwanted t'.item

theorem Succeeds.length_le (h : Succeeds c c') : c.tasks.length ≤ c'.tasks.length := by
  refine Nat.le_of_not_lt fun hlt => ?_
  obtain ⟨t', ht', -⟩ := h.tasks _ _ (List.getElem?_eq_getElem hlt)
  exact Nat.lt_irrefl _ (List.getElem?_eq_some_iff.1 ht').1

theorem Succeeds.item_eq (h : Succeeds c c') (ht : c.tasks[g]? = some t)
    (ht' : c'.tasks[g]? = some t') : t'.item = t.item := by
  obtain ⟨u, hu, hitem, -⟩ := h.tasks g t ht
  rwa [Option.some.inj (ht'.symm.trans hu)]

/-- What has not been cancelled had not been before. -/
theorem Succeeds.cancelled_eq_none (h : Succeeds c c') (ht : c.tasks[g]? = some t)
    (ht' : c'.tasks[g]? = some t') (hnone : t'.cancelled = none) : t.cancelled = none := by
  obtain ⟨u, hu, -, hkept⟩ := h.tasks g t ht
  obtain rfl := Option.some.inj (ht'.symm.trans hu)
  refine Option.eq_none_iff_forall_ne_some.2 fun since hs => ?_
  rw [hkept since hs] at hnone
  cases hnone

theorem Succeeds.refl (c : Crew) : Succeeds c c :=
  ⟨fun _ t ht => ⟨t, ht, rfl, fun _ hs => hs⟩, fun _ e he => .inr ⟨e, he, rfl, .inl rfl⟩⟩

theorem Succeeds.trans (h : Succeeds c c') (h' : Succeeds c' c'') : Succeeds c c'' where
  tasks g t ht := by
    obtain ⟨t', ht', hi', hs'⟩ := h.tasks g t ht
    obtain ⟨t'', ht'', hi'', hs''⟩ := h'.tasks g t' ht'
    exact ⟨t'', ht'', hi''.trans hi', fun since hs => hs'' since (hs' since hs)⟩
  entries i e'' he'' := by
    rcases h'.entries i e'' he'' with hlen | ⟨e', he', hg', hp'⟩
    · exact .inl (Nat.le_trans h.length_le hlen)
    · rcases h.entries i e' he' with hlen | ⟨e, he, hg, hp⟩
      · exact .inl (hg' ▸ hlen)
      · refine .inr ⟨e, he, hg.trans hg', ?_⟩
        -- An entry that was not running keeps its phase both times.
        rcases hp with hp | hp
        · rwa [← hp]
        · exact .inr hp

namespace Evolves

theorem refl (now : Nat) (unwanted : ItemId → Prop) (c : Crew) : Evolves now unwanted c c where
  toSucceeds := .refl c
  cancelled _ t _ ht hs := ⟨t, ht, .inl hs⟩
  begun _ _ ht hlen := absurd (List.getElem?_eq_some_iff.1 ht).1 (Nat.not_lt.2 hlen)

theorem trans (h : Evolves now unwanted c c') (h' : Evolves now unwanted c' c'') :
    Evolves now unwanted c c'' where
  toSucceeds := h.toSucceeds.trans h'.toSucceeds
  cancelled g t'' since ht'' hs := by
    obtain ⟨t', ht', hs' | ⟨hnone, rfl, hw⟩⟩ := h'.cancelled g t'' since ht'' hs
    · rw [h'.item_eq ht' ht'']
      exact h.cancelled g t' since ht' hs'
    · -- What has just begun is wanted, so this task was there before.
      have hlt : g < c.tasks.length := by
        refine Nat.lt_of_not_le fun hlen => h.begun g t' ht' hlen ?_
        rwa [← h'.item_eq ht' ht'']
      have ht := List.getElem?_eq_getElem hlt
      exact ⟨_, ht, .inr ⟨h.cancelled_eq_none ht ht' hnone, rfl, hw⟩⟩
  begun g t'' ht'' hlen := by
    rcases Nat.lt_or_ge g c'.tasks.length with hlt | hge
    · have ht' := List.getElem?_eq_getElem hlt
      rw [h'.item_eq ht' ht'']
      exact h.begun g _ ht' hlen
    · exact h'.begun g t'' ht'' hge

/-- Where no task begins and no entry comes. -/
theorem of_tasks {f : Nat → Task → Task}
    (he : ∀ i e', c'.handlers.get? i = some e' → ∃ e, c.handlers.get? i = some e ∧
      e.generation = e'.generation ∧ (e'.phase = e.phase ∨ e.phase = .running))
    (ht : ∀ g, c'.tasks[g]? = c.tasks[g]?.map (f g))
    (hf : ∀ (g : Nat) (t : Task), c.tasks[g]? = some t → t.Told now unwanted (f g t)) :
    Evolves now unwanted c c' where
  tasks g t hg := by
    refine ⟨f g t, by rw [ht, hg, Option.map_some], (hf g t hg).item, fun since hs => ?_⟩
    rcases (hf g t hg).cancelled with hsame | ⟨hnone, -⟩
    · rw [hsame, hs]
    · simp [hnone] at hs
  entries i e' he' := .inr (he i e' he')
  cancelled g t' since hg hs := by
    rw [ht, Option.map_eq_some_iff] at hg
    obtain ⟨t, hg, rfl⟩ := hg
    refine ⟨t, hg, ?_⟩
    rcases (hf g t hg).cancelled with hsame | ⟨hnone, hnow, hw⟩
    · exact .inl (hsame ▸ hs)
    · exact .inr ⟨hnone, Option.some.inj (hs.symm.trans hnow), by rwa [(hf g t hg).item]⟩
  begun g t' hg hlen := by
    rw [ht, Option.map_eq_some_iff] at hg
    obtain ⟨t, hg, -⟩ := hg
    exact absurd (List.getElem?_eq_some_iff.1 hg).1 (Nat.not_lt.2 hlen)

theorem lapse (h : Lapse c c') : Evolves now unwanted c c' := by
  obtain ⟨f, hf, hrun⟩ := h.tasks
  refine of_tasks (fun i e he => ⟨e, h.get?_of he, rfl, .inl rfl⟩) hf fun g t _ => ?_
  rcases hrun g t with hsame | ⟨time, hran⟩
  · rw [hsame]
    exact ⟨rfl, .inl rfl⟩
  · rw [hran]
    exact ⟨Task.item_run, .inl Task.cancelled_run⟩

theorem abortWhere (c : Crew) (now time : Nat) (unwanted : ItemId → Prop) (timeout : Option Nat)
    (p : Entry → Bool) : Evolves now unwanted c (c.abortWhere time timeout p).2 := by
  refine of_tasks (fun i e he => ⟨e, (get?_of_abortWhere he).1, rfl, .inl rfl⟩)
    (fun g => getElem?_abortTasks c.tasks time _ g) fun g t _ => ?_
  split
  · exact ⟨Task.item_abort, .inl Task.cancelled_abort⟩
  · exact ⟨rfl, .inl rfl⟩

theorem cancel (h : Dated now c) (hi : unwanted i) :
    Evolves now unwanted c (c.cancel now i).2 := by
  unfold Crew.cancel
  split
  · next g hg =>
    obtain ⟨t, ht, rfl, -⟩ := h.entered i _ hg
    refine of_tasks (f := fun k u => if g = k then u.cancel now else u) ?_ ?_ ?_
    · intro j e' he'
      simp only [OrderedMap.get?_insert] at he'
      split at he'
      · next hj =>
        obtain rfl := Option.some.inj he'
        exact ⟨⟨g, .running⟩, hj ▸ hg, rfl, .inr rfl⟩
      · exact ⟨e', he', rfl, .inl rfl⟩
    · intro k
      rw [List.getElem?_modify, Option.map_eq_map]
    · intro k u hu
      split
      · next hk =>
        obtain rfl := Option.some.inj (ht.symm.trans (hk ▸ hu))
        exact Task.told_cancel hi
      · exact ⟨rfl, .inl rfl⟩
  · exact refl now unwanted c

theorem start (b : Behaviour) (hi : ¬ unwanted i) : Evolves now unwanted c (c.start i b) where
  tasks g t ht := by
    refine ⟨t, ?_, rfl, fun _ hs => hs⟩
    rw [Crew.start, List.getElem?_append_left (List.getElem?_eq_some_iff.1 ht).1]
    exact ht
  entries j e' he' := by
    simp only [Crew.start, OrderedMap.get?_insert] at he'
    split at he'
    · obtain rfl := Option.some.inj he'
      exact .inl (Nat.le_refl _)
    · exact .inr ⟨e', he', rfl, .inl rfl⟩
  cancelled g t' since ht' hs := by
    rcases getElem?_concat ht' with ht | ⟨-, rfl⟩
    · exact ⟨t', ht, .inl hs⟩
    · cases hs
  begun g t' ht' hlen := by
    rcases getElem?_concat ht' with ht | ⟨-, rfl⟩
    · exact absurd (List.getElem?_eq_some_iff.1 ht).1 (Nat.not_lt.2 hlen)
    · exact hi

theorem deed (h : Dated now c) (hd : Deed now unwanted c c') : Evolves now unwanted c c' := by
  cases hd with
  | lapse hl => exact lapse hl
  | abort timeout p hp => exact abortWhere c now now unwanted timeout p
  | start b hi hw => exact start b hw
  | cancel hi => exact cancel h hi

theorem deeds (h : Dated now c) (hd : Deeds now unwanted c c') : Evolves now unwanted c c' := by
  induction hd with
  | refl => exact refl now unwanted c
  | tail hpre hstep ih => exact ih.trans (deed (h.deeds hpre) hstep)

theorem stop (h : Dated now c) (hs : c.stop now = .ok (n, time, c')) :
    Evolves now (fun _ => True) c c' := by
  obtain ⟨d, hd, -, rfl | ⟨rfl, -⟩⟩ := h.stop_cases hs
  · exact deeds h hd
  · exact (deeds h hd).trans (abortWhere d now time _ _ _)

end Evolves

/-- A handler begins as one that runs. -/
theorem Evolves.phase_of_begun (h : Evolves now unwanted c c') (hd : Dated time c')
    (he : c'.handlers.get? i = some e) (hlen : c.tasks.length ≤ e.generation) :
    e.phase = .running := by
  obtain ⟨t, ht, -, ⟨hrunning, -⟩ | ⟨since, -, hs⟩⟩ := hd.agrees he
  · exact hrunning
  · -- What is cancelled meanwhile was there before.
    obtain ⟨u, hu, -⟩ := h.cancelled _ t since ht hs
    exact absurd (List.getElem?_eq_some_iff.1 hu).1 (Nat.not_lt.2 hlen)

/-! ### Disbanding -/

theorem getElem?_disband (c : Crew) (now g : Nat) : (c.disband now).tasks[g]? =
    c.tasks[g]?.map fun t =>
      if g ∈ c.handlers.values.map (·.generation) then t.cancel now else t := by
  rw [← getElem?_foldl_modify (f := Task.cancel now) fun t => by simp [Task.cancel]]
  simp only [disband, List.foldl_map]

theorem Evolves.disband (c : Crew) (now : Nat) :
    Evolves now (fun _ => True) c (c.disband now) := by
  refine of_tasks (fun _ _ he => nomatch he) (getElem?_disband c now) fun g t _ => ?_
  split
  · exact Task.told_cancel trivial
  · exact ⟨rfl, .inl rfl⟩

theorem Dated.disband (h : Dated now c) : Dated now (c.disband now) where
  entered _ _ he := nomatch he
  past t' ht' since hs := by
    obtain ⟨g, hg⟩ := List.mem_iff_getElem?.1 ht'
    obtain ⟨t, ht, hold | ⟨-, rfl, -⟩⟩ := (Evolves.disband c now).cancelled g t' since hg hs
    · exact h.past t (List.mem_of_getElem? ht) since hold
    · exact Nat.le_refl _
  graced t' ht' time ho := by
    obtain ⟨g, hg⟩ := List.mem_iff_getElem?.1 ht'
    rw [getElem?_disband, Option.map_eq_some_iff] at hg
    obtain ⟨t, ht, rfl⟩ := hg
    have hout : t.outcome = some (.aborted time) := by split at ho <;> exact ho
    obtain ⟨hle, since, hs, hdue⟩ := h.graced t (List.mem_of_getElem? ht) time hout
    refine ⟨hle, since, ?_, hdue⟩
    split
    · simp [Task.cancel, hs]
    · exact hs

/-! ### What is overdue when a pass begins -/

/-- An entry that was overdue is gone once the pass is over, and no other names its task. -/
theorem Dated.generation_ne_of_reconcile {j : ItemId} (h : Dated now c)
    (he : c.handlers.get? i = some e) (ho : e.phase.isOverdue now c.stopTimeout = true)
    (read : Except Error (List ItemId)) (behaviour : ItemId → Behaviour)
    (he' : (c.reconcile now read behaviour).2.handlers.get? j = some e') :
    e'.generation ≠ e.generation := by
  intro hg
  have hswept := h.deeds (deeds_swept c now fun _ => True)
  have hlen := (Evolves.deeds h (deeds_swept c now fun _ => True)).length_le
  rcases (Evolves.deeds hswept (deeds_swept_reconcile c now read behaviour)).entries j e' he' with
    hnew | ⟨d, hd, hdg, -⟩
  · have hlt := h.generation_lt he
    omega
  · have htimeout : c.collectExits.2.stopTimeout = c.stopTimeout :=
      (steps_collectExits c).settings.2
    obtain ⟨hd, hdue⟩ := get?_of_abortWhere hd
    have hold := (lapses_collectExits c).get?_of hd
    obtain rfl := h.eq_of_generation he hold (hg.symm.trans hdg.symm)
    obtain rfl := Option.some.inj (he.symm.trans hold)
    rw [htimeout, ho] at hdue
    cases hdue

/-! ### Counting cancellations -/

def isCancelled (c : Crew) (g : Nat) : Bool := c.tasks[g]?.any (·.cancelled.isSome)

/-- The tasks that have been cancelled since the crew was as `before`. -/
def cancelledSince (c before : Crew) : List Nat :=
  (List.range c.tasks.length).filter fun g => c.isCancelled g && !before.isCancelled g

def cancelledCount (c : Crew) : Nat := c.tasks.countP (·.cancelled.isSome)

theorem countP_getElem? (ts : List Task) (p : Task → Bool) (hn : ts.length ≤ n) :
    (List.range n).countP (fun g => ts[g]?.any p) = ts.countP p := by
  induction ts generalizing n with
  | nil => simp
  | cons t ts ih =>
    cases n with
    | zero => simp at hn
    | succ n =>
      have hrest := ih (Nat.le_of_succ_le_succ hn)
      rw [List.range_succ_eq_map, List.countP_cons, List.countP_map, List.countP_cons, ← hrest]
      rfl

theorem countP_isCancelled (h : c.tasks.length ≤ n) :
    (List.range n).countP c.isCancelled = c.cancelledCount :=
  countP_getElem? c.tasks (·.cancelled.isSome) h

theorem isCancelled_iff : c.isCancelled g = true ↔
    ∃ t since, c.tasks[g]? = some t ∧ t.cancelled = some since := by
  unfold isCancelled
  cases c.tasks[g]? with
  | none => simp
  | some t => simp [Option.isSome_iff_exists]

theorem mem_cancelledSince_iff :
    g ∈ c'.cancelledSince c ↔ c'.isCancelled g = true ∧ c.isCancelled g = false := by
  have hlt (hg : c'.isCancelled g = true) : g < c'.tasks.length := by
    obtain ⟨t, -, ht, -⟩ := isCancelled_iff.1 hg
    exact (List.getElem?_eq_some_iff.1 ht).1
  simp only [cancelledSince, List.mem_filter, List.mem_range, Bool.and_eq_true, Bool.not_eq_true']
  exact ⟨fun h => h.2, fun h => ⟨hlt h.1, h⟩⟩

/-- What was cancelled stays so. -/
theorem Succeeds.isCancelled (h : Succeeds c c') (hg : c.isCancelled g = true) :
    c'.isCancelled g = true := by
  obtain ⟨t, since, ht, hs⟩ := isCancelled_iff.1 hg
  obtain ⟨t', ht', -, hkept⟩ := h.tasks g t ht
  exact isCancelled_iff.2 ⟨t', since, ht', hkept since hs⟩

theorem length_cancelledSince (h : Succeeds c c') :
    (c'.cancelledSince c).length + c.cancelledCount = c'.cancelledCount := by
  have hboth (g : Nat) : (c.isCancelled g && c'.isCancelled g) = c.isCancelled g := by
    cases hg : c.isCancelled g with
    | false => rfl
    | true => simp [h.isCancelled hg]
  have hsplit := List.length_eq_countP_add_countP c.isCancelled
    (l := (List.range c'.tasks.length).filter c'.isCancelled)
  simp only [List.countP_filter, hboth, ← List.countP_eq_length_filter] at hsplit
  rw [countP_isCancelled (Nat.le_refl _), countP_isCancelled h.length_le] at hsplit
  rw [cancelledSince, ← List.countP_eq_length_filter, hsplit, Nat.add_comm]
  congr 2
  funext g
  cases c.isCancelled g <;> simp

/-- Where nothing is unwanted, nothing is cancelled. -/
theorem Evolves.cancelledCount_eq (h : Evolves now (fun _ => False) c c') :
    c'.cancelledCount = c.cancelledCount := by
  rw [← countP_isCancelled (Nat.le_refl _), ← countP_isCancelled h.length_le]
  congr 1
  funext g
  refine Bool.eq_iff_iff.2 ⟨fun hg => ?_, h.isCancelled⟩
  obtain ⟨t', since, ht', hs⟩ := isCancelled_iff.1 hg
  obtain ⟨t, ht, hs | ⟨-, -, hfalse⟩⟩ := h.cancelled g t' since ht' hs
  · exact isCancelled_iff.2 ⟨t, since, ht, hs⟩
  · exact hfalse.elim

theorem Dated.cancelledCount_cancel (h : Dated now c) (i : ItemId) :
    (c.cancel now i).2.cancelledCount = c.cancelledCount + (c.cancel now i).1.toNat := by
  unfold Crew.cancel
  split
  · next g hg =>
    obtain ⟨t, ht, -, hnone⟩ := h.entered i _ hg
    have hlt := (List.getElem?_eq_some_iff.1 ht).1
    have hget : c.tasks[g] = t := (List.getElem?_eq_some_iff.1 ht).2
    have hc : c.tasks[g].cancelled = none := hget ▸ hnone
    have hset : c.tasks.modify g (·.cancel now) = c.tasks.set g (t.cancel now) := by
      rw [List.modify_eq_set_getElem?, ht]
      rfl
    simp only [cancelledCount, hset]
    rw [List.countP_set hlt]
    simp [hc, Task.cancel]
  · rfl

/-- A crew counts what it cancels. -/
theorem Dated.cancelledCount_cancelAll (h : Dated now c) (is : List ItemId) :
    (c.cancelAll now is).2.cancelledCount = c.cancelledCount + (c.cancelAll now is).1 := by
  induction is generalizing c with
  | nil => rfl
  | cons i is ih =>
    have hrest := ih (h.cancel i)
    rw [h.cancelledCount_cancel] at hrest
    simp only [cancelAll]
    omega

theorem Dated.cancelledCount_follow (h : Dated now c) (desired : List ItemId)
    (behaviour : ItemId → Behaviour) :
    (c.follow now desired behaviour).2.2.cancelledCount =
      c.cancelledCount + (c.follow now desired behaviour).2.1 := by
  -- What is missing is started first, and that cancels nothing.
  have hstarted : Deeds now (fun _ => False) c _ :=
    deeds_startMissing c now desired (fun _ _ h => h) behaviour
  have hcount := (h.deeds hstarted).cancelledCount_cancelAll
    (Diff.between desired c.handlers.keys).toStop
  rwa [(Evolves.deeds h hstarted).cancelledCount_eq] at hcount

/-- A pass counts the tasks that it cancels. -/
theorem Dated.cancelled_reconcile {read : Except Error (List ItemId)}
    {behaviour : ItemId → Behaviour} {p : Pass} (h : Dated now c)
    (hp : (c.reconcile now read behaviour).1 = .ok p) :
    p.cancelled = ((c.reconcile now read behaviour).2.cancelledSince c).length := by
  have hlen := length_cancelledSince
    (Evolves.deeds h (deeds_reconcile c now read behaviour)).toSucceeds
  cases read with
  | error e => cases hp
  | ok desired =>
    have hswept := deeds_swept c now fun _ => False
    have hcount := (h.deeds hswept).cancelledCount_follow desired behaviour
    obtain ⟨q, hq, hcancelled⟩ := reconcile_ok c now desired behaviour
    rw [(Evolves.deeds h hswept).cancelledCount_eq, ← hcancelled] at hcount
    rw [hq] at hp hlen ⊢
    obtain rfl := Except.ok.inj hp
    dsimp only at hlen ⊢
    omega

end Crew

end Roster
