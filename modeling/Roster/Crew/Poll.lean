import Roster.Crew.Exits

/-!
One round of waiting for stopping handlers. The crew looks at its entries, then sleeps until a
report comes, but no longer than a short while and not past the deadline. A wait takes time, unless
a report is there at once; and every report takes a task that was live.
-/

namespace Roster

inductive Poll where
  | settled
  | expired
  | waiting (wake : Nat)
  deriving DecidableEq, Repr

namespace Crew

/-- The longest single wait. -/
def settlePoll : Nat := 50

/-- Looks whether there is anything left to wait for, and until when. -/
def poll (c : Crew) (now deadline : Nat) : Poll × Crew :=
  let c := c.collectExits.2
  if !c.hasStopping then (.settled, c)
  else if deadline ≤ now then (.expired, c)
  else (.waiting (min deadline (now + settlePoll)), c)

/-- When the next report after `now` comes, if nothing else happens. -/
def nextReport (c : Crew) (now : Nat) : Option Nat :=
  ((c.tasks.filterMap (·.reportDue)).filter (now < ·)).min?

/-- Sleeps until a report comes, or until `wake` and just before the tasks of that instant go on. -/
def sleep (c : Crew) (now wake : Nat) : Nat × Crew :=
  let upTo (c : Crew) : Nat × Crew := (wake, c.runAll (wake - 1))
  match c.nextReport now with
  | some time => if time < wake then (time, c.runAll time) else upTo c
  | none => upTo c

/-- A report takes the entry of the generation that it is about, if that is still there. -/
theorem onExit_cases (c : Crew) (r : Report) :
    (∃ e, c.handlers.get? r.item = some e ∧ e.generation = r.generation ∧
      c.onExit r = (true, { c with
        handlers := c.handlers.erase r.item
        log := c.log ++ [match e.phase with
          | .running => .exitedWhileRunning c.worker r.item
          | .stopping _ => .stopped c.worker r.item] })) ∨
    (∀ e, c.handlers.get? r.item = some e → e.generation ≠ r.generation) ∧
      c.onExit r = (false, c) := by
  rw [onExit]
  cases he : c.handlers.get? r.item with
  | none => exact .inr ⟨fun e h => (nomatch h), rfl⟩
  | some e =>
    by_cases hg : e.generation = r.generation
    · exact .inl ⟨e, rfl, hg, if_pos hg⟩
    · exact .inr ⟨fun e' h => Option.some.inj h ▸ hg, if_neg hg⟩

theorem tasks_onExit (c : Crew) (r : Report) : (c.onExit r).2.tasks = c.tasks := by
  obtain ⟨e, -, -, heq⟩ | ⟨-, heq⟩ := c.onExit_cases r <;> rw [heq]

theorem reports_onExit (c : Crew) (r : Report) : (c.onExit r).2.reports = c.reports := by
  obtain ⟨e, -, -, heq⟩ | ⟨-, heq⟩ := c.onExit_cases r <;> rw [heq]

theorem tasks_onExits (c : Crew) (rs : List Report) : (c.onExits rs).2.tasks = c.tasks := by
  induction rs generalizing c with
  | nil => rfl
  | cons r rs ih => exact (ih _).trans (tasks_onExit c r)

theorem reports_onExits (c : Crew) (rs : List Report) : (c.onExits rs).2.reports = c.reports := by
  induction rs generalizing c with
  | nil => rfl
  | cons r rs ih => exact (ih _).trans (reports_onExit c r)

/-- A look at the entries collects exits first, and what is left decides. -/
theorem poll_cases (c : Crew) (now deadline : Nat) :
    c.collectExits.2.hasStopping = false ∧ c.poll now deadline = (.settled, c.collectExits.2) ∨
    c.collectExits.2.hasStopping = true ∧ deadline ≤ now ∧
      c.poll now deadline = (.expired, c.collectExits.2) ∨
    c.collectExits.2.hasStopping = true ∧ now < deadline ∧
      c.poll now deadline = (.waiting (min deadline (now + settlePoll)), c.collectExits.2) := by
  rw [poll]
  cases c.collectExits.2.hasStopping with
  | false => exact .inl ⟨rfl, rfl⟩
  | true =>
    by_cases hd : deadline ≤ now
    · exact .inr (.inl ⟨rfl, hd, if_pos hd⟩)
    · exact .inr (.inr ⟨rfl, Nat.lt_of_not_le hd, if_neg hd⟩)

theorem poll_snd (c : Crew) (now deadline : Nat) :
    (c.poll now deadline).2 = c.collectExits.2 := by
  obtain ⟨-, hp⟩ | ⟨-, -, hp⟩ | ⟨-, -, hp⟩ := c.poll_cases now deadline <;> rw [hp]

theorem tasks_collectExits (c : Crew) : c.collectExits.2.tasks = c.tasks :=
  tasks_onExits { c with reports := [] } c.reports

theorem tasks_poll (c : Crew) (now deadline : Nat) : (c.poll now deadline).2.tasks = c.tasks := by
  rw [poll_snd, tasks_collectExits]

theorem reports_poll (c : Crew) (now deadline : Nat) : (c.poll now deadline).2.reports = [] := by
  rw [poll_snd]
  exact reports_onExits { c with reports := [] } c.reports

theorem lt_of_waiting {c : Crew} {now deadline wake : Nat}
    (h : (c.poll now deadline).1 = .waiting wake) : now < wake ∧ now < deadline := by
  obtain ⟨-, hp⟩ | ⟨-, -, hp⟩ | ⟨-, hd, hp⟩ := c.poll_cases now deadline <;> rw [hp] at h <;>
    cases h
  simp only [settlePoll]
  omega

theorem tasks_receive (c : Crew) : c.receive.tasks = c.tasks := by
  rw [receive]
  split
  · rfl
  · exact tasks_onExit _ _

theorem lt_of_nextReport {c : Crew} {now time : Nat} (h : c.nextReport now = some time) :
    now < time := by
  simpa using (List.mem_filter.1 (List.min?_mem h)).2

/-- Who sleeps wakes up when the next report comes, or at `wake` at the latest. -/
theorem sleep_cases (c : Crew) (now wake : Nat) :
    (∃ time, c.nextReport now = some time ∧ time < wake ∧
      c.sleep now wake = (time, c.runAll time)) ∨
    c.sleep now wake = (wake, c.runAll (wake - 1)) := by
  rw [sleep]
  split
  · next time ht =>
    split
    · next hlt => exact .inl ⟨time, ht, hlt, rfl⟩
    · exact .inr rfl
  · exact .inr rfl

theorem lt_sleep {c : Crew} {now wake : Nat} (h : now < wake) : now < (c.sleep now wake).1 := by
  obtain ⟨time, ht, -, heq⟩ | heq := c.sleep_cases now wake <;> rw [heq]
  · exact lt_of_nextReport ht
  · exact h

/-- The tasks are at work until then or until just before. -/
theorem exists_runAll_sleep (c : Crew) (now wake : Nat) : ∃ last,
    (c.sleep now wake).2 = c.runAll last ∧ last ≤ (c.sleep now wake).1 ∧
      (c.sleep now wake).1 ≤ last + 1 ∧ (c.sleep now wake).1 ≤ wake := by
  obtain ⟨time, -, hlt, heq⟩ | heq := c.sleep_cases now wake <;> rw [heq]
  · exact ⟨time, rfl, Nat.le_refl time, Nat.le_succ time, Nat.le_of_lt hlt⟩
  · exact ⟨wake - 1, rfl, by omega, by omega, Nat.le_refl wake⟩

theorem run_of_not_isLive {t : Task} (h : t.isLive = false) (now : Nat) : t.run now = t := by
  simp [Task.run, h]

theorem not_isLive_of_hasReturned {t : Task} (h : t.hasReturned = true) : t.isLive = false := by
  rw [Task.hasReturned] at h
  split at h
  · next ho => simp [Task.isLive, ho]
  · cases h

theorem countP_set_add (ts : List Task) (g : Nat) (t t' : Task) (h : ts[g]? = some t) :
    (ts.set g t').countP (·.isLive) + t.isLive.toNat = ts.countP (·.isLive) + t'.isLive.toNat := by
  induction ts generalizing g with
  | nil => simp at h
  | cons u ts ih =>
    cases g with
    | zero =>
      cases h
      rw [List.set_cons_zero, List.countP_cons, List.countP_cons]
      cases t.isLive <;> cases t'.isLive <;>
        simp only [Bool.toNat_false, Bool.toNat_true, if_true, Bool.false_eq_true, if_false]
    | succ g =>
      have := ih g (by simpa using h)
      rw [List.set_cons_succ, List.countP_cons, List.countP_cons]
      omega

theorem liveCount_congr {c d : Crew} (h : c.tasks = d.tasks) : c.liveCount = d.liveCount :=
  congrArg (List.countP _) h

/-- Every report that comes takes a live task. -/
theorem runTask_le (c : Crew) (now g : Nat) :
    (c.runTask now g).reports.length + (c.runTask now g).liveCount ≤
      c.reports.length + c.liveCount := by
  rw [runTask]
  split
  · exact Nat.le_refl _
  · next t ht =>
    have hc := countP_set_add c.tasks g t (t.run now) ht
    simp only [liveCount]
    cases hl : t.isLive with
    | false =>
      rw [run_of_not_isLive hl] at hc ⊢
      simp only [Bool.false_and, Bool.false_eq_true, if_false]
      omega
    | true =>
      rw [hl] at hc
      cases hr : (t.run now).hasReturned with
      | true =>
        rw [not_isLive_of_hasReturned hr] at hc
        simp only [Bool.and_self, if_true, List.length_append, List.length_singleton]
        simp at hc
        omega
      | false =>
        simp only [Bool.and_false, Bool.false_eq_true, if_false]
        have : (t.run now).isLive.toNat ≤ 1 := Bool.toNat_le _
        simp at hc
        omega

theorem length_runAll (c : Crew) (now : Nat) : (c.runAll now).tasks.length = c.tasks.length := by
  rw [runAll]
  generalize c.liveGenerations = gs
  induction gs generalizing c with
  | nil => rfl
  | cons g gs ih =>
    refine (ih _).trans ?_
    change (c.runTask now g).tasks.length = _
    rw [runTask]
    split
    · rfl
    · exact List.length_set

theorem length_sleep (c : Crew) (now wake : Nat) :
    (c.sleep now wake).2.tasks.length = c.tasks.length := by
  obtain ⟨last, hrun, -⟩ := c.exists_runAll_sleep now wake
  rw [hrun, length_runAll]

theorem runAll_le (c : Crew) (now : Nat) :
    (c.runAll now).reports.length + (c.runAll now).liveCount ≤ c.reports.length + c.liveCount := by
  rw [runAll]
  generalize c.liveGenerations = gs
  induction gs generalizing c with
  | nil => exact Nat.le_refl _
  | cons g gs ih => exact Nat.le_trans (ih _) (runTask_le c now g)

end Crew

end Roster
