import Mathlib.Data.List.DropRight
import Roster.Config
import Roster.Proofs.Text.Decimal

/-! What a configuration is loaded from. A load succeeds exactly on the valid texts, and what it
gives is what they say; else it reports the fault of the first check that fails, whatever the
variables are that only later checks read. -/

namespace Roster.Text

variable {s front core : List Char}

/-- The text `s` without the blanks at its ends. -/
structure Trims (s core : List Char) : Prop where
  split : ∃ front back, s = front ++ core ++ back ∧ (∀ c ∈ front, isBlank c = true) ∧
    ∀ c ∈ back, isBlank c = true
  head : ∀ c ∈ core.head?, isBlank c = false
  last : ∀ c ∈ core.getLast?, isBlank c = false

theorem isBlank_of_mem_head?_dropWhile {c : Char} (h : c ∈ (s.dropWhile isBlank).head?) :
    isBlank c = false := by
  have hnot := List.head?_dropWhile_not isBlank s
  rw [Option.mem_def.1 h] at hnot
  simpa using hnot

theorem trims_trim (s : List Char) : Trims s (trim s) := by
  have hback : trim s ++ (s.dropWhile isBlank).rtakeWhile isBlank = s.dropWhile isBlank :=
    List.rdropWhile_append_rtakeWhile
  refine ⟨⟨s.takeWhile isBlank, (s.dropWhile isBlank).rtakeWhile isBlank, ?_,
    fun c hc => List.mem_takeWhile_imp hc, fun c hc => List.mem_rtakeWhile_imp hc⟩, ?_, ?_⟩
  · rw [List.append_assoc, hback, List.takeWhile_append_dropWhile]
  · intro c hc
    refine isBlank_of_mem_head?_dropWhile (s := s) ?_
    rw [← hback, List.head?_append, Option.mem_def.1 hc]
    rfl
  · intro c hc
    rw [trim, List.getLast?_reverse] at hc
    exact isBlank_of_mem_head?_dropWhile hc

theorem dropWhile_isBlank_append (hfront : ∀ c ∈ front, isBlank c = true)
    (hcore : ∀ c ∈ core.head?, isBlank c = false) : (front ++ core).dropWhile isBlank = core := by
  rw [List.dropWhile_append_of_pos hfront]
  cases core with
  | nil => rfl
  | cons c core => exact List.dropWhile_cons_of_neg (by simp [hcore c rfl])

theorem Trims.eq_trim (h : Trims s core) : core = trim s := by
  obtain ⟨front, back, rfl, hfront, hback⟩ := h.split
  rw [trim, List.append_assoc]
  cases core with
  | nil =>
    rw [List.nil_append, List.dropWhile_append_of_pos hfront, List.dropWhile_eq_nil_iff.2 hback]
    rfl
  | cons c core =>
    have hfirst : (front ++ (c :: core ++ back)).dropWhile isBlank = c :: core ++ back :=
      dropWhile_isBlank_append hfront h.head
    have hlast : (c :: core ++ back).reverse.dropWhile isBlank = (c :: core).reverse := by
      rw [List.reverse_append]
      exact dropWhile_isBlank_append (by simpa using hback)
        (by simpa only [List.head?_reverse] using h.last)
    rw [hfirst, hlast, List.reverse_reverse]

theorem trims_iff : Trims s core ↔ core = trim s :=
  ⟨Trims.eq_trim, fun h => h ▸ trims_trim s⟩

end Roster.Text

namespace Roster.Config

variable {lookup lookup' : String → Option String} {v : Variable} {m n : Nat} {f : Fault}
  {c : Config}

/-! ### One variable -/

/-- The number of a variable: its default when it is absent, else the number below the limit that
its text denotes, blanks at the ends aside. -/
def Means (lookup : String → Option String) (v : Variable) (n : Nat) : Prop :=
  lookup v.name = none ∧ n = v.fallback ∨ ∃ text core, lookup v.name = some text ∧
    Text.Trims text.toList core ∧ Decimal.Denotes core n ∧ n < v.limit

/-- The text of a variable is refused, for the cause that is named. -/
inductive Illegible (lookup : String → Option String) (v : Variable) : Fault → Prop
  | intro {text : String} {core : List Char} {cause : Decimal.Fault}
      (htext : lookup v.name = some text) (hcore : Text.Trims text.toList core)
      (hcause : Decimal.Refused v.limit core cause) : Illegible lookup v (.invalid v text cause)

theorem Variable.limit_pos (v : Variable) : 0 < v.limit := by
  cases v <;> decide

theorem readVariable_eq_ok_iff : readVariable lookup v = .ok n ↔ Means lookup v n := by
  constructor
  · intro h
    unfold readVariable at h
    split at h
    · next habsent =>
      cases h
      exact .inl ⟨habsent, rfl⟩
    · next text htext =>
      split at h
      · next k hread =>
        cases h
        exact .inr ⟨text, _, htext, Text.trims_trim _, Decimal.read_eq_ok_iff.1 hread⟩
      · cases h
  · rintro (⟨habsent, rfl⟩ | ⟨text, core, htext, hcore, hn⟩)
    · simp only [readVariable, habsent]
    · rw [Text.trims_iff] at hcore
      rw [hcore] at hn
      simp only [readVariable, htext, Decimal.read_eq_ok_iff.2 hn]

theorem readVariable_eq_error_iff : readVariable lookup v = .error f ↔ Illegible lookup v f := by
  constructor
  · intro h
    unfold readVariable at h
    split at h
    · cases h
    · next text htext =>
      split at h
      · cases h
      · next cause hread =>
        cases h
        exact ⟨htext, Text.trims_trim _, (Decimal.read_eq_error_iff v.limit_pos).1 hread⟩
  · rintro ⟨htext, hcore, hcause⟩
    rw [Text.trims_iff] at hcore
    rw [hcore] at hcause
    simp only [readVariable, htext, (Decimal.read_eq_error_iff v.limit_pos).2 hcause]

theorem Means.unique (hm : Means lookup v m) (hn : Means lookup v n) : m = n :=
  Except.ok.inj ((readVariable_eq_ok_iff.2 hm).symm.trans (readVariable_eq_ok_iff.2 hn))

theorem readVariable_congr (h : lookup' v.name = lookup v.name) :
    readVariable lookup' v = readVariable lookup v := by
  rw [readVariable, h, readVariable]

/-! ### Checks in order -/

inductive Check where
  | legible (v : Variable)
  | positive (v : Variable)
  | bounded
  deriving DecidableEq, Repr

/-- The first fault that is found is reported, so the order matters. -/
def checks : List Check :=
  [.legible .rebalanceInterval, .legible .reconcileInterval, .legible .stopTimeout,
    .positive .rebalanceInterval, .positive .reconcileInterval, .legible .initialItems,
    .legible .initialWorkers, .legible .itemGrowthInterval, .legible .workerGrowthInterval,
    .legible .maxWorkers, .bounded]

namespace Check

variable {k : Check}

/-- What is read for a check. -/
def reads : Check → List Variable
  | legible v => [v]
  | positive v => [v]
  | bounded => [.initialWorkers, .maxWorkers]

/-- The check finds the fault. -/
inductive Fails (lookup : String → Option String) : Check → Fault → Prop
  | legible {v : Variable} {f : Fault} (h : Illegible lookup v f) : Fails lookup (.legible v) f
  | positive {v : Variable} (h : Means lookup v 0) : Fails lookup (.positive v) (.zero v)
  | bounded {initial max : Nat} (hi : Means lookup .initialWorkers initial)
      (hm : Means lookup .maxWorkers max) (hlt : max < initial) :
      Fails lookup .bounded (.tooManyWorkers initial max)

/-- The check finds no fault. -/
def Clear (lookup : String → Option String) (k : Check) : Prop := ∀ f, ¬k.Fails lookup f

/-- The fault that the check finds. A number that is illegible is no fault of its other checks. -/
def fault? (lookup : String → Option String) : Check → Option Fault
  | legible v => match readVariable lookup v with
    | .ok _ => none
    | .error f => some f
  | positive v => match readVariable lookup v with
    | .ok n => if n = 0 then some (.zero v) else none
    | .error _ => none
  | bounded => match readVariable lookup .initialWorkers, readVariable lookup .maxWorkers with
    | .ok initial, .ok max => if max < initial then some (.tooManyWorkers initial max) else none
    | _, _ => none

theorem fault?_eq_some_iff : k.fault? lookup = some f ↔ k.Fails lookup f := by
  constructor
  · intro h
    cases k with
    | legible v =>
      simp only [fault?] at h
      split at h
      · cases h
      · next g hread =>
        cases h
        exact .legible (readVariable_eq_error_iff.1 hread)
    | positive v =>
      simp only [fault?] at h
      split at h
      · next n hread =>
        split at h
        · next hzero =>
          cases h
          exact .positive (readVariable_eq_ok_iff.1 (hzero ▸ hread))
        · cases h
      · cases h
    | bounded =>
      simp only [fault?] at h
      split at h
      · next initial max hi hm =>
        split at h
        · next hlt =>
          cases h
          exact .bounded (readVariable_eq_ok_iff.1 hi) (readVariable_eq_ok_iff.1 hm) hlt
        · cases h
      · cases h
  · intro h
    cases h with
    | legible h => simp only [fault?, readVariable_eq_error_iff.2 h]
    | positive h => simp only [fault?, readVariable_eq_ok_iff.2 h, if_pos]
    | bounded hi hm hlt =>
      simp only [fault?, readVariable_eq_ok_iff.2 hi, readVariable_eq_ok_iff.2 hm, if_pos hlt]

theorem fault?_eq_none_iff : k.fault? lookup = none ↔ k.Clear lookup := by
  simp only [Option.eq_none_iff_forall_ne_some, ne_eq, fault?_eq_some_iff, Clear]

theorem fault?_congr (h : ∀ v ∈ k.reads, lookup' v.name = lookup v.name) :
    k.fault? lookup' = k.fault? lookup := by
  cases k with
  | legible v => simp only [fault?, readVariable_congr (h v List.mem_cons_self)]
  | positive v => simp only [fault?, readVariable_congr (h v List.mem_cons_self)]
  | bounded =>
    simp only [fault?, readVariable_congr (h .initialWorkers List.mem_cons_self),
      readVariable_congr (h .maxWorkers (List.mem_cons_of_mem _ List.mem_cons_self))]

theorem fails_congr (h : ∀ v ∈ k.reads, lookup' v.name = lookup v.name) :
    k.Fails lookup' f ↔ k.Fails lookup f := by
  rw [← fault?_eq_some_iff, fault?_congr h, fault?_eq_some_iff]

end Check

/-! ### Loading -/

/-- Every field holds what its variable means. A growth interval is absent exactly at 0. -/
structure Describes (lookup : String → Option String) (c : Config) : Prop where
  logLevel : c.logLevel = (lookup logLevelName).getD "info"
  rebalanceInterval : Means lookup .rebalanceInterval c.rebalanceInterval
  reconcileInterval : Means lookup .reconcileInterval c.reconcileInterval
  stopTimeout : Means lookup .stopTimeout c.stopTimeout
  initialItems : Means lookup .initialItems c.initialItems
  initialWorkers : Means lookup .initialWorkers c.initialWorkers
  itemGrowth : Means lookup .itemGrowthInterval (c.itemGrowthInterval.getD 0)
  itemGrowth_ne : c.itemGrowthInterval ≠ some 0
  workerGrowth : Means lookup .workerGrowthInterval (c.workerGrowthInterval.getD 0)
  workerGrowth_ne : c.workerGrowthInterval ≠ some 0
  maxWorkers : Means lookup .maxWorkers c.maxWorkers

/-- What is loaded is described, and an error is the first fault of the checks `ks`. -/
structure Reports (lookup : String → Option String) (ks : List Check) (r : Except Fault Config) :
    Prop where
  describes : ∀ c, r = .ok c → Describes lookup c
  error_iff : ∀ f, r = .error f ↔ ks.findSome? (Check.fault? lookup) = some f

theorem getD_growthInterval (n : Nat) : (growthInterval n).getD 0 = n := by
  unfold growthInterval
  split
  · next h => exact h.symm
  · rfl

theorem growthInterval_ne (n : Nat) : growthInterval n ≠ some 0 := by
  unfold growthInterval
  split <;> simp [*]

variable {ks : List Check} {g : Nat → Except Fault Config} {r r' : Except Fault Config}

theorem reports_error {k : Check} (h : k.fault? lookup = some f) :
    Reports lookup (k :: ks) (.error f) where
  describes := by simp
  error_iff := by simp [h]

theorem Reports.cons {k : Check} (h : Reports lookup ks r) (hk : k.fault? lookup = none) :
    Reports lookup (k :: ks) r where
  describes := h.describes
  error_iff := by simpa [hk] using h.error_iff

theorem reports_legible (h : ∀ n, readVariable lookup v = .ok n → Reports lookup ks (g n)) :
    Reports lookup (.legible v :: ks) (readVariable lookup v >>= g) := by
  cases hread : readVariable lookup v with
  | ok n => exact (h n hread).cons (by simp only [Check.fault?, hread])
  | error e => exact reports_error (by simp only [Check.fault?, hread])

theorem reports_positive {g : PUnit → Except Fault Config} (hread : readVariable lookup v = .ok n)
    (h : Reports lookup ks r) :
    Reports lookup (.positive v :: ks) (if n = 0 then throw (.zero v) >>= g else r) := by
  split
  · next hzero => exact reports_error (by simp only [Check.fault?, hread, if_pos hzero])
  · next hzero => exact h.cons (by simp only [Check.fault?, hread, if_neg hzero])

theorem reports_bounded {g : PUnit → Except Fault Config}
    (hm : readVariable lookup .initialWorkers = .ok m)
    (hn : readVariable lookup .maxWorkers = .ok n) (h : Reports lookup ks r) :
    Reports lookup (.bounded :: ks)
      (if n < m then throw (.tooManyWorkers m n) >>= g else r) := by
  split
  · next hlt => exact reports_error (by simp only [Check.fault?, hm, hn, if_pos hlt])
  · next hle => exact h.cons (by simp only [Check.fault?, hm, hn, if_neg hle])

theorem reports_ok (h : Describes lookup c) : Reports lookup [] (.ok c) where
  describes := by
    intro c' hc
    cases hc
    exact h
  error_iff := by simp

theorem reports_load (lookup : String → Option String) : Reports lookup checks (load lookup) := by
  refine reports_legible fun rebalance hrebalance => reports_legible fun reconcile hreconcile =>
    reports_legible fun stop hstop => reports_positive hrebalance (reports_positive hreconcile ?_)
  refine reports_legible fun items hitems => reports_legible fun workers hworkers =>
    reports_legible fun itemGrowth hitemGrowth => reports_legible fun workerGrowth hworkerGrowth =>
    reports_legible fun max hmax => reports_bounded hworkers hmax (reports_ok ?_)
  rw [readVariable_eq_ok_iff] at *
  exact {
    logLevel := rfl
    rebalanceInterval := hrebalance
    reconcileInterval := hreconcile
    stopTimeout := hstop
    initialItems := hitems
    initialWorkers := hworkers
    itemGrowth := by rwa [getD_growthInterval]
    itemGrowth_ne := growthInterval_ne _
    workerGrowth := by rwa [getD_growthInterval]
    workerGrowth_ne := growthInterval_ne _
    maxWorkers := hmax }

/-! ### What is accepted -/

/-- All numbers can be read, the intervals between ticks are positive, and there are not more
workers at first than are allowed. -/
structure Valid (lookup : String → Option String) : Prop where
  legible : ∀ v, ∃ n, Means lookup v n
  rebalance_ne : ¬Means lookup .rebalanceInterval 0
  reconcile_ne : ¬Means lookup .reconcileInterval 0
  bounded : ∀ m n, Means lookup .initialWorkers m → Means lookup .maxWorkers n → m ≤ n

theorem Check.clear_legible_iff : (Check.legible v).Clear lookup ↔ ∃ n, Means lookup v n := by
  constructor
  · intro h
    cases hread : readVariable lookup v with
    | ok n => exact ⟨n, readVariable_eq_ok_iff.1 hread⟩
    | error f => exact absurd (.legible (readVariable_eq_error_iff.1 hread)) (h f)
  · rintro ⟨n, hn⟩ f (⟨hbad⟩ | _ | _)
    rw [← readVariable_eq_error_iff, readVariable_eq_ok_iff.2 hn] at hbad
    cases hbad

theorem Check.clear_positive_iff : (Check.positive v).Clear lookup ↔ ¬Means lookup v 0 := by
  constructor
  · exact fun h hzero => h _ (.positive hzero)
  · rintro h f (_ | ⟨hzero⟩ | _)
    exact h hzero

theorem Check.clear_bounded_iff : Check.bounded.Clear lookup ↔
    ∀ m n, Means lookup .initialWorkers m → Means lookup .maxWorkers n → m ≤ n := by
  constructor
  · exact fun h m n hm hn => Nat.le_of_not_lt fun hlt => h _ (.bounded hm hn hlt)
  · rintro h f (_ | _ | ⟨hm, hn, hlt⟩)
    exact absurd (h _ _ hm hn) (Nat.not_le_of_lt hlt)

theorem valid_iff : Valid lookup ↔ ∀ k ∈ checks, k.Clear lookup := by
  constructor
  · intro h k hk
    cases k with
    | legible v => exact Check.clear_legible_iff.2 (h.legible v)
    | positive v =>
      have hv : v = .rebalanceInterval ∨ v = .reconcileInterval := by simpa [checks] using hk
      obtain rfl | rfl := hv
      · exact Check.clear_positive_iff.2 h.rebalance_ne
      · exact Check.clear_positive_iff.2 h.reconcile_ne
    | bounded => exact Check.clear_bounded_iff.2 h.bounded
  · intro h
    exact {
      legible := fun v => Check.clear_legible_iff.1 (h _ (by cases v <;> simp [checks]))
      rebalance_ne := Check.clear_positive_iff.1 (h _ (by simp [checks]))
      reconcile_ne := Check.clear_positive_iff.1 (h _ (by simp [checks]))
      bounded := Check.clear_bounded_iff.1 (h _ (by simp [checks])) }

/-- The defaults pass all checks. -/
theorem valid_of_absent (h : ∀ v : Variable, lookup v.name = none) : Valid lookup := by
  have hmeans (v : Variable) (n : Nat) : Means lookup v n ↔ n = v.fallback := by
    simp [Means, h v]
  simp only [valid_iff, checks, List.forall_mem_cons, Check.clear_legible_iff,
    Check.clear_positive_iff, Check.clear_bounded_iff, hmeans]
  simp [Variable.fallback]

example : load (fun _ => none) =
    .ok ⟨"info", 1000, 1000, 30, 20, 2, some 1000, some 5000, 8⟩ := by decide +kernel

theorem exists_load_iff : (∃ c, load lookup = .ok c) ↔ Valid lookup := by
  have hclear : Valid lookup ↔ checks.findSome? (Check.fault? lookup) = none := by
    rw [valid_iff, List.findSome?_eq_none_iff]
    simp only [Check.fault?_eq_none_iff]
  rw [hclear]
  cases hload : load lookup with
  | ok c =>
    refine iff_of_true ⟨c, rfl⟩ (Option.eq_none_iff_forall_ne_some.2 fun f hf => ?_)
    rw [← (reports_load lookup).error_iff, hload] at hf
    cases hf
  | error f =>
    refine iff_of_false (by simp) ?_
    rw [((reports_load lookup).error_iff f).1 hload]
    simp

theorem eq_of_getD_eq {a b : Option Nat} (ha : a ≠ some 0) (hb : b ≠ some 0)
    (h : a.getD 0 = b.getD 0) : a = b := by
  cases a <;> cases b <;> simp_all [eq_comm]

theorem Describes.unique {c' : Config} (h : Describes lookup c) (h' : Describes lookup c') :
    c = c' := by
  have hitem := eq_of_getD_eq h.itemGrowth_ne h'.itemGrowth_ne (h.itemGrowth.unique h'.itemGrowth)
  have hworker :=
    eq_of_getD_eq h.workerGrowth_ne h'.workerGrowth_ne (h.workerGrowth.unique h'.workerGrowth)
  cases c
  cases c'
  rw [Config.mk.injEq]
  exact ⟨h.logLevel.trans h'.logLevel.symm, h.rebalanceInterval.unique h'.rebalanceInterval,
    h.reconcileInterval.unique h'.reconcileInterval, h.stopTimeout.unique h'.stopTimeout,
    h.initialItems.unique h'.initialItems, h.initialWorkers.unique h'.initialWorkers, hitem,
    hworker, h.maxWorkers.unique h'.maxWorkers⟩

theorem load_eq_ok_iff : load lookup = .ok c ↔ Valid lookup ∧ Describes lookup c := by
  constructor
  · exact fun h => ⟨exists_load_iff.1 ⟨c, h⟩, (reports_load lookup).describes c h⟩
  · rintro ⟨hvalid, hc⟩
    obtain ⟨c', hload⟩ := exists_load_iff.2 hvalid
    rw [hc.unique ((reports_load lookup).describes c' hload), hload]

theorem load_eq_error_iff : load lookup = .error f ↔ ∃ before k after,
    checks = before ++ k :: after ∧ (∀ j ∈ before, j.Clear lookup) ∧ k.Fails lookup f := by
  rw [(reports_load lookup).error_iff, List.findSome?_eq_some_iff]
  simp only [Check.fault?_eq_some_iff, Check.fault?_eq_none_iff]
  constructor
  · rintro ⟨before, k, after, hchecks, hk, hbefore⟩
    exact ⟨before, k, after, hchecks, hbefore, hk⟩
  · rintro ⟨before, k, after, hchecks, hbefore, hk⟩
    exact ⟨before, k, after, hchecks, hk, hbefore⟩

/-- A configuration is loaded exactly if every variable that is present is a numeral below its limit
between blanks, neither interval between ticks is 0, and the workers at first are not above their
maximum, with the defaults of absent variables; and then each field is as given. Otherwise the
error is the fault that the first failing check finds, and it remains so whatever becomes of the
variables that neither this check nor an earlier one reads. -/
theorem load_reports_first_fault (lookup : String → Option String) :
    ((∃ c, load lookup = .ok c) ↔ Valid lookup) ∧
    (∀ c, load lookup = .ok c ↔ Valid lookup ∧ Describes lookup c) ∧
    ∀ f, load lookup = .error f ↔ ∃ before k after, checks = before ++ k :: after ∧
      (∀ j ∈ before, j.Clear lookup) ∧ k.Fails lookup f ∧
      ∀ lookup', (∀ j ∈ before ++ [k], ∀ v ∈ j.reads, lookup' v.name = lookup v.name) →
        load lookup' = .error f := by
  refine ⟨exists_load_iff, fun c => load_eq_ok_iff, fun f => load_eq_error_iff.trans ?_⟩
  constructor
  · rintro ⟨before, k, after, hchecks, hbefore, hk⟩
    refine ⟨before, k, after, hchecks, hbefore, hk, fun lookup' hsame => ?_⟩
    refine load_eq_error_iff.2 ⟨before, k, after, hchecks, fun j hj g => ?_, ?_⟩
    · rw [Check.fails_congr (hsame j (List.mem_append_left _ hj))]
      exact hbefore j hj g
    · exact (Check.fails_congr (hsame k (by simp))).2 hk
  · rintro ⟨before, k, after, hchecks, hbefore, hk, -⟩
    exact ⟨before, k, after, hchecks, hbefore, hk⟩

/-- Three variables at fault. -/
def crowded (name : String) : Option String :=
  if name = "SUBDIST_RECONCILE_INTERVAL_MS" then some " +00\t"
  else if name = "SUBDIST_INITIAL_ITEMS" then some "4294967296"
  else if name = "SUBDIST_MAX_WORKERS" then some "one" else none

/-- The first of three faults is reported, also once the others are mended. -/
theorem crowded_reports_zero : load crowded = .error (.zero .reconcileInterval) ∧
    ∃ before k after, checks = before ++ k :: after ∧
      (∀ j ∈ before, j.Clear crowded) ∧ k.Fails crowded (.zero .reconcileInterval) ∧
      ∀ lookup', (∀ j ∈ before ++ [k], ∀ v ∈ j.reads, lookup' v.name = crowded v.name) →
        load lookup' = .error (.zero .reconcileInterval) := by
  have hload : load crowded = .error (.zero .reconcileInterval) := by decide +kernel
  obtain ⟨-, -, herror⟩ := load_reports_first_fault crowded
  exact ⟨hload, (herror _).1 hload⟩

end Roster.Config
