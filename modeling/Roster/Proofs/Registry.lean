import Mathlib.Data.List.Induction
import Roster.Proofs.Ordered
import Roster.Registry

/-! The registry along any sequence of calls. Its two copies of the items stay in step, and the
items stand in the order in which they came in. -/

namespace Roster

/-- Who may be registered. -/
inductive Member where
  | item (i : ItemId)
  | worker (w : WorkerId)
  deriving DecidableEq

def Membership.Lists (s : Membership) : Member → Prop
  | .item i => i ∈ s.items
  | .worker w => w ∈ s.workers

namespace Registry

inductive Request where
  | register (m : Member)
  | deregister (m : Member)
  deriving DecidableEq

def Request.member : Request → Member
  | .register m => m
  | .deregister m => m

def serve (r : Registry) : Request → Bool × Registry
  | .register (.item i) => r.registerItem i
  | .register (.worker w) => r.registerWorker w
  | .deregister (.item i) => r.deregisterItem i
  | .deregister (.worker w) => r.deregisterWorker w

/-- A new registry after a history of requests. -/
def run (h : List Request) : Registry := h.foldl (fun r q => (r.serve q).2) empty

@[simp] theorem run_nil : run [] = empty := rfl

theorem run_concat (h : List Request) (q : Request) : run (h ++ [q]) = ((run h).serve q).2 := by
  rw [run, List.foldl_append]
  rfl

/-! ### One request -/

/-- Who is registered, where the items are looked up in their set. -/
def Holds (r : Registry) : Member → Prop
  | .item i => i ∈ r.known
  | .worker w => w ∈ r.workers

/-- What comes of a request. It is refused, or it brings its member in or takes it out. -/
inductive Serves (r : Registry) : Request → Bool × Registry → Prop
  | present {m : Member} (h : r.Holds m) : Serves r (.register m) (false, r)
  | absent {m : Member} (h : ¬ r.Holds m) : Serves r (.deregister m) (false, r)
  | itemIn {i : ItemId} (h : i ∉ r.known) : Serves r (.register (.item i))
      (true, { r with items := r.items ++ [i], known := r.known.insert i })
  | itemOut {i : ItemId} (h : i ∈ r.known) : Serves r (.deregister (.item i))
      (true, { r with items := r.items.filter (· ≠ i), known := r.known.erase i })
  | workerIn {w : WorkerId} (h : w ∉ r.workers) : Serves r (.register (.worker w))
      (true, { r with workers := r.workers.insert w })
  | workerOut {w : WorkerId} (h : w ∈ r.workers) : Serves r (.deregister (.worker w))
      (true, { r with workers := r.workers.erase w })

variable {r : Registry} {h : List Request} {q : Request} {m : Member} {i j : ItemId}
  {w : WorkerId} {k l : Nat} {p : Bool × Registry}

theorem registerWorker_of_mem (hw : w ∈ r.workers) : (r.registerWorker w).2 = r := by
  rw [registerWorker, OrderedSet.insert_of_mem hw]

theorem deregisterWorker_of_not_mem (hw : w ∉ r.workers) : (r.deregisterWorker w).2 = r := by
  rw [deregisterWorker, OrderedSet.erase_of_not_mem hw]

theorem serves_serve (r : Registry) (q : Request) : Serves r q (r.serve q) := by
  match q with
  | .register (.item i) =>
    rw [serve, registerItem]
    split
    · next hi => exact .present hi
    · next hi => exact .itemIn hi
  | .deregister (.item i) =>
    rw [serve, deregisterItem]
    split
    · next hi => exact .itemOut hi
    · next hi => exact .absent hi
  | .register (.worker w) =>
    by_cases hw : w ∈ r.workers
    · have heq : r.registerWorker w = (false, r) :=
        Prod.ext (decide_eq_false (not_not.2 hw)) (registerWorker_of_mem hw)
      rw [serve, heq]
      exact .present hw
    · rw [serve, registerWorker, decide_eq_true hw]
      exact .workerIn hw
  | .deregister (.worker w) =>
    by_cases hw : w ∈ r.workers
    · rw [serve, deregisterWorker, decide_eq_true hw]
      exact .workerOut hw
    · have heq : r.deregisterWorker w = (false, r) :=
        Prod.ext (decide_eq_false hw) (deregisterWorker_of_not_mem hw)
      rw [serve, heq]
      exact .absent hw

/-- The list of the items and the set of them agree. -/
structure Sound (r : Registry) : Prop where
  nodup : r.items.Nodup
  mem_known : ∀ i, i ∈ r.known ↔ i ∈ r.items

theorem Sound.holds_iff (hr : Sound r) : r.Holds m ↔ r.membership.Lists m := by
  cases m with
  | item i => exact hr.mem_known i
  | worker w => exact .rfl

namespace Serves

theorem eq_of_false (hs : Serves r q p) (hp : p.1 = false) : p.2 = r := by
  cases hs with
  | present | absent => rfl
  | itemIn | itemOut | workerIn | workerOut => cases hp

/-- Items stay where they are or leave, and only a new one comes in, at the end. -/
theorem items_cases (hs : Serves r q p) :
    p.2.items.Sublist r.items ∨
      ∃ i, q = .register (.item i) ∧ i ∉ r.known ∧ p.2.items = r.items ++ [i] := by
  cases hs with
  | present | absent | workerIn | workerOut => exact .inl (List.Sublist.refl _)
  | itemIn hi => exact .inr ⟨_, rfl, hi, rfl⟩
  | itemOut => exact .inl List.filter_sublist

theorem sound (hs : Serves r q p) (hr : Sound r) : Sound p.2 := by
  cases hs with
  | present | absent => exact hr
  | workerIn | workerOut => exact ⟨hr.nodup, hr.mem_known⟩
  | @itemIn i hi =>
    have hnew : i ∉ r.items := fun hm => hi ((hr.mem_known i).2 hm)
    refine ⟨List.nodup_append.2 ⟨hr.nodup, List.pairwise_singleton _ i, ?_⟩, fun j => ?_⟩
    · rintro j hj _ hmem rfl
      exact hnew (List.mem_singleton.1 hmem ▸ hj)
    · rw [OrderedSet.mem_insert, hr.mem_known, List.mem_append, List.mem_singleton, or_comm]
  | itemOut hi =>
    refine ⟨hr.nodup.filter _, fun j => ?_⟩
    rw [OrderedSet.mem_erase, hr.mem_known, List.mem_filter, decide_eq_true_iff]

/-- A request settles whether its member is listed, and leaves the others alone. -/
theorem lists_iff (hs : Serves r q p) (hr : Sound r) :
    p.2.membership.Lists m ↔ q = .register m ∨ r.membership.Lists m ∧ q ≠ .deregister m := by
  cases hs with
  | present hin =>
    refine ⟨fun hm => .inr ⟨hm, by simp⟩, fun hm => hm.elim ?_ And.left⟩
    rintro ⟨⟩
    exact hr.holds_iff.1 hin
  | absent hout =>
    refine ⟨fun hm => .inr ⟨hm, ?_⟩, fun hm => hm.elim (by simp) And.left⟩
    rintro ⟨⟩
    exact hout (hr.holds_iff.2 hm)
  | @itemIn i => cases m <;> simp [membership, Membership.Lists, or_comm, @eq_comm _ i]
  | @itemOut i => cases m <;> simp [membership, Membership.Lists, @eq_comm _ i]
  | @workerIn w => cases m <;> simp [membership, Membership.Lists, @eq_comm _ w]
  | @workerOut w => cases m <;> simp [membership, Membership.Lists, @eq_comm _ w]

/-- The answer says whether the membership changes. -/
theorem changes_iff (hs : Serves r q p) (hr : Sound r) :
    p.1 = true ↔ ∃ m, ¬ (p.2.membership.Lists m ↔ r.membership.Lists m) := by
  constructor
  · intro hp
    refine ⟨q.member, ?_⟩
    rw [hs.lists_iff hr, ← hr.holds_iff]
    cases hs with
    | present | absent => cases hp
    | itemIn hm | itemOut hm | workerIn hm | workerOut hm => simp [Request.member, Holds, hm]
  · rintro ⟨m, hm⟩
    cases hp : p.1 with
    | true => rfl
    | false =>
      rw [hs.eq_of_false hp] at hm
      exact absurd .rfl hm

end Serves

theorem registerItem_iff : (r.registerItem i).1 = true ↔ i ∉ r.known := by
  rw [registerItem]
  split <;> simp_all

/-! ### A history of requests -/

theorem sound_run (h : List Request) : Sound (run h) := by
  induction h using List.reverseRecOn with
  | nil => exact ⟨List.nodup_nil, fun _ => .rfl⟩
  | append_singleton h q ih =>
    rw [run_concat]
    exact (serves_serve _ q).sound ih

/-- A member is listed if the last request about it was to register it. -/
theorem lists_run_iff :
    (run h).membership.Lists m ↔
      (h.filter (·.member = m)).getLast? = some (.register m) := by
  induction h using List.reverseRecOn with
  | nil => cases m <;> simp [empty, membership, Membership.Lists]
  | append_singleton h q ih =>
    rw [run_concat, (serves_serve _ q).lists_iff (sound_run h), ih, List.filter_append]
    by_cases hq : q.member = m
    · cases q <;> simp_all [Request.member]
    · rw [List.filter_cons_of_neg (by simpa using hq), List.filter_nil, List.append_nil]
      refine ⟨fun hm => hm.elim ?_ And.left, fun hm => .inr ⟨hm, ?_⟩⟩
      · rintro rfl
        exact absurd rfl hq
      · rintro rfl
        exact hq rfl

/-- Request `k` of a history brings an item in. -/
def Enters (h : List Request) (i : ItemId) (k : Nat) : Prop :=
  h[k]? = some (.register (.item i)) ∧ ((run (h.take k)).registerItem i).1 = true

/-- Request `k` of a history is the last that brought an item in. -/
def Latest (h : List Request) (i : ItemId) (k : Nat) : Prop :=
  Enters h i k ∧ ∀ l, Enters h i l → l ≤ k

theorem Enters.lt (he : Enters h i k) : k < h.length :=
  (List.getElem?_eq_some_iff.1 he.1).1

theorem Enters.le_of_concat (he : Enters (h ++ [q]) i k) : k ≤ h.length := by
  have hlt := he.lt
  rw [List.length_append, List.length_singleton] at hlt
  exact Nat.le_of_lt_succ hlt

/-- A further request can only bring in an item that is not there yet. -/
theorem enters_concat_iff :
    Enters (h ++ [q]) i k ↔
      Enters h i k ∨ k = h.length ∧ q = .register (.item i) ∧ i ∉ (run h).items := by
  have hnew : ((run h).registerItem i).1 = true ↔ i ∉ (run h).items := by
    rw [registerItem_iff, (sound_run h).mem_known]
  rcases Nat.lt_trichotomy k h.length with hk | rfl | hk
  · rw [Enters, List.getElem?_append_left hk, List.take_append_of_le_length (Nat.le_of_lt hk)]
    exact ⟨.inl, fun he => he.elim id fun hend => absurd hend.1 (Nat.ne_of_lt hk)⟩
  · have hout : ¬ Enters h i h.length := fun he => Nat.lt_irrefl _ he.lt
    rw [Enters, List.getElem?_concat_length, List.take_left, Option.some_inj, hnew]
    exact ⟨fun hend => .inr ⟨rfl, hend⟩, fun he => he.elim (absurd · hout) And.right⟩
  · have hout : ¬ Enters h i k := fun he => Nat.lt_asymm hk he.lt
    have hout' : ¬ Enters (h ++ [q]) i k := fun he => Nat.not_lt_of_le he.le_of_concat hk
    exact ⟨(absurd · hout'), fun he => he.elim (absurd · hout) fun hend =>
      absurd hend.1 (Nat.ne_of_gt hk)⟩

theorem latest_concat_iff_of_mem (hi : i ∈ (run h).items) :
    Latest (h ++ [q]) i k ↔ Latest h i k := by
  have hsame : ∀ l, Enters (h ++ [q]) i l ↔ Enters h i l := fun l =>
    enters_concat_iff.trans ⟨fun he => he.elim id fun hend => absurd hi hend.2.2, .inl⟩
  simp only [Latest, hsame]

theorem latest_concat_of_not_mem (hi : i ∉ (run h).items) :
    Latest (h ++ [.register (.item i)]) i h.length :=
  ⟨enters_concat_iff.2 (.inr ⟨rfl, rfl, hi⟩), fun _ hl => hl.le_of_concat⟩

theorem Latest.unique (hk : Latest h i k) (hl : Latest h i l) : k = l :=
  Nat.le_antisymm (hl.2 k hk.1) (hk.2 l hl.1)

/-- Of two items the one in front came in before the other, each at the last time it did. -/
def InOrder (h : List Request) (is : List ItemId) : Prop :=
  is.Pairwise fun i j => ∀ k l, Latest h i k → Latest h j l → k < l

theorem exists_latest (hi : i ∈ (run h).items) : ∃ k, Latest h i k := by
  induction h using List.reverseRecOn with
  | nil => cases hi
  | append_singleton h q ih =>
    by_cases hold : i ∈ (run h).items
    · obtain ⟨k, hk⟩ := ih hold
      exact ⟨k, (latest_concat_iff_of_mem hold).2 hk⟩
    · have hq : q = .register (.item i) := by
        rw [run_concat] at hi
        have hlists := (serves_serve _ q).lists_iff (m := .item i) (sound_run h)
        exact (hlists.1 hi).resolve_right fun hm => hold hm.1
      exact ⟨h.length, hq ▸ latest_concat_of_not_mem hold⟩

theorem inOrder_run (h : List Request) : InOrder h (run h).items := by
  induction h using List.reverseRecOn with
  | nil => exact .nil
  | append_singleton h q ih =>
    have hold : InOrder (h ++ [q]) (run h).items := by
      refine List.Pairwise.imp_of_mem (fun hi hj hij k l => ?_) ih
      rw [latest_concat_iff_of_mem hi, latest_concat_iff_of_mem hj]
      exact hij k l
    rw [run_concat]
    rcases (serves_serve (run h) q).items_cases with hsub | ⟨j, rfl, hj, heq⟩
    · exact List.Pairwise.sublist hsub hold
    · have hj : j ∉ (run h).items := fun hm => hj (((sound_run h).mem_known j).2 hm)
      rw [heq]
      refine List.pairwise_append.2 ⟨hold, List.pairwise_singleton _ j, ?_⟩
      intro i hi _ hmem k l hk hl
      obtain rfl := List.mem_singleton.1 hmem
      -- an item that was there came in before the history ended, and the new one at its end
      have hk := ((latest_concat_iff_of_mem hi).1 hk).1.lt
      rwa [hl.unique (latest_concat_of_not_mem hj)]

/-- Whatever has been asked of a registry, its two copies of the items agree and hold no item twice.
It answers the next request with whether that changes who is listed, and is the same registry if
not. Listed is who was to be registered in the last request about it, and items are listed in the
order in which they last came in, so that one that comes in again goes to the end. -/
theorem stays_in_order (h : List Request) :
    ((run h).items.Nodup ∧ ∀ i, i ∈ (run h).items ↔ i ∈ (run h).known) ∧
    (∀ q, (((run h).serve q).1 = true ↔
        ∃ m, ¬ ((run (h ++ [q])).membership.Lists m ↔ (run h).membership.Lists m)) ∧
      (((run h).serve q).1 = false → run (h ++ [q]) = run h)) ∧
    (∀ m, (run h).membership.Lists m ↔
      (h.filter (·.member = m)).getLast? = some (.register m)) ∧
    (∀ i ∈ (run h).membership.items, ∃ k, Latest h i k) ∧
    InOrder h (run h).membership.items ∧
    ∀ i, ((run h).serve (.register (.item i))).1 = true →
      (run (h ++ [.register (.item i)])).membership.items = (run h).membership.items ++ [i] := by
  have hr := sound_run h
  refine ⟨⟨hr.nodup, fun i => (hr.mem_known i).symm⟩, fun q => ?_, fun m => lists_run_iff,
    fun i hi => exists_latest hi, inOrder_run h, fun i hi => ?_⟩
  · have hq := serves_serve (run h) q
    rw [run_concat]
    exact ⟨hq.changes_iff hr, hq.eq_of_false⟩
  · rw [run_concat, serve, registerItem, if_neg (registerItem_iff.1 hi)]
    rfl

example :
    let yb : ItemId := ⟨"yb", by decide⟩
    let ya : ItemId := ⟨"ya", by decide⟩
    let yc : ItemId := ⟨"yc", by decide⟩
    (run [.register (.item yb), .register (.item ya), .register (.item yc),
      .deregister (.item yb), .register (.item ya), .register (.item yb)]).items =
      [ya, yc, yb] := by
  decide

end Registry

end Roster
