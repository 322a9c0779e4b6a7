import Roster.Proofs.Rebalance.Loops
import Roster.Proofs.Renaming.Plans

/-! Other names for items and workers. A plan comes out with the new names in the place of the old
ones as long as the new ones stand in the order of the old; nothing else is read into a name. -/

namespace Roster

open List Ordered

namespace Ordered

variable {α β : Type} {f : α → β} {l k : List α}

/-- An element of `l` and what `f` makes of it. -/
def Renamed (f : α → β) (l : List α) (a : α) (b : β) : Prop := a ∈ l ∧ f a = b

theorem forall₂_renamed (h : k ⊆ l) : Forall₂ (Renamed f l) k (k.map f) :=
  forall₂_map_right_iff.2 (forall₂_same.2 fun _ ha => ⟨h ha, rfl⟩)

theorem map_eq_of_forall₂ {R : α → β → Prop} {k' : List β} (hR : ∀ a b, R a b → f a = b)
    (h : Forall₂ R k k') : k.map f = k' := by
  rw [← forall₂_eq_eq_eq]
  exact forall₂_map_left_iff.2 (h.imp hR)

variable [Ord α] [Ord β]

/-- What `f` makes of the elements of `l` stands in the order of these. -/
def IncreasingOn (f : α → β) (l : List α) : Prop :=
  ∀ a ∈ l, ∀ b ∈ l, compare a b = .lt → compare (f a) (f b) = .lt

instance (f : α → β) (l : List α) : Decidable (IncreasingOn f l) :=
  inferInstanceAs (Decidable (∀ a ∈ l, ∀ b ∈ l, _))

namespace IncreasingOn

theorem mono (h : IncreasingOn f l) (hk : k ⊆ l) : IncreasingOn f k :=
  fun a ha b hb => h a (hk ha) b (hk hb)

theorem strict (h : IncreasingOn f l) (hl : Strict l) : Strict (l.map f) :=
  List.pairwise_map.2 (hl.imp_of_mem fun ha hb hlt => h _ ha _ hb hlt)

theorem faithful [Std.TransOrd α] [Std.LawfulEqOrd α] [Std.TransOrd β] (h : IncreasingOn f l) :
    Faithful (Renamed f l) := by
  rintro a _ ⟨ha, rfl⟩ b _ ⟨hb, rfl⟩
  exact (compare_map (h a ha b hb) (h b hb a ha)).symm

end IncreasingOn

end Ordered

variable {f : ItemId → ItemId} {g : WorkerId → WorkerId}

/-- The table with other names for its workers and items. -/
def Table.rename (f : ItemId → ItemId) (g : WorkerId → WorkerId) (t : Table) : Table :=
  ⟨.ofList (t.entries.map fun e => (g e.1, e.2.map f))⟩

def Membership.rename (f : ItemId → ItemId) (g : WorkerId → WorkerId) (m : Membership) :
    Membership where
  items := m.items.map f
  workers := .ofList (m.workers.toList.map g)

def Move.rename (f : ItemId → ItemId) (g : WorkerId → WorkerId) : Move → Move
  | .addWorker w => .addWorker (g w)
  | .removeWorker w => .removeWorker (g w)
  | .drop i v => .drop (f i) (g v)
  | .assign i w => .assign (f i) (g w)
  | .transfer i v w => .transfer (f i) (g v) (g w)

def Transfer.rename (f : ItemId → ItemId) (g : WorkerId → WorkerId) (t : Transfer) : Transfer :=
  ⟨f t.item, g t.source, g t.target⟩

namespace Plan

def rename (f : ItemId → ItemId) (g : WorkerId → WorkerId) (p : Plan) : Plan where
  removed := p.removed.map g
  added := p.added.map g
  dropped := p.dropped.map (Prod.map f g)
  assigned := p.assigned.map (Prod.map f g)
  shed := p.shed.map (Transfer.rename f g)
  filled := p.filled.map (Transfer.rename f g)
  avg := p.avg

theorem moves_rename (p : Plan) : (p.rename f g).moves = p.moves.map (Move.rename f g) := by
  simp [moves, rename, Function.comp_def, Move.rename, Transfer.move, Transfer.rename]

theorem stats_rename (p : Plan) : (p.rename f g).stats = p.stats := by
  simp [stats, rename]

theorem Related.eq_rename {items : List ItemId} {workers : List WorkerId} {p q : Plan}
    (h : p.Related (Renamed f items) (Renamed g workers) q) : q = p.rename f g := by
  have hworker : ∀ v w, Renamed g workers v w → g v = w := fun _ _ h => h.2
  have hpair : ∀ a b, Both (Renamed f items) (Renamed g workers) a b → Prod.map f g a = b :=
    fun _ _ h => Prod.ext h.fst.2 h.snd.2
  have htransfer : ∀ a b, Transfer.Related (Renamed f items) (Renamed g workers) a b →
      a.rename f g = b := by
    rintro a ⟨i, v, w⟩ h
    simp only [Transfer.rename, h.item.2, h.source.2, h.target.2]
  cases q
  simp only [rename, map_eq_of_forall₂ hworker h.removed, map_eq_of_forall₂ hworker h.added,
    map_eq_of_forall₂ hpair h.dropped, map_eq_of_forall₂ hpair h.assigned,
    map_eq_of_forall₂ htransfer h.shed, map_eq_of_forall₂ htransfer h.filled, h.avg]

end Plan

variable {t : Table} {m : Membership} {items : List ItemId} {workers : List WorkerId}

theorem Table.entries_rename (hg : IncreasingOn g t.workers) :
    (t.rename f g).entries = t.entries.map fun e => (g e.1, e.2.map f) := by
  refine OrderedMap.entries_foldl_insert (m := .empty) ?_
  have hstrict := hg.strict t.owners.strict
  simpa [OrderedMap.empty, Table.workers, OrderedMap.keys, Table.entries, Function.comp_def]
    using hstrict

theorem Table.related_rename (hg : IncreasingOn g workers) (hi : t.listed ⊆ items)
    (hw : t.workers ⊆ workers) :
    t.Related (Renamed f items) (Renamed g workers) (t.rename f g) := by
  rw [Table.Related, entries_rename (hg.mono hw), forall₂_map_right_iff, forall₂_same]
  intro e he
  refine ⟨⟨hw (List.mem_map_of_mem he), rfl⟩, forall₂_renamed ?_⟩
  intro i hie
  exact hi (List.mem_flatMap.2 ⟨e, he, hie⟩)

theorem Membership.toList_rename (hg : IncreasingOn g m.workers.toList) :
    (m.rename f g).workers.toList = m.workers.toList.map g := by
  have hstrict := hg.strict m.workers.strict
  refine (strict_sortOnce _).ascending.eq_of_perm hstrict.ascending ?_
  exact sortOnce_perm hstrict.nodup

theorem Membership.related_rename (hg : IncreasingOn g workers) (hi : m.items ⊆ items)
    (hw : m.workers.toList ⊆ workers) :
    m.Related (Renamed f items) (Renamed g workers) (m.rename f g) where
  items := forall₂_renamed hi
  workers := by
    rw [toList_rename (hg.mono hw)]
    exact forall₂_renamed hw

namespace Planner

theorem planFor_rename (hf : IncreasingOn f (t.listed ++ m.items))
    (hg : IncreasingOn g (t.workers ++ m.workers.toList)) :
    planFor (t.rename f g) (m.rename f g) = (planFor t m).rename f g := by
  have htable := Table.related_rename (f := f) hg (subset_append_left t.listed m.items)
    (subset_append_left t.workers m.workers.toList)
  have hmembers := Membership.related_rename (f := f) hg (subset_append_right t.listed m.items)
    (subset_append_right t.workers m.workers.toList)
  exact (rel_planFor hf.faithful hg.faithful htable hmembers).eq_rename

theorem plan_rename (hf : IncreasingOn f (t.listed ++ m.items))
    (hg : IncreasingOn g (t.workers ++ m.workers.toList)) :
    plan (t.rename f g) (m.rename f g) = (plan t m).map (Plan.rename f g) := by
  have hempty : (m.rename f g).workers.isEmpty = m.workers.isEmpty := by
    rw [OrderedSet.isEmpty, Membership.toList_rename (hg.mono (subset_append_right ..)),
      List.isEmpty_map]
    rfl
  rw [plan, plan, hempty, planFor_rename hf hg]
  split <;> rfl

/-- If items and workers get other names in the order of the old ones, the plan is the old one with
the other names, and there is none if there was none. Only the names that occur are asked about, as
there is no increasing map of all worker identifiers but the one that changes none. -/
theorem rebalance_renamed (hf : IncreasingOn f (t.listed ++ m.items))
    (hg : IncreasingOn g (t.workers ++ m.workers.toList)) :
    (∀ p, plan t m = .ok p → ∃ p', plan (t.rename f g) (m.rename f g) = .ok p' ∧
      p'.moves = p.moves.map (Move.rename f g) ∧ p'.avg = p.avg ∧ p'.stats = p.stats) ∧
    (plan (t.rename f g) (m.rename f g) = .error .noWorkers ↔ plan t m = .error .noWorkers) := by
  rw [plan_rename hf hg]
  cases hp : plan t m with
  | error e => simp [Except.map]
  | ok p =>
    refine ⟨?_, by simp [Except.map]⟩
    intro p₁ hp₁
    obtain rfl := Except.ok.inj hp₁
    exact ⟨p.rename f g, rfl, p.moves_rename, rfl, p.stats_rename⟩

/-- A longer name for an item. -/
def lengthen (i : ItemId) : ItemId := ⟨"x" ++ i.text, by simp⟩

/-- Another number for a worker; it is a greater one unless it is too great. -/
def spreadOut (w : WorkerId) : WorkerId := ⟨w.value * 1000 + 7⟩

theorem jumbled_renamed : IncreasingOn lengthen (jumbled.listed ++ shift.items) ∧
    IncreasingOn spreadOut (jumbled.workers ++ shift.workers.toList) ∧
    ∃ p p', plan jumbled shift = .ok p ∧
      plan (jumbled.rename lengthen spreadOut) (shift.rename lengthen spreadOut) = .ok p' ∧
      p'.moves = p.moves.map (Move.rename lengthen spreadOut) ∧ p'.avg = p.avg ∧
      p'.stats = p.stats ∧ p.moves ≠ [] := by
  have hf : IncreasingOn lengthen (jumbled.listed ++ shift.items) := by decide +kernel
  have hg : IncreasingOn spreadOut (jumbled.workers ++ shift.workers.toList) := by
    decide +kernel
  obtain ⟨hplan, -⟩ := rebalance_renamed hf hg
  have hp : plan jumbled shift = .ok (planFor jumbled shift) := plan_eq (by decide)
  obtain ⟨p', hp', hmoves, havg, hstats⟩ := hplan _ hp
  exact ⟨hf, hg, _, p', hp, hp', hmoves, havg, hstats, by decide +kernel⟩

end Planner

end Roster
