import Mathlib.Data.List.Infix
import Roster.Proofs.Cluster
import Roster.Proofs.Table.Framing

/-! What the ticks of a run write about the table. A rebalancer keeps the digest of the table that
it described last, so a tick describes a table if it ends well and the table has changed since, and
says nothing about it otherwise. -/

namespace Roster

namespace Log.Event

/-- Says what a worker owns, or what the whole table is. -/
def isAboutTable : Event → Bool
  | .workerAssignment .. | .assignmentTable .. => true
  | _ => false

/-- The table that is given as a whole. -/
def table? : Event → Option Table
  | .assignmentTable t => some t
  | _ => none

end Log.Event

/-- The table that was described last. -/
def Log.lastTable (log : List Event) : Option Table := log.reverse.findSome? (·.table?)

namespace Log

theorem lastTable_append (log log' : List Event) :
    lastTable (log ++ log') = (lastTable log').or (lastTable log) := by
  simp [lastTable, List.findSome?_append]

end Log

theorem Table.eq_of_digest_eq {t u : Table} (ht : t.Legible) (hu : u.Legible)
    (hhash : t.digest = u.digest → t.frame = u.frame) (h : t.digest = u.digest) : t = u :=
  texts_injective (Digest.eq_of_frame_eq ht.texts hu.texts (hhash h))

namespace Rebalancer

/-! ### What one tick writes -/

@[simp] theorem filter_summary (p : Plan) : (summary p).filter (·.isAboutTable) = [] := by
  unfold summary
  split <;> rfl

@[simp] theorem lastTable_summary (p : Plan) : Log.lastTable (summary p) = none := by
  unfold summary
  split <;> rfl

@[simp] theorem filter_describe (t : Table) :
    (describe t).filter (·.isAboutTable) = describe t := by
  simp [describe, List.filter_map, Function.comp_def, Log.Event.isAboutTable]

@[simp] theorem lastTable_describe (t : Table) : Log.lastTable (describe t) = some t := by
  simp [describe, Log.lastTable, Log.Event.table?]

/-- How a tick may end, and what it then writes and remembers. -/
inductive Ends (r : Rebalancer) : Tick → Prop
  | failed (e : Error) (b : Backend) {log : List Log.Event}
      (h : log = [] ∨ ∃ p, log = summary p) : Ends r ⟨.error e, r, b, log⟩
  | same (p : Plan) (b : Backend) (h : r.lastDigest = some b.table.digest) :
      Ends r ⟨.ok p.stats, r, b, summary p⟩
  | changed (p : Plan) (b : Backend) (h : r.lastDigest ≠ some b.table.digest) :
      Ends r ⟨.ok p.stats, ⟨some b.table.digest⟩, b, summary p ++ describe b.table⟩

theorem ends_tick (r : Rebalancer) (b : Backend) : Ends r (r.tick b) := by
  unfold tick
  split
  · next e b' _ => exact .failed e b' (.inl rfl)
  · next p b' _ =>
    obtain ⟨o, hs | ⟨e, hs⟩⟩ := b'.snapshot_cases
    · rw [hs]
      dsimp only
      split
      · next h => exact .same p { b' with outages := o } h
      · next h => exact .changed p { b' with outages := o } h
    · rw [hs]
      exact .failed e _ (.inr ⟨p, rfl⟩)

/-- A tick describes no table and remembers what it did, or describes the table that there is now
and remembers its digest. -/
theorem tick_remembers (r : Rebalancer) (b : Backend) :
    (r.tick b).rebalancer = r ∧ Log.lastTable (r.tick b).log = none ∨
      (r.tick b).rebalancer.lastDigest = some (r.tick b).backend.table.digest ∧
        Log.lastTable (r.tick b).log = some (r.tick b).backend.table := by
  have hends := ends_tick r b
  generalize r.tick b = k at hends ⊢
  cases hends with
  | failed e b hlog =>
    refine .inl ⟨rfl, ?_⟩
    rcases hlog with rfl | ⟨p, rfl⟩
    · rfl
    · exact lastTable_summary p
  | same p b hd => exact .inl ⟨rfl, lastTable_summary p⟩
  | changed p b hd => exact .inr ⟨rfl, by simp [Log.lastTable_append]⟩

/-- The tick has ended well, and the table is not the one that was described last. -/
def Tick.HasNews (k : Tick) (log : List Log.Event) : Prop :=
  k.result.isOk = true ∧ Log.lastTable log ≠ some k.backend.table

instance (k : Tick) (log : List Log.Event) : Decidable (k.HasNews log) :=
  inferInstanceAs (Decidable (_ ∧ _))

theorem Tick.not_hasNews {k : Tick} {log : List Log.Event} {e : Error} (h : k.result = .error e) :
    ¬ k.HasNews log := by
  simp [HasNews, h, Except.isOk, Except.toBool]

end Rebalancer

namespace Cluster

variable {c : Cluster} {acts : List Act} {a : Act} {t : Table}

/-! ### What a run writes -/

/-- What is logged while something happens. -/
def logged (c : Cluster) : Act → List Log.Event
  | .rebalance => c.rebalance.2.1
  | _ => []

/-- All that the ticks of a run log. -/
def journal (c : Cluster) : List Act → List Log.Event
  | [] => []
  | a :: as => c.logged a ++ (c.act a).journal as

/-- The tables that a run comes through, from one act to the next. -/
def tables (c : Cluster) : List Act → List Table
  | [] => [c.backend.table]
  | a :: as => c.backend.table :: (c.act a).tables as

theorem run_concat (c : Cluster) (acts : List Act) (a : Act) :
    c.run (acts ++ [a]) = (c.run acts).act a := List.foldl_append

theorem journal_concat (c : Cluster) (acts : List Act) (a : Act) :
    c.journal (acts ++ [a]) = c.journal acts ++ (c.run acts).logged a := by
  induction acts generalizing c with
  | nil => simp [journal, run]
  | cons b as ih => simp [journal, ih, run, List.append_assoc]

theorem tables_concat (c : Cluster) (acts : List Act) (a : Act) :
    c.tables (acts ++ [a]) = c.tables acts ++ [((c.run acts).act a).backend.table] := by
  induction acts generalizing c with
  | nil => rfl
  | cons b as ih => simp [tables, ih, run]

/-- Only a tick describes a table, and it then remembers its digest. -/
theorem act_remembers (c : Cluster) (hone : ∀ r, a ≠ .takeOver r) :
    (c.act a).rebalancer = c.rebalancer ∧ Log.lastTable (c.logged a) = none ∨
      (c.act a).rebalancer.lastDigest = some (c.act a).backend.table.digest ∧
        Log.lastTable (c.logged a) = some (c.act a).backend.table := by
  cases a with
  | rebalance => exact Rebalancer.tick_remembers c.rebalancer c.backend
  | takeOver r => exact absurd rfl (hone r)
  | _ => exact .inl ⟨rfl, rfl⟩

/-- The rebalancer remembers the digest of the table that it described last. -/
structure Recalls (c : Cluster) (acts : List Act) : Prop where
  digest : (c.run acts).rebalancer.lastDigest =
    (Log.lastTable (c.journal acts)).map Table.digest
  mem : ∀ t, Log.lastTable (c.journal acts) = some t → t ∈ c.tables acts

theorem Recalls.concat (h : Recalls c acts) (hone : ∀ r, a ≠ .takeOver r) :
    Recalls c (acts ++ [a]) := by
  have hjournal : Log.lastTable (c.journal (acts ++ [a])) =
      (Log.lastTable ((c.run acts).logged a)).or (Log.lastTable (c.journal acts)) := by
    rw [journal_concat, Log.lastTable_append]
  rcases (c.run acts).act_remembers hone with ⟨hsame, hnone⟩ | ⟨hdigest, hlast⟩
  · rw [hnone, Option.none_or] at hjournal
    refine ⟨?_, fun t ht => ?_⟩
    · rw [run_concat, hsame, hjournal, h.digest]
    · rw [tables_concat]
      exact List.mem_append_left _ (h.mem t (hjournal ▸ ht))
  · rw [hlast, Option.some_or] at hjournal
    refine ⟨?_, fun t ht => ?_⟩
    · rw [run_concat, hdigest, hjournal, Option.map_some]
    · obtain rfl := Option.some.inj (hjournal.symm.trans ht)
      simp [tables_concat]

theorem recalls (hfresh : c.rebalancer = .fresh) (hone : ∀ r, .takeOver r ∉ acts) :
    Recalls c acts := by
  induction acts using List.reverseRecOn with
  | nil =>
    refine ⟨?_, fun t ht => nomatch ht⟩
    rw [run, List.foldl_nil, hfresh]
    rfl
  | append_singleton as a ih =>
    refine (ih fun r hr => hone r (List.mem_append_left _ hr)).concat fun r hr => ?_
    exact hone r (List.mem_append_right _ (by simp [hr]))

/-- Where digests tell tables apart, the one remembered is that of `t` just where `t` is the table
described last. -/
theorem Recalls.lastDigest_eq_iff (h : Recalls c acts) (ht : t.Legible)
    (hlegible : ∀ u ∈ c.tables acts, u.Legible)
    (hhash : ∀ u ∈ c.tables acts, u.digest = t.digest → u.frame = t.frame) :
    (c.run acts).rebalancer.lastDigest = some t.digest ↔
      Log.lastTable (c.journal acts) = some t := by
  rw [h.digest, Option.map_eq_some_iff]
  constructor
  · rintro ⟨u, hu, hd⟩
    have hmem := h.mem u hu
    rw [hu, Table.eq_of_digest_eq (hlegible u hmem) ht (hhash u hmem) hd]
  · intro hu
    exact ⟨t, hu, rfl⟩

/-- A tick writes about the table if and only if it ends well and the table is another than the one
described last. It then writes one line for each worker, ascending, and one for the whole table, and
that is when it remembers another digest. -/
theorem tick_describes_changes {k : Rebalancer.Tick} (hfresh : c.rebalancer = .fresh)
    (hone : ∀ r, .takeOver r ∉ acts)
    (hlegible : ∀ t ∈ c.tables (acts ++ [.rebalance]), t.Legible)
    (hhash : ∀ t ∈ c.tables (acts ++ [.rebalance]), ∀ u ∈ c.tables (acts ++ [.rebalance]),
      t.digest = u.digest → t.frame = u.frame)
    (hk : (c.run acts).rebalancer.tick (c.run acts).backend = k) :
    k.log.filter (·.isAboutTable) =
      (if k.HasNews (c.journal acts) then
        k.backend.table.workers.map
          (fun w => .workerAssignment w (k.backend.table.itemsFor w)) ++
            [.assignmentTable k.backend.table]
      else []) ∧
    Ordered.Strict k.backend.table.workers ∧
    k.rebalancer.lastDigest =
      if k.HasNews (c.journal acts) then some k.backend.table.digest
      else (c.run acts).rebalancer.lastDigest := by
  have htables : c.tables (acts ++ [.rebalance]) = c.tables acts ++ [k.backend.table] := by
    rw [tables_concat, ← hk]
    rfl
  rw [htables] at hlegible hhash
  have hnow : k.backend.table ∈ c.tables acts ++ [k.backend.table] := by simp
  have hsame := (recalls hfresh hone).lastDigest_eq_iff (hlegible _ hnow)
    (fun u hu => hlegible u (List.mem_append_left _ hu))
    fun u hu => hhash u (List.mem_append_left _ hu) _ hnow
  have hends := Rebalancer.ends_tick (c.run acts).rebalancer (c.run acts).backend
  rw [hk] at hends
  cases hends with
  | failed e b hlog =>
    rw [if_neg (Rebalancer.Tick.not_hasNews rfl), if_neg (Rebalancer.Tick.not_hasNews rfl)]
    refine ⟨?_, b.table.owners.strict, rfl⟩
    rcases hlog with rfl | ⟨p, rfl⟩
    · rfl
    · exact Rebalancer.filter_summary p
  | same p b hd =>
    have hnews : ¬ Rebalancer.Tick.HasNews _ (c.journal acts) := fun h => h.2 (hsame.1 hd)
    rw [if_neg hnews, if_neg hnews]
    exact ⟨Rebalancer.filter_summary p, b.table.owners.strict, rfl⟩
  | changed p b hd =>
    have hnews : Rebalancer.Tick.HasNews _ (c.journal acts) := ⟨rfl, mt hsame.2 hd⟩
    rw [if_pos hnews, if_pos hnews]
    refine ⟨?_, b.table.owners.strict, rfl⟩
    rw [List.filter_append, Rebalancer.filter_summary, Rebalancer.filter_describe,
      List.nil_append, Rebalancer.describe, Table.entries_eq, List.map_map]
    rfl

/-- The second tick brings the new item to its worker, but cannot read the table any more. -/
def unread : List Act :=
  [.registerWorker ⟨1⟩, .registerItem ⟨"i", by decide⟩, .rebalance,
    .registerItem ⟨"y", by decide⟩,
    .outages [(.snapshot, [⟨1, none⟩, ⟨1, some .noWorkers⟩])], .rebalance]

def reread : Rebalancer.Tick :=
  ((ofTable .empty).run unread).rebalancer.tick ((ofTable .empty).run unread).backend

/-- The tables of that run. -/
def stages : List Table :=
  [.empty, Table.empty.withWorker ⟨1⟩ [⟨"i", by decide⟩],
    Table.empty.withWorker ⟨1⟩ [⟨"i", by decide⟩, ⟨"y", by decide⟩]]

theorem unread_describes_changes :
    ((∀ r, Act.takeOver r ∉ unread) ∧
      (∀ t ∈ (ofTable .empty).tables (unread ++ [.rebalance]), t.Legible) ∧
      ∀ t ∈ (ofTable .empty).tables (unread ++ [.rebalance]),
        ∀ u ∈ (ofTable .empty).tables (unread ++ [.rebalance]),
          t.digest = u.digest → t.frame = u.frame) ∧
    reread.HasNews ((ofTable .empty).journal unread) ∧
    reread.log.filter (·.isAboutTable) =
      [.workerAssignment ⟨1⟩ [⟨"i", by decide⟩, ⟨"y", by decide⟩],
        .assignmentTable reread.backend.table] ∧
    reread.rebalancer.lastDigest = some reread.backend.table.digest := by
  have hone : ∀ r, Act.takeOver r ∉ unread := by simp [unread]
  have hstages : ∀ t ∈ (ofTable .empty).tables (unread ++ [.rebalance]), t ∈ stages := by
    decide +kernel
  have hlegible : ∀ t ∈ stages, t.Legible := by decide +kernel
  have hhash : ∀ t ∈ stages, ∀ u ∈ stages, t.digest = u.digest → t.frame = u.frame := by
    decide +kernel
  have hnews : reread.HasNews ((ofTable .empty).journal unread) := by decide +kernel
  have hwriting : reread.backend.table.workers.map
      (fun w => Log.Event.workerAssignment w (reread.backend.table.itemsFor w)) =
        [.workerAssignment ⟨1⟩ [⟨"i", by decide⟩, ⟨"y", by decide⟩]] := by decide +kernel
  obtain ⟨hlog, -, hdigest⟩ := tick_describes_changes (c := ofTable .empty) (k := reread) rfl hone
    (fun t ht => hlegible t (hstages t ht))
    (fun t ht u hu => hhash t (hstages t ht) u (hstages u hu)) rfl
  rw [if_pos hnews, hwriting] at hlog
  rw [if_pos hnews] at hdigest
  exact ⟨⟨hone, fun t ht => hlegible t (hstages t ht),
    fun t ht u hu => hhash t (hstages t ht) u (hstages u hu)⟩, hnews, hlog, hdigest⟩

end Cluster

end Roster
