import Roster.Proofs.Load.Queue

/-! A queue against loads in no order, of which the lightest and the heaviest are looked for anew at
every call and then changed where they stand. As long as no worker has two loads, the queue answers
the same and holds the same. -/

namespace Roster

namespace Load

variable {cmp : Load → Load → Ordering} {l m : Load} {ls rest : List Load} {f : Load → Load}

/-- The load that comes first under `cmp`, found by looking at each. -/
def scan (cmp : Load → Load → Ordering) : List Load → Option Load
  | [] => none
  | l :: ls => match scan cmp ls with
    | some m => if cmp m l = .lt then some m else some l
    | none => some l

/-- Changes one load and leaves it in its place. -/
def change (l : Load) (f : Load → Load) (ls : List Load) : List Load :=
  ls.map fun k => if k = l then f k else k

theorem scan_eq_none_iff : scan cmp ls = none ↔ ls = [] := by
  cases ls with
  | nil => exact iff_of_true rfl rfl
  | cons l ls =>
    refine iff_of_false ?_ (List.cons_ne_nil l ls)
    rw [scan]
    split
    · split <;> simp
    · simp

theorem scan_le [Std.TransCmp cmp] (h : scan cmp ls = some m) :
    m ∈ ls ∧ ∀ l ∈ ls, (cmp m l).isLE := by
  induction ls generalizing m with
  | nil => cases h
  | cons l ls ih =>
    have hself : (cmp l l).isLE := Std.ReflCmp.isLE_rfl
    rw [scan] at h
    split at h
    · next k hk =>
      obtain ⟨hmem, hle⟩ := ih hk
      split at h
      · next hlt =>
        cases h
        exact ⟨List.mem_cons_of_mem l hmem, List.forall_mem_cons.2 ⟨by rw [hlt]; rfl, hle⟩⟩
      · next hge =>
        cases h
        have hlk : (cmp l k).isLE := by
          rw [Ordering.isLE_iff_ne_gt]
          exact mt Std.OrientedCmp.gt_iff_lt.1 hge
        exact ⟨List.mem_cons_self, List.forall_mem_cons.2
          ⟨hself, fun j hj => Std.TransCmp.isLE_trans hlk (hle j hj)⟩⟩
    · next hnone =>
      cases h
      rw [scan_eq_none_iff] at hnone
      subst hnone
      exact ⟨List.mem_cons_self, List.forall_mem_singleton.2 hself⟩

/-- Who comes first of all is found, in whatever order the loads are. -/
theorem scan_eq_some [Std.TransCmp cmp] [Std.LawfulEqCmp cmp] (hl : l ∈ ls)
    (h : ∀ k ∈ ls, (cmp l k).isLE) : scan cmp ls = some l := by
  cases hscan : scan cmp ls with
  | none =>
    rw [scan_eq_none_iff] at hscan
    simp [hscan] at hl
  | some m =>
    obtain ⟨hm, hle⟩ := scan_le hscan
    rw [Std.LawfulEqCmp.eq_of_compare (Std.OrientedCmp.isLE_antisymm (h m hm) (hle l hl))]

theorem change_perm (h : ls.Perm (l :: rest)) (hl : l ∉ rest) :
    (change l f ls).Perm (f l :: rest) := by
  have hrest : rest.map (fun k => if k = l then f k else k) = rest.map fun k => k := by
    refine List.map_congr_left fun k hk => if_neg ?_
    rintro rfl
    exact hl hk
  have hmap := h.map fun k => if k = l then f k else k
  rwa [List.map_cons, if_pos rfl, hrest, List.map_id'] at hmap

theorem not_mem_of_worker (h : l.worker ∉ ls.map (·.worker)) : l ∉ ls :=
  mt (List.mem_map_of_mem (f := (·.worker))) h

end Load

/-- Loads in no order. -/
structure LoadPile where
  loads : List Load
  deriving DecidableEq

namespace LoadPile

def lightest (p : LoadPile) : Option Load := Load.scan compare p.loads

def heaviest (p : LoadPile) : Option Load := Load.scan (fun a b => compare b a) p.loads

def change (p : LoadPile) (l : Load) (f : Load → Load) : LoadPile := ⟨Load.change l f p.loads⟩

def assign (p : LoadPile) (i : ItemId) : Option (WorkerId × LoadPile) :=
  p.lightest.map fun light => (light.worker, p.change light (·.insert i))

def transferLast (p : LoadPile) : Option (Transfer × LoadPile) :=
  match p.lightest, p.heaviest with
  | some light, some heavy =>
    if light.size + 1 < heavy.size then
      heavy.items.getLast?.map fun i =>
        (⟨i, heavy.worker, light.worker⟩, (p.change heavy .dropLast).change light (·.insert i))
    else none
  | _, _ => none

end LoadPile

/-! ### Calls -/

inductive LoadRequest where
  | assign (i : ItemId)
  | transferLast
  deriving DecidableEq, Repr

inductive LoadAnswer where
  | assigned (w : Option WorkerId)
  | transferred (t : Option Transfer)
  deriving DecidableEq, Repr

namespace LoadRequest

variable {σ : Type}

/-- What refuses a request stays as it is. -/
def serve (assign : σ → ItemId → Option (WorkerId × σ)) (transferLast : σ → Option (Transfer × σ))
    (s : σ) : LoadRequest → LoadAnswer × σ
  | .assign i => match assign s i with
    | some (w, s') => (.assigned (some w), s')
    | none => (.assigned none, s)
  | .transferLast => match transferLast s with
    | some (t, s') => (.transferred (some t), s')
    | none => (.transferred none, s)

/-- One request after another, with their answers. -/
def serveAll (serve : σ → LoadRequest → LoadAnswer × σ) (s : σ) :
    List LoadRequest → List LoadAnswer × σ
  | [] => ([], s)
  | r :: rs =>
    let (a, s) := serve s r
    let (as, s) := serveAll serve s rs
    (a :: as, s)

end LoadRequest

def LoadQueue.serve : LoadQueue → LoadRequest → LoadAnswer × LoadQueue :=
  LoadRequest.serve assign transferLast

def LoadPile.serve : LoadPile → LoadRequest → LoadAnswer × LoadPile :=
  LoadRequest.serve assign transferLast

/-- The pile holds the loads of the queue, and no worker has two of them. -/
structure LoadPile.Mirrors (p : LoadPile) (q : LoadQueue) : Prop where
  perm : q.toList.Perm p.loads
  workers : (q.toList.map (·.worker)).Nodup

namespace LoadPile.Mirrors

variable {p : LoadPile} {q : LoadQueue}

theorem lightest_eq (h : p.Mirrors q) : p.lightest = q.lightest := by
  cases hq : q.lightest with
  | none =>
    have hnil : q.toList = [] := LoadQueue.lightest_eq_none_iff.1 hq
    exact Load.scan_eq_none_iff.2 ((hnil ▸ h.perm).nil_eq).symm
  | some light =>
    refine Load.scan_eq_some (h.perm.mem_iff.1 (LoadQueue.mem_of_lightest hq)) fun k hk => ?_
    rw [Ordering.isLE_iff_ne_gt]
    exact OrderedSet.first?_le hq (h.perm.mem_iff.2 hk)

theorem heaviest_eq (h : p.Mirrors q) : p.heaviest = q.heaviest := by
  cases hq : q.heaviest with
  | none =>
    have hnil : q.toList = [] := LoadQueue.heaviest_eq_none_iff.1 hq
    exact Load.scan_eq_none_iff.2 ((hnil ▸ h.perm).nil_eq).symm
  | some heavy =>
    refine Load.scan_eq_some (h.perm.mem_iff.1 (LoadQueue.mem_of_heaviest hq)) fun k hk => ?_
    rw [Ordering.isLE_iff_ne_gt]
    exact OrderedSet.le_last? hq (h.perm.mem_iff.2 hk)

theorem assign_eq_none (h : p.Mirrors q) {i : ItemId} (hq : q.assign i = none) :
    p.assign i = none := by
  unfold LoadQueue.assign at hq
  split at hq
  · next hl => rw [LoadPile.assign, h.lightest_eq, hl, Option.map_none]
  · cases hq

theorem assign (h : p.Mirrors q) {i : ItemId} {w : WorkerId} {q' : LoadQueue}
    (hq : q.assign i = some (w, q')) : ∃ p', p.assign i = some (w, p') ∧ p'.Mirrors q' := by
  obtain ⟨light, rest, hl, hs⟩ := LoadQueue.exists_assigns h.workers hq
  refine ⟨p.change light (·.insert i), ?_, ?_, hs.workers_perm.nodup_iff.2 h.workers⟩
  · rw [LoadPile.assign, h.lightest_eq, hl, Option.map_some, hs.worker]
  · have hbefore : p.loads.Perm (light :: rest) := h.perm.symm.trans hs.before
    have hnodup := hs.before.nodup_iff.1 h.workers.of_map
    exact hs.after.trans
      (Load.change_perm (f := (·.insert i)) hbefore (List.nodup_cons.1 hnodup).1).symm

theorem transferLast_eq_none (h : p.Mirrors q) (hq : q.transferLast = none) :
    p.transferLast = none := by
  rw [LoadPile.transferLast, h.lightest_eq, h.heaviest_eq]
  cases hl : q.lightest with
  | none => rfl
  | some light =>
    cases hh : q.heaviest with
    | none => rfl
    | some heavy =>
      refine if_neg fun hgap => ?_
      obtain ⟨t, q', hsome⟩ := LoadQueue.exists_transferLast (LoadQueue.mem_of_lightest hl)
        (LoadQueue.mem_of_heaviest hh) hgap
      rw [hq] at hsome
      cases hsome

theorem transferLast (h : p.Mirrors q) {t : Transfer} {q' : LoadQueue}
    (hq : q.transferLast = some (t, q')) :
    ∃ p', p.transferLast = some (t, p') ∧ p'.Mirrors q' := by
  obtain ⟨light, heavy, rest, hl, hh, hg⟩ := LoadQueue.exists_gives h.workers hq
  have hworkers : (q'.toList.map (·.worker)).Perm (q.toList.map (·.worker)) :=
    (hg.after.map (·.worker)).trans (hg.before.map (·.worker)).symm
  refine ⟨(p.change heavy .dropLast).change light (·.insert t.item), ?_, ?_,
    hworkers.nodup_iff.2 h.workers⟩
  · rw [LoadPile.transferLast, h.lightest_eq, h.heaviest_eq, hl, hh]
    dsimp only
    rw [if_pos hg.gap, hg.item, Option.map_some, ← hg.source, ← hg.target]
  · have hnodup := h.workers.perm (hg.before.map _)
    simp only [List.map_cons, List.nodup_cons, List.mem_cons, not_or] at hnodup
    obtain ⟨⟨hlh, hlr⟩, hhr, -⟩ := hnodup
    have hheavy : heavy ∉ light :: rest :=
      Load.not_mem_of_worker (by simpa [eq_comm] using And.intro hlh hhr)
    have hlight : light ∉ heavy.dropLast :: rest :=
      Load.not_mem_of_worker (by simpa using And.intro hlh hlr)
    -- The heavy load gives first, so that both changes are made at the head of a list.
    have hbefore : p.loads.Perm (heavy :: light :: rest) :=
      (h.perm.symm.trans hg.before).trans (.swap ..)
    have hgiven : (p.change heavy .dropLast).loads.Perm (light :: heavy.dropLast :: rest) :=
      (Load.change_perm hbefore hheavy).trans (.swap ..)
    exact hg.after.trans (Load.change_perm (f := (·.insert t.item)) hgiven hlight).symm

theorem serve (h : p.Mirrors q) (r : LoadRequest) :
    (p.serve r).1 = (q.serve r).1 ∧ (p.serve r).2.Mirrors (q.serve r).2 := by
  simp only [LoadPile.serve, LoadQueue.serve]
  cases r with
  | assign i =>
    simp only [LoadRequest.serve]
    cases hq : q.assign i with
    | none =>
      rw [h.assign_eq_none hq]
      exact ⟨rfl, h⟩
    | some r =>
      obtain ⟨w, q'⟩ := r
      obtain ⟨p', hp, h'⟩ := h.assign hq
      rw [hp]
      exact ⟨rfl, h'⟩
  | transferLast =>
    simp only [LoadRequest.serve]
    cases hq : q.transferLast with
    | none =>
      rw [h.transferLast_eq_none hq]
      exact ⟨rfl, h⟩
    | some r =>
      obtain ⟨t, q'⟩ := r
      obtain ⟨p', hp, h'⟩ := h.transferLast hq
      rw [hp]
      exact ⟨rfl, h'⟩

theorem serveAll (h : p.Mirrors q) (rs : List LoadRequest) :
    (LoadRequest.serveAll LoadPile.serve p rs).1 = (LoadRequest.serveAll LoadQueue.serve q rs).1 ∧
      (LoadRequest.serveAll LoadPile.serve p rs).2.Mirrors
        (LoadRequest.serveAll LoadQueue.serve q rs).2 := by
  induction rs generalizing p q with
  | nil => exact ⟨rfl, h⟩
  | cons r rs ih =>
    obtain ⟨hanswer, hmirrors⟩ := h.serve r
    obtain ⟨hanswers, hlast⟩ := ih hmirrors
    simp only [LoadRequest.serveAll]
    exact ⟨by rw [hanswer, hanswers], hlast⟩

end LoadPile.Mirrors

namespace LoadPile

variable {p : LoadPile} {l : Load} {f : Load → Load}

theorem workers_change (hf : (f l).worker = l.worker) (p : LoadPile) :
    (p.change l f).loads.map (·.worker) = p.loads.map (·.worker) := by
  rw [change, Load.change, List.map_map]
  refine List.map_congr_left fun k _ => ?_
  rw [Function.comp_apply]
  split
  · next hk => rw [hk, hf]
  · rfl

theorem workers_serve (p : LoadPile) (r : LoadRequest) :
    (p.serve r).2.loads.map (·.worker) = p.loads.map (·.worker) := by
  cases r with
  | assign i =>
    simp only [serve, LoadRequest.serve]
    split
    · next w p' h =>
      simp only [assign, Option.map_eq_some_iff, Prod.mk.injEq] at h
      obtain ⟨light, -, -, rfl⟩ := h
      exact workers_change rfl p
    · rfl
  | transferLast =>
    simp only [serve, LoadRequest.serve]
    split
    · next t p' h =>
      unfold transferLast at h
      split at h
      · next light heavy _ _ =>
        split at h
        · simp only [Option.map_eq_some_iff, Prod.mk.injEq] at h
          obtain ⟨i, -, -, rfl⟩ := h
          exact (workers_change rfl _).trans (workers_change rfl p)
        · cases h
      · cases h
    · rfl

theorem workers_serveAll (p : LoadPile) (rs : List LoadRequest) :
    (LoadRequest.serveAll serve p rs).2.loads.map (·.worker) = p.loads.map (·.worker) := by
  induction rs generalizing p with
  | nil => rfl
  | cons r rs ih => exact (ih _).trans (p.workers_serve r)

end LoadPile

namespace LoadQueue

open LoadRequest (serveAll)

/-- Whatever is asked of a queue whose loads have different workers, its answers are those of a pile
of the same loads, and so are the loads that it holds then. They are in strictly ascending order,
one for each worker. -/
theorem serves_as_pile {ls : List Load} (hn : (ls.map (·.worker)).Nodup)
    (rs : List LoadRequest) :
    (serveAll serve (ofList ls) rs).1 = (serveAll LoadPile.serve ⟨ls⟩ rs).1 ∧
    (serveAll serve (ofList ls) rs).2.toList.Perm (serveAll LoadPile.serve ⟨ls⟩ rs).2.loads ∧
    Ordered.Strict (serveAll serve (ofList ls) rs).2.toList ∧
    ((serveAll serve (ofList ls) rs).2.toList.map (·.worker)).Perm (ls.map (·.worker)) := by
  have hperm : (ofList ls).toList.Perm ls := OrderedSet.toList_ofList_perm hn.of_map
  have hstart : LoadPile.Mirrors ⟨ls⟩ (ofList ls) :=
    ⟨hperm, (hperm.map _).nodup_iff.2 hn⟩
  obtain ⟨hanswers, hlast⟩ := hstart.serveAll rs
  refine ⟨hanswers.symm, hlast.perm, (serveAll serve (ofList ls) rs).2.loads.strict, ?_⟩
  have hworkers := hlast.perm.map (·.worker)
  rwa [LoadPile.workers_serveAll] at hworkers

/-- Three loads, two of which share an item. -/
def sharing : List Load :=
  [.of ⟨3⟩ [⟨"ra", by decide⟩, ⟨"rb", by decide⟩, ⟨"rc", by decide⟩], .of ⟨1⟩ [⟨"rc", by decide⟩],
    .of ⟨2⟩ []]

def errands : List LoadRequest :=
  [.assign ⟨"ra", by decide⟩, .transferLast, .transferLast, .assign ⟨"rd", by decide⟩]

theorem sharing_serves_as_pile :
    (serveAll serve (ofList sharing) errands).1 = [.assigned (some ⟨2⟩),
      .transferred (some ⟨⟨"rc", by decide⟩, ⟨3⟩, ⟨1⟩⟩), .transferred none, .assigned (some ⟨1⟩)] ∧
    (serveAll LoadPile.serve ⟨sharing⟩ errands).1 =
      (serveAll serve (ofList sharing) errands).1 ∧
    (serveAll serve (ofList sharing) errands).2.toList.Perm
      (serveAll LoadPile.serve ⟨sharing⟩ errands).2.loads := by
  have hn : (sharing.map (·.worker)).Nodup := by decide
  obtain ⟨hanswers, hperm, -⟩ := serves_as_pile hn errands
  exact ⟨by decide +kernel, hanswers.symm, hperm⟩

end LoadQueue

end Roster
