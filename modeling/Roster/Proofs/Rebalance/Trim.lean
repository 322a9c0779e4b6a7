import Roster.Proofs.Rebalance.Steps

/-! Tables with nothing to tidy up. Their lists are the loads of the queue that a plan works on, so
that an item assigned or transferred in the table is one assigned or given in the queue. -/

namespace Roster

open Load LoadQueue

namespace Table

/-- The lists as loads. -/
def shares (t : Table) : List Load := t.workers.map fun w => Load.of w (t.itemsFor w)

def queue (t : Table) : LoadQueue := LoadQueue.ofList t.shares

variable {t : Table} {v w : WorkerId} {i : ItemId} {l k : Load} {rest : List Load}

theorem itemsOf_shares (ha : t.Ascending) : itemsOf t.shares = t.listed := by
  rw [itemsOf, shares, List.flatMap_map, listed_eq]
  exact List.flatMap_congr fun w _ => items_of (ha.itemsFor w)

theorem mem_shares_iff (ha : t.Ascending) :
    l ∈ t.shares ↔ l.worker ∈ t.workers ∧ t.itemsFor l.worker = l.items := by
  rw [shares, List.mem_map]
  constructor
  · rintro ⟨w, hw, rfl⟩
    exact ⟨hw, (items_of (ha.itemsFor w)).symm⟩
  · rintro ⟨hw, hi⟩
    exact ⟨l.worker, hw, (eq_of rfl hi.symm).symm⟩

theorem of_shares_perm_cons (ha : t.Ascending) (h : t.shares.Perm (l :: rest)) :
    l.worker ∈ t.workers ∧ t.itemsFor l.worker = l.items :=
  (mem_shares_iff ha).1 (h.mem_iff.2 List.mem_cons_self)

/-- The table with the items of a load as the list of its worker. -/
def withLoad (t : Table) (l : Load) : Table := t.withItems l.worker l.items

@[simp] theorem workers_withLoad : (t.withLoad l).workers = t.workers := workers_withItems

theorem itemsFor_withLoad (hw : l.worker ∈ t.workers) :
    (t.withLoad l).itemsFor v = if v = l.worker then l.items else t.itemsFor v :=
  itemsFor_withItems hw

theorem Ascending.withLoad (ha : t.Ascending) (hw : l.worker ∈ t.workers) :
    (t.withLoad l).Ascending := ha.withItems hw l.ascending

/-- An item that the load has as the list had it stays where it is. -/
theorem mem_itemsFor_withLoad (hw : l.worker ∈ t.workers)
    (h : i ∈ l.items ↔ i ∈ t.itemsFor l.worker) :
    i ∈ (t.withLoad l).itemsFor v ↔ i ∈ t.itemsFor v := by
  rw [itemsFor_withLoad hw]
  split
  · next hv => rw [hv, h]
  · rfl

/-- Another list for one worker is another load in the place of that worker's. -/
theorem shares_withLoad (ha : t.Ascending) (h : t.shares.Perm (l :: rest))
    (hw : k.worker = l.worker) : (t.withLoad k).shares.Perm (k :: rest) := by
  obtain ⟨hmem, hitems⟩ := of_shares_perm_cons ha h
  have hmem' : k.worker ∈ t.workers := hw ▸ hmem
  have hsplit := List.perm_cons_erase hmem'
  have hrest : ((t.workers.erase k.worker).map fun v => Load.of v (t.itemsFor v)).Perm rest := by
    have hold : Load.of k.worker (t.itemsFor k.worker) = l := by
      rw [hw, hitems]
      exact (eq_of rfl rfl).symm
    have := (hsplit.map fun v => Load.of v (t.itemsFor v)).symm.trans h
    rw [List.map_cons, hold] at this
    exact this.cons_inv
  have hnew : (t.withLoad k).shares.Perm (Load.of k.worker k.items ::
      (t.workers.erase k.worker).map fun v => Load.of v (t.itemsFor v)) := by
    have := hsplit.map fun v => Load.of v ((t.withLoad k).itemsFor v)
    rw [List.map_cons, itemsFor_withLoad hmem', if_pos rfl] at this
    rw [shares, workers_withLoad]
    refine this.trans (.of_eq (congrArg _ (List.map_congr_left ?_)))
    intro v hv
    have hne : v ≠ k.worker := (t.nodup_workers.mem_erase_iff.1 hv).1
    rw [itemsFor_withLoad hmem', if_neg hne]
  rw [← eq_of rfl rfl] at hnew
  exact hnew.trans (hrest.cons k)

end Table

namespace Planner
open Table

variable {t t' : Table} {m : Membership} {v w : WorkerId} {i : ItemId}

/-- The registered workers have the lists, and the items listed are registered and listed once. -/
structure Trim (m : Membership) (t : Table) : Prop where
  ascending : t.Ascending
  workers : t.workers = m.workers.toList
  nodup : t.listed.Nodup
  registered : ∀ i ∈ t.listed, i ∈ m.items

/-- A plan that removes, adds and drops nothing is one for a trim table. -/
theorem trim_of_tidy (ha : t.Ascending) (hr : (planFor t m).removed = [])
    (had : (planFor t m).added = []) (hd : (planFor t m).dropped = []) : Trim m t := by
  have hworkers : t.workers = m.workers.toList := by
    refine t.owners.strict.ascending.eq_of_perm m.workers.strict.ascending ?_
    refine (List.perm_ext_iff_of_nodup t.nodup_workers m.workers.nodup).2 ?_
    intro w
    constructor
    · intro hw
      by_cases hm : w ∈ m.workers
      · exact hm
      · have := mem_removed_iff.2 ⟨hw, hm⟩
        simp [hr] at this
    · intro hm
      by_cases hw : w ∈ t.workers
      · exact hw
      · have := mem_added_iff.2 ⟨hm, hw⟩
        simp [had] at this
  have hlisted : (held t m).Perm t.listed := by
    have hp := held_perm (t := t) (m := m)
    rw [show (survey t m.items [] m.workers.toList).2 = [] from hd, List.map_nil,
      List.append_nil] at hp
    rwa [listed_eq, hworkers]
  refine ⟨ha, hworkers, hlisted.nodup_iff.1 nodup_held, ?_⟩
  intro i hi
  exact mem_items_of_mem_held (hlisted.mem_iff.2 hi)

namespace Trim

/-- In a trim table everybody keeps everything. -/
theorem survey_eq (h : Trim m t) : survey t m.items [] m.workers.toList =
    (m.workers.toList.map fun w => (w, t.itemsFor w), []) := by
  have hflat : m.workers.toList.flatMap t.itemsFor = t.listed := by rw [← h.workers, listed_eq]
  refine survey_eq_self h.ascending (hflat ▸ h.nodup) ?_
  intro i hi
  exact ⟨h.registered i (hflat ▸ hi), List.not_mem_nil⟩

theorem holdings_eq (h : Trim m t) :
    holdings t m = t.workers.map fun w => (w, t.itemsFor w) := by
  rw [holdings, h.survey_eq, h.workers]

theorem held_eq (h : Trim m t) : held t m = t.listed := by
  rw [held, h.holdings_eq, List.flatMap_map, listed_eq]

theorem holdingsLoads_eq (h : Trim m t) : holdingsLoads t m = t.shares := by
  rw [holdingsLoads, h.holdings_eq, List.map_map]
  rfl

theorem holdingsQueue_eq (h : Trim m t) : holdingsQueue t m = t.queue := by
  rw [holdingsQueue, h.holdingsLoads_eq, queue]

theorem apart (h : Trim m t) : Apart t.shares := h.holdingsLoads_eq ▸ apart_holdingsLoads

theorem queue_perm (h : Trim m t) : t.queue.toList.Perm t.shares := toList_ofList_perm h.apart

theorem itemsOf_queue_perm (h : Trim m t) : (itemsOf t.queue.toList).Perm t.listed :=
  (itemsOf_perm h.queue_perm).trans (.of_eq (itemsOf_shares h.ascending))

theorem apart_queue (h : Trim m t) : Apart t.queue.toList := h.apart.perm h.queue_perm.symm

theorem ready (h : Trim m t) (hm : m.workers.isEmpty = false) : Ready t.listed t.queue := by
  have := ready_holdings (t := t) hm
  rwa [h.held_eq, h.holdingsQueue_eq] at this

theorem planFor_eq (h : Trim m t) : planFor t m = spread t.listed t.queue m.items := by
  have hremoved : t.workers.filter (· ∉ m.workers) = [] := by
    rw [h.workers, List.filter_eq_nil_iff]
    intro w hw
    simpa using OrderedSet.mem_def.2 hw
  have hadded : m.workers.toList.filter (fun w => !t.containsWorker w) = [] := by
    rw [List.filter_eq_nil_iff]
    intro w hw
    simpa [← mem_workers_iff, h.workers] using hw
  rw [Planner.planFor_eq, h.held_eq, h.holdingsQueue_eq, hremoved, hadded, h.survey_eq]
  rfl

end Trim

/-! ### The table follows the queue -/

/-- `mv` is accepted and changes the queue of the table to `q'`; items other than `i` stay. -/
structure Follows (m : Membership) (t : Table) (mv : Move) (i : ItemId) (q' : LoadQueue)
    (t' : Table) : Prop where
  accepted : t.apply mv = .ok t'
  trim : Trim m t'
  queue : t'.queue = q'
  others : ∀ j, j ≠ i → ∀ w, j ∈ t'.itemsFor w ↔ j ∈ t.itemsFor w

variable {mv : Move} {q q' : LoadQueue} {tr : Transfer}

theorem Follows.keeper_eq {j : ItemId} (h : Follows m t mv i q' t') (hj : j ≠ i) :
    t'.keeper m j = t.keeper m j := by
  have hsame : (fun w => decide (j ∈ t'.itemsFor w)) = fun w => decide (j ∈ t.itemsFor w) :=
    funext fun w => decide_eq_decide.2 (h.others j hj w)
  rw [keeper, keeper, hsame]

namespace Trim

/-- A table with the loads of a queue is trim if the items of the queue are registered. -/
theorem of_shares (h : Trim m t) (ha : t'.Ascending) (hw : t'.workers = t.workers)
    (hq : Apart q'.toList) (hp : t'.shares.Perm q'.toList)
    (hreg : ∀ i ∈ itemsOf q'.toList, i ∈ m.items) : Trim m t' ∧ t'.queue = q' := by
  have hlisted : t'.listed.Perm (itemsOf q'.toList) := by
    rw [← itemsOf_shares ha]
    exact itemsOf_perm hp
  refine ⟨⟨ha, hw.trans h.workers, hlisted.nodup_iff.2 hq.items, ?_⟩, ?_⟩
  · intro i hi
    exact hreg i (hlisted.mem_iff.1 hi)
  · exact eq_of_perm ((toList_ofList_perm (hq.perm hp.symm)).trans hp)

theorem follows_assign (h : Trim m t) (hi : i ∈ m.items) (hfree : i ∉ t.listed)
    (hs : t.queue.assign i = some (w, q')) : ∃ t', Follows m t (.assign i w) i q' t' := by
  have hfree' : i ∉ itemsOf t.queue.toList := fun hm =>
    hfree (h.itemsOf_queue_perm.mem_iff.1 hm)
  obtain ⟨light, rest, hl⟩ := assigns_of_assign h.apart_queue hs
  have hshares : t.shares.Perm (light :: rest) := h.queue_perm.symm.trans hl.before
  obtain ⟨hw, hitems⟩ := of_shares_perm_cons h.ascending hshares
  have hnew : (t.withLoad (light.insert i)).shares.Perm q'.toList :=
    (shares_withLoad (k := light.insert i) h.ascending hshares rfl).trans hl.after.symm
  have hreg : ∀ j ∈ itemsOf q'.toList, j ∈ m.items := by
    intro j hj
    rcases List.mem_cons.1 ((hl.items_perm hfree').mem_iff.1 hj) with rfl | hj
    · exact hi
    · exact h.registered j (h.itemsOf_queue_perm.mem_iff.1 hj)
  have hasc := h.ascending.withLoad (l := light.insert i) hw
  obtain ⟨htrim, hqueue⟩ :=
    h.of_shares hasc workers_withLoad (hl.apart h.apart_queue hfree') hnew hreg
  refine ⟨t.withLoad (light.insert i), ?_, htrim, hqueue, ?_⟩
  · have happly := apply_assign h.ascending hw hfree
    rw [hitems] at happly
    rw [← hl.worker]
    exact happly
  · intro j hj v
    refine mem_itemsFor_withLoad (l := light.insert i) hw ?_
    rw [mem_items_insert, worker_insert, hitems]
    simp [hj]

theorem follows_transfer (h : Trim m t) (hs : t.queue.transferLast = some (tr, q')) :
    ∃ t', Follows m t tr.move tr.item q' t' := by
  obtain ⟨light, heavy, rest, hg⟩ := gives_of_transferLast h.apart_queue hs
  have hre := hg.rearranges h.apart_queue
  have hapart : Apart (light :: heavy :: rest) := h.apart_queue.perm hg.before
  have hlight : t.shares.Perm (light :: heavy :: rest) := h.queue_perm.symm.trans hg.before
  have hheavy : t.shares.Perm (heavy :: light :: rest) := hlight.trans (.swap heavy light rest)
  obtain ⟨hw, htaker⟩ := of_shares_perm_cons h.ascending hlight
  obtain ⟨hv, hgiver⟩ := of_shares_perm_cons h.ascending hheavy
  have hne : light.worker ≠ heavy.worker := by
    have := hapart.workers
    simp only [List.map_cons, List.nodup_cons, List.mem_cons, not_or] at this
    exact this.1.1
  have hlast : heavy.dropLast.items = heavy.items.erase tr.item :=
    items_dropLast_eq_erase (List.nodup_append.1 hapart.tail.items).1 hg.item
  -- First the list of the giver changes, then the one of the taker.
  have hgiven := h.ascending.withLoad (l := heavy.dropLast) hv
  have hw' : light.worker ∈ (t.withLoad heavy.dropLast).workers := by rwa [workers_withLoad]
  have hnew : ((t.withLoad heavy.dropLast).withLoad (light.insert tr.item)).shares.Perm
      q'.toList := by
    have hmiddle := (shares_withLoad (k := heavy.dropLast) h.ascending hheavy rfl).trans
      (.swap light heavy.dropLast rest)
    exact (shares_withLoad (k := light.insert tr.item) hgiven hmiddle rfl).trans hg.after.symm
  have hreg : ∀ j ∈ itemsOf q'.toList, j ∈ m.items := fun j hj =>
    h.registered j (h.itemsOf_queue_perm.mem_iff.1 (hre.items.mem_iff.1 hj))
  have hasc := hgiven.withLoad (l := light.insert tr.item) hw'
  obtain ⟨htrim, hqueue⟩ := h.of_shares hasc (by simp) hre.apart hnew hreg
  refine ⟨(t.withLoad heavy.dropLast).withLoad (light.insert tr.item), ?_, htrim, hqueue,
    ?_⟩
  · have hmem : tr.item ∈ t.itemsFor heavy.worker := by
      rw [hgiver]
      exact List.mem_of_getLast? hg.item
    have happly := apply_transfer h.ascending hw hmem hne
    rw [hgiver, htaker, ← hlast] at happly
    rw [Transfer.move, hg.source, hg.target]
    exact happly
  · intro j hj u
    refine (mem_itemsFor_withLoad (l := light.insert tr.item) hw' ?_).trans
      (mem_itemsFor_withLoad (l := heavy.dropLast) hv ?_)
    · rw [mem_items_insert, worker_insert, itemsFor_withLoad (l := heavy.dropLast) hv,
        worker_dropLast, if_neg hne, htaker]
      simp [hj]
    · rw [hlast, worker_dropLast, hgiver, List.mem_erase_of_ne hj]

end Trim

end Planner

end Roster
