import Roster.Proofs.Rebalance.Readers

/-! Who gives and who takes in a rebalance. Whoever takes an item is never the heaviest later, and
whoever gives one is never the lightest, so what a worker keeps is either cut short at its end or
added to, and no item is handed on twice. -/

namespace Roster

namespace Move

/-- Who loses an item to another worker by the move. -/
def giver : Move → Option WorkerId
  | .transfer _ v _ => some v
  | _ => none

/-- The item that somebody receives by the move. -/
def handed : Move → Option ItemId
  | .assign i _ | .transfer i _ _ => some i
  | _ => none

end Move

namespace Load

/-- The loads `start` have become `ls` by what the takers took, the items `handed`, and by what the
givers gave. A taker has more than the average only where nobody lacks any of it, and a giver no
more than the average only where nobody has more than one beyond it. -/
structure Sides (avg : Nat) (start : List Load) (takers givers : List WorkerId)
    (handed : List ItemId) (ls : List Load) : Prop where
  takes : ∀ l ∈ ls, l.worker ∈ takers →
    l.size ≤ avg + 1 ∧ (avg < l.size → ∀ k ∈ ls, avg ≤ k.size)
  gives : ∀ l ∈ ls, l.worker ∈ givers →
    avg ≤ l.size ∧ (l.size ≤ avg → ∀ k ∈ ls, k.size ≤ avg + 1)
  disjoint : ∀ w ∈ givers, w ∉ takers
  kept : ∀ l ∈ ls, ∃ k ∈ start, k.worker = l.worker ∧
    (l.worker ∉ takers → l.items <+: k.items) ∧ (l.worker ∉ givers → k.items ⊆ l.items)
  nodup : handed.Nodup
  held : ∀ i ∈ handed, ∃ l ∈ ls, l.worker ∈ takers ∧ i ∈ l.items

variable {avg : Nat} {start ls ks rest : List Load} {takers givers : List WorkerId}
  {handed : List ItemId} {l light heavy : Load} {i : ItemId}

namespace Sides

theorem refl (avg : Nat) (ls : List Load) : Sides avg ls [] [] [] ls where
  takes := by simp
  gives := by simp
  disjoint := by simp
  kept l hl := ⟨l, hl, rfl, fun _ => List.prefix_rfl, fun _ => List.Subset.refl _⟩
  nodup := List.nodup_nil
  held := by simp

theorem perm (h : Sides avg start takers givers handed ls) (hp : ls.Perm ks) :
    Sides avg start takers givers handed ks where
  takes l hl hw := by
    obtain ⟨hle, hall⟩ := h.takes l (hp.mem_iff.2 hl) hw
    exact ⟨hle, fun hlt k hk => hall hlt k (hp.mem_iff.2 hk)⟩
  gives l hl hw := by
    obtain ⟨hle, hall⟩ := h.gives l (hp.mem_iff.2 hl) hw
    exact ⟨hle, fun hlt k hk => hall hlt k (hp.mem_iff.2 hk)⟩
  disjoint := h.disjoint
  kept l hl := h.kept l (hp.mem_iff.2 hl)
  nodup := h.nodup
  held i hi := by
    obtain ⟨l, hl, hil⟩ := h.held i hi
    exact ⟨l, hp.mem_iff.1 hl, hil⟩

theorem mem_itemsOf (h : Sides avg start takers givers handed ls) (hi : i ∈ handed) :
    i ∈ itemsOf ls := by
  obtain ⟨l, hl, -, hil⟩ := h.held i hi
  exact List.mem_flatMap.2 ⟨l, hl, hil⟩

/-- Who has taken is lighter than a load above the average that may give to another. -/
theorem taker_lt (h : Sides avg start takers givers handed ls) (hl : l ∈ ls)
    (hw : l.worker ∈ takers) (hlight : light ∈ ls) (hlt : avg < heavy.size)
    (hgap : light.size + 1 < heavy.size) : l.size < heavy.size := by
  obtain ⟨hmost, hall⟩ := h.takes l hl hw
  rcases Nat.lt_or_ge avg l.size with hgt | hle
  · have := hall hgt light hlight
    omega
  · omega

/-- Who has given is heavier than a load at the average that may take from another. -/
theorem lt_giver (h : Sides avg start takers givers handed ls) (hl : l ∈ ls)
    (hw : l.worker ∈ givers) (hheavy : heavy ∈ ls) (hle : light.size ≤ avg)
    (hgap : light.size + 1 < heavy.size) : light.size < l.size := by
  obtain ⟨hleast, hall⟩ := h.gives l hl hw
  rcases Nat.lt_or_ge avg l.size with hgt | hge
  · omega
  · have := hall hge heavy hheavy
    omega

/-- A lightest load takes an item that nobody has. -/
theorem take (h : Sides avg start takers givers handed (light :: rest))
    (ha : Apart (light :: rest)) (hl : ∀ l ∈ rest, light.size ≤ l.size)
    (hle : light.size ≤ avg) (hi : i ∉ itemsOf (light :: rest)) (hg : light.worker ∉ givers) :
    Sides avg start (takers ++ [light.worker]) givers (handed ++ [i])
      (light.insert i :: rest) := by
  have hsize : (light.insert i).size = light.size + 1 :=
    size_insert fun hm => hi (List.mem_append_left _ hm)
  constructor
  case takes =>
    refine List.forall_mem_cons.2 ⟨?_, ?_⟩
    · intro _
      refine ⟨by omega, fun hlt => List.forall_mem_cons.2 ⟨by omega, ?_⟩⟩
      intro k hk
      have := hl k hk
      omega
    · intro l hm hw
      have hw' : l.worker ∈ takers := by simpa [ha.worker_ne hm] using hw
      obtain ⟨hle', hall⟩ := h.takes l (List.mem_cons_of_mem _ hm) hw'
      refine ⟨hle', fun hlt => ?_⟩
      obtain ⟨hlight, hrest⟩ := List.forall_mem_cons.1 (hall hlt)
      exact List.forall_mem_cons.2 ⟨by omega, hrest⟩
  case gives =>
    refine List.forall_mem_cons.2 ⟨fun hw => absurd hw hg, ?_⟩
    intro l hm hw
    obtain ⟨hle', hall⟩ := h.gives l (List.mem_cons_of_mem _ hm) hw
    refine ⟨hle', fun hlt => ?_⟩
    exact List.forall_mem_cons.2 ⟨by omega, (List.forall_mem_cons.1 (hall hlt)).2⟩
  case disjoint =>
    intro w hw hmem
    rcases List.mem_append.1 hmem with hmem | hmem
    · exact h.disjoint w hw hmem
    · exact hg (List.mem_singleton.1 hmem ▸ hw)
  case kept =>
    refine List.forall_mem_cons.2 ⟨?_, ?_⟩
    · obtain ⟨k, hk, hw, -, hsub⟩ := h.kept light List.mem_cons_self
      refine ⟨k, hk, hw, fun hn => absurd (List.mem_append_right _ List.mem_cons_self) hn, ?_⟩
      intro hn j hj
      exact mem_items_insert.2 (.inr (hsub hn hj))
    · intro l hm
      obtain ⟨k, hk, hw, hpre, hsub⟩ := h.kept l (List.mem_cons_of_mem _ hm)
      exact ⟨k, hk, hw, fun hn => hpre fun ht => hn (List.mem_append_left _ ht), hsub⟩
  case nodup =>
    refine List.nodup_append.2 ⟨h.nodup, List.nodup_singleton i, ?_⟩
    rintro j hj k hk rfl
    exact hi (h.mem_itemsOf (List.mem_singleton.1 hk ▸ hj))
  case held =>
    intro j hj
    rcases List.mem_append.1 hj with hj | hj
    · obtain ⟨l, hm, hw, hil⟩ := h.held j hj
      rcases List.mem_cons.1 hm with rfl | hm
      · exact ⟨_, List.mem_cons_self, List.mem_append_left _ hw, mem_items_insert.2 (.inr hil)⟩
      · exact ⟨l, List.mem_cons_of_mem _ hm, List.mem_append_left _ hw, hil⟩
    · exact ⟨_, List.mem_cons_self, List.mem_append_right _ List.mem_cons_self,
        mem_items_insert.2 (.inl (List.mem_singleton.1 hj))⟩

/-- A heaviest load above the average gives its last item away. -/
theorem give (h : Sides avg start takers givers handed (heavy :: rest))
    (hh : ∀ l ∈ rest, l.size ≤ heavy.size) (ha : Apart (heavy :: rest))
    (hlt : avg < heavy.size) (ht : heavy.worker ∉ takers) :
    Sides avg start takers (givers ++ [heavy.worker]) handed (heavy.dropLast :: rest) := by
  have hsize := size_dropLast heavy
  constructor
  case takes =>
    refine List.forall_mem_cons.2 ⟨fun hw => absurd hw ht, ?_⟩
    intro l hm hw
    obtain ⟨hle, hall⟩ := h.takes l (List.mem_cons_of_mem _ hm) hw
    refine ⟨hle, fun hgt => ?_⟩
    exact List.forall_mem_cons.2 ⟨by omega, (List.forall_mem_cons.1 (hall hgt)).2⟩
  case gives =>
    refine List.forall_mem_cons.2 ⟨?_, ?_⟩
    · intro _
      refine ⟨by omega, fun hle => List.forall_mem_cons.2 ⟨by omega, ?_⟩⟩
      intro k hk
      have := hh k hk
      omega
    · intro l hm hw
      have hw' : l.worker ∈ givers := by simpa [ha.worker_ne hm] using hw
      obtain ⟨hge, hall⟩ := h.gives l (List.mem_cons_of_mem _ hm) hw'
      refine ⟨hge, fun hle => ?_⟩
      obtain ⟨hheavy, hrest⟩ := List.forall_mem_cons.1 (hall hle)
      exact List.forall_mem_cons.2 ⟨by omega, hrest⟩
  case disjoint =>
    intro w hw hmem
    rcases List.mem_append.1 hw with hw | hw
    · exact h.disjoint w hw hmem
    · exact ht (List.mem_singleton.1 hw ▸ hmem)
  case nodup => exact h.nodup
  case kept =>
    refine List.forall_mem_cons.2 ⟨?_, ?_⟩
    · obtain ⟨k, hk, hw, hpre, -⟩ := h.kept heavy List.mem_cons_self
      refine ⟨k, hk, hw, ?_, fun hn => absurd (List.mem_append_right _ List.mem_cons_self) hn⟩
      intro hn
      exact (List.dropLast_prefix _).trans (hpre hn)
    · intro l hm
      obtain ⟨k, hk, hw, hpre, hsub⟩ := h.kept l (List.mem_cons_of_mem _ hm)
      exact ⟨k, hk, hw, hpre, fun hn => hsub fun hg => hn (List.mem_append_left _ hg)⟩
  case held =>
    intro j hj
    obtain ⟨l, hm, hw, hil⟩ := h.held j hj
    rcases List.mem_cons.1 hm with rfl | hm
    · exact absurd hw ht
    · exact ⟨l, List.mem_cons_of_mem _ hm, hw, hil⟩

end Sides

end Load

namespace LoadQueue
open Load

variable {q q' : LoadQueue} {avg : Nat} {start : List Load} {takers givers : List WorkerId}
  {handed : List ItemId} {light heavy : Load} {rest : List Load}

/-- As long as nobody has given, anybody may take what is free. -/
theorem Assigns.sides {i : ItemId} {w : WorkerId} (h : Assigns q i w q' light rest)
    (ha : Apart q.toList) (hi : i ∉ itemsOf q.toList) (hle : light.size ≤ avg)
    (hs : Sides avg start takers [] handed q.toList) :
    Sides avg start (takers ++ [w]) [] (handed ++ [i]) q'.toList := by
  have hlightest : ∀ l ∈ rest, light.size ≤ l.size := fun l hl =>
    h.lightest l (List.mem_cons_of_mem light hl)
  rw [← h.worker]
  exact ((hs.perm h.before).take (ha.perm h.before) hlightest hle (h.not_mem hi)
    List.not_mem_nil).perm h.after.symm

/-- Who gives has more than the average. -/
theorem Gives.average_lt_size {t : Transfer} (h : Gives q t q' light heavy rest) :
    average q.toList < heavy.size := by
  have hgap := h.gap
  by_cases hlt : light.size < average q.toList
  · rw [average_perm h.before] at hlt ⊢
    obtain ⟨k, hk, hgt⟩ := exists_average_lt_size List.mem_cons_self hlt
    exact Nat.lt_of_lt_of_le hgt (h.heaviest k hk)
  · omega

/-- Neither has the heaviest load taken before, nor has the lightest given. -/
theorem Gives.spares {t : Transfer} (h : Gives q t q' light heavy rest)
    (havg : average q.toList = avg) (hs : Sides avg start takers givers handed q.toList) :
    heavy.worker ∉ takers ∧ light.worker ∉ givers := by
  have hlight : light ∈ q.toList := h.before.mem_iff.2 List.mem_cons_self
  have hheavy : heavy ∈ q.toList :=
    h.before.mem_iff.2 (List.mem_cons_of_mem _ List.mem_cons_self)
  refine ⟨?_, ?_⟩
  · intro hw
    exact Nat.lt_irrefl _ (hs.taker_lt hheavy hw hlight (havg ▸ h.average_lt_size) h.gap)
  · intro hw
    exact Nat.lt_irrefl _ (hs.lt_giver hlight hw hheavy (havg ▸ h.size_le_average) h.gap)

/-- A transfer adds its target to the takers and its source to the givers. -/
theorem Gives.sides {t : Transfer} (h : Gives q t q' light heavy rest) (ha : Apart q.toList)
    (havg : average q.toList = avg) (hs : Sides avg start takers givers handed q.toList) :
    Sides avg start (takers ++ [t.target]) (givers ++ [t.source]) (handed ++ [t.item])
      q'.toList := by
  have hgap := h.gap
  have hle := havg ▸ h.size_le_average
  have hlt := havg ▸ h.average_lt_size
  have hsides := hs.perm h.before
  have hapart := ha.perm h.before
  have hne : heavy.worker ≠ light.worker := hapart.worker_ne List.mem_cons_self
  obtain ⟨hheavy, hlight⟩ := h.spares havg hs
  -- First the heaviest load gives its last item, then the lightest takes it.
  have hswap : (light :: heavy :: rest).Perm (heavy :: light :: rest) := .swap heavy light rest
  have hback : (heavy.dropLast :: light :: rest).Perm (light :: heavy.dropLast :: rest) :=
    .swap light heavy.dropLast rest
  have hheaviest : ∀ l ∈ light :: rest, l.size ≤ heavy.size := fun l hl =>
    h.heaviest l (hswap.mem_iff.2 (List.mem_cons_of_mem heavy hl))
  have hgiven := (hsides.perm hswap).give hheaviest (hapart.perm hswap) hlt hheavy
  obtain ⟨hleft, hfree⟩ := (hapart.perm hswap).dropLast h.item
  rw [(itemsOf_perm hback).mem_iff] at hfree
  have hlightest : ∀ l ∈ heavy.dropLast :: rest, light.size ≤ l.size := by
    refine List.forall_mem_cons.2 ⟨?_, ?_⟩
    · rw [size_dropLast]
      omega
    · intro l hl
      exact h.lightest l (List.mem_cons_of_mem _ (List.mem_cons_of_mem _ hl))
  have htaken := (hgiven.perm hback).take (hleft.perm hback) hlightest hle hfree
    (by simp [hlight, hne.symm])
  rw [h.source, h.target]
  exact htaken.perm h.after.symm

end LoadQueue

namespace Planner

open Load LoadQueue Table

variable {t t' : Table} {m : Membership} {w : WorkerId} {i : ItemId} {mv : Move} {p' : Plan}
  {avg : Nat} {start : List Load} {done : List Move}

/-! ### The moves of a plan -/

/-- A move that hands nothing to anybody leaves what is kept alone. -/
theorem Advances.holdings_eq (h : Advances m t mv p' t') (hl : Plan.Leaves (planFor t m) mv p')
    (ha : t.Ascending) (hn : mv.handed = none) : holdings t' m = holdings t m := by
  cases hl with
  | removed hr =>
    have hw := (mem_removed_iff.1 (hr ▸ List.mem_cons_self)).2
    rw [h.eq apply_removeWorker]
    exact congrArg (·.1) (survey_without hw)
  | added hr had =>
    have hw := (mem_added_iff.1 (had ▸ List.mem_cons_self)).2
    rw [h.eq (apply_addWorker hw)]
    exact congrArg (·.1) (survey_withWorker_nil hw)
  | dropped hr had hd =>
    obtain ⟨hi, hsurvey⟩ := survey_drop ha m.workers.nodup hd
    rw [h.eq (apply_drop ha hi)]
    exact congrArg (·.1) hsurvey
  | _ => cases hn

/-- What is kept in `t` has come of the kept lists `start` by the moves `done`, the first of a plan,
and nobody has given as long as there are items to be dealt out. -/
structure Sided (m : Membership) (avg : Nat) (start : List Load) (done : List Move) (t : Table) :
    Prop where
  sides : Sides avg start (done.filterMap Move.receiver) (done.filterMap Move.giver)
    (done.filterMap Move.handed) (holdingsLoads t m)
  dealing : (planFor t m).assigned = [] ∨ done.filterMap Move.giver = []

namespace Sided

theorem refl : Sided m avg (holdingsLoads t m) [] t := ⟨.refl avg _, .inr rfl⟩

theorem tidied (hs : Sided m avg start done t) (h : holdings t' m = holdings t m)
    (hn : mv.handed = none) : Sided m avg start (done ++ [mv]) t' := by
  have hnone : mv.receiver = none ∧ mv.giver = none := by
    cases mv <;> simp_all [Move.handed, Move.receiver, Move.giver]
  have hassigned : (planFor t' m).assigned = (planFor t m).assigned := by rw [planFor_congr h]
  refine ⟨?_, ?_⟩
  · simpa [hn, hnone, holdingsLoads, h] using hs.sides
  · simpa [hnone, hassigned] using hs.dealing

theorem assigned {as : List (ItemId × WorkerId)} (hs : Sided m avg start done t)
    (htrim : Trim m t) (hm : m.workers.isEmpty = false)
    (hf : (planFor t m).assigned = (i, w) :: as) (hle : (t.itemsFor w).length ≤ avg)
    (h : t.apply (.assign i w) = .ok t') : Sided m avg start (done ++ [.assign i w]) t' := by
  have hgivers : done.filterMap Move.giver = [] := hs.dealing.resolve_left (by simp [hf])
  obtain ⟨hfree, q', u, light, rest, hl, hu, -⟩ := htrim.follows_assigned hm hf
  obtain rfl := Except.ok.inj (h.symm.trans hu.accepted)
  have hsize : light.size ≤ avg := by
    rw [← hl.worker, (of_shares_perm_cons htrim.ascending
      (htrim.queue_perm.symm.trans hl.before)).2] at hle
    exact hle
  have hfree' : i ∉ itemsOf t.queue.toList := (htrim.ready hm).not_mem hfree
  have hsides := hs.sides
  rw [hgivers, htrim.holdingsLoads_eq] at hsides
  have hnext := hl.sides htrim.apart_queue hfree' hsize (hsides.perm htrim.queue_perm.symm)
  rw [← hu.queue] at hnext
  refine ⟨?_, .inr (by simp [hgivers, Move.giver])⟩
  rw [hu.trim.holdingsLoads_eq]
  simpa [hgivers, List.filterMap_cons, Move.receiver, Move.giver, Move.handed] using
    hnext.perm hu.trim.queue_perm

theorem transferred {tr : Transfer} {q' : LoadQueue} (hs : Sided m avg start done t)
    (hfull : Full m t) (havg : (planFor t m).avg = avg)
    (hq : t.queue.transferLast = some (tr, q')) (h : t.apply tr.move = .ok t') :
    Sided m avg start (done ++ [tr.move]) t' := by
  obtain ⟨light, heavy, rest, hg⟩ := gives_of_transferLast hfull.apart_queue hq
  obtain ⟨u, hu⟩ := hfull.follows_transfer hq
  obtain rfl := Except.ok.inj (h.symm.trans hu.accepted)
  have hfull' := hfull.of_follows hu (hg.rearranges hfull.apart_queue)
  have hsides := hs.sides
  rw [hfull.holdingsLoads_eq] at hsides
  rw [hfull.planFor_eq] at havg
  have hnext := hg.sides hfull.apart_queue havg (hsides.perm hfull.queue_perm.symm)
  rw [← hu.queue] at hnext
  refine ⟨?_, .inl (by rw [hfull'.planFor_eq]; rfl)⟩
  rw [hu.trim.holdingsLoads_eq]
  simpa [Transfer.move, Move.receiver, Move.giver, Move.handed] using
    hnext.perm hu.trim.queue_perm

end Sided

theorem Advances.sided (h : Advances m t mv p' t') (hl : Plan.Leaves (planFor t m) mv p')
    (ha : t.Ascending) (hm : m.workers.isEmpty = false)
    (hs : Sided m (planFor t m).avg start done t) :
    Sided m (planFor t m).avg start (done ++ [mv]) t' := by
  cases hn : mv.handed with
  | none => exact hs.tidied (h.holdings_eq hl ha hn) hn
  | some i =>
    cases hc : mv.carried with
    | some i =>
      obtain ⟨hfull, tr, q', rfl, hq, -⟩ := transferLast_of_leaves ha hm hl hc
      exact hs.transferred hfull rfl hq h.accepted
    | none =>
      cases hl with
      | assigned hr had hd hf =>
        have hle := length_receiver_le ha hm (.assigned hr had hd hf) rfl
        exact hs.assigned (trim_of_tidy ha hr had hd) hm hf hle h.accepted
      | shed hr had hd hf hf' => cases hc
      | filled hr had hd hf hs' hf' => cases hc
      | _ => cases hn

theorem Walks.sided {ms : List Move} (h : Walks m t ms t') (ha : t.Ascending)
    (hm : m.workers.isEmpty = false) (hs : Sided m (planFor t m).avg start done t) :
    Sided m (planFor t m).avg start (done ++ ms) t' := by
  induction h generalizing done with
  | stay t => simpa using hs
  | go hl h hw ih =>
    have hnext := h.sided hl ha hm hs
    rw [← h.avg_eq hl] at hnext ⊢
    have hrest := ih h.ascending hnext
    rwa [List.append_assoc, List.singleton_append] at hrest

/-- In a rebalance no item is handed to anybody twice, nobody gives and takes, and whoever is
registered is left with the first of the items that it kept, or with all of them and more. -/
theorem givers_spare_takers (ha : t.Ascending) (hm : m.workers.isEmpty = false) :
    ∃ p t', plan t m = .ok p ∧ t.applyAll p.moves = (t', none) ∧
      (p.moves.filterMap Move.handed).Nodup ∧
      (∀ w ∈ p.moves.filterMap Move.giver, w ∉ p.moves.filterMap Move.receiver) ∧
      t'.workers = (holdings t m).map (·.1) ∧
      ∀ h ∈ holdings t m, Ordered.Ascending h.2 ∧
        (t'.itemsFor h.1 <+: h.2 ∨ h.2 ⊆ t'.itemsFor h.1) := by
  obtain ⟨t', hwalk⟩ := exists_walks_moves ha hm
  have hprog := hwalk.proceeds ha
  have hlevel := hprog.level hm
  have hsides := (hwalk.sided ha hm .refl).sides
  rw [List.nil_append, hlevel.holdingsLoads_eq] at hsides
  refine ⟨planFor t m, t', plan_eq hm, hprog.accepted, hsides.nodup, hsides.disjoint, ?_, ?_⟩
  · rw [hlevel.workers, map_fst_holdings]
  · rintro ⟨w, kept⟩ hk
    have hasc := ascending_of_mem_holdings hk
    refine ⟨hasc, ?_⟩
    have hw : w ∈ t'.workers := by
      rw [hlevel.workers, ← map_fst_holdings (t := t)]
      exact List.mem_map_of_mem hk
    obtain ⟨k, hk', hkw, hpre, hsub⟩ := hsides.kept _ (List.mem_map_of_mem hw)
    have hkept : k = Load.of w kept :=
      List.inj_on_of_nodup_map apart_holdingsLoads.workers hk' (List.mem_map_of_mem hk) hkw
    rw [hkept, items_of hasc, items_of (hprog.ascending.itemsFor w)] at hpre hsub
    by_cases ht : w ∈ (planFor t m).moves.filterMap Move.receiver
    · exact .inr (hsub fun hg => hsides.disjoint w hg ht)
    · exact .inl (hpre ht)

theorem untidy_spares_takers : untidy.Ascending ∧ crew.workers.isEmpty = false ∧
    ∃ p t', plan untidy crew = .ok p ∧ untidy.applyAll p.moves = (t', none) ∧
      (p.moves.filterMap Move.handed).Nodup ∧
      (∀ w ∈ p.moves.filterMap Move.giver, w ∉ p.moves.filterMap Move.receiver) ∧
      t'.workers = (holdings untidy crew).map (·.1) ∧
      ∀ h ∈ holdings untidy crew, Ordered.Ascending h.2 ∧
        (t'.itemsFor h.1 <+: h.2 ∨ h.2 ⊆ t'.itemsFor h.1) :=
  ⟨by decide, by decide, givers_spare_takers (by decide) (by decide)⟩

end Planner

end Roster
