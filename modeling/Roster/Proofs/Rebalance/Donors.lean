import Roster.Proofs.Rebalance.Loops
import Roster.Proofs.Rebalance.Sides

/-! Who gives what in a rebalance. Nobody who takes an item gives one, so what is given away is what
would be given away if nobody took anything: it depends on what is kept, and not on the order in
which items are dealt out. -/

namespace Roster

/-- What a transfer takes from whom. -/
def Transfer.gift (t : Transfer) : ItemId × WorkerId := (t.item, t.source)

namespace LoadQueue

open Load

/-- The heaviest load gives its greatest item away, and nobody takes it. -/
def give (q : LoadQueue) : Option ((ItemId × WorkerId) × LoadQueue) :=
  match q.heaviest with
  | none => none
  | some heavy => match heavy.items.getLast? with
    | none => none
    | some i => some ((i, heavy.worker), ⟨q.loads.dropLast.insert heavy.dropLast⟩)

/-- Up to so many items are given away one after the other. -/
def giveAway (q : LoadQueue) : Nat → List (ItemId × WorkerId) × LoadQueue
  | 0 => ([], q)
  | n + 1 => match q.give with
    | none => ([], q)
    | some (g, q') =>
      let (gs, last) := giveAway q' n
      (g :: gs, last)

variable {q q' own own' : LoadQueue} {avg : Nat} {takers givers : List WorkerId}
  {light heavy : Load} {rest : List Load} {t : Transfer} {i : ItemId} {w : WorkerId}

theorem giveAway_succ {g : ItemId × WorkerId} (h : q.give = some (g, q')) (n : Nat) :
    q.giveAway (n + 1) = (g :: (q'.giveAway n).1, (q'.giveAway n).2) := by
  rw [giveAway, h]

theorem giveAway_add {n : Nat} (k : Nat) (h : (q.giveAway n).1.length = n) :
    q.giveAway (n + k) =
      ((q.giveAway n).1 ++ ((q.giveAway n).2.giveAway k).1, ((q.giveAway n).2.giveAway k).2) := by
  induction n generalizing q with
  | zero => simp [giveAway]
  | succ n ih =>
    cases hg : q.give with
    | none => simp [giveAway, hg] at h
    | some r =>
      rw [giveAway_succ hg] at h
      rw [Nat.add_right_comm, giveAway_succ hg, giveAway_succ hg, ih (by simpa using h)]
      rfl

theorem give_eq (hi : heavy.items.getLast? = some i) (h : q.heaviest = some heavy) :
    q.give = some ((i, heavy.worker), ⟨q.loads.dropLast.insert heavy.dropLast⟩) := by
  rw [give, h]
  simp only [hi]

/-- The other loads stay as they are. -/
theorem give_perm (ha : Apart q.toList) (h : q.heaviest = some heavy) :
    ∃ rest, q.toList.Perm (heavy :: rest) ∧
      (LoadQueue.mk (q.loads.dropLast.insert heavy.dropLast)).toList.Perm
        (heavy.dropLast :: rest) := by
  have hq : q.toList = q.loads.dropLast.toList ++ [heavy] := OrderedSet.toList_eq_of_last? h
  have hp : q.toList.Perm (heavy :: q.loads.dropLast.toList) := by
    rw [hq]
    exact List.perm_append_singleton ..
  have hnew : heavy.dropLast ∉ q.loads.dropLast.toList := fun hm =>
    (ha.perm hp).worker_ne hm rfl
  exact ⟨_, hp, OrderedSet.toList_insert_perm hnew⟩

/-- The load that no other load comes after is the heaviest. -/
theorem heaviest_eq (hm : heavy ∈ q.toList) (h : ∀ l ∈ q.toList, compare l heavy ≠ .gt) :
    q.heaviest = some heavy := by
  obtain ⟨l, hh⟩ := exists_heaviest (List.ne_nil_of_mem hm)
  rw [hh, Ordered.compare_antisymm (h l (mem_of_heaviest hh)) (OrderedSet.le_last? hh hm)]

/-- What is transferred is what the heaviest load gives. -/
theorem heaviest_of_transferLast (h : q.transferLast = some (t, q')) :
    ∃ heavy, q.heaviest = some heavy ∧ heavy.worker = t.source ∧
      heavy.items.getLast? = some t.item := by
  obtain ⟨light, heavy, hr⟩ := exists_replaces h
  exact ⟨heavy, hr.heaviest, hr.source.symm, hr.item⟩

/-! ### What is left of one's own -/

/-- In `own` are the workers of `q` with what they have there, but for the takers, who have no more
than there. -/
structure Owns (takers : List WorkerId) (own q : LoadQueue) : Prop where
  apart : Apart own.toList
  workers : (own.toList.map (·.worker)).Perm (q.toList.map (·.worker))
  same : ∀ l ∈ q.toList, l.worker ∉ takers → l ∈ own.toList
  less : ∀ k ∈ own.toList, ∃ l ∈ q.toList, l.worker = k.worker ∧ k.size ≤ l.size

namespace Owns

theorem refl (ha : Apart q.toList) : Owns [] q q :=
  ⟨ha, .refl _, fun _ hl _ => hl, fun k hk => ⟨k, hk, rfl, Nat.le_refl _⟩⟩

/-- What somebody takes is not their own. -/
theorem assign (h : Owns takers own q)
    (hs : Assigns q i w q' light rest) (hi : i ∉ itemsOf q.toList) :
    Owns (takers ++ [w]) own q' := by
  have hsize : (light.insert i).size = light.size + 1 :=
    size_insert fun hm => hs.not_mem hi (List.mem_append_left _ hm)
  refine ⟨h.apart, h.workers.trans hs.workers_perm.symm, ?_, ?_⟩
  · intro l hl hw
    rw [hs.after.mem_iff, List.mem_cons] at hl
    rcases hl with rfl | hl
    · exact absurd (List.mem_append_right _ (by simp [hs.worker])) hw
    · exact h.same l (hs.before.mem_iff.2 (List.mem_cons_of_mem _ hl))
        fun hm => hw (List.mem_append_left _ hm)
  · intro k hk
    obtain ⟨l, hl, hw, hle⟩ := h.less k hk
    rw [hs.before.mem_iff, List.mem_cons] at hl
    rcases hl with rfl | hl
    · exact ⟨_, hs.after.mem_iff.2 List.mem_cons_self, hw, by omega⟩
    · exact ⟨l, hs.after.mem_iff.2 (List.mem_cons_of_mem _ hl), hw, hle⟩

/-- Who gives next has the heaviest load even if only what is their own counts. -/
theorem heaviest_eq {start : List Load} {handed : List ItemId} (h : Owns takers own q)
    (ha : Apart q.toList) (havg : average q.toList = avg)
    (hs : Sides avg start takers givers handed q.toList)
    (hg : Gives q t q' light heavy rest) (ht : q.transferLast = some (t, q')) :
    own.heaviest = some heavy := by
  have hlight : light ∈ q.toList := hg.before.mem_iff.2 List.mem_cons_self
  have hheavy : heavy ∈ q.toList :=
    hg.before.mem_iff.2 (List.mem_cons_of_mem _ List.mem_cons_self)
  have htop : q.heaviest = some heavy := by
    obtain ⟨top, htop, hw, -⟩ := heaviest_of_transferLast ht
    rw [htop, List.inj_on_of_nodup_map ha.workers (mem_of_heaviest htop) hheavy
      (hw.trans hg.source)]
  refine LoadQueue.heaviest_eq (h.same heavy hheavy (hg.spares havg hs).1) ?_
  intro k hk
  obtain ⟨l, hl, hw, hle⟩ := h.less k hk
  by_cases hl' : l.worker ∈ takers
  · have := hs.taker_lt hl hl' hlight (havg ▸ hg.average_lt_size) hg.gap
    have hlt : compare k heavy = .lt := lt_of_size_lt (by omega)
    simp [hlt]
  · rw [List.inj_on_of_nodup_map h.apart.workers hk (h.same l hl hl') hw.symm]
    exact OrderedSet.le_last? htop hl

/-- The same is left of one's own whether somebody takes what is given or not. -/
theorem give {rest' : List Load} (h : Owns takers own q) (ha : Apart q.toList)
    (hg : Gives q t q' light heavy rest) (hbefore : own.toList.Perm (heavy :: rest'))
    (hafter : own'.toList.Perm (heavy.dropLast :: rest')) :
    Owns (takers ++ [t.target]) own' q' := by
  refine ⟨((h.apart.perm hbefore).dropLast hg.item).1.perm hafter.symm, ?_, ?_, ?_⟩
  · exact ((hafter.map (·.worker)).trans (hbefore.map (·.worker)).symm).trans
      (h.workers.trans (hg.rearranges ha).workers.symm)
  · intro l hl hw
    rw [hg.after.mem_iff, List.mem_cons, List.mem_cons] at hl
    rw [hafter.mem_iff, List.mem_cons]
    rcases hl with rfl | rfl | hl
    · exact absurd (List.mem_append_right _ (by simp [hg.target])) hw
    · exact .inl rfl
    · have hl' : l ∈ light :: heavy :: rest :=
        List.mem_cons_of_mem _ (List.mem_cons_of_mem _ hl)
      have hkept := h.same l (hg.before.mem_iff.2 hl') fun hm => hw (List.mem_append_left _ hm)
      rcases List.mem_cons.1 (hbefore.mem_iff.1 hkept) with rfl | hkept
      · exact absurd rfl ((ha.perm hg.before).tail.worker_ne hl)
      · exact .inr hkept
  · intro k hk
    rw [hafter.mem_iff, List.mem_cons] at hk
    rcases hk with rfl | hk
    · exact ⟨_, hg.after.mem_iff.2 (List.mem_cons_of_mem _ List.mem_cons_self), rfl,
        Nat.le_refl _⟩
    · obtain ⟨l, hl, hw, hle⟩ := h.less k (hbefore.mem_iff.2 (List.mem_cons_of_mem _ hk))
      rw [hg.before.mem_iff, List.mem_cons, List.mem_cons] at hl
      rcases hl with rfl | rfl | hl
      · exact ⟨_, hg.after.mem_iff.2 List.mem_cons_self, hw,
          Nat.le_trans hle (by rw [(hg.sizes ha).1]; exact Nat.le_succ _)⟩
      · exact absurd hw.symm ((h.apart.perm hbefore).worker_ne hk)
      · exact ⟨l, hg.after.mem_iff.2 (List.mem_cons_of_mem _ (List.mem_cons_of_mem _ hl)), hw,
          hle⟩

/-- Who gives has taken nothing and so gives what is their own, and before everybody else. -/
theorem transfer {start : List Load} {handed : List ItemId} (h : Owns takers own q)
    (ha : Apart q.toList) (havg : average q.toList = avg)
    (hs : Sides avg start takers givers handed q.toList)
    (hg : Gives q t q' light heavy rest) (ht : q.transferLast = some (t, q')) :
    ∃ own', own.give = some (t.gift, own') ∧ Owns (takers ++ [t.target]) own' q' := by
  have hfirst := h.heaviest_eq ha havg hs hg ht
  obtain ⟨rest', hbefore, hafter⟩ := give_perm h.apart hfirst
  have hgift : own.give = some (t.gift, _) := hg.source ▸ give_eq hg.item hfirst
  exact ⟨_, hgift, h.give ha hg hbefore hafter⟩

end Owns

/-- The queue `q` of a plan under way, in which the `givers` have given, with what everybody has left
of their own. -/
def LeftOf (avg : Nat) (givers : List WorkerId) (own q : LoadQueue) : Prop :=
  ∃ start takers handed, Sides avg start takers givers handed q.toList ∧ Owns takers own q

namespace LeftOf

theorem refl (ha : Apart q.toList) : LeftOf avg [] q q :=
  ⟨_, _, _, .refl avg q.toList, .refl ha⟩

theorem assign (h : LeftOf avg [] own q) (ha : Apart q.toList)
    (hs : Assigns q i w q' light rest) (hi : i ∉ itemsOf q.toList) (hle : light.size ≤ avg) :
    LeftOf avg [] own q' := by
  obtain ⟨start, takers, handed, hsides, howns⟩ := h
  exact ⟨_, _, _, hs.sides ha hi hle hsides, howns.assign hs hi⟩

theorem transfer (h : LeftOf avg givers own q) (ha : Apart q.toList)
    (havg : average q.toList = avg) (ht : q.transferLast = some (t, q')) :
    ∃ own', own.give = some (t.gift, own') ∧ LeftOf avg (givers ++ [t.source]) own' q' := by
  obtain ⟨start, takers, handed, hsides, howns⟩ := h
  obtain ⟨light, heavy, rest, hg⟩ := gives_of_transferLast ha ht
  obtain ⟨own', hgive, howns'⟩ := howns.transfer ha havg hsides hg ht
  exact ⟨own', hgive, _, _, _, hg.sides ha havg hsides, howns'⟩

end LeftOf

/-- A loop makes everybody give what they would give away of their own. -/
theorem giveAway_transferWhile {p : LoadQueue → Bool} (ha : Apart q.toList)
    (havg : average q.toList = avg) (h : LeftOf avg givers own q) :
    (own.giveAway (transferWhile p q).1.length).1 = (transferWhile p q).1.map Transfer.gift ∧
      ∃ givers', LeftOf avg givers' (own.giveAway (transferWhile p q).1.length).2
        (transferWhile p q).2 := by
  fun_induction transferWhile p q generalizing own givers with
  | case1 q hp hnone => exact ⟨rfl, givers, h⟩
  | case2 q hp t q' hsome hlt ts last hlast ih =>
    obtain ⟨own', hgive, h'⟩ := h.transfer ha havg hsome
    obtain ⟨light, heavy, rest, hg⟩ := gives_of_transferLast ha hsome
    have hre := hg.rearranges ha
    obtain ⟨hgifts, hleft⟩ := ih hre.apart (hre.average_eq.trans havg) h'
    rw [hlast] at hgifts hleft
    rw [List.length_cons, giveAway_succ hgive, List.map_cons]
    exact ⟨congrArg (t.gift :: ·) hgifts, hleft⟩
  | case3 q hp => exact ⟨rfl, givers, h⟩

end LoadQueue

namespace Planner

open Load LoadQueue Table

variable {t : Table} {m m' : Membership} {owned items : List ItemId} {own q : LoadQueue}
  {avg : Nat} {i : ItemId}

theorem leftOf_assignAll (h : Ready owned q)
    (havg : average (assignAll owned q items).2.toList = avg) (hl : LeftOf avg [] own q) :
    LeftOf avg [] own (assignAll owned q items).2 := by
  induction items generalizing owned q with
  | nil => exact hl
  | cons i items ih =>
    by_cases hi : i ∈ owned
    · rw [assignAll_cons_owned hi] at havg ⊢
      exact ih h havg hl
    · obtain ⟨w, q', light, rest, hsome, hs, h'⟩ := h.assign hi
      rw [assignAll_cons_free hi hsome] at havg ⊢
      have hle : light.size ≤ avg := havg ▸ h.size_le_average hi hs h' items
      exact ih h' havg (hl.assign h.apart hs (h.not_mem hi) hle)

/-- Workers are made to give what they would give away of what they keep. -/
theorem gifts_planFor (hm : m.workers.isEmpty = false) :
    (planFor t m).shed.map Transfer.gift ++ (planFor t m).filled.map Transfer.gift =
      ((holdingsQueue t m).giveAway
        ((planFor t m).shed.length + (planFor t m).filled.length)).1 := by
  have hready := ready_holdings (t := t) hm
  have hdealt : Apart (dealt t m).toList := (deals_planFor hm).apart
  have hleft : LeftOf (average (dealt t m).toList) [] (holdingsQueue t m) (dealt t m) :=
    leftOf_assignAll hready rfl (.refl hready.apart)
  have hre := (shed_counts hdealt rfl).1
  obtain ⟨hshed, givers, hleft'⟩ := giveAway_transferWhile hdealt rfl hleft
  obtain ⟨hfilled, -⟩ := giveAway_transferWhile hre.apart hre.average_eq hleft'
  change ((holdingsQueue t m).giveAway (planFor t m).shed.length).1 =
    (planFor t m).shed.map Transfer.gift at hshed
  change (((holdingsQueue t m).giveAway (planFor t m).shed.length).2.giveAway
    (planFor t m).filled.length).1 = (planFor t m).filled.map Transfer.gift at hfilled
  rw [giveAway_add _ (by rw [hshed, List.length_map]), hshed, hfilled]

end Planner

end Roster
