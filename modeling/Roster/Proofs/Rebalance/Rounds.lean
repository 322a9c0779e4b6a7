import Mathlib.Data.List.Rotate
import Roster.Proofs.Rebalance.Churn

/-! Dealing to workers that own nothing. Ascending items go to the workers in order first, and then
round after round in the opposite order: the queue opens with the workers that have nothing, and once
everybody has an item whoever is served goes behind all others. -/

namespace Roster

/-- The items dealt to the workers in turn, over and over. -/
def inTurn : List WorkerId → List ItemId → List (ItemId × WorkerId)
  | _, [] => []
  | [], _ => []
  | w :: ws, i :: is => (i, w) :: inTurn (ws ++ [w]) is

theorem length_inTurn {ws : List WorkerId} {items : List ItemId} (h : ws ≠ []) :
    (inTurn ws items).length = items.length := by
  induction items generalizing ws with
  | nil => simp [inTurn]
  | cons i items ih =>
    obtain ⟨w, ws, rfl⟩ := List.exists_cons_of_ne_nil h
    simp [inTurn, ih]

/-- The item at `k` comes to the worker that `k` is the turn of. -/
theorem getElem?_inTurn {ws : List WorkerId} {items : List ItemId} {k : Nat} {i : ItemId}
    {w : WorkerId} (hi : items[k]? = some i) (hw : ws[k % ws.length]? = some w) :
    (inTurn ws items)[k]? = some (i, w) := by
  induction items generalizing ws k with
  | nil => simp at hi
  | cons j items ih =>
    cases ws with
    | nil => simp at hw
    | cons v ws =>
      cases k with
      | zero =>
        simp only [List.getElem?_cons_zero, Nat.zero_mod, Option.some.injEq] at hi hw
        simp [inTurn, hi, hw]
      | succ k =>
        -- The workers have gone round by one, and the place is one less.
        rw [inTurn, List.getElem?_cons_succ]
        refine ih (by simpa using hi) ?_
        have hturn := List.getElem?_rotate (l := v :: ws) (n := 1) (m := k % (ws.length + 1))
          (Nat.mod_lt _ (Nat.succ_pos _))
        rw [List.rotate_cons_succ, List.rotate_zero] at hturn
        rw [List.length_append, List.length_singleton, hturn, List.length_cons, Nat.mod_add_mod]
        exact hw

/-- The first round goes up, and the later ones go down. -/
theorem getElem?_rounds {ws : List WorkerId} {items : List ItemId} {round turn : Nat} {i : ItemId}
    (hturn : turn < ws.length) (hi : items[round * ws.length + turn]? = some i) :
    ∃ w, ws[if round = 0 then turn else ws.length - 1 - turn]? = some w ∧
      (items.zip ws ++ inTurn ws.reverse (items.drop ws.length))[round * ws.length + turn]? =
        some (i, w) := by
  obtain ⟨hlt, -⟩ := List.getElem?_eq_some_iff.1 hi
  cases round with
  | zero =>
    rw [Nat.zero_mul, Nat.zero_add] at hi hlt ⊢
    have hw : ws[turn]? = some ws[turn] := List.getElem?_eq_getElem hturn
    refine ⟨ws[turn], by simp, ?_⟩
    rw [List.getElem?_append_left (by rw [List.length_zip]; omega), List.getElem?_zip_eq_some]
    exact ⟨hi, hw⟩
  | succ round =>
    have hplace : (round + 1) * ws.length + turn = ws.length + (round * ws.length + turn) := by
      rw [Nat.succ_mul]
      omega
    have hzip : (items.zip ws).length = ws.length := by
      rw [List.length_zip]
      omega
    have hback : ws.length - 1 - turn < ws.length := by omega
    have hmod : (round * ws.length + turn) % ws.reverse.length = turn := by
      rw [List.length_reverse, Nat.mul_add_mod_self_right, Nat.mod_eq_of_lt hturn]
    refine ⟨ws[ws.length - 1 - turn], List.getElem?_eq_getElem hback, ?_⟩
    rw [hplace, List.getElem?_append_right (by omega), hzip, Nat.add_sub_cancel_left]
    refine getElem?_inTurn ?_ ?_
    · rw [List.getElem?_drop, ← hplace, hi]
    · rw [hmod, List.getElem?_reverse hturn, List.getElem?_eq_getElem hback]

namespace Load

variable {l k : Load} {i x : ItemId} {v w : WorkerId}

/-! ### Loads that begin with different items -/

/-- The first item of `l` is greater than that of `k`. -/
def Leads (l k : Load) : Prop := ∃ x ∈ l.items.head?, ∃ y ∈ k.items.head?, compare y x = .lt

/-- Where everybody is served in turn, `l` is served before `k`. -/
inductive Before (l k : Load) : Prop
  /-- Neither of them has been served in this round, or both have. -/
  | even (first : Leads l k) (size : k.size = l.size)
  /-- In this round it was the turn of `k` already. -/
  | served (first : Leads k l) (size : k.size = l.size + 1)

theorem Leads.lt (h : Leads l k) (hs : k.size = l.size) : compare l k = .lt := by
  obtain ⟨x, hx, y, hy, hlt⟩ := h
  have hsize : compareOn size l k = .eq := Nat.compare_eq_eq.2 hs.symm
  obtain ⟨xs, hxs⟩ := List.head?_eq_some_iff.1 hx
  obtain ⟨ys, hys⟩ := List.head?_eq_some_iff.1 hy
  have hitems : compare k.items l.items = .lt := by
    rw [hxs, hys]
    change List.compareLex compare (y :: ys) (x :: xs) = .lt
    rw [List.compareLex_cons_cons, hlt]
    rfl
  change order l k = .lt
  simp [order, compareLex, hsize, hitems]

theorem Before.lt (h : Before l k) : compare l k = .lt := by
  cases h with
  | even first hs => exact first.lt hs
  | served _ hs => exact lt_of_size_lt (by omega)

theorem compare_of_nil : compare (of v []) (of w []) = compare v w := by
  change order (of v []) (of w []) = compare v w
  simp [order, compareLex, compareOn, size, of, Ordered.sort, Std.ReflCmp.compare_self]

theorem size_insert_of_lt (h : ∀ j ∈ l.items, compare j i = .lt) :
    (l.insert i).size = l.size + 1 := by
  refine size_insert ?_
  intro hi
  have := h i hi
  simp [Std.ReflCmp.compare_self] at this

theorem head?_insert (hx : x ∈ l.items.head?) (h : compare x i = .lt) :
    x ∈ (l.insert i).items.head? := by
  obtain ⟨xs, hxs⟩ := List.head?_eq_some_iff.1 hx
  have hgt : compare i x = .gt := Std.OrientedCmp.gt_of_lt h
  simp [insert, hxs, Ordered.insert, hgt]

/-- Who is served comes behind everybody that was to be served later. -/
theorem Before.insert (h : Before l k) (hi : ∀ j ∈ l.items, compare j i = .lt) :
    Before k (l.insert i) := by
  have hsize := size_insert_of_lt hi
  cases h with
  | even first hs =>
    obtain ⟨x, hx, y, hy, hlt⟩ := first
    exact .served ⟨x, head?_insert hx (hi x (List.mem_of_head? hx)), y, hy, hlt⟩ (by omega)
  | served first hs =>
    obtain ⟨y, hy, x, hx, hlt⟩ := first
    exact .even ⟨y, hy, x, head?_insert hx (hi x (List.mem_of_head? hx)), hlt⟩ (by omega)

end Load

namespace Planner

open Load LoadQueue

variable {t : Table} {m : Membership} {owned items : List ItemId} {q q' : LoadQueue}
  {light : Load} {rest ds : List Load} {ws : List WorkerId} {i : ItemId} {w : WorkerId}

/-! ### Dealing -/

/-- The items to come are ascending, and above all that are owned. -/
structure Ahead (owned items : List ItemId) : Prop where
  above : ∀ j ∈ owned, ∀ i ∈ items, compare j i = .lt
  strict : Ordered.Strict items

namespace Ahead

theorem not_mem (h : Ahead owned (i :: items)) : i ∉ owned := by
  intro hi
  have := h.above i hi i List.mem_cons_self
  simp [Std.ReflCmp.compare_self] at this

theorem tail (h : Ahead owned (i :: items)) : Ahead (i :: owned) items where
  above := by
    obtain ⟨hi, -⟩ := List.pairwise_cons.1 h.strict
    intro j hj k hk
    rcases List.mem_cons.1 hj with rfl | hj
    · exact hi k hk
    · exact h.above j hj k (List.mem_cons_of_mem i hk)
  strict := (List.pairwise_cons.1 h.strict).2

end Ahead

theorem Ready.lt_of_mem {l : Load} {j : ItemId} (h : Ready owned q)
    (ha : Ahead owned (i :: items)) (hl : l ∈ q.toList) (hj : j ∈ l.items) :
    compare j i = .lt :=
  ha.above j (h.owned j (List.mem_flatMap.2 ⟨l, hl, hj⟩)) i List.mem_cons_self

/-- Everybody in the queue has an item, and stands in front of those whose turn comes later. -/
structure Round (owned : List ItemId) (q : LoadQueue) : Prop extends Ready owned q where
  turns : q.toList.Pairwise Before

/-- Whoever is served goes behind all others, so the queue only goes round. -/
theorem Round.assign (h : Round owned q) (ha : Ahead owned (i :: items))
    (hq : q.toList = light :: rest) :
    ∃ q', q.assign i = some (light.worker, q') ∧ q'.toList = rest ++ [light.insert i] ∧
      Round (i :: owned) q' := by
  obtain ⟨q', hassign, hq'⟩ := assign_eq_some hq i
  obtain ⟨hlight, hrest⟩ := List.pairwise_cons.1 (hq ▸ h.turns)
  have hbehind : ∀ k ∈ rest, Before k (light.insert i) := fun k hk =>
    (hlight k hk).insert fun j hj => h.lt_of_mem ha (hq ▸ List.mem_cons_self) hj
  have hround : q'.toList = rest ++ [light.insert i] := by
    rw [hq']
    simpa using Ordered.insert_eq_append (k := []) (fun k hk => (hbehind k hk).lt) (by simp)
  refine ⟨q', hassign, hround, h.of_assign ha.not_mem hassign, ?_⟩
  rw [hround, List.pairwise_append]
  refine ⟨hrest, List.pairwise_singleton .., ?_⟩
  intro k hk l hl
  rw [List.mem_singleton.1 hl]
  exact hbehind k hk

/-- Once everybody has an item, everybody is served in turn. -/
theorem Round.assignAll_eq (h : Round owned q) (ha : Ahead owned items) :
    (assignAll owned q items).1 = inTurn (q.toList.map (·.worker)) items := by
  induction items generalizing owned q with
  | nil => simp [assignAll, inTurn]
  | cons i items ih =>
    obtain ⟨light, rest, hq⟩ := List.exists_cons_of_ne_nil h.nonempty
    obtain ⟨q', hassign, hround, h'⟩ := h.assign ha hq
    rw [assignAll_cons_free ha.not_mem hassign, ih h' ha.tail, hround, hq]
    simp [inTurn]

/-- The workers `ws` have nothing yet, and behind them the others have one item each. -/
structure Opening (owned : List ItemId) (q : LoadQueue) (ws : List WorkerId) (ds : List Load) : Prop
    extends Ready owned q where
  loads : q.toList = ws.map (of · []) ++ ds
  turns : ds.Pairwise Before
  single : ∀ d ∈ ds, d.size = 1

/-- Who has nothing is served first, and then goes in front of those served before. -/
theorem Opening.assign (h : Opening owned q (w :: ws) ds) (ha : Ahead owned (i :: items)) :
    ∃ q', q.assign i = some (w, q') ∧
      Opening (i :: owned) q' ws ((of w []).insert i :: ds) := by
  obtain ⟨q', hassign, hq'⟩ := assign_eq_some h.loads i
  have hempty : ∀ l ∈ ws.map (of · []), compare l ((of w []).insert i) = .lt := by
    intro l hl
    obtain ⟨v, -, rfl⟩ := List.mem_map.1 hl
    exact lt_of_size_lt Nat.zero_lt_one
  -- Of two loads of one item the one with the greater item is the lighter.
  have hfront : ∀ d ∈ ds, Before ((of w []).insert i) d := by
    intro d hd
    have hdq : d ∈ q.toList := h.loads ▸ List.mem_append_right _ hd
    obtain ⟨y, hy⟩ := List.length_eq_one_iff.1 (h.single d hd)
    have hlt : compare y i = .lt := h.lt_of_mem ha hdq (hy ▸ List.mem_singleton_self y)
    exact .even ⟨i, rfl, y, by simp [hy], hlt⟩ (h.single d hd)
  refine ⟨q', hassign, h.of_assign ha.not_mem hassign, ?_, ?_, ?_⟩
  · rw [hq']
    exact Ordered.insert_eq_append hempty fun d hd => (hfront d hd).lt
  · exact List.pairwise_cons.2 ⟨hfront, h.turns⟩
  · intro d hd
    rcases List.mem_cons.1 hd with rfl | hd
    · rfl
    · exact h.single d hd

/-- The first round goes through those who have nothing, and leaves them in the opposite order for
all later rounds. -/
theorem Opening.assignAll_eq (h : Opening owned q ws ds) (ha : Ahead owned items) :
    (assignAll owned q items).1 =
      items.zip ws ++ inTurn (ws.reverse ++ ds.map (·.worker)) (items.drop ws.length) := by
  induction ws generalizing owned q items ds with
  | nil =>
    have hq : q.toList = ds := h.loads
    have hround : Round owned q := ⟨h.toReady, hq ▸ h.turns⟩
    simpa [hq] using hround.assignAll_eq ha
  | cons w ws ih =>
    cases items with
    | nil => simp [assignAll, inTurn]
    | cons i items =>
      obtain ⟨q', hassign, h'⟩ := h.assign ha
      rw [assignAll_cons_free ha.not_mem hassign, ih h' ha.tail]
      simp [of]

/-! ### Plans for workers that own nothing -/

theorem survey_of_nil {registered taken : List ItemId} (h : ∀ w ∈ ws, t.itemsFor w = []) :
    survey t registered taken ws = (ws.map (·, []), []) := by
  induction ws with
  | nil => rfl
  | cons w ws ih =>
    rw [survey_cons, h w List.mem_cons_self]
    simp [Ordered.sort, sift, ih fun v hv => h v (List.mem_cons_of_mem w hv)]

theorem holdings_of_nil (h : ∀ w ∈ m.workers, t.itemsFor w = []) :
    holdings t m = m.workers.toList.map (·, []) :=
  congrArg (·.1) (survey_of_nil h)

theorem held_of_nil (h : ∀ w ∈ m.workers, t.itemsFor w = []) : held t m = [] := by
  rw [held, holdings_of_nil h]
  simp

/-- The workers wait in their own order. -/
theorem holdingsQueue_of_nil (h : ∀ w ∈ m.workers, t.itemsFor w = []) :
    (holdingsQueue t m).toList = m.workers.toList.map (of · []) := by
  have hloads : holdingsLoads t m = m.workers.toList.map (of · []) := by
    rw [holdingsLoads, holdings_of_nil h, List.map_map]
    rfl
  have hstrict : Ordered.Strict (m.workers.toList.map (of · [])) := by
    refine List.pairwise_map.2 (List.Pairwise.imp ?_ m.workers.strict)
    intro v w hlt
    rw [compare_of_nil, hlt]
  exact (holdingsQueue t m).loads.strict.ascending.eq_of_perm hstrict.ascending
    (hloads ▸ holdingsQueue_perm)

theorem assigned_of_nil (hm : m.workers.isEmpty = false)
    (h : ∀ w ∈ m.workers, t.itemsFor w = []) (hs : Ordered.Strict m.items) :
    (planFor t m).assigned = m.items.zip m.workers.toList ++
      inTurn m.workers.toList.reverse (m.items.drop m.workers.size) := by
  have hahead : Ahead (held t m) m.items := by
    refine ⟨?_, hs⟩
    intro j hj
    rw [held_of_nil h] at hj
    exact absurd hj List.not_mem_nil
  have hopening : Opening (held t m) (holdingsQueue t m) m.workers.toList [] :=
    ⟨ready_holdings hm, by rw [holdingsQueue_of_nil h, List.append_nil], .nil, by simp⟩
  have hdealt := hopening.assignAll_eq hahead
  rw [List.map_nil, List.append_nil] at hdealt
  exact hdealt

theorem length_assigned_of_nil (hm : m.workers.isEmpty = false)
    (h : ∀ w ∈ m.workers, t.itemsFor w = []) (hs : Ordered.Strict m.items) :
    (planFor t m).assigned.length = m.items.length := by
  have hne : m.workers.toList.reverse ≠ [] := by
    obtain ⟨w, hw⟩ := OrderedSet.exists_mem hm
    exact List.ne_nil_of_mem (List.mem_reverse.2 hw)
  rw [assigned_of_nil hm h hs, List.length_append, List.length_zip, length_inTurn hne,
    List.length_drop]
  change min m.items.length m.workers.size + (m.items.length - m.workers.size) = m.items.length
  omega

/-- Nobody has too much, and as many items are dealt out as everybody's share takes. -/
theorem transfers_of_nil (hm : m.workers.isEmpty = false)
    (h : ∀ w ∈ m.workers, t.itemsFor w = []) (hs : Ordered.Strict m.items) :
    (planFor t m).shed = [] ∧ (planFor t m).filled = [] := by
  obtain ⟨hshed, hfilled⟩ := length_shed_and_filled (t := t) hm rfl
  have hexcess : excess (planFor t m).avg (holdingsQueue t m).toList = 0 := by
    refine excess_eq_zero_iff.2 ?_
    intro l hl
    rw [holdingsQueue_of_nil h] at hl
    obtain ⟨w, -, rfl⟩ := List.mem_map.1 hl
    exact Nat.zero_le _
  have hshort : shortage (planFor t m).avg (holdingsQueue t m).toList =
      m.workers.size * (planFor t m).avg := by
    rw [holdingsQueue_of_nil h, shortage, List.map_map]
    simp [Function.comp_def, size_of, OrderedSet.size]
  have havg : (planFor t m).avg = m.items.length / m.workers.size := by
    rw [← planFor_sorted, avg_planFor t.ascending_sorted hm, hs.nodup.dedup]
  have hshare : m.workers.size * (planFor t m).avg ≤ m.items.length := by
    rw [havg]
    exact Nat.mul_div_le ..
  rw [hexcess] at hshed hfilled
  rw [hshort, length_assigned_of_nil hm h hs] at hfilled
  exact ⟨List.length_eq_zero_iff.1 hshed, List.length_eq_zero_iff.1 (by omega)⟩

/-- If no registered worker owns anything and the items are registered in ascending order, they are
dealt out and nothing else happens to them: those of the first round to the workers in order, those of
each later round to the workers in the opposite order. -/
theorem rebalance_deals_in_rounds (hm : m.workers.isEmpty = false)
    (hl : ∀ w ∈ m.workers, t.itemsFor w = []) (hs : Ordered.Strict m.items) :
    ∃ p, plan t m = .ok p ∧ p.dropped = [] ∧ p.shed = [] ∧ p.filled = [] ∧
      p.assigned.length = m.items.length ∧
      ∀ round turn i, turn < m.workers.size → m.items[round * m.workers.size + turn]? = some i →
        ∃ w, m.workers.toList[if round = 0 then turn else m.workers.size - 1 - turn]? = some w ∧
          p.assigned[round * m.workers.size + turn]? = some (i, w) := by
  have hdropped : (planFor t m).dropped = [] := congrArg (·.2) (survey_of_nil hl)
  obtain ⟨hshed, hfilled⟩ := transfers_of_nil hm hl hs
  refine ⟨planFor t m, plan_eq hm, hdropped, hshed, hfilled, length_assigned_of_nil hm hl hs, ?_⟩
  intro round turn i hturn hi
  rw [assigned_of_nil hm hl hs]
  exact getElem?_rounds hturn hi

/-- A registered worker has an empty list, and one that is gone has an item. -/
def bare : Table where
  owners :=
    { entries := [(⟨2⟩, []), (⟨9⟩, [⟨"hc", by decide⟩])]
      strict := by decide }

/-- Two rounds for three workers, and two items of a third round. -/
def batch : Membership where
  items := [⟨"ha", by decide⟩, ⟨"hb", by decide⟩, ⟨"hc", by decide⟩, ⟨"hd", by decide⟩,
    ⟨"he", by decide⟩, ⟨"hf", by decide⟩, ⟨"hg", by decide⟩, ⟨"hh", by decide⟩]
  workers := .ofList [⟨1⟩, ⟨2⟩, ⟨3⟩]

theorem batch_deals_in_rounds : batch.workers.isEmpty = false ∧
    (∀ w ∈ batch.workers, bare.itemsFor w = []) ∧ Ordered.Strict batch.items ∧
    ∃ p, plan bare batch = .ok p ∧ p.dropped = [] ∧ p.shed = [] ∧ p.filled = [] ∧
      p.assigned.length = batch.items.length ∧
      ∀ round turn i, turn < batch.workers.size →
        batch.items[round * batch.workers.size + turn]? = some i →
        ∃ w, batch.workers.toList[if round = 0 then turn else
            batch.workers.size - 1 - turn]? = some w ∧
          p.assigned[round * batch.workers.size + turn]? = some (i, w) := by
  have hm : batch.workers.isEmpty = false := by decide
  have hl : ∀ w ∈ batch.workers, bare.itemsFor w = [] := by
    change ∀ w ∈ batch.workers.toList, _
    decide
  have hs : Ordered.Strict batch.items := by decide
  exact ⟨hm, hl, hs, rebalance_deals_in_rounds hm hl hs⟩

end Planner

end Roster
