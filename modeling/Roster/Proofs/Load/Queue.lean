import Roster.Load.Queue
import Roster.Proofs.Load.Order

/-! The two changes of a queue, read as changes of its loads in any order: an item comes to a
lightest load, or goes from a heaviest one to a lightest. -/

namespace Roster.LoadQueue
open Load

variable {q q' : LoadQueue}

theorem eq_of_perm (h : q.toList.Perm q'.toList) : q = q' := by
  cases q; cases q'
  exact congrArg LoadQueue.mk (OrderedSet.eq_of_perm h)

theorem toList_ofList_perm {ls : List Load} (h : Apart ls) : (ofList ls).toList.Perm ls :=
  OrderedSet.toList_ofList_perm h.nodup

theorem lightest_eq_none_iff : q.lightest = none ↔ q.toList = [] := List.head?_eq_none_iff

theorem heaviest_eq_none_iff : q.heaviest = none ↔ q.toList = [] := List.getLast?_eq_none_iff

theorem mem_of_lightest {l : Load} (h : q.lightest = some l) : l ∈ q.toList := List.mem_of_head? h

theorem mem_of_heaviest {l : Load} (h : q.heaviest = some l) : l ∈ q.toList :=
  List.mem_of_getLast? h

theorem exists_lightest (h : q.toList ≠ []) : ∃ light, q.lightest = some light :=
  Option.ne_none_iff_exists'.1 (mt lightest_eq_none_iff.1 h)

theorem exists_heaviest (h : q.toList ≠ []) : ∃ heavy, q.heaviest = some heavy :=
  Option.ne_none_iff_exists'.1 (mt heaviest_eq_none_iff.1 h)

theorem size_lightest_le {light l : Load} (h : q.lightest = some light) (hl : l ∈ q.toList) :
    light.size ≤ l.size :=
  size_le_of_compare (OrderedSet.first?_le h hl)

theorem size_le_heaviest {heavy l : Load} (h : q.heaviest = some heavy) (hl : l ∈ q.toList) :
    l.size ≤ heavy.size :=
  size_le_of_compare (OrderedSet.le_last? h hl)

theorem any_heaviest_iff {n : Nat} :
    q.heaviest.any (n < ·.size) = true ↔ ∃ l ∈ q.toList, n < l.size := by
  rw [Option.any_eq_true]
  constructor
  · rintro ⟨l, hl, hn⟩
    exact ⟨l, mem_of_heaviest hl, of_decide_eq_true hn⟩
  · rintro ⟨l, hl, hn⟩
    obtain ⟨heavy, hh⟩ := exists_heaviest (List.ne_nil_of_mem hl)
    have := size_le_heaviest hh hl
    exact ⟨heavy, hh, decide_eq_true (by omega)⟩

theorem any_lightest_iff {n : Nat} :
    q.lightest.any (·.size < n) = true ↔ ∃ l ∈ q.toList, l.size < n := by
  rw [Option.any_eq_true]
  constructor
  · rintro ⟨l, hl, hn⟩
    exact ⟨l, mem_of_lightest hl, of_decide_eq_true hn⟩
  · rintro ⟨l, hl, hn⟩
    obtain ⟨light, hh⟩ := exists_lightest (List.ne_nil_of_mem hl)
    have := size_lightest_le hh hl
    exact ⟨light, hh, decide_eq_true (by omega)⟩

/-! ### Assigning -/

/-- From `q` to `q'` the item comes to `light`, a lightest load; `rest` are the other loads. -/
structure Assigns (q : LoadQueue) (i : ItemId) (w : WorkerId) (q' : LoadQueue) (light : Load)
    (rest : List Load) : Prop where
  before : q.toList.Perm (light :: rest)
  lightest : ∀ l ∈ light :: rest, light.size ≤ l.size
  worker : light.worker = w
  after : q'.toList.Perm (light.insert i :: rest)

theorem exists_assigns {i : ItemId} {w : WorkerId} (hn : (q.toList.map (·.worker)).Nodup)
    (h : q.assign i = some (w, q')) :
    ∃ light rest, q.lightest = some light ∧ Assigns q i w q' light rest := by
  unfold assign at h
  split at h
  · contradiction
  · next light hl =>
    cases h
    have hq : q.toList = light :: q.loads.dropFirst.toList := OrderedSet.toList_eq_of_first? hl
    rw [hq] at hn
    have hnew : light.insert i ∉ q.loads.dropFirst.toList := fun hm =>
      (List.nodup_cons.1 hn).1 (List.mem_map_of_mem (f := (·.worker)) hm)
    refine ⟨light, q.loads.dropFirst.toList, hl, .of_eq hq, ?_, rfl, ?_⟩
    · intro l hm
      exact size_lightest_le hl (hq ▸ hm)
    · exact OrderedSet.toList_insert_perm hnew

theorem assigns_of_assign {i : ItemId} {w : WorkerId} (ha : Apart q.toList)
    (h : q.assign i = some (w, q')) : ∃ light rest, Assigns q i w q' light rest := by
  obtain ⟨light, rest, -, hs⟩ := exists_assigns ha.workers h
  exact ⟨light, rest, hs⟩

/-- The first load of the queue receives the item. -/
theorem assign_eq_some {light : Load} {rest : List Load} (hq : q.toList = light :: rest)
    (i : ItemId) :
    ∃ q', q.assign i = some (light.worker, q') ∧
      q'.toList = Ordered.insert (light.insert i) rest := by
  have hl : q.lightest = some light := congrArg List.head? hq
  refine ⟨⟨q.loads.dropFirst.insert (light.insert i)⟩, by rw [assign, hl], ?_⟩
  change Ordered.insert (light.insert i) q.toList.tail = _
  rw [hq, List.tail_cons]

/-- Where there is a worker, somebody receives the item. -/
theorem exists_assign (hq : q.toList ≠ []) (i : ItemId) : ∃ w q', q.assign i = some (w, q') := by
  unfold assign
  split
  · next h => exact absurd (lightest_eq_none_iff.1 h) hq
  · exact ⟨_, _, rfl⟩

namespace Assigns

variable {i : ItemId} {w : WorkerId} {light : Load} {rest : List Load}

theorem not_mem (h : Assigns q i w q' light rest) (hi : i ∉ itemsOf q.toList) :
    i ∉ itemsOf (light :: rest) := fun hm =>
  hi ((itemsOf_perm h.before).mem_iff.2 hm)

theorem apart (h : Assigns q i w q' light rest) (ha : Apart q.toList)
    (hi : i ∉ itemsOf q.toList) : Apart q'.toList :=
  ((ha.perm h.before).insert (h.not_mem hi)).perm h.after.symm

theorem items_perm (h : Assigns q i w q' light rest) (hi : i ∉ itemsOf q.toList) :
    (itemsOf q'.toList).Perm (i :: itemsOf q.toList) := by
  have hl : i ∉ light.items := fun hm => h.not_mem hi (List.mem_append_left _ hm)
  calc
    (itemsOf q'.toList).Perm (itemsOf (light.insert i :: rest)) := itemsOf_perm h.after
    List.Perm _ (i :: itemsOf (light :: rest)) := (items_insert_perm hl).append_right _
    List.Perm _ (i :: itemsOf q.toList) := (itemsOf_perm h.before.symm).cons i

theorem workers_perm (h : Assigns q i w q' light rest) :
    (q'.toList.map (·.worker)).Perm (q.toList.map (·.worker)) :=
  (h.after.map (·.worker)).trans (h.before.map (·.worker)).symm

end Assigns

/-! ### Giving -/

/-- From `q` to `q'` the last item of `heavy`, a heaviest load, goes to `light`, a lightest load
that has at least two items less; `rest` are the other loads. -/
structure Gives (q : LoadQueue) (t : Transfer) (q' : LoadQueue) (light heavy : Load)
    (rest : List Load) : Prop where
  before : q.toList.Perm (light :: heavy :: rest)
  lightest : ∀ l ∈ light :: heavy :: rest, light.size ≤ l.size
  heaviest : ∀ l ∈ light :: heavy :: rest, l.size ≤ heavy.size
  gap : light.size + 1 < heavy.size
  item : heavy.items.getLast? = some t.item
  source : t.source = heavy.worker
  target : t.target = light.worker
  after : q'.toList.Perm (light.insert t.item :: heavy.dropLast :: rest)

/-- The ends of a queue whose ends differ. -/
theorem toList_eq_of_ends {light heavy : Load} (hf : q.lightest = some light)
    (hl : q.heaviest = some heavy) (hne : light ≠ heavy) :
    ∃ rest, q.toList = light :: (rest ++ [heavy]) ∧
      q.loads.dropLast.dropFirst.toList = rest := by
  have hq : q.toList = light :: q.loads.dropFirst.toList := OrderedSet.toList_eq_of_first? hf
  have hlast : q.toList.getLast? = some heavy := hl
  cases hd : q.loads.dropFirst.toList with
  | nil =>
    rw [hq, hd] at hlast
    simp only [List.getLast?_singleton, Option.some.injEq] at hlast
    exact absurd hlast hne
  | cons l ls =>
    rw [hq, hd, List.getLast?_cons_cons] at hlast
    obtain ⟨rest, hrest⟩ := List.getLast?_eq_some_iff.1 hlast
    rw [hd, hrest] at hq
    refine ⟨rest, hq, ?_⟩
    change q.toList.dropLast.tail = rest
    rw [hq]
    simp [List.dropLast_cons_of_ne_nil]

theorem mem_between_iff {light heavy l : Load} {rest : List Load}
    (hq : q.toList = light :: (rest ++ [heavy])) :
    l ∈ rest ↔ l ∈ q.toList ∧ l ≠ light ∧ l ≠ heavy := by
  have hn := q.loads.nodup
  change q.toList.Nodup at hn
  rw [hq, List.nodup_cons, List.nodup_append] at hn
  obtain ⟨hlight, -, -, hheavy⟩ := hn
  rw [hq]
  simp only [List.mem_cons, List.mem_append, List.not_mem_nil, or_false]
  constructor
  · intro hl
    refine ⟨.inr (.inl hl), ?_, ?_⟩
    · rintro rfl
      exact hlight (List.mem_append_left _ hl)
    · exact hheavy l hl heavy (List.mem_singleton_self heavy)
  · rintro ⟨hl | hl | hl, hne, hne'⟩
    · exact absurd hl hne
    · exact hl
    · exact absurd hl hne'

theorem transferLast_of_gap {light heavy : Load} {i : ItemId} (hl : q.lightest = some light)
    (hh : q.heaviest = some heavy) (hgap : light.size + 1 < heavy.size)
    (hi : heavy.items.getLast? = some i) : q.transferLast = some (⟨i, heavy.worker, light.worker⟩,
      ⟨(q.loads.dropLast.dropFirst.insert heavy.dropLast).insert (light.insert i)⟩) := by
  simp only [transferLast, hl, hh, if_neg (Nat.not_le.2 hgap), hi]

/-- Nothing else than the sizes of the ends stands against a transfer. -/
theorem transferLast_eq_none_iff : q.transferLast = none ↔ q.toList = [] ∨
    ∃ light heavy, q.lightest = some light ∧ q.heaviest = some heavy ∧
      heavy.size ≤ light.size + 1 := by
  cases hl : q.lightest with
  | none =>
    exact iff_of_true (by simp only [transferLast, hl]) (.inl (lightest_eq_none_iff.1 hl))
  | some light =>
    have hne : q.toList ≠ [] := List.ne_nil_of_mem (mem_of_lightest hl)
    obtain ⟨heavy, hh⟩ := exists_heaviest hne
    by_cases hgap : heavy.size ≤ light.size + 1
    · exact iff_of_true (by simp only [transferLast, hl, hh, if_pos hgap])
        (.inr ⟨light, heavy, rfl, hh, hgap⟩)
    · obtain ⟨i, hi⟩ := exists_last (show 0 < heavy.size by omega)
      refine iff_of_false ?_ ?_
      · rw [transferLast_of_gap hl hh (by omega) hi]
        simp
      · rintro (hnil | ⟨_, _, hl', hh', hle⟩)
        · exact hne hnil
        · cases hl'
          cases hh.symm.trans hh'
          exact hgap hle

/-- From `q` to `q'` the ends of the queue are replaced: the last item of `heavy` goes to `light`.
Loads that are equal then are one. -/
structure Replaces (q : LoadQueue) (t : Transfer) (q' : LoadQueue) (light heavy : Load) : Prop where
  lightest : q.lightest = some light
  heaviest : q.heaviest = some heavy
  gap : light.size + 1 < heavy.size
  item : heavy.items.getLast? = some t.item
  source : t.source = heavy.worker
  target : t.target = light.worker
  mem_iff : ∀ l, l ∈ q'.toList ↔ l = light.insert t.item ∨ l = heavy.dropLast ∨
    l ∈ q.toList ∧ l ≠ light ∧ l ≠ heavy

theorem exists_replaces {t : Transfer} (h : q.transferLast = some (t, q')) :
    ∃ light heavy, Replaces q t q' light heavy := by
  unfold transferLast at h
  split at h
  · next light heavy hf hl =>
    split at h
    · contradiction
    · next hgap =>
      split at h
      · contradiction
      · next i hi =>
        cases h
        have hne : light ≠ heavy := by
          rintro rfl
          omega
        obtain ⟨rest, hq, hrest⟩ := toList_eq_of_ends hf hl hne
        refine ⟨light, heavy, hf, hl, by omega, hi, rfl, rfl, fun l => ?_⟩
        rw [← mem_between_iff hq, ← hrest]
        exact OrderedSet.mem_insert.trans (or_congr_right OrderedSet.mem_insert)
  · contradiction

theorem Replaces.ne {t : Transfer} {light heavy : Load} (h : Replaces q t q' light heavy) :
    light ≠ heavy := by
  rintro rfl
  have := h.gap
  omega

theorem exists_gives {t : Transfer} (hn : (q.toList.map (·.worker)).Nodup)
    (h : q.transferLast = some (t, q')) : ∃ light heavy rest,
      q.lightest = some light ∧ q.heaviest = some heavy ∧ Gives q t q' light heavy rest := by
  obtain ⟨light, heavy, hr⟩ := exists_replaces h
  obtain ⟨rest, hq, -⟩ := toList_eq_of_ends hr.lightest hr.heaviest hr.ne
  have hbefore : q.toList.Perm (light :: heavy :: rest) := by
    rw [hq]
    exact (List.perm_append_singleton heavy rest).cons light
  have hnew : ((light.insert t.item :: heavy.dropLast :: rest).map (·.worker)).Nodup :=
    hn.perm (hbefore.map _)
  refine ⟨light, heavy, rest, hr.lightest, hr.heaviest, {
    before := hbefore
    lightest := fun l hm => size_lightest_le hr.lightest (hbefore.mem_iff.2 hm)
    heaviest := fun l hm => size_le_heaviest hr.heaviest (hbefore.mem_iff.2 hm)
    gap := hr.gap
    item := hr.item
    source := hr.source
    target := hr.target
    after := (List.perm_ext_iff_of_nodup q'.loads.nodup hnew.of_map).2 fun l => ?_ }⟩
  rw [List.mem_cons, List.mem_cons, mem_between_iff hq]
  exact hr.mem_iff l

theorem gives_of_transferLast {t : Transfer} (ha : Apart q.toList)
    (h : q.transferLast = some (t, q')) : ∃ light heavy rest, Gives q t q' light heavy rest := by
  obtain ⟨light, heavy, rest, -, -, hg⟩ := exists_gives ha.workers h
  exact ⟨light, heavy, rest, hg⟩

/-- The heaviest load gives if it has at least two items more than some load. -/
theorem exists_transferLast {l k : Load} (hl : l ∈ q.toList) (hk : k ∈ q.toList)
    (hgap : l.size + 1 < k.size) : ∃ t q', q.transferLast = some (t, q') := by
  cases hq : q.transferLast with
  | some r => exact ⟨r.1, r.2, rfl⟩
  | none =>
    obtain hnil | ⟨light, heavy, hf, hh, hle⟩ := transferLast_eq_none_iff.1 hq
    · simp [hnil] at hl
    · have hlight := size_lightest_le hf hl
      have hheavy := size_le_heaviest hh hk
      omega

/-- The same workers and the same items, shared out in another way. -/
structure Rearranges (q q' : LoadQueue) : Prop where
  apart : Apart q'.toList
  items : (itemsOf q'.toList).Perm (itemsOf q.toList)
  workers : (q'.toList.map (·.worker)).Perm (q.toList.map (·.worker))

theorem Rearranges.refl (h : Apart q.toList) : Rearranges q q := ⟨h, .refl _, .refl _⟩

theorem Rearranges.trans {q'' : LoadQueue} (h : Rearranges q q') (h' : Rearranges q' q'') :
    Rearranges q q'' :=
  ⟨h'.apart, h'.items.trans h.items, h'.workers.trans h.workers⟩

theorem Rearranges.average_eq (h : Rearranges q q') :
    average q'.toList = average q.toList := by
  have hw := h.workers.length_eq
  simp only [List.length_map] at hw
  rw [average, average, h.items.length_eq, hw]

theorem Gives.rearranges {t : Transfer} {light heavy : Load} {rest : List Load}
    (h : Gives q t q' light heavy rest) (ha : Apart q.toList) : Rearranges q q' := by
  have hlh := ha.perm h.before
  refine ⟨(hlh.handover h.item).perm h.after.symm, ?_,
    (h.after.map (·.worker)).trans (h.before.map (·.worker)).symm⟩
  calc
    (itemsOf q'.toList).Perm (itemsOf (light.insert t.item :: heavy.dropLast :: rest)) :=
      itemsOf_perm h.after
    List.Perm _ (itemsOf (light :: heavy :: rest)) :=
      itemsOf_handover_perm h.item (hlh.not_mem_of_last h.item)
    List.Perm _ (itemsOf q.toList) := itemsOf_perm h.before.symm

/-! ### Giving again and again -/

theorem transferWhile_of_not {p : LoadQueue → Bool} (h : p q = false) :
    transferWhile p q = ([], q) := by
  unfold transferWhile
  simp [h]

theorem transferWhile_of_some {p : LoadQueue → Bool} {t : Transfer} (hp : p q = true)
    (h : q.transferLast = some (t, q')) :
    transferWhile p q = (t :: (transferWhile p q').1, (transferWhile p q').2) := by
  rw [transferWhile, if_pos hp]
  split
  · next hn => rw [h] at hn; contradiction
  · next hs => rw [h] at hs; cases hs; rfl

theorem transferWhile_of_none {p : LoadQueue → Bool} (h : q.transferLast = none) :
    transferWhile p q = ([], q) := by
  rw [transferWhile]
  split
  · split
    · rfl
    · next hs => rw [h] at hs; contradiction
  · rfl

/-- A loop that gives nothing leaves the queue alone. -/
theorem transferWhile_eq_nil {p : LoadQueue → Bool} (h : (transferWhile p q).1 = []) :
    transferWhile p q = ([], q) := by
  cases hp : p q with
  | false => exact transferWhile_of_not hp
  | true =>
    cases hs : q.transferLast with
    | some r =>
      rw [transferWhile_of_some hp (show q.transferLast = some (r.1, r.2) from hs)] at h
      contradiction
    | none => exact transferWhile_of_none hs

/-- After what a loop gives first, it goes on with the rest. -/
theorem transferWhile_eq_cons {p : LoadQueue → Bool} {t : Transfer} {ts : List Transfer}
    (h : (transferWhile p q).1 = t :: ts) : ∃ q', q.transferLast = some (t, q') ∧
      transferWhile p q' = (ts, (transferWhile p q).2) := by
  cases hp : p q with
  | false =>
    rw [transferWhile_of_not hp] at h
    contradiction
  | true =>
    cases hs : q.transferLast with
    | none =>
      rw [transferWhile_of_none hs] at h
      contradiction
    | some r =>
      obtain ⟨t', q'⟩ := r
      rw [transferWhile_of_some hp hs] at h ⊢
      simp only [List.cons.injEq] at h
      obtain ⟨rfl, rfl⟩ := h
      exact ⟨q', rfl, rfl⟩

end Roster.LoadQueue
