import Mathlib.Algebra.GroupWithZero.Nat
import Roster.Proofs.Load.Queue
import Roster.Rebalance.Planner

/-! How far loads are from a level, and what assigning, shedding and filling do to that. Every item
given from above the level to below it lowers both distances by one, so the two loops of a plan run
exactly as often as the distances say. -/

namespace Roster

namespace Load

/-- The items beyond `avg + 1` at each load. -/
def excess (avg : Nat) (ls : List Load) : Nat := (ls.map fun l => l.size - (avg + 1)).sum

/-- The items that each load lacks of `avg`. -/
def shortage (avg : Nat) (ls : List Load) : Nat := (ls.map fun l => avg - l.size).sum

variable {avg : Nat} {l k : Load} {ls ks : List Load}

theorem excess_cons : excess avg (l :: ls) = (l.size - (avg + 1)) + excess avg ls := rfl

theorem shortage_cons : shortage avg (l :: ls) = (avg - l.size) + shortage avg ls := rfl

theorem excess_perm (h : ls.Perm ks) : excess avg ls = excess avg ks := (h.map _).sum_nat

theorem shortage_perm (h : ls.Perm ks) : shortage avg ls = shortage avg ks := (h.map _).sum_nat

theorem excess_eq_zero_iff : excess avg ls = 0 ↔ ∀ l ∈ ls, l.size ≤ avg + 1 := by
  rw [excess, List.sum_eq_zero_iff_forall_eq_nat]
  simp only [List.mem_map, forall_exists_index, and_imp, forall_apply_eq_imp_iff₂]
  constructor
  · intro h l hl
    have := h l hl
    omega
  · intro h l hl
    have := h l hl
    omega

theorem shortage_eq_zero_iff : shortage avg ls = 0 ↔ ∀ l ∈ ls, avg ≤ l.size := by
  rw [shortage, List.sum_eq_zero_iff_forall_eq_nat]
  simp only [List.mem_map, forall_exists_index, and_imp, forall_apply_eq_imp_iff₂]
  constructor
  · intro h l hl
    have := h l hl
    omega
  · intro h l hl
    have := h l hl
    omega

/-- One item more for a lightest load is one item less that is lacking. -/
theorem shortage_of_lightest (hl : ∀ j ∈ l :: ls, l.size ≤ j.size) (hk : k.size = l.size + 1) :
    shortage avg (k :: ls) = shortage avg (l :: ls) - 1 := by
  by_cases hlt : l.size < avg
  · rw [shortage_cons, shortage_cons]
    omega
  · have hzero : shortage avg (l :: ls) = 0 :=
      shortage_eq_zero_iff.2 fun j hj => Nat.le_trans (by omega) (hl j hj)
    rw [shortage_cons] at hzero
    rw [shortage_cons, shortage_cons]
    omega

/-- One item less for a heaviest load is one item less in excess. -/
theorem excess_of_heaviest (hl : ∀ j ∈ l :: ls, j.size ≤ l.size) (hk : k.size = l.size - 1) :
    excess avg (k :: ls) = excess avg (l :: ls) - 1 := by
  by_cases hlt : avg + 1 < l.size
  · rw [excess_cons, excess_cons]
    omega
  · have hzero : excess avg (l :: ls) = 0 :=
      excess_eq_zero_iff.2 fun j hj => Nat.le_trans (hl j hj) (by omega)
    rw [excess_cons] at hzero
    rw [excess_cons, excess_cons]
    omega

end Load

namespace LoadQueue
open Load

variable {q q' : LoadQueue} {avg : Nat} {light heavy : Load} {rest : List Load}

theorem Assigns.shortage_eq {i : ItemId} {w : WorkerId} (h : Assigns q i w q' light rest)
    (hi : i ∉ itemsOf q.toList) :
    shortage avg q'.toList = shortage avg q.toList - 1 := by
  have hl : i ∉ light.items := fun hm => h.not_mem hi (List.mem_append_left _ hm)
  rw [shortage_perm h.after, shortage_perm h.before]
  exact shortage_of_lightest h.lightest (size_insert hl)

theorem Assigns.excess_eq {i : ItemId} {w : WorkerId} (h : Assigns q i w q' light rest)
    (hi : i ∉ itemsOf q.toList) (hle : light.size ≤ avg) :
    excess avg q'.toList = excess avg q.toList := by
  have hl : i ∉ light.items := fun hm => h.not_mem hi (List.mem_append_left _ hm)
  have hs := size_insert hl
  rw [excess_perm h.after, excess_perm h.before, excess_cons, excess_cons]
  omega

theorem Gives.sizes {t : Transfer} (h : Gives q t q' light heavy rest) (ha : Apart q.toList) :
    (light.insert t.item).size = light.size + 1 ∧ heavy.dropLast.size = heavy.size - 1 :=
  ⟨size_insert ((ha.perm h.before).not_mem_of_last h.item), size_dropLast heavy⟩

theorem Gives.size_le_average {t : Transfer} (h : Gives q t q' light heavy rest) :
    light.size ≤ average q.toList := by
  have hne : light :: heavy :: rest ≠ [] := List.cons_ne_nil _ _
  obtain ⟨l, hl, hle⟩ := exists_size_le_average hne
  rw [average_perm h.before]
  exact Nat.le_trans (h.lightest l hl) hle

theorem Gives.excess_eq {t : Transfer} (h : Gives q t q' light heavy rest) (ha : Apart q.toList)
    (hle : light.size ≤ avg) : excess avg q'.toList = excess avg q.toList - 1 := by
  obtain ⟨hin, hout⟩ := h.sizes ha
  have hrest : ∀ l ∈ heavy :: rest, l.size ≤ heavy.size := fun l hl =>
    h.heaviest l (List.mem_cons_of_mem light hl)
  have hgiven : excess avg (heavy.dropLast :: rest) = excess avg (heavy :: rest) - 1 :=
    excess_of_heaviest hrest hout
  rw [excess_perm h.after, excess_perm h.before]
  simp only [excess_cons] at hgiven ⊢
  omega

theorem Gives.shortage_eq {t : Transfer} (h : Gives q t q' light heavy rest)
    (ha : Apart q.toList) (hlt : avg < heavy.size) :
    shortage avg q'.toList = shortage avg q.toList - 1 := by
  obtain ⟨hin, hout⟩ := h.sizes ha
  have hswap : (light :: heavy :: rest).Perm (heavy :: light :: rest) := .swap heavy light rest
  have hrest : ∀ l ∈ light :: rest, light.size ≤ l.size := fun l hl =>
    h.lightest l (hswap.mem_iff.2 (List.mem_cons_of_mem heavy hl))
  have htaken : shortage avg (light.insert t.item :: rest) = shortage avg (light :: rest) - 1 :=
    shortage_of_lightest hrest hin
  rw [shortage_perm h.after, shortage_perm h.before]
  simp only [shortage_cons] at htaken ⊢
  omega

/-! ### The loops -/

/-- Where somebody has too much, a load of at most the average receives from one with too much. -/
theorem exists_gives_of_heavy (ha : Apart q.toList) (havg : average q.toList = avg)
    (hp : q.heaviest.any (avg + 1 < ·.size) = true) :
    ∃ t q' light heavy rest, q.transferLast = some (t, q') ∧ Gives q t q' light heavy rest ∧
      light.size ≤ avg ∧ avg + 1 < heavy.size := by
  obtain ⟨k, hk, hgt⟩ := any_heaviest_iff.1 hp
  obtain ⟨l, hl, hle⟩ := exists_size_le_average (List.ne_nil_of_mem hk)
  rw [havg] at hle
  obtain ⟨t, q', hsome⟩ := exists_transferLast hl hk (by omega)
  obtain ⟨light, heavy, rest, hg⟩ := gives_of_transferLast ha hsome
  have hlight := hg.size_le_average
  rw [havg] at hlight
  have hheavy := hg.heaviest k (hg.before.mem_iff.1 hk)
  exact ⟨t, q', light, heavy, rest, hsome, hg, hlight, by omega⟩

/-- Where somebody lacks an item, a load that lacks one receives from one above the average. -/
theorem exists_gives_of_light (ha : Apart q.toList) (havg : average q.toList = avg)
    (hp : q.lightest.any (·.size < avg) = true) :
    ∃ t q' light heavy rest, q.transferLast = some (t, q') ∧ Gives q t q' light heavy rest ∧
      light.size < avg ∧ avg < heavy.size := by
  obtain ⟨l, hl, hlt⟩ := any_lightest_iff.1 hp
  have hlt' : l.size < average q.toList := by rwa [havg]
  obtain ⟨k, hk, hgt⟩ := exists_average_lt_size hl hlt'
  rw [havg] at hgt
  obtain ⟨t, q', hsome⟩ := exists_transferLast hl hk (by omega)
  obtain ⟨light, heavy, rest, hg⟩ := gives_of_transferLast ha hsome
  have hlight := hg.lightest l (hg.before.mem_iff.1 hl)
  have hheavy := hg.heaviest k (hg.before.mem_iff.1 hk)
  exact ⟨t, q', light, heavy, rest, hsome, hg, by omega, by omega⟩

/-- A loop that runs for as long as something is needed, and lowers the need by one each time, runs
exactly that often; what else each round lowers by one is lowered that often too. -/
theorem transferWhile_counts {p : LoadQueue → Bool} (need other : LoadQueue → Nat)
    (ha : Apart q.toList)
    (hrun : ∀ r, Rearranges q r → p r = true → ∃ t r', r.transferLast = some (t, r') ∧
      need r' + 1 = need r ∧ other r' = other r - 1)
    (hstop : ∀ r, Rearranges q r → p r = false → need r = 0) :
    Rearranges q (transferWhile p q).2 ∧ (transferWhile p q).1.length = need q ∧
      need (transferWhile p q).2 = 0 ∧ other (transferWhile p q).2 = other q - need q := by
  fun_induction transferWhile p q with
  | case1 q hp hnone =>
    obtain ⟨t, r, hsome, -⟩ := hrun q (.refl ha) hp
    rw [hnone] at hsome
    contradiction
  | case2 q hp t q' hsome hlt ts last hlast ih =>
    obtain ⟨t', r, hsome', hneed, hother⟩ := hrun q (.refl ha) hp
    rw [hsome] at hsome'
    cases hsome'
    obtain ⟨light, heavy, rest, hg⟩ := gives_of_transferLast ha hsome
    have hq := hg.rearranges ha
    obtain ⟨hre, hlen, hzero, hfall⟩ := ih hq.apart
      (fun r hr => hrun r (hq.trans hr)) (fun r hr => hstop r (hq.trans hr))
    rw [hlast] at hre hlen hzero hfall
    dsimp only at hlen hfall
    refine ⟨hq.trans hre, ?_, hzero, ?_⟩
    · simp only [List.length_cons]
      omega
    · change other last = other q - need q
      rw [hfall, hother]
      omega
  | case3 q hp =>
    have hzero := hstop q (.refl ha) (by simpa using hp)
    exact ⟨.refl ha, hzero.symm, hzero, by simp [hzero]⟩

/-- Shedding takes the excess away and uses up that much of the shortage. -/
theorem shed_counts (ha : Apart q.toList) (havg : average q.toList = avg) :
    Rearranges q (Planner.shed avg q).2 ∧
      (Planner.shed avg q).1.length = excess avg q.toList ∧
      excess avg (Planner.shed avg q).2.toList = 0 ∧
      shortage avg (Planner.shed avg q).2.toList =
        shortage avg q.toList - excess avg q.toList := by
  refine transferWhile_counts (fun r => excess avg r.toList) (fun r => shortage avg r.toList)
    ha ?_ ?_
  · intro r hr hp
    obtain ⟨t, r', light, heavy, rest, hsome, hg, hlight, hheavy⟩ :=
      exists_gives_of_heavy hr.apart (hr.average_eq.trans havg) hp
    have hexcess := hg.excess_eq hr.apart hlight
    have hpos : excess avg r.toList ≠ 0 := by
      intro hzero
      have := excess_eq_zero_iff.1 hzero heavy (hg.before.mem_iff.2 (by simp))
      omega
    exact ⟨t, r', hsome, by omega, hg.shortage_eq hr.apart (by omega)⟩
  · intro r hr hp
    refine excess_eq_zero_iff.2 ?_
    intro l hl
    by_cases hgt : avg + 1 < l.size
    · have := any_heaviest_iff.2 ⟨l, hl, hgt⟩
      rw [hp] at this
      contradiction
    · omega

/-- Filling takes the shortage away. -/
theorem fill_counts (ha : Apart q.toList) (havg : average q.toList = avg) :
    Rearranges q (Planner.fill avg q).2 ∧
      (Planner.fill avg q).1.length = shortage avg q.toList ∧
      shortage avg (Planner.fill avg q).2.toList = 0 ∧
      excess avg (Planner.fill avg q).2.toList =
        excess avg q.toList - shortage avg q.toList := by
  refine transferWhile_counts (fun r => shortage avg r.toList) (fun r => excess avg r.toList)
    ha ?_ ?_
  · intro r hr hp
    obtain ⟨t, r', light, heavy, rest, hsome, hg, hlight, hheavy⟩ :=
      exists_gives_of_light hr.apart (hr.average_eq.trans havg) hp
    have hshort := hg.shortage_eq hr.apart hheavy
    have hpos : shortage avg r.toList ≠ 0 := by
      intro hzero
      have := shortage_eq_zero_iff.1 hzero light (hg.before.mem_iff.2 List.mem_cons_self)
      omega
    exact ⟨t, r', hsome, by omega, hg.excess_eq hr.apart (by omega)⟩
  · intro r hr hp
    refine shortage_eq_zero_iff.2 ?_
    intro l hl
    by_cases hlt : l.size < avg
    · have := any_lightest_iff.2 ⟨l, hl, hlt⟩
      rw [hp] at this
      contradiction
    · omega

end LoadQueue

end Roster
