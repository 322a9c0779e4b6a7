import Roster.Proofs.Rebalance.Churn

/-! How often the two loops of a plan go round. Whoever the guard of a loop names, there is a
transfer for them, so a loop ends by its guard alone, and it makes as many transfers as what is kept
tells. -/

namespace Roster

namespace LoadQueue
open Load

/-- From `q` the transfers `ts` are made while `p` holds, up to `last` where it does not. There is
no case for a queue that refuses a transfer though `p` holds. -/
inductive RunsOut (p : LoadQueue → Bool) : LoadQueue → List Transfer → LoadQueue → Prop
  | stop {q : LoadQueue} (hp : p q = false) : RunsOut p q [] q
  | go {q q' last : LoadQueue} {t : Transfer} {ts : List Transfer} (hp : p q = true)
      (ht : q.transferLast = some (t, q')) (hr : RunsOut p q' ts last) :
      RunsOut p q (t :: ts) last

variable {q : LoadQueue} {p : LoadQueue → Bool} {avg : Nat}

theorem runsOut_transferWhile (ha : Apart q.toList)
    (hrun : ∀ r, Rearranges q r → p r = true → ∃ t r', r.transferLast = some (t, r')) :
    RunsOut p q (transferWhile p q).1 (transferWhile p q).2 := by
  fun_induction transferWhile p q with
  | case1 q hp hnone =>
    obtain ⟨t, r, hsome⟩ := hrun q (.refl ha) hp
    rw [hnone] at hsome
    contradiction
  | case2 q hp t q' hsome hlt ts last hlast ih =>
    obtain ⟨light, heavy, rest, hg⟩ := gives_of_transferLast ha hsome
    have hq := hg.rearranges ha
    have hrest := ih hq.apart fun r hr => hrun r (hq.trans hr)
    rw [hlast] at hrest
    exact .go hp hsome hrest
  | case3 q hp => exact .stop (by simpa using hp)

theorem runsOut_shed (ha : Apart q.toList) (havg : average q.toList = avg) :
    RunsOut (fun q => q.heaviest.any (avg + 1 < ·.size)) q (Planner.shed avg q).1
      (Planner.shed avg q).2 := by
  refine runsOut_transferWhile ha ?_
  intro r hr hp
  obtain ⟨t, r', light, heavy, rest, hsome, -⟩ :=
    exists_gives_of_heavy hr.apart (hr.average_eq.trans havg) hp
  exact ⟨t, r', hsome⟩

theorem runsOut_fill (ha : Apart q.toList) (havg : average q.toList = avg) :
    RunsOut (fun q => q.lightest.any (·.size < avg)) q (Planner.fill avg q).1
      (Planner.fill avg q).2 := by
  refine runsOut_transferWhile ha ?_
  intro r hr hp
  obtain ⟨t, r', light, heavy, rest, hsome, -⟩ :=
    exists_gives_of_light hr.apart (hr.average_eq.trans havg) hp
  exact ⟨t, r', hsome⟩

end LoadQueue

namespace Planner
open Load LoadQueue Table

variable {t : Table} {m : Membership} {avg : Nat}

/-- The queue once every item has an owner. -/
def dealt (t : Table) (m : Membership) : LoadQueue :=
  (assignAll (held t m) (holdingsQueue t m) m.items).2

theorem excess_eq_sum : excess avg (holdingsQueue t m).toList =
    ((holdings t m).map fun h => h.2.length - (avg + 1)).sum := by
  rw [excess_perm holdingsQueue_perm, excess, holdingsLoads, List.map_map]
  simp only [Function.comp_def, size_of]

theorem shortage_eq_sum : shortage avg (holdingsQueue t m).toList =
    ((holdings t m).map fun h => avg - h.2.length).sum := by
  rw [shortage_perm holdingsQueue_perm, shortage, holdingsLoads, List.map_map]
  simp only [Function.comp_def, size_of]

/-- Both loops come to the end of their guard. Shedding takes what anybody keeps beyond the average
and one; filling brings what is lacking of the average once the items dealt out and those that were
shed are counted in. -/
theorem loops_run_out (hm : m.workers.isEmpty = false) :
    ∃ p even last, plan t m = .ok p ∧
      RunsOut (fun q => q.heaviest.any (p.avg + 1 < ·.size)) (dealt t m) p.shed even ∧
      RunsOut (fun q => q.lightest.any (·.size < p.avg)) even p.filled last ∧
      (holdings t m).map (·.1) = m.workers.toList ∧
      p.stats.itemsShed = ((holdings t m).map fun h => h.2.length - (p.avg + 1)).sum ∧
      p.stats.itemsFilled = ((holdings t m).map fun h => p.avg - h.2.length).sum -
        p.stats.itemsAssigned - p.stats.itemsShed := by
  have hapart : Apart (dealt t m).toList := (deals_planFor hm).apart
  have hre := (shed_counts hapart rfl).1
  obtain ⟨hshed, hfilled⟩ := length_shed_and_filled hm (rfl : (planFor t m).avg = _)
  rw [excess_eq_sum] at hshed hfilled
  rw [shortage_eq_sum, ← hshed] at hfilled
  exact ⟨planFor t m, _, _, plan_eq hm, runsOut_shed hapart rfl,
    runsOut_fill hre.apart hre.average_eq, map_fst_holdings, hshed, hfilled⟩

/-- Lists out of order, with an item twice and one that is listed by both; one worker is gone and
one is new. -/
def jumbled : Table where
  owners :=
    { entries :=
        [(⟨1⟩, [⟨"ac", by decide⟩, ⟨"aa", by decide⟩, ⟨"ae", by decide⟩, ⟨"ac", by decide⟩,
          ⟨"ab", by decide⟩, ⟨"af", by decide⟩]),
        (⟨2⟩, [⟨"ae", by decide⟩]),
        (⟨5⟩, [⟨"ag", by decide⟩, ⟨"ad", by decide⟩])]
      strict := by decide }

def shift : Membership where
  items := [⟨"af", by decide⟩, ⟨"ae", by decide⟩, ⟨"ad", by decide⟩, ⟨"ac", by decide⟩,
    ⟨"ab", by decide⟩, ⟨"aa", by decide⟩, ⟨"ad", by decide⟩]
  workers := .ofList [⟨1⟩, ⟨2⟩, ⟨3⟩]

theorem jumbled_run_out : ¬ jumbled.Ascending ∧ shift.workers.isEmpty = false ∧
    ∃ p even last, plan jumbled shift = .ok p ∧
      RunsOut (fun q => q.heaviest.any (p.avg + 1 < ·.size)) (dealt jumbled shift) p.shed even ∧
      RunsOut (fun q => q.lightest.any (·.size < p.avg)) even p.filled last ∧
      (holdings jumbled shift).map (·.1) = shift.workers.toList ∧
      p.stats.itemsShed =
        ((holdings jumbled shift).map fun h => h.2.length - (p.avg + 1)).sum ∧
      p.stats.itemsFilled = ((holdings jumbled shift).map fun h => p.avg - h.2.length).sum -
        p.stats.itemsAssigned - p.stats.itemsShed :=
  ⟨by decide, by decide, loops_run_out (by decide)⟩

end Planner

end Roster
