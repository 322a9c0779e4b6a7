import Roster.Proofs.Rebalance.Steps
import Roster.Proofs.Renaming.Loads

/-! Plans for items and workers that stand for one another. No phase of a plan asks for more than the
order of the identifiers, so each one does the same to related tables and memberships. -/

namespace Roster

open List Relator Ordered

variable {I : ItemId → ItemId → Prop} {W : WorkerId → WorkerId → Prop}

/-- Tables of related workers that list related items. -/
def Table.Related (I : ItemId → ItemId → Prop) (W : WorkerId → WorkerId → Prop) (t u : Table) :
    Prop :=
  Forall₂ (Both W (Forall₂ I)) t.entries u.entries

structure Membership.Related (I : ItemId → ItemId → Prop) (W : WorkerId → WorkerId → Prop)
    (m n : Membership) : Prop where
  items : Forall₂ I m.items n.items
  workers : Forall₂ W m.workers.toList n.workers.toList

/-- Plans of related moves, phase by phase. -/
structure Plan.Related (I : ItemId → ItemId → Prop) (W : WorkerId → WorkerId → Prop)
    (p q : Plan) : Prop where
  removed : Forall₂ W p.removed q.removed
  added : Forall₂ W p.added q.added
  dropped : Forall₂ (Both I W) p.dropped q.dropped
  assigned : Forall₂ (Both I W) p.assigned q.assigned
  shed : Forall₂ (Transfer.Related I W) p.shed q.shed
  filled : Forall₂ (Transfer.Related I W) p.filled q.filled
  avg : p.avg = q.avg

namespace Table.Related

variable {t u : Table} {v w : WorkerId}

theorem workers (h : t.Related I W u) : Forall₂ W t.workers u.workers :=
  rel_map (fun _ _ he => he.fst) h

theorem get? (hW : Faithful W) (h : t.Related I W u) (hvw : W v w) :
    Option.Rel (Forall₂ I) (t.owners.get? v) (u.owners.get? w) :=
  OrderedMap.rel_lookup hW hvw h

theorem itemsFor (hW : Faithful W) (h : t.Related I W u) (hvw : W v w) :
    Forall₂ I (t.itemsFor v) (u.itemsFor w) := by
  have hget := h.get? hW hvw
  unfold Table.itemsFor
  generalize t.owners.get? v = a at hget ⊢
  generalize u.owners.get? w = b at hget ⊢
  cases hget with
  | none => exact .nil
  | some hitems => exact hitems

theorem containsWorker_eq (hW : Faithful W) (h : t.Related I W u) (hvw : W v w) :
    t.containsWorker v = u.containsWorker w := by
  have hget := h.get? hW hvw
  unfold containsWorker OrderedMap.contains
  generalize t.owners.get? v = a at hget ⊢
  generalize u.owners.get? w = b at hget ⊢
  cases hget <;> rfl

end Table.Related

namespace Planner

open Load LoadQueue

variable {t u : Table} {m n : Membership} {registered registered' taken taken' items items' owned
  owned' : List ItemId} {ws ws' : List WorkerId} {q r : LoadQueue}

theorem rel_sift (hI : Faithful I) (hr : Forall₂ I registered registered')
    (ht : Forall₂ I taken taken') (h : Forall₂ I items items') :
    Both (Forall₂ I) (Forall₂ I) (sift registered taken items)
      (sift registered' taken' items') := by
  induction h generalizing taken taken' with
  | nil => exact ⟨.nil, .nil⟩
  | @cons i j items items' hij _ ih =>
    have hkeep : i ∈ registered ∧ i ∉ taken ↔ j ∈ registered' ∧ j ∉ taken' :=
      and_congr (rel_mem hI.biUnique hij hr) (not_congr (rel_mem hI.biUnique hij ht))
    by_cases hi : i ∈ registered ∧ i ∉ taken
    · obtain ⟨hkept, hlost⟩ := ih (.cons hij ht)
      rw [sift_cons_kept hi, sift_cons_kept (hkeep.1 hi)]
      exact ⟨.cons hij hkept, hlost⟩
    · obtain ⟨hkept, hlost⟩ := ih ht
      rw [sift_cons_lost hi, sift_cons_lost (mt hkeep.2 hi)]
      exact ⟨hkept, .cons hij hlost⟩

theorem rel_survey (hI : Faithful I) (hW : Faithful W) (htu : t.Related I W u)
    (hr : Forall₂ I registered registered') (ht : Forall₂ I taken taken') (h : Forall₂ W ws ws') :
    Both (Forall₂ (Both W (Forall₂ I))) (Forall₂ (Both I W)) (survey t registered taken ws)
      (survey u registered' taken' ws') := by
  induction h generalizing taken taken' with
  | nil => exact ⟨.nil, .nil⟩
  | cons hvw _ ih =>
    have hsift := rel_sift hI hr ht (hI.sort (htu.itemsFor hW hvw))
    obtain ⟨hholdings, hdropped⟩ := ih (rel_append hsift.fst ht)
    rw [survey_cons, survey_cons]
    exact ⟨.cons ⟨hvw, hsift.fst⟩ hholdings,
      rel_append (rel_map (fun _ _ hij => ⟨hij, hvw⟩) hsift.snd) hdropped⟩

theorem rel_assignAll (hI : Faithful I) (hW : Faithful W) (ho : Forall₂ I owned owned')
    (hq : q.Related I W r) (h : Forall₂ I items items') :
    Both (Forall₂ (Both I W)) (LoadQueue.Related I W) (assignAll owned q items)
      (assignAll owned' r items') := by
  induction h generalizing owned owned' q r with
  | nil => exact ⟨.nil, hq⟩
  | @cons i j items items' hij _ ih =>
    have howned : i ∈ owned ↔ j ∈ owned' := rel_mem hI.biUnique hij ho
    have hassign := rel_assign hI hW hq hij
    rw [assignAll, assignAll]
    by_cases hi : i ∈ owned
    · rw [if_pos hi, if_pos (howned.1 hi)]
      exact ih ho hq
    · rw [if_neg hi, if_neg (mt howned.2 hi)]
      generalize q.assign i = a at hassign ⊢
      generalize r.assign j = b at hassign ⊢
      cases hassign with
      | none => exact ih ho hq
      | some hgiven =>
        obtain ⟨hassigned, hdealt⟩ := ih (.cons hij ho) hgiven.snd
        exact ⟨.cons ⟨hij, hgiven.fst⟩ hassigned, hdealt⟩

theorem rel_shed (hI : Faithful I) (hW : Faithful W) : (Eq ⇒ LoadQueue.Related I W ⇒
    Both (Forall₂ (Transfer.Related I W)) (LoadQueue.Related I W)) shed shed := by
  rintro avg _ rfl
  refine rel_transferWhile hI hW ?_
  intro q r h
  exact rel_any (fun _ _ hl => by rw [hl.size_eq]) h.heaviest

theorem rel_fill (hI : Faithful I) (hW : Faithful W) : (Eq ⇒ LoadQueue.Related I W ⇒
    Both (Forall₂ (Transfer.Related I W)) (LoadQueue.Related I W)) fill fill := by
  rintro avg _ rfl
  refine rel_transferWhile hI hW ?_
  intro q r h
  exact rel_any (fun _ _ hl => by rw [hl.size_eq]) h.lightest

theorem rel_spread (hI : Faithful I) (hW : Faithful W) (ho : Forall₂ I owned owned')
    (hq : q.Related I W r) (h : Forall₂ I items items') :
    (spread owned q items).Related I W (spread owned' r items') := by
  obtain ⟨hassigned, hdealt⟩ := rel_assignAll hI hW ho hq h
  have havg : (spread owned q items).avg = (spread owned' r items').avg :=
    congrArg₂ (· / ·) hdealt.totalItems_eq hdealt.workerCount_eq
  have hshed := rel_shed hI hW havg hdealt
  have hfilled := rel_fill hI hW havg hshed.snd
  exact ⟨.nil, .nil, .nil, hassigned, hshed.fst, hfilled.fst, havg⟩

/-- Related tables and memberships have related plans. -/
theorem rel_planFor (hI : Faithful I) (hW : Faithful W) (htu : t.Related I W u)
    (hmn : m.Related I W n) : (planFor t m).Related I W (planFor u n) := by
  obtain ⟨hholdings, hdropped⟩ := rel_survey hI hW htu hmn.items .nil hmn.workers
  have hheld : Forall₂ I (held t m) (held u n) := rel_flatMap hholdings fun _ _ h => h.snd
  have hloads : Forall₂ (Load.Related I W) (holdingsLoads t m) (holdingsLoads u n) :=
    rel_map (fun _ _ h => rel_of hI h.fst h.snd) hholdings
  have hspread := rel_spread hI hW hheld (rel_ofList hI hW hloads) hmn.items
  rw [planFor_eq, planFor_eq]
  exact { hspread with
    removed := rel_filter (fun v w hvw => by
      simp [rel_mem hW.biUnique hvw hmn.workers, OrderedSet.mem_def]) htu.workers
    added := rel_filter (fun v w hvw => by
      simp [htu.containsWorker_eq hW hvw]) hmn.workers
    dropped := hdropped }

end Planner

end Roster
