import Roster.Proofs.Load.Queue
import Roster.Proofs.Renaming.Lists

/-! Loads of workers and items that stand for one another. The order of loads looks at nothing but
sizes and the orders of items and workers, so a queue of related loads gives and takes alike. -/

namespace Roster

open List Relator Ordered

variable {I : ItemId → ItemId → Prop} {W : WorkerId → WorkerId → Prop}

namespace Load

/-- Loads of related workers with related items. -/
structure Related (I : ItemId → ItemId → Prop) (W : WorkerId → WorkerId → Prop) (l k : Load) :
    Prop where
  worker : W l.worker k.worker
  items : Forall₂ I l.items k.items

namespace Related

variable {l k : Load} {i j : ItemId}

theorem size_eq (h : Related I W l k) : l.size = k.size := h.items.length_eq

theorem insert (hI : Faithful I) (h : Related I W l k) (hij : I i j) :
    Related I W (l.insert i) (k.insert j) :=
  ⟨h.worker, hI.insert hij h.items⟩

theorem dropLast (h : Related I W l k) : Related I W l.dropLast k.dropLast :=
  ⟨h.worker, rel_dropLast h.items⟩

theorem faithful (hI : Faithful I) (hW : Faithful W) : Faithful (Related I W) := by
  intro l k hlk l' k' hlk'
  have hitems : compare l'.items l.items = compare k'.items k.items :=
    hI.lists hlk'.items hlk.items
  change order l l' = order k k'
  simp only [order, compareLex, compareOn, hlk.size_eq, hlk'.size_eq, hitems,
    hW hlk.worker hlk'.worker]

end Related

theorem rel_of (hI : Faithful I) : (W ⇒ Forall₂ I ⇒ Related I W) of of := by
  intro v w hvw l k hlk
  exact ⟨hvw, hI.sort hlk⟩

end Load

/-- Transfers of related items from and to related workers. -/
structure Transfer.Related (I : ItemId → ItemId → Prop) (W : WorkerId → WorkerId → Prop)
    (t u : Transfer) : Prop where
  item : I t.item u.item
  source : W t.source u.source
  target : W t.target u.target

namespace LoadQueue

/-- Queues of related loads. -/
def Related (I : ItemId → ItemId → Prop) (W : WorkerId → WorkerId → Prop) (q r : LoadQueue) :
    Prop :=
  Forall₂ (Load.Related I W) q.toList r.toList

variable {q r : LoadQueue}

theorem rel_ofList (hI : Faithful I) (hW : Faithful W) :
    (Forall₂ (Load.Related I W) ⇒ Related I W) ofList ofList := by
  intro ls ks h
  exact (Load.Related.faithful hI hW).sortOnce h

namespace Related

theorem workerCount_eq (h : Related I W q r) : q.workerCount = r.workerCount := h.length_eq

theorem totalItems_eq (h : Related I W q r) : q.totalItems = r.totalItems := by
  have hitems : (Load.Related I W ⇒ Forall₂ I) Load.items Load.items := fun _ _ h => h.items
  exact (rel_flatMap h hitems).length_eq

theorem lightest (h : Related I W q r) : Option.Rel (Load.Related I W) q.lightest r.lightest :=
  rel_head? h

theorem heaviest (h : Related I W q r) : Option.Rel (Load.Related I W) q.heaviest r.heaviest :=
  rel_getLast? h

end Related

theorem rel_assign (hI : Faithful I) (hW : Faithful W) :
    (Related I W ⇒ I ⇒ Option.Rel (Both W (Related I W))) assign assign := by
  intro q r h i j hij
  have hinsert := (Load.Related.faithful hI hW).insert
  have hlightest := h.lightest
  unfold assign
  generalize q.lightest = a at hlightest ⊢
  generalize r.lightest = b at hlightest ⊢
  cases hlightest with
  | none => exact .none
  | some hlight => exact .some ⟨hlight.worker, hinsert (hlight.insert hI hij) (rel_tail h)⟩

theorem rel_transferLast (hI : Faithful I) (hW : Faithful W) :
    (Related I W ⇒ Option.Rel (Both (Transfer.Related I W) (Related I W)))
      transferLast transferLast := by
  intro q r h
  have hinsert := (Load.Related.faithful hI hW).insert
  have hlightest := h.lightest
  have hheaviest := h.heaviest
  unfold transferLast
  generalize q.lightest = a at hlightest ⊢
  generalize r.lightest = b at hlightest ⊢
  generalize q.heaviest = c at hheaviest ⊢
  generalize r.heaviest = d at hheaviest ⊢
  cases hlightest with
  | none => exact .none
  | @some light light' hlight =>
    cases hheaviest with
    | none => exact .none
    | @some heavy heavy' hheavy =>
      dsimp only
      rw [hlight.size_eq, hheavy.size_eq]
      split
      · exact .none
      · have hlast := rel_getLast? hheavy.items
        generalize heavy.items.getLast? = e at hlast ⊢
        generalize heavy'.items.getLast? = f at hlast ⊢
        cases hlast with
        | none => exact .none
        | some hij =>
          have hrest := rel_tail (rel_dropLast h)
          exact .some ⟨⟨hij, hheavy.worker, hlight.worker⟩,
            hinsert (hlight.insert hI hij) (hinsert hheavy.dropLast hrest)⟩

/-- A loop goes round as often for related queues if its guard does not tell them apart. -/
theorem rel_transferWhile (hI : Faithful I) (hW : Faithful W) {p : LoadQueue → Bool}
    (hp : (Related I W ⇒ Eq) p p) :
    (Related I W ⇒ Both (Forall₂ (Transfer.Related I W)) (Related I W))
      (transferWhile p) (transferWhile p) := by
  intro q r h
  have hlast := rel_transferLast hI hW h
  fun_induction transferWhile p q generalizing r with
  | case1 q hgo hnone =>
    rw [hnone] at hlast
    cases hr : r.transferLast with
    | none =>
      rw [transferWhile_of_none hr]
      exact ⟨.nil, h⟩
    | some s =>
      rw [hr] at hlast
      cases hlast
  | case2 q hgo t q' hsome hlt ts last hrest ih =>
    rw [hsome] at hlast
    cases hr : r.transferLast with
    | none =>
      rw [hr] at hlast
      cases hlast
    | some s =>
      rw [hr] at hlast
      cases hlast with
      | some hs =>
        have hnext := ih hs.snd (rel_transferLast hI hW hs.snd)
        rw [hrest] at hnext
        rw [transferWhile_of_some (hp h ▸ hgo) hr]
        exact ⟨.cons hs.fst hnext.fst, hnext.snd⟩
  | case3 q hstop =>
    rw [transferWhile_of_not (by simpa [hp h] using hstop)]
    exact ⟨.nil, h⟩

end LoadQueue

end Roster
