import Roster.Proofs.Backend
import Roster.Proofs.Registry
import Roster.Scheduler.Basic

/-! What the jobs of a scheduler do, one by one. A job whose turn it is changes its own launch and
the backend, and in one of a few ways; any other job does nothing. -/

namespace Roster

namespace Rebalancer

/-- A tick works on the table alone. -/
theorem spares_tick (r : Rebalancer) (b : Backend) : b.Spares (r.tick b).backend := by
  have hcarry : b.Spares (carryOut b).2 := by
    have hs := b.spares_snapshot
    rw [carryOut]
    split
    · next h => rwa [h] at hs
    · next t b₁ h =>
      rw [h] at hs
      have hm := b₁.spares_members
      split
      · next h => exact hs.trans (by rwa [h] at hm)
      · next m b₂ h =>
        rw [h] at hm
        split
        · exact hs.trans hm
        · next p _ =>
          have hall := b₂.spares_applyAll p.moves
          split
          · next h => exact (hs.trans hm).trans (by rwa [h] at hall)
          · next h => exact (hs.trans hm).trans (by rwa [h] at hall)
  rw [tick]
  split
  · next h => rwa [h] at hcarry
  · next p b₁ h =>
    rw [h] at hcarry
    have hs := b₁.spares_snapshot
    split
    · next h => exact hcarry.trans (by rwa [h] at hs)
    · next t b₂ h =>
      rw [h] at hs
      split <;> exact hcarry.trans hs

end Rebalancer

namespace Launch

/-- What a job makes of its launch `l` and of the backend, and what it takes for that. -/
inductive Turn (s : Scheduler) (l : Launch) : Launch → Backend → Prop
  /-- Nothing is registered, be it that the call fails or that the worker is registered already. -/
  | refused (e : Error) (o : List (Call × List Spell)) (h : l.stage = .registering) :
      Turn s l { l with stage := .over (.failed e) } { s.backend with outages := o }
  | registered (o : List (Call × List Spell)) (h : l.stage = .registering)
      (hw : l.worker ∉ s.backend.registry.workers) :
      Turn s l { l with stage := .electing }
        { s.backend with registry := (s.backend.registry.registerWorker l.worker).2, outages := o }
  | unelected (e : Error) (o : List (Call × List Spell)) (h : l.stage = .electing) :
      Turn s l { l with stage := .over (.failed e) } { s.backend with outages := o }
  | won (o : List (Call × List Spell)) (h : l.stage = .electing)
      (hw : (s.backend.election.tryLead l.worker).1 = true) :
      Turn s l { l with stage := .running s.now, loop := .live .fresh s.now }
        { s.backend with election := (s.backend.election.tryLead l.worker).2, outages := o }
  | lost (o : List (Call × List Spell)) (h : l.stage = .electing)
      (hw : (s.backend.election.tryLead l.worker).1 = false) :
      Turn s l { l with stage := .running s.now }
        { s.backend with election := (s.backend.election.tryLead l.worker).2, outages := o }
  | passed {time : Nat} (time' : Nat) (h : l.stage = .running time) :
      Turn s l
        { l with
          crew := (l.crew.reconcile s.now (s.backend.itemsFor l.worker).1 s.nextBehaviour).2
          stage := .running time' }
        (s.backend.itemsFor l.worker).2
  | ticked {r : Rebalancer} {time : Nat} (time' : Nat) (h : l.loop = .live r time) :
      Turn s l { l with loop := .live (r.tick s.backend).rebalancer time' }
        (r.tick s.backend).backend
  | loopEnded (h : l.loop.isLive = true) (hc : l.line.closes = true) :
      Turn s l { l with loop := .over } s.backend
  | stopped {time : Nat} (h : l.stage = .running time) (hc : l.line.closes = true) :
      Turn s l (l.beginStop s.now) s.backend
  | worked (generation : Nat) :
      Turn s l { l with crew := l.crew.runTask s.now generation } s.backend
  | looked {deadline wake : Nat} (h : l.stage = .settling deadline wake) :
      Turn s l ({ l with crew := l.crew.receive }.look s.now deadline) s.backend
  | left (o : List (Call × List Spell)) (h : l.stage = .leaving) (hl : l.loop.isLive = false) :
      Turn s l { l with stage := .over .stopped }
        { s.backend with
          registry := (s.backend.registry.deregisterWorker l.worker).2
          outages := o }
  | unregistered (e : Error) (o : List (Call × List Spell)) (h : l.stage = .leaving)
      (hl : l.loop.isLive = false) :
      Turn s l { l with stage := .over (.failed e) } { s.backend with outages := o }

end Launch

/-- The launch whose job it is. -/
def Job.owner : Job → Nat
  | .register n | .elect n | .pass n | .tick n | .endLoop n | .shutDown n | .task n _ | .look n
  | .leave n => n

namespace Scheduler

/-- Launch `n`, which is `l`, has had its turn. -/
inductive Took (s : Scheduler) (n : Nat) (l : Launch) : Scheduler → Prop
  | idle : Took s n l s
  | turn {l' : Launch} {b : Backend} (log : List Log.Event) (h : l.Turn s l' b) :
      Took s n l ({ s with backend := b, log }.setLaunch n l')

theorem took_register (s : Scheduler) (n : Nat) (l : Launch) : Took s n l (s.register n l) := by
  rw [register]
  split
  · next hl =>
    obtain ⟨o, hr | ⟨e, hr⟩⟩ := s.backend.registerWorker_cases l.worker
    · rw [hr]
      by_cases hw : l.worker ∈ s.backend.registry.workers
      · rw [Registry.registerWorker_of_mem hw, decide_eq_false (not_not.2 hw)]
        exact .turn s.log (.refused _ o hl)
      · rw [decide_eq_true hw]
        exact .turn s.log (.registered o hl hw)
    · rw [hr]
      exact .turn s.log (.refused e o hl)
  · exact .idle

theorem took_elect (s : Scheduler) (n : Nat) (l : Launch) : Took s n l (s.elect n l) := by
  rw [elect]
  split
  · next hl =>
    obtain ⟨o, hr | ⟨e, hr⟩⟩ := s.backend.elect_cases l.worker
    · rw [hr]
      cases hw : (s.backend.election.tryLead l.worker).1 with
      | true => exact .turn s.log (.won o hl hw)
      | false => exact .turn s.log (.lost o hl hw)
    · rw [hr]
      exact .turn s.log (.unelected e o hl)
  · exact .idle

theorem took_pass (s : Scheduler) (n : Nat) (l : Launch) : Took s n l (s.pass n l) := by
  rw [pass]
  split
  · next time hl =>
    split
    · exact .turn _ (.passed _ hl)
    · exact .idle
  · exact .idle

theorem took_tick (s : Scheduler) (n : Nat) (l : Launch) : Took s n l (s.tick n l) := by
  rw [tick]
  split
  · next r time hl =>
    split
    · exact .turn _ (.ticked _ hl)
    · exact .idle
  · exact .idle

theorem took_endLoop (s : Scheduler) (n : Nat) (l : Launch) : Took s n l (s.endLoop n l) := by
  rw [endLoop]
  split
  · next h =>
    obtain ⟨hl, hc⟩ := Bool.and_eq_true_iff.1 h
    exact .turn s.log (.loopEnded hl hc)
  · exact .idle

theorem took_shutDown (s : Scheduler) (n : Nat) (l : Launch) : Took s n l (s.shutDown n l) := by
  rw [shutDown]
  split
  · next time hl =>
    split
    · next hc => exact .turn s.log (.stopped hl hc)
    · exact .idle
  · exact .idle

theorem took_look (s : Scheduler) (n : Nat) (l : Launch) : Took s n l (s.look n l) := by
  rw [look]
  split
  · next deadline wake hl =>
    split
    · exact .turn s.log (.looked hl)
    · exact .idle
  · exact .idle

theorem took_leave (s : Scheduler) (n : Nat) (l : Launch) : Took s n l (s.leave n l) := by
  rw [leave]
  split
  · next h =>
    obtain ⟨hl, hloop⟩ := Bool.and_eq_true_iff.1 h
    have hl := of_decide_eq_true hl
    rw [Bool.not_eq_true'] at hloop
    obtain ⟨o, hr | ⟨e, hr⟩⟩ := s.backend.deregisterWorker_cases l.worker
    · rw [hr]
      exact .turn s.log (.left o hl hloop)
    · rw [hr]
      exact .turn s.log (.unregistered e o hl hloop)
  · exact .idle

/-- A job is a turn of one launch, if it does anything. -/
theorem perform_cases (s : Scheduler) (j : Job) : s.perform j = s ∨
    ∃ n l, s.launches[n]? = some l ∧ Took s n l (s.perform j) := by
  cases hl : s.launches[j.owner]? with
  | none =>
    left
    cases j <;> (simp only [Job.owner] at hl; simp only [perform, hl])
  | some l =>
    refine .inr ⟨j.owner, l, hl, ?_⟩
    cases j <;> simp only [Job.owner] at hl <;> simp only [perform, hl]
    case register n => exact s.took_register n l
    case elect n => exact s.took_elect n l
    case pass n => exact s.took_pass n l
    case tick n => exact s.took_tick n l
    case endLoop n => exact s.took_endLoop n l
    case shutDown n => exact s.took_shutDown n l
    case task n g => exact .turn s.log (.worked g)
    case look n => exact s.took_look n l
    case leave n => exact s.took_leave n l

theorem getElem?_setLaunch {s : Scheduler} {n k : Nat} {l x : Launch}
    (h : (s.setLaunch n l).launches[k]? = some x) :
    k = n ∧ x = l ∨ k ≠ n ∧ s.launches[k]? = some x := by
  rw [setLaunch, List.getElem?_set] at h
  split at h
  · next hk =>
    split at h
    · exact .inl ⟨hk.symm, (Option.some.inj h).symm⟩
    · cases h
  · next hk => exact .inr ⟨fun hc => hk hc.symm, h⟩

/-! ### Runs -/

/-- What may happen to a scheduler whose workers come and go with their launches. -/
inductive Act where
  | launch (w : WorkerId)
  | signal (launch : Nat) (value : Bool)
  | hangUp (launch : Nat)
  | job (j : Job)
  | sleep (ms : Nat)
  | registerItem (i : ItemId)
  | deregisterItem (i : ItemId)
  /-- A move that comes from elsewhere. -/
  | move (mv : Move)
  /-- What the next calls meet is changed. -/
  | outages (o : List (Call × List Spell))
  deriving DecidableEq

def act (s : Scheduler) : Act → Scheduler
  | .launch w => (s.launch w).2
  | .signal n value => (s.signal n value).2
  | .hangUp n => (s.hangUp n).2
  | .job j => s.perform j
  | .sleep ms => { s with now := s.now + ms }
  | .registerItem i => { s with backend := (s.backend.registerItem i).2 }
  | .deregisterItem i => { s with backend := (s.backend.deregisterItem i).2 }
  | .move mv => { s with backend := (s.backend.apply mv).2 }
  | .outages o => { s with backend := { s.backend with outages := o } }

def run (s : Scheduler) (acts : List Act) : Scheduler := acts.foldl act s

/-- A scheduler without launches, over services that may have been in use before. -/
def unlaunched (timing : Timing) (script : Script) (b : Backend) : Scheduler :=
  ⟨timing, script, 0, b, [], []⟩

end Scheduler

end Roster
