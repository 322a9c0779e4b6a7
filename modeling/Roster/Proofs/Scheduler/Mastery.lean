import Roster.Proofs.Scheduler.Turns

/-! One crew for each worker and one rebalance loop in all. A launch has its worker registered from
before the election until its loop is over, so while it lasts nobody else gets that identifier; and
a loop belongs to a launch of the leader, whoever launches the leader again. -/

namespace Roster

namespace Election

variable {e : Election} {v w : WorkerId}

theorem leader_tryLead (h : e.leader = some v) (w : WorkerId) :
    (e.tryLead w).2.leader = some v := by
  rw [tryLead, h]
  rfl

theorem leader_of_tryLead (h : (e.tryLead w).1 = true) : (e.tryLead w).2.leader = some w :=
  congrArg some (of_decide_eq_true h)

end Election

namespace Launch

variable {s : Scheduler} {b b' : Backend} {l l' : Launch}

/-- It has been through the election and has not left. A launch that broke off never leaves. -/
def isInstalled (l : Launch) : Bool :=
  match l.stage with
  | .running _ | .settling .. | .leaving | .over (.broken _) => true
  | .registering | .electing | .over .stopped | .over (.failed _) => false

/-- It has registered its worker and not gone on to deregister it. -/
def holdsId (l : Launch) : Bool := l.stage = .electing || l.isInstalled

theorem holdsId_of_isInstalled (h : l.isInstalled = true) : l.holdsId = true := by
  rw [holdsId, h, Bool.or_true]

theorem holdsId_of_isActive (h : l.isActive = true) : l.holdsId = true := by
  refine holdsId_of_isInstalled ?_
  rw [isActive] at h
  rw [isInstalled]
  split at h
  · next hl => rw [hl]
  · next hl => rw [hl]
  · cases h

/-- Looking at a crew changes what the launch waits for, and nothing else but the crew. -/
theorem look_installed (l : Launch) (now deadline : Nat) :
    (l.look now deadline).worker = l.worker ∧ (l.look now deadline).loop = l.loop ∧
      (l.look now deadline).isInstalled = true := by
  rw [look]
  split <;> exact ⟨rfl, rfl, rfl⟩

theorem beginStop_installed (l : Launch) (now : Nat) :
    (l.beginStop now).worker = l.worker ∧ (l.beginStop now).loop = l.loop ∧
      (l.beginStop now).isInstalled = true := by
  simp only [beginStop]
  split
  · exact look_installed _ now _
  · exact ⟨rfl, rfl, rfl⟩

/-- A launch that has the identifier of its worker has it registered, and its loop is the
leader's. -/
structure Entitled (b : Backend) (l : Launch) : Prop where
  registered : l.holdsId = true → l.worker ∈ b.registry.workers
  leads : l.loop.isLive = true → l.isInstalled = true ∧ b.election.leader = some l.worker

/-- From `b` on the launch `l` has become `l'`. It has taken no identifier that was taken, and has
given up none but its own. -/
structure Succeeds (b : Backend) (l l' : Launch) (b' : Backend) : Prop where
  worker : l'.worker = l.worker
  entitled : l'.Entitled b'
  leader : ∀ w, b.election.leader = some w → b'.election.leader = some w
  kept : ∀ w ∈ b.registry.workers, (w = l.worker → l.holdsId = false) → w ∈ b'.registry.workers
  taken : l'.holdsId = true → l.holdsId = true ∨ l.worker ∉ b.registry.workers

theorem Entitled.of_spares (h : l.Entitled b) (hs : b.Spares b') (hw : l'.worker = l.worker)
    (hid : l'.holdsId = true → l.holdsId = true)
    (hloop : l'.loop.isLive = true → l.loop.isLive = true ∧ l'.isInstalled = true) :
    Succeeds b l l' b' where
  worker := hw
  entitled :=
    { registered := fun hl => by
        rw [hw, hs.registry]
        exact h.registered (hid hl)
      leads := fun hl => by
        rw [hw, hs.election]
        exact ⟨(hloop hl).2, (h.leads (hloop hl).1).2⟩ }
  leader w hl := by rwa [hs.election]
  kept w hm _ := by rwa [hs.registry]
  taken hl := .inl (hid hl)

/-- Before the election there is no loop. -/
theorem Entitled.isLive_loop (h : l.Entitled b) (hl : l.isInstalled = false) :
    l.loop.isLive = false :=
  Bool.eq_false_iff.2 fun hlive => Bool.eq_false_iff.1 hl (h.leads hlive).1

theorem Entitled.turn (h : l.Entitled s.backend) (ht : Turn s l l' b) :
    Succeeds s.backend l l' b := by
  cases ht with
  | refused e o hl =>
    refine h.of_spares ⟨rfl, rfl⟩ rfl (fun hid => nomatch hid) fun hlive => ?_
    have hnot := h.isLive_loop (by rw [isInstalled, hl])
    exact absurd hlive (Bool.eq_false_iff.1 hnot)
  | registered o hl hw =>
    have hnot := h.isLive_loop (by rw [isInstalled, hl])
    exact
      { worker := rfl
        entitled :=
          { registered := fun _ => OrderedSet.mem_insert.2 (.inl rfl)
            leads := fun hlive => absurd hlive (Bool.eq_false_iff.1 hnot) }
        leader := fun w hlead => hlead
        kept := fun w hm _ => OrderedSet.mem_insert.2 (.inr hm)
        taken := fun _ => .inr hw }
  | unelected e o hl =>
    refine h.of_spares ⟨rfl, rfl⟩ rfl (fun hid => nomatch hid) fun hlive => ?_
    have hnot := h.isLive_loop (by rw [isInstalled, hl])
    exact absurd hlive (Bool.eq_false_iff.1 hnot)
  | won o hl hw =>
    have hid : l.holdsId = true := by simp [holdsId, hl]
    exact
      { worker := rfl
        entitled :=
          { registered := fun _ => h.registered hid
            leads := fun _ => ⟨rfl, Election.leader_of_tryLead hw⟩ }
        leader := fun w hlead => Election.leader_tryLead hlead l.worker
        kept := fun w hm _ => hm
        taken := fun _ => .inl hid }
  | lost o hl hw =>
    have hid : l.holdsId = true := by simp [holdsId, hl]
    have hnot := h.isLive_loop (by rw [isInstalled, hl])
    exact
      { worker := rfl
        entitled :=
          { registered := fun _ => h.registered hid
            leads := fun hlive => absurd hlive (Bool.eq_false_iff.1 hnot) }
        leader := fun w hlead => Election.leader_tryLead hlead l.worker
        kept := fun w hm _ => hm
        taken := fun _ => .inl hid }
  | passed time' hl =>
    have hid : l.holdsId = true := by simp [holdsId, isInstalled, hl]
    exact h.of_spares (s.backend.spares_itemsFor l.worker) rfl (fun _ => hid)
      fun hlive => ⟨hlive, rfl⟩
  | ticked time' hl =>
    have hlive : l.loop.isLive = true := by rw [hl]; rfl
    have hin := (h.leads hlive).1
    exact h.of_spares (Rebalancer.spares_tick _ _) rfl (fun hid => hid) fun _ => ⟨hlive, hin⟩
  | loopEnded hl hc => exact h.of_spares (.refl _) rfl (fun hid => hid) fun hlive => nomatch hlive
  | stopped hl hc =>
    obtain ⟨hw, hloop, hin⟩ := l.beginStop_installed s.now
    have hid : l.holdsId = true := by simp [holdsId, isInstalled, hl]
    exact h.of_spares (.refl _) hw (fun _ => hid) fun hlive => ⟨hloop ▸ hlive, hin⟩
  | worked g =>
    exact h.of_spares (.refl _) rfl (fun hid => hid) fun hlive => ⟨hlive, (h.leads hlive).1⟩
  | looked hl =>
    obtain ⟨hw, hloop, hin⟩ := look_installed { l with crew := l.crew.receive } s.now _
    have hid : l.holdsId = true := by simp [holdsId, isInstalled, hl]
    exact h.of_spares (.refl _) hw (fun _ => hid) fun hlive => ⟨hloop ▸ hlive, hin⟩
  | left o hl hloop =>
    have hid : l.holdsId = true := by simp [holdsId, isInstalled, hl]
    exact
      { worker := rfl
        entitled :=
          { registered := fun hid => nomatch hid
            leads := fun hlive => absurd hlive (Bool.eq_false_iff.1 hloop) }
        leader := fun w hlead => hlead
        kept := fun w hm hfree => OrderedSet.mem_erase.2 ⟨hm, fun hw => by
          rw [hfree hw] at hid
          cases hid⟩
        taken := fun hid => nomatch hid }
  | unregistered e o hl hloop =>
    refine h.of_spares ⟨rfl, rfl⟩ rfl (fun hid => nomatch hid) fun hlive => ?_
    exact absurd hlive (Bool.eq_false_iff.1 hloop)

end Launch

namespace Scheduler

variable {s s' : Scheduler} {b : Backend} {l l' : Launch} {n k : Nat}

/-- Every launch is entitled to what it has, and no two have the same identifier. -/
structure Orderly (s : Scheduler) : Prop where
  entitled : ∀ (n : Nat) (l : Launch), s.launches[n]? = some l → l.Entitled s.backend
  alone : ∀ (n k : Nat) (l l' : Launch), s.launches[n]? = some l → s.launches[k]? = some l' →
    l.worker = l'.worker → l.holdsId = true → l'.holdsId = true → n = k

theorem orderly_unlaunched (timing : Timing) (script : Script) (b : Backend) :
    (unlaunched timing script b).Orderly where
  entitled _ _ h := nomatch h
  alone _ _ _ _ h := nomatch h

/-- From `s` on it stays in order, and whoever leads goes on to lead. -/
structure Upholds (s s' : Scheduler) : Prop where
  orderly : s'.Orderly
  leader : ∀ w, s.backend.election.leader = some w → s'.backend.election.leader = some w

namespace Orderly

theorem refl (h : s.Orderly) : Upholds s s := ⟨h, fun _ hl => hl⟩

theorem of_backend (h : s.Orderly) (hl : s'.launches = s.launches)
    (hw : s'.backend.registry.workers = s.backend.registry.workers)
    (he : s'.backend.election = s.backend.election) : Upholds s s' where
  orderly :=
    { entitled := fun n l hn => by
        have hold := h.entitled n l (hl ▸ hn)
        exact ⟨fun hid => hw ▸ hold.registered hid, fun hlive => he ▸ hold.leads hlive⟩
      alone := fun n k l l' hn hk => h.alone n k l l' (hl ▸ hn) (hl ▸ hk) }
  leader w hlead := he ▸ hlead

theorem setLaunch (h : s.Orderly) (hn : s.launches[n]? = some l)
    (hs : Launch.Succeeds s.backend l l' b) (log : List Log.Event) :
    Upholds s ({ s with backend := b, log }.setLaunch n l') := by
  -- Whoever else has the identifier had it before, when it was registered.
  have other {m : Nat} {z : Launch} (hm : m ≠ n) (hz : s.launches[m]? = some z)
      (hw : z.worker = l'.worker) (hidz : z.holdsId = true) (hid' : l'.holdsId = true) :
      False := by
    rw [hs.worker] at hw
    rcases hs.taken hid' with hid | hfree
    · exact hm (h.alone m n z l hz hn hw hidz hid)
    · exact hfree (hw ▸ (h.entitled m z hz).registered hidz)
  refine ⟨⟨?_, ?_⟩, hs.leader⟩
  · intro k x hx
    rcases getElem?_setLaunch hx with ⟨-, rfl⟩ | ⟨hk, hx⟩
    · exact hs.entitled
    · have hold := h.entitled k x hx
      refine ⟨fun hid => hs.kept _ (hold.registered hid) fun hw => ?_, fun hlive => ?_⟩
      · exact Bool.eq_false_iff.2 fun hid' => hk (h.alone k n x l hx hn hw hid hid')
      · exact ⟨(hold.leads hlive).1, hs.leader _ (hold.leads hlive).2⟩
  · intro k j x y hx hy hw hidx hidy
    rcases getElem?_setLaunch hx with ⟨hk, rfl⟩ | ⟨hk, hx'⟩
    · rcases getElem?_setLaunch hy with ⟨hj, -⟩ | ⟨hj, hy'⟩
      · exact hk.trans hj.symm
      · exact (other hj hy' hw.symm hidy hidx).elim
    · rcases getElem?_setLaunch hy with ⟨-, rfl⟩ | ⟨-, hy'⟩
      · exact (other hk hx' hw hidx hidy).elim
      · exact h.alone k j x y hx' hy' hw hidx hidy

theorem launch (h : s.Orderly) (w : WorkerId) : Upholds s (s.launch w).2 := by
  have fresh {n : Nat} {x : Launch} (hx : (s.launch w).2.launches[n]? = some x) :
      s.launches[n]? = some x ∨ x = .fresh w s.timing.stopTimeout := by
    rw [Scheduler.launch, List.getElem?_append] at hx
    split at hx
    · exact .inl hx
    · exact .inr (List.mem_singleton.1 (List.mem_of_getElem? hx))
  refine ⟨⟨?_, ?_⟩, fun _ hl => hl⟩
  · intro n x hx
    rcases fresh hx with hx | rfl
    · exact h.entitled n x hx
    · exact ⟨(fun hid => nomatch hid), fun hlive => nomatch hlive⟩
  · intro n k x y hx hy hw hidx hidy
    rcases fresh hx with hx | rfl
    · rcases fresh hy with hy | rfl
      · exact h.alone n k x y hx hy hw hidx hidy
      · cases hidy
    · cases hidx

/-- What comes over the line of a launch does not change what it is entitled to. -/
theorem withLine (h : s.Orderly) (hn : s.launches[n]? = some l) (line : Line) :
    Upholds s (s.setLaunch n { l with line }) :=
  have hl := h.entitled n l hn
  have hs : Launch.Succeeds s.backend l { l with line } s.backend :=
    hl.of_spares (.refl _) rfl (fun hid => hid) fun hlive => ⟨hlive, (hl.leads hlive).1⟩
  h.setLaunch hn hs s.log

theorem perform (h : s.Orderly) (j : Job) : Upholds s (s.perform j) := by
  rcases s.perform_cases j with heq | ⟨n, l, hn, ht⟩
  · rw [heq]
    exact h.refl
  · generalize s.perform j = s' at ht ⊢
    cases ht with
    | idle => exact h.refl
    | turn log ht => exact h.setLaunch hn ((h.entitled n l hn).turn ht) log

theorem act (h : s.Orderly) (a : Act) : Upholds s (s.act a) := by
  cases a with
  | launch w => exact h.launch w
  | signal n value =>
    rw [Scheduler.act, signal]
    split
    · next l hn =>
      split
      · exact h.withLine hn { l.line with shutdown := value }
      · exact h.refl
    · exact h.refl
  | hangUp n =>
    rw [Scheduler.act, hangUp]
    split
    · next l hn => exact h.withLine hn { l.line with hungUp := true }
    · exact h.refl
  | job j => exact h.perform j
  | sleep ms => exact h.of_backend rfl rfl rfl
  | registerItem i =>
    obtain ⟨hw, he⟩ := s.backend.workers_itemCall .registerItem (·.registerItem i) fun r => by
      rw [Registry.registerItem]
      split <;> rfl
    exact h.of_backend rfl hw he
  | deregisterItem i =>
    obtain ⟨hw, he⟩ := s.backend.workers_itemCall .deregisterItem (·.deregisterItem i) fun r => by
      rw [Registry.deregisterItem]
      split <;> rfl
    exact h.of_backend rfl hw he
  | move mv =>
    have hs := s.backend.spares_apply mv
    exact h.of_backend rfl (congrArg Registry.workers hs.registry) hs.election
  | outages o => exact h.of_backend rfl rfl rfl

theorem run (h : s.Orderly) (acts : List Act) : Upholds s (s.run acts) := by
  induction acts generalizing s with
  | nil => exact h.refl
  | cons a acts ih =>
    have hact := h.act a
    have hrest := ih hact.orderly
    exact ⟨hrest.orderly, fun w hl => hrest.leader w (hact.leader w hl)⟩

end Orderly

/-- At every moment of a run each worker has one active crew at most, and there is one live loop at
most, which a launch of the leader has begun and whose worker is registered; and however the run
goes on, the leader stays. -/
theorem one_crew_one_loop {timing : Timing} {script : Script} {b : Backend} {acts : List Act}
    (hs : (unlaunched timing script b).run acts = s) :
    (∀ (n k : Nat) (l l' : Launch), s.launches[n]? = some l → s.launches[k]? = some l' →
      l.worker = l'.worker → l.isActive = true → l'.isActive = true → n = k) ∧
    (∀ (n k : Nat) (l l' : Launch), s.launches[n]? = some l → s.launches[k]? = some l' →
      l.loop.isLive = true → l'.loop.isLive = true → n = k) ∧
    (∀ (n : Nat) (l : Launch), s.launches[n]? = some l → l.loop.isLive = true →
      s.backend.election.leader = some l.worker ∧ l.worker ∈ s.backend.registry.workers) ∧
    ∀ w, s.backend.election.leader = some w →
      ∀ more, (s.run more).backend.election.leader = some w := by
  obtain ⟨horderly, -⟩ := (orderly_unlaunched timing script b).run acts
  rw [hs] at horderly
  refine ⟨?_, ?_, ?_, ?_⟩
  · intro n k l l' hn hk hw hl hl'
    exact horderly.alone n k l l' hn hk hw (Launch.holdsId_of_isActive hl)
      (Launch.holdsId_of_isActive hl')
  · intro n k l l' hn hk hl hl'
    obtain ⟨hin, hlead⟩ := (horderly.entitled n l hn).leads hl
    obtain ⟨hin', hlead'⟩ := (horderly.entitled k l' hk).leads hl'
    rw [hlead] at hlead'
    exact horderly.alone n k l l' hn hk (Option.some.inj hlead')
      (Launch.holdsId_of_isInstalled hin) (Launch.holdsId_of_isInstalled hin')
  · intro n l hn hl
    obtain ⟨hin, hlead⟩ := (horderly.entitled n l hn).leads hl
    exact ⟨hlead, (horderly.entitled n l hn).registered (Launch.holdsId_of_isInstalled hin)⟩
  · intro w hlead more
    exact (horderly.run more).leader w hlead

/-- The launches of two workers overlap, and the leader is launched once more while it is at work
and again after it has stopped. -/
def relaunches : List Act :=
  [.registerItem ⟨"j", by decide⟩, .registerItem ⟨"k", by decide⟩, .launch ⟨1⟩, .launch ⟨2⟩,
    .job (.register 0), .job (.register 1), .job (.elect 1), .job (.elect 0), .job (.tick 1),
    .job (.pass 1), .job (.pass 0), .launch ⟨2⟩, .job (.register 2), .sleep 1000, .job (.tick 1),
    .job (.pass 1), .job (.task 1 0), .signal 1 true, .job (.shutDown 1), .job (.endLoop 1),
    .job (.task 1 0), .job (.look 1), .job (.leave 1), .launch ⟨2⟩, .job (.register 3),
    .job (.elect 3)]

def relaunched : Scheduler := (unlaunched .default ⟨[]⟩ (.ofTable .empty)).run relaunches

theorem relaunched_one_loop :
    relaunched.launches.map (·.stage) = [.running 1000, .over .stopped,
      .over (.failed (.alreadyRunning ⟨2⟩)), .running 1000] ∧
    relaunched.launches[3]?.map (·.loop.isLive) = some true ∧
    (∀ (n : Nat) (l : Launch), relaunched.launches[n]? = some l → l.loop.isLive = true → n = 3) ∧
    relaunched.backend.election.leader = some ⟨2⟩ ∧
    ∀ more, (relaunched.run more).backend.election.leader = some ⟨2⟩ := by
  obtain ⟨-, hone, -, hleader⟩ := one_crew_one_loop (s := relaunched) rfl
  have hlive : relaunched.launches[3]?.map (·.loop.isLive) = some true := by decide +kernel
  have hlead : relaunched.backend.election.leader = some ⟨2⟩ := by decide +kernel
  refine ⟨by decide +kernel, hlive, ?_, hlead, hleader ⟨2⟩ hlead⟩
  intro n l hn hl
  obtain ⟨l', hn', hl'⟩ := Option.map_eq_some_iff.1 hlive
  exact hone n 3 l l' hn hn' hl hl'

end Scheduler

end Roster
