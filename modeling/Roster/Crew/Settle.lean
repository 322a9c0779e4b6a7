import Roster.Crew.Poll

/-!
Waiting until no handler of a crew is stopping, and stopping a crew altogether. An exit without a
report is noticed only when a wait is over, so settling may take a little longer than the handlers.
-/

namespace Roster

/-- Instants are below this, in milliseconds: seconds have 63 bits. -/
def clockEnd : Nat := UInt64.size / 2 * 1000

def deadline (now timeout : Nat) : Except Overflow Nat :=
  if now + timeout < clockEnd then .ok (now + timeout) else .error .deadline

namespace Crew

/-- Says whether all stopping handlers ended in time, and when it was done. -/
def settleFrom (c : Crew) (now deadline : Nat) : Bool × Nat × Crew :=
  match _hp : c.poll now deadline with
  | (.settled, c') => (true, now, c')
  | (.expired, c') => (false, now, c')
  | (.waiting wake, c') =>
    if _hr : (c'.runAll now).reports = [] then
      settleFrom ((c'.runAll now).sleep now wake).2.receive ((c'.runAll now).sleep now wake).1
        deadline
    else settleFrom (c'.runAll now).receive now deadline
termination_by (deadline - now) * (c.tasks.length + 1) + c.liveCount
decreasing_by
  · have h := lt_of_waiting (by rw [_hp])
    have hs := lt_sleep (c := c'.runAll now) h.1
    have hl : ((c'.runAll now).sleep now wake).2.receive.tasks.length = c.tasks.length := by
      rw [tasks_receive, length_sleep, length_runAll, ← tasks_poll c now deadline, _hp]
    have hc : ((c'.runAll now).sleep now wake).2.receive.liveCount ≤ c.tasks.length :=
      hl ▸ List.countP_le_length
    have hm := Nat.mul_le_mul_right (c.tasks.length + 1)
      (show deadline - ((c'.runAll now).sleep now wake).1 + 1 ≤ deadline - now by omega)
    rw [Nat.add_mul] at hm
    rw [hl]
    omega
  · have ht : c'.tasks = c.tasks := by rw [← tasks_poll c now deadline, _hp]
    have he : c'.reports = [] := by rw [← reports_poll c now deadline, _hp]
    have hpos : 0 < (c'.runAll now).reports.length := List.length_pos_iff.2 _hr
    have hle := runAll_le c' now
    rw [he, liveCount_congr ht, List.length_nil] at hle
    rw [liveCount_congr (tasks_receive _), tasks_receive, length_runAll, ht]
    omega

/-- The deadline has to be on the clock. -/
def settle (c : Crew) (now timeout : Nat) : Except Overflow (Bool × Nat × Crew) :=
  (deadline now timeout).map (c.settleFrom now ·)

/-- Cancels every handler. -/
def cancelEvery (c : Crew) (now : Nat) : Crew := (c.cancelAll now c.handlers.keys).2

/-- Cancels every handler, lets them settle for the stop timeout, and aborts and counts what is
left. -/
def stop (c : Crew) (now : Nat) : Except Overflow (Nat × Nat × Crew) :=
  ((c.cancelEvery now).settle now c.stopTimeout).map fun
    | (true, time, c) => (0, time, c)
    | (false, time, c) =>
      let (aborted, c) := c.abortAll time
      (aborted, time, c)

end Crew

end Roster
