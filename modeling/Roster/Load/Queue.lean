import Roster.Load.Basic
import Roster.Ordered.Set

/-!
Loads in order, lightest first. The lightest receives and the heaviest gives; each change puts the
changed loads back into their places. Giving strictly lowers the sum of the squared sizes, so giving
again and again comes to an end.
-/

namespace Roster

/-- An item that goes from one worker to another. -/
structure Transfer where
  item : ItemId
  source : WorkerId
  target : WorkerId
  deriving DecidableEq, Repr

structure LoadQueue where
  loads : OrderedSet Load
  deriving DecidableEq

namespace LoadQueue

/-- Equal loads are kept once. -/
def ofList (ls : List Load) : LoadQueue := ⟨.ofList ls⟩

def toList (q : LoadQueue) : List Load := q.loads.toList

def workerCount (q : LoadQueue) : Nat := q.loads.size

def totalItems (q : LoadQueue) : Nat := (q.toList.flatMap (·.items)).length

def lightest (q : LoadQueue) : Option Load := q.loads.first?

def heaviest (q : LoadQueue) : Option Load := q.loads.last?

/-- Gives the item to the lightest load; nobody receives it in an empty queue. -/
def assign (q : LoadQueue) (i : ItemId) : Option (WorkerId × LoadQueue) :=
  match q.lightest with
  | none => none
  | some light => some (light.worker, ⟨q.loads.dropFirst.insert (light.insert i)⟩)

/-- Moves the greatest item of the heaviest load to the lightest, unless that narrows nothing. -/
def transferLast (q : LoadQueue) : Option (Transfer × LoadQueue) :=
  match q.lightest, q.heaviest with
  | some light, some heavy =>
    if heavy.size ≤ light.size + 1 then none
    else match heavy.items.getLast? with
      | none => none
      | some i =>
        some (⟨i, heavy.worker, light.worker⟩,
          ⟨(q.loads.dropLast.dropFirst.insert heavy.dropLast).insert (light.insert i)⟩)
  | _, _ => none

/-- The sum of the squared sizes. -/
def potential (q : LoadQueue) : Nat := q.toList.foldr (fun l n => l.size * l.size + n) 0

theorem potential_insert_le (l : Load) (s : OrderedSet Load) :
    potential ⟨s.insert l⟩ ≤ l.size * l.size + potential ⟨s⟩ := by
  change (Ordered.insert l s.toList).foldr (fun l n => l.size * l.size + n) 0 ≤
    l.size * l.size + s.toList.foldr (fun l n => l.size * l.size + n) 0
  induction s.toList with
  | nil => simp [Ordered.insert]
  | cons m ls ih =>
    rw [Ordered.insert]
    split
    · simp
    · simp
    · simp only [List.foldr_cons]
      omega

theorem squares_lt {a b : Nat} (h : a + 1 < b) :
    (a + 1) * (a + 1) + (b - 1) * (b - 1) < a * a + b * b := by
  obtain ⟨c, rfl⟩ : ∃ c, b = c + 1 := ⟨b - 1, by omega⟩
  have : (c + 1) * (c + 1) = c * c + 2 * c + 1 := by rw [Nat.add_mul, Nat.mul_add]; omega
  have : (a + 1) * (a + 1) = a * a + 2 * a + 1 := by rw [Nat.add_mul, Nat.mul_add]; omega
  simp only [Nat.add_sub_cancel]
  omega

theorem foldr_squares (ls : List Load) (n : Nat) :
    ls.foldr (fun l n => l.size * l.size + n) n =
      ls.foldr (fun l n => l.size * l.size + n) 0 + n := by
  induction ls with
  | nil => simp
  | cons l ls ih =>
    rw [List.foldr_cons, List.foldr_cons, ih]
    omega

theorem potential_ends {s : OrderedSet Load} {light heavy : Load} (hf : s.first? = some light)
    (hl : s.last? = some heavy) (hne : light.size ≠ heavy.size) :
    potential ⟨s⟩ = light.size * light.size + potential ⟨s.dropLast.dropFirst⟩ +
      heavy.size * heavy.size := by
  obtain ⟨l, hs⟩ := s
  change l.head? = some light at hf
  change l.getLast? = some heavy at hl
  change l.foldr (fun l n => l.size * l.size + n) 0 = light.size * light.size +
    l.dropLast.tail.foldr (fun l n => l.size * l.size + n) 0 + heavy.size * heavy.size
  clear hs
  match l, hf, hl with
  | [m], hf, hl =>
    cases hf; cases hl
    exact absurd rfl hne
  | m :: k :: ls, hf, hl =>
    cases hf
    have hk : (k :: ls).getLast? = some heavy := by simpa using hl
    obtain ⟨ys, hys⟩ := List.getLast?_eq_some_iff.1 hk
    rw [List.dropLast_cons_cons, List.tail_cons, hys, List.dropLast_concat]
    rw [List.foldr_cons, List.foldr_append, foldr_squares ys]
    simp only [List.foldr_cons, List.foldr_nil]
    omega

theorem potential_transferLast {q q' : LoadQueue} {t : Transfer}
    (h : q.transferLast = some (t, q')) : q'.potential < q.potential := by
  rw [transferLast] at h
  split at h
  · next light heavy hf hl =>
    split at h
    · contradiction
    · next hgap =>
      split at h
      · contradiction
      · next i hi =>
        cases h
        have e := potential_ends hf hl (by omega)
        have a := potential_insert_le (light.insert i)
          (q.loads.dropLast.dropFirst.insert heavy.dropLast)
        have b := potential_insert_le heavy.dropLast q.loads.dropLast.dropFirst
        have c := Nat.mul_le_mul (light.size_insert_le i) (light.size_insert_le i)
        have d := squares_lt (show light.size + 1 < heavy.size by omega)
        rw [Load.size_dropLast] at b
        change potential q = _ at e
        omega
  · contradiction

/-- Gives from the heaviest to the lightest for as long as `p` holds and giving narrows the gap. -/
def transferWhile (p : LoadQueue → Bool) (q : LoadQueue) : List Transfer × LoadQueue :=
  if p q then
    match h : q.transferLast with
    | none => ([], q)
    | some (t, q') =>
      have := potential_transferLast h
      let (ts, last) := transferWhile p q'
      (t :: ts, last)
  else ([], q)
termination_by q.potential

end LoadQueue

end Roster
