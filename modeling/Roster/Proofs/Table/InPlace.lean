import Roster.Proofs.Table.Ownership

/-! Moves made in place. A transfer is two changes, and what is done before a refusal stays done; but
once the first change is made the second is never refused, whatever the order of the lists, so every
move is made as a whole or not at all. -/

namespace Roster.Table

variable {t rest : Table} {v w : WorkerId} {i : ItemId} {mv : Move}

/-- An edit of a table. If it is refused midway, the table stays as it is at that point. -/
abbrev Edit := EStateM Error Table Unit

/-- One change, whose checks all come before it. -/
def change (f : Table → Except StaleCause Table) : Edit := do
  match f (← get) with
  | .ok t => set t
  | .error cause => throw (.staleMove cause)

/-- Makes a move in place, one change after the other. -/
def edit : Move → Edit
  | .addWorker w => modify fun t => if t.containsWorker w then t else ⟨t.owners.insert w []⟩
  | .removeWorker w => modify fun t => ⟨t.owners.erase w⟩
  | .drop i v => change (·.removeItem i v)
  | .assign i w => do
    if let some owner := (← get).ownerOf i then
      throw (.staleMove (.alreadyOwned i owner))
    change (·.insertItem i w)
  | .transfer i v w => do
    unless (← get).containsWorker w do
      throw (.staleMove (.unknownWorker w))
    change (·.removeItem i v)
    change (·.insertItem i w)

theorem run_change_of_ok {f : Table → Except StaleCause Table} (h : f t = .ok rest) :
    (change f).run t = .ok () rest := by
  simp [change, h]

theorem run_change_of_error {f : Table → Except StaleCause Table} {cause : StaleCause}
    (h : f t = .error cause) : (change f).run t = .error (.staleMove cause) t := by
  simp [change, h]

/-- Taking an item off a list leaves the workers. -/
theorem containsWorker_of_removeItem (h : t.removeItem i v = .ok rest) :
    rest.containsWorker w = t.containsWorker w := by
  unfold removeItem at h
  split at h
  · contradiction
  · split at h
    · contradiction
    · cases h
      exact containsWorker_congr (OrderedMap.keys_modify ..)

/-- A worker that there is takes any item. -/
theorem exists_insertItem (hw : t.containsWorker w = true) : ∃ t', t.insertItem i w = .ok t' := by
  rw [insertItem, if_pos hw]
  exact ⟨_, rfl⟩

/-- In place or not, a move comes to the same; a refused one leaves the table as it was. -/
theorem run_edit (mv : Move) (t : Table) : (edit mv).run t = match t.apply mv with
    | .ok t' => .ok () t'
    | .error e => .error e t := by
  cases mv with
  | addWorker w => rfl
  | removeWorker w => rfl
  | drop i v =>
    cases h : t.removeItem i v with
    | ok t' => simp [edit, apply, check, h, run_change_of_ok]
    | error cause => simp [edit, apply, check, h, run_change_of_error]
  | assign i w =>
    cases ho : t.ownerOf i with
    | some owner => simp [edit, apply, check, ho]
    | none =>
      cases h : t.insertItem i w with
      | ok t' => simp [edit, apply, check, ho, h, run_change_of_ok]
      | error cause => simp [edit, apply, check, ho, h, run_change_of_error]
  | transfer i v w =>
    cases hw : t.containsWorker w with
    | false => simp [edit, apply, check, hw]
    | true =>
      cases h : t.removeItem i v with
      | error cause => simp [edit, apply, check, hw, h, run_change_of_error]
      | ok rest =>
        -- The item is off one list already, so the other list has to take it.
        have hrest : rest.containsWorker w = true := by rw [containsWorker_of_removeItem h, hw]
        obtain ⟨t', ht'⟩ := exists_insertItem (i := i) hrest
        simp [edit, apply, check, hw, h, ht', run_change_of_ok]

/-- What a move comes to when it is made in place, and the table after it. -/
def attempt (t : Table) (mv : Move) : Except Error Unit × Table :=
  match (edit mv).run t with
  | .ok () t' => (.ok (), t')
  | .error e t' => (.error e, t')

theorem attempt_eq (t : Table) (mv : Move) : t.attempt mv = match t.apply mv with
    | .ok t' => (.ok (), t')
    | .error e => (.error e, t) := by
  rw [attempt, run_edit]
  cases t.apply mv <;> rfl

end Roster.Table
