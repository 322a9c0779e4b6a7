import Roster.Ordered.Sort

/-!
Finite maps as association lists with strictly ascending keys. Two maps that answer every look-up
alike are the same value.
-/

namespace Roster

structure OrderedMap (κ ν : Type) [Ord κ] where
  entries : List (κ × ν)
  strict : Ordered.Strict (entries.map (·.1))

namespace OrderedMap

variable {κ ν : Type} [Ord κ]

theorem eq_of_entries {m n : OrderedMap κ ν} (h : m.entries = n.entries) : m = n := by
  cases m; cases n; cases h; rfl

instance [DecidableEq κ] [DecidableEq ν] : DecidableEq (OrderedMap κ ν) := fun m n =>
  if h : m.entries = n.entries then .isTrue (eq_of_entries h) else .isFalse fun e => h (e ▸ rfl)

def empty : OrderedMap κ ν := ⟨[], Ordered.strict_nil⟩

instance : Inhabited (OrderedMap κ ν) := ⟨empty⟩

def size (m : OrderedMap κ ν) : Nat := m.entries.length

def keys (m : OrderedMap κ ν) : List κ := m.entries.map (·.1)

def values (m : OrderedMap κ ν) : List ν := m.entries.map (·.2)

def get? [DecidableEq κ] (m : OrderedMap κ ν) (k : κ) : Option ν := m.entries.lookup k

def contains [DecidableEq κ] (m : OrderedMap κ ν) (k : κ) : Bool := (m.get? k).isSome

/-- Puts an entry in its place, instead of one with that key. -/
def put (k : κ) (v : ν) : List (κ × ν) → List (κ × ν)
  | [] => [(k, v)]
  | e :: es => match compare k e.1 with
    | .lt => (k, v) :: e :: es
    | .eq => (k, v) :: es
    | .gt => e :: put k v es

theorem mem_put_keys {k j : κ} {v : ν} {es : List (κ × ν)} (h : j ∈ (put k v es).map (·.1)) :
    j = k ∨ j ∈ es.map (·.1) := by
  induction es with
  | nil => exact .inl (List.mem_singleton.1 h)
  | cons e es ih =>
    rw [put] at h
    split at h
    · exact List.mem_cons.1 h
    · exact (List.mem_cons.1 h).imp_right (List.mem_cons_of_mem e.1)
    · rcases List.mem_cons.1 h with rfl | h
      · exact .inr List.mem_cons_self
      · exact (ih h).imp_right (List.mem_cons_of_mem e.1)

theorem strict_put [Std.TransOrd κ] [Std.LawfulEqOrd κ] {k : κ} {v : ν} {es : List (κ × ν)}
    (h : Ordered.Strict (es.map (·.1))) : Ordered.Strict ((put k v es).map (·.1)) := by
  induction es with
  | nil => exact List.pairwise_singleton _ k
  | cons e es ih =>
    have ⟨he, hes⟩ := List.pairwise_cons.1 h
    rw [put]
    split
    · next hk =>
      refine List.pairwise_cons.2 ⟨fun j hj => ?_, h⟩
      rcases List.mem_cons.1 hj with rfl | hj
      · exact hk
      · exact Std.TransCmp.lt_trans hk (he j hj)
    · next hk => rw [Std.LawfulEqOrd.eq_of_compare hk]; exact h
    · next hk =>
      refine List.pairwise_cons.2 ⟨fun j hj => ?_, ih hes⟩
      rcases mem_put_keys hj with rfl | hj
      · exact Std.OrientedCmp.lt_of_gt hk
      · exact he j hj

def insert [Std.TransOrd κ] [Std.LawfulEqOrd κ] (k : κ) (v : ν) (m : OrderedMap κ ν) :
    OrderedMap κ ν :=
  ⟨put k v m.entries, strict_put m.strict⟩

/-- Later entries replace earlier ones of the same key. -/
def ofList [Std.TransOrd κ] [Std.LawfulEqOrd κ] (es : List (κ × ν)) : OrderedMap κ ν :=
  es.foldl (fun m e => m.insert e.1 e.2) empty

def filter (p : κ → ν → Bool) (m : OrderedMap κ ν) : OrderedMap κ ν :=
  ⟨m.entries.filter fun e => p e.1 e.2, m.strict.sublist (List.filter_sublist.map _)⟩

def erase [DecidableEq κ] (k : κ) (m : OrderedMap κ ν) : OrderedMap κ ν :=
  m.filter fun j _ => j ≠ k

def mapValues {μ : Type} (f : κ → ν → μ) (m : OrderedMap κ ν) : OrderedMap κ μ :=
  ⟨m.entries.map fun e => (e.1, f e.1 e.2), by simpa [Function.comp_def] using m.strict⟩

/-- Changes the value at `k`, if there is one. -/
def modify [DecidableEq κ] (k : κ) (f : ν → ν) (m : OrderedMap κ ν) : OrderedMap κ ν :=
  m.mapValues fun j v => if j = k then f v else v

theorem ne_of_lt [Std.TransOrd κ] {a b : κ} (h : compare a b = .lt) : a ≠ b := by
  rintro rfl
  simp [Std.ReflCmp.compare_self] at h

section Lookup

variable [DecidableEq κ]

omit [Ord κ] in
theorem lookup_cons_if (j : κ) (e : κ × ν) (es : List (κ × ν)) :
    (e :: es).lookup j = if j = e.1 then some e.2 else es.lookup j := by
  rw [List.lookup_cons]
  by_cases h : j = e.1
  · simp [h]
  · simp [beq_false_of_ne h, h]

omit [Ord κ] in
theorem lookup_eq_none_iff {k : κ} {es : List (κ × ν)} :
    es.lookup k = none ↔ k ∉ es.map (·.1) := by
  induction es with
  | nil => simp
  | cons e es ih => by_cases h : k = e.1 <;> simp [lookup_cons_if, h, ih]

omit [Ord κ] in
theorem mem_of_lookup {k : κ} {v : ν} {es : List (κ × ν)} (h : es.lookup k = some v) :
    (k, v) ∈ es := by
  induction es with
  | nil => simp at h
  | cons e es ih =>
    rw [lookup_cons_if] at h
    split at h
    · next hk =>
      cases h
      subst hk
      exact List.mem_cons_self
    · exact List.mem_cons_of_mem e (ih h)

theorem mem_keys_iff {m : OrderedMap κ ν} {k : κ} : k ∈ m.keys ↔ ∃ v, m.get? k = some v := by
  rw [← Option.isSome_iff_exists, ← Option.ne_none_iff_isSome, ne_eq, get?, lookup_eq_none_iff,
    Classical.not_not, keys]

theorem lookup_of_mem [Std.TransOrd κ] {k : κ} {v : ν} {es : List (κ × ν)}
    (hs : Ordered.Strict (es.map (·.1))) (h : (k, v) ∈ es) : es.lookup k = some v := by
  induction es with
  | nil => simp at h
  | cons e es ih =>
    have ⟨he, hes⟩ := List.pairwise_cons.1 hs
    rw [lookup_cons_if]
    rcases List.mem_cons.1 h with rfl | h
    · simp
    · have hlt := he k (List.mem_map_of_mem h)
      rw [if_neg (ne_of_lt hlt).symm]
      exact ih hes h

theorem mem_entries_iff [Std.TransOrd κ] {m : OrderedMap κ ν} {k : κ} {v : ν} :
    (k, v) ∈ m.entries ↔ m.get? k = some v :=
  ⟨lookup_of_mem m.strict, mem_of_lookup⟩

theorem lookup_put [Std.TransOrd κ] [Std.LawfulEqOrd κ] {k j : κ} {v : ν} {es : List (κ × ν)} :
    (put k v es).lookup j = if j = k then some v else es.lookup j := by
  induction es with
  | nil => rw [put, lookup_cons_if]
  | cons e es ih =>
    rw [put]
    split
    · rw [lookup_cons_if]
    · next hk =>
      rw [lookup_cons_if, lookup_cons_if, Std.LawfulEqOrd.eq_of_compare hk]
      by_cases h : j = e.1 <;> simp [h]
    · next hk =>
      have hne : e.1 ≠ k := ne_of_lt (Std.OrientedCmp.lt_of_gt hk)
      rw [lookup_cons_if, lookup_cons_if, ih]
      by_cases h : j = e.1
      · simp [h, hne]
      · simp [h]

@[simp] theorem get?_empty (k : κ) : (empty : OrderedMap κ ν).get? k = none := rfl

@[simp] theorem get?_insert [Std.TransOrd κ] [Std.LawfulEqOrd κ] (m : OrderedMap κ ν) (k j : κ)
    (v : ν) : (m.insert k v).get? j = if j = k then some v else m.get? j :=
  lookup_put

theorem lookup_filter [Std.TransOrd κ] {p : κ → ν → Bool} {j : κ} {es : List (κ × ν)}
    (hs : Ordered.Strict (es.map (·.1))) :
    (es.filter fun e => p e.1 e.2).lookup j = (es.lookup j).filter (p j) := by
  induction es with
  | nil => rfl
  | cons e es ih =>
    have ⟨he, hes⟩ := List.pairwise_cons.1 hs
    rw [List.filter_cons, lookup_cons_if]
    by_cases h : j = e.1
    · subst h
      have hn : (es.filter fun e => p e.1 e.2).lookup e.1 = none := by
        rw [lookup_eq_none_iff]
        intro hm
        exact ne_of_lt (he e.1 ((List.filter_sublist.map _).subset hm)) rfl
      by_cases hp : p e.1 e.2
      · simp [hp, lookup_cons_if, Option.filter]
      · simp [hp, hn, Option.filter]
    · by_cases hp : p e.1 e.2
      · simp [hp, lookup_cons_if, h, ih hes]
      · simp [hp, h, ih hes]

@[simp] theorem get?_filter [Std.TransOrd κ] (m : OrderedMap κ ν) (p : κ → ν → Bool) (j : κ) :
    (m.filter p).get? j = (m.get? j).filter (p j) :=
  lookup_filter m.strict

@[simp] theorem get?_erase [Std.TransOrd κ] (m : OrderedMap κ ν) (k j : κ) :
    (m.erase k).get? j = if j = k then none else m.get? j := by
  rw [erase, get?_filter]
  by_cases h : j = k <;> cases m.get? j <;> simp [h, Option.filter]

@[simp] theorem get?_mapValues {μ : Type} (m : OrderedMap κ ν) (f : κ → ν → μ) (j : κ) :
    (m.mapValues f).get? j = (m.get? j).map (f j) := by
  obtain ⟨es, hs⟩ := m
  change (es.map fun e => (e.1, f e.1 e.2)).lookup j = (es.lookup j).map (f j)
  clear hs
  induction es with
  | nil => rfl
  | cons e es ih =>
    rw [List.map_cons, lookup_cons_if, lookup_cons_if]
    by_cases h : j = e.1
    · simp [h]
    · simp [h, ih]

@[simp] theorem get?_modify (m : OrderedMap κ ν) (k j : κ) (f : ν → ν) :
    (m.modify k f).get? j = if j = k then (m.get? j).map f else m.get? j := by
  rw [modify, get?_mapValues]
  by_cases h : j = k <;> simp [h]

end Lookup

theorem nodup_keys [Std.TransOrd κ] (m : OrderedMap κ ν) : m.keys.Nodup :=
  List.Pairwise.imp ne_of_lt m.strict

@[simp] theorem keys_mapValues {μ : Type} (m : OrderedMap κ ν) (f : κ → ν → μ) :
    (m.mapValues f).keys = m.keys := by
  simp [keys, mapValues, Function.comp_def]

@[simp] theorem keys_modify [DecidableEq κ] (m : OrderedMap κ ν) (k : κ) (f : ν → ν) :
    (m.modify k f).keys = m.keys :=
  keys_mapValues m _

theorem entries_ext [Std.TransOrd κ] {es fs : List (κ × ν)}
    (hs : Ordered.Strict (es.map (·.1))) (ht : Ordered.Strict (fs.map (·.1)))
    (h : ∀ e, e ∈ es ↔ e ∈ fs) : es = fs := by
  induction es generalizing fs with
  | nil =>
    cases fs with
    | nil => rfl
    | cons f fs => exact absurd ((h f).2 List.mem_cons_self) List.not_mem_nil
  | cons e es ih =>
    cases fs with
    | nil => exact absurd ((h e).1 List.mem_cons_self) List.not_mem_nil
    | cons f fs =>
      have ⟨he, hes⟩ := List.pairwise_cons.1 hs
      have ⟨hf, hfs⟩ := List.pairwise_cons.1 ht
      have irr {a b : κ} (p : compare a b = .lt) (q : compare b a = .lt) : False :=
        ne_of_lt (Std.TransCmp.lt_trans p q) rfl
      have hef : e = f := by
        rcases List.mem_cons.1 ((h e).1 List.mem_cons_self) with rfl | h1
        · rfl
        · rcases List.mem_cons.1 ((h f).2 List.mem_cons_self) with rfl | h2
          · rfl
          · exact (irr (hf _ (List.mem_map_of_mem h1)) (he _ (List.mem_map_of_mem h2))).elim
      subst hef
      congr 1
      refine ih hes hfs fun g => ⟨fun hg => ?_, fun hg => ?_⟩
      · rcases List.mem_cons.1 ((h g).1 (List.mem_cons_of_mem e hg)) with rfl | hg'
        · exact (irr (he _ (List.mem_map_of_mem hg)) (he _ (List.mem_map_of_mem hg))).elim
        · exact hg'
      · rcases List.mem_cons.1 ((h g).2 (List.mem_cons_of_mem e hg)) with rfl | hg'
        · exact (irr (hf _ (List.mem_map_of_mem hg)) (hf _ (List.mem_map_of_mem hg))).elim
        · exact hg'

theorem ext_get? [DecidableEq κ] [Std.TransOrd κ] {m n : OrderedMap κ ν}
    (h : ∀ k, m.get? k = n.get? k) : m = n :=
  eq_of_entries <| entries_ext m.strict n.strict fun e => by
    rw [show e = (e.1, e.2) from rfl, mem_entries_iff, mem_entries_iff, h]

end OrderedMap

end Roster
