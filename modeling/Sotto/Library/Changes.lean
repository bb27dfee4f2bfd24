import Sotto.Library.Table

/-!
# Changes to the rows of a table

A change puts, updates or deletes the row of one key. A list of changes is applied in order, and
what it does to a lookup depends on the changes of that key only.
-/

namespace Table

variable {K V : Type*}

/-- A change to one row. -/
inductive Change (K V : Type*)
  | put (k : K) (v : V)
  | update (k : K) (f : V → V)
  | delete (k : K)

namespace Change

def key : Change K V → K
  | put k _ => k
  | update k _ => k
  | delete k => k

/-- The key of a row that is deleted. -/
def deleted : Change K V → List K
  | delete k => [k]
  | _ => []

/-- What a change does to the row of its key. -/
def effect : Change K V → Option V → Option V
  | put _ v, _ => some v
  | update _ f, row => row.map f
  | delete _, _ => none

variable [DecidableEq K]

def apply : Change K V → Table K V → Table K V
  | put k v, t => AList.insert k v t
  | update k f, t => t.modify k f
  | delete k, t => AList.erase k t

theorem lookup_apply (c : Change K V) (t : Table K V) (k : K) :
    (c.apply t).lookup k = if k = c.key then c.effect (t.lookup k) else t.lookup k := by
  cases c with
  | put k' v => exact lookup_insert t k' v k
  | update k' f => exact lookup_modify k' f t k
  | delete k' =>
      show (AList.erase k' t).lookup k = if k = k' then none else t.lookup k
      split
      · next h =>
          subst h
          exact AList.lookup_erase k t
      · next h => exact AList.lookup_erase_ne h

section Rows

variable {t : Table K V} {k k' : K} {v w : V} {f : V → V}

theorem lookup_put : ((put k v).apply t).lookup k' = some w ↔
    k' = k ∧ w = v ∨ k' ≠ k ∧ t.lookup k' = some w := by
  rw [lookup_apply]
  by_cases h : k' = k <;> simp [key, effect, h, eq_comm]

theorem lookup_update : ((update k f).apply t).lookup k' = some w ↔
    ∃ v, t.lookup k' = some v ∧ (k' = k ∧ w = f v ∨ k' ≠ k ∧ w = v) := by
  rw [lookup_apply]
  by_cases h : k' = k
  · simp [key, effect, h, Option.map_eq_some_iff, eq_comm (b := w)]
  · simp [key, h]

theorem lookup_delete : ((delete k).apply t).lookup k' = some w ↔
    k' ≠ k ∧ t.lookup k' = some w := by
  rw [lookup_apply]
  by_cases h : k' = k <;> simp [key, effect, h]

theorem isSome_put : (((put k v).apply t).lookup k').isSome ↔ k' = k ∨ (t.lookup k').isSome := by
  rw [lookup_apply]
  by_cases h : k' = k <;> simp [key, effect, h]

theorem isSome_update : (((update k f).apply t).lookup k').isSome ↔ (t.lookup k').isSome := by
  rw [lookup_apply]
  by_cases h : k' = k <;> simp [key, effect, h]

theorem isSome_delete : (((delete k).apply t).lookup k').isSome ↔
    k' ≠ k ∧ (t.lookup k').isSome := by
  rw [lookup_apply]
  by_cases h : k' = k <;> simp [key, effect, h]

theorem lookup_update_of_none (h : t.lookup k' = none) :
    ((update k f).apply t).lookup k' = none := by
  rw [lookup_apply]
  split
  · rw [effect, h]
    rfl
  · exact h

theorem lookup_delete_of_none (h : t.lookup k' = none) :
    ((delete k).apply t).lookup k' = none := by
  rw [lookup_apply]
  split
  · rfl
  · exact h

end Rows

end Change

variable [DecidableEq K]

/-- Apply changes, in order. -/
def applyAll (changes : List (Change K V)) (t : Table K V) : Table K V :=
  changes.foldl (fun t c => c.apply t) t

@[simp] theorem applyAll_nil (t : Table K V) : applyAll [] t = t := rfl

@[simp] theorem applyAll_cons (c : Change K V) (changes : List (Change K V)) (t : Table K V) :
    applyAll (c :: changes) t = applyAll changes (c.apply t) := rfl

theorem applyAll_append (changes changes' : List (Change K V)) (t : Table K V) :
    applyAll (changes ++ changes') t = applyAll changes' (applyAll changes t) :=
  List.foldl_append

theorem lookup_applyAll_of_notMem {changes : List (Change K V)} {k : K}
    (h : ∀ c ∈ changes, c.key ≠ k) (t : Table K V) :
    (applyAll changes t).lookup k = t.lookup k := by
  induction changes generalizing t with
  | nil => rfl
  | cons c changes ih =>
      rw [applyAll_cons, ih fun c' hc => h c' (List.mem_cons_of_mem c hc), Change.lookup_apply,
        if_neg fun heq => h c List.mem_cons_self heq.symm]

/-- Deleting the rows of a list of keys. -/
theorem lookup_applyAll_delete (keys : List K) (t : Table K V) (k : K) :
    (applyAll (keys.map Change.delete) t).lookup k = if k ∈ keys then none else t.lookup k := by
  induction keys generalizing t with
  | nil => rfl
  | cons k' keys ih =>
      rw [List.map_cons, applyAll_cons, ih, Change.lookup_apply]
      simp only [List.mem_cons, Change.key, Change.effect]
      by_cases hk : k ∈ keys
      · simp [hk]
      · by_cases hk' : k = k' <;> simp [hk, hk']

/-- Updating the rows of a list of keys by a function that does its work once. -/
theorem lookup_applyAll_update {f : V → V} (hf : ∀ v, f (f v) = f v) (keys : List K)
    (t : Table K V) (k : K) :
    (applyAll (keys.map fun k => Change.update k f) t).lookup k =
      if k ∈ keys then (t.lookup k).map f else t.lookup k := by
  induction keys generalizing t with
  | nil => rfl
  | cons k' keys ih =>
      rw [List.map_cons, applyAll_cons, ih, Change.lookup_apply]
      simp only [List.mem_cons, Change.key, Change.effect]
      by_cases hk' : k = k'
      · subst hk'
        by_cases hk : k ∈ keys
        · simp [hk, Function.comp_def, hf]
        · simp [hk]
      · simp [hk']

end Table
