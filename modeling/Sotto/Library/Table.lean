import Mathlib.Data.List.AList

/-!
# Keyed tables

A table is an association list without duplicate keys, so that "at most one row
has this key" is part of its type. Inserting replaces the row of the key and puts
it in the newest place, as `INSERT OR REPLACE` does in a table ordered by row
number; the rows are listed oldest first. Updates and deletions of the rows that
satisfy a condition are given here, each with what it does to a lookup.
-/

/-- A table of rows `V` with a unique key `K`. -/
abbrev Table (K V : Type*) := AList (fun _ : K => V)

namespace Table

variable {K V : Type*}

/-- The rows with their keys, oldest first. -/
def rows (t : Table K V) : List (K × V) :=
  t.entries.reverse.map fun e => (e.1, e.2)

/-- Change every row by `f`, keeping its key. -/
def mapRows (f : K → V → V) (t : Table K V) : Table K V where
  entries := t.entries.map fun e => ⟨e.1, f e.1 e.2⟩
  nodupKeys := by
    have h := t.nodupKeys
    rw [List.NodupKeys] at h ⊢
    simpa [List.keys, Function.comp_def] using h

/-- Keep only the rows that satisfy `p`. -/
def filterRows (p : K → V → Bool) (t : Table K V) : Table K V where
  entries := t.entries.filter fun e => p e.1 e.2
  nodupKeys := t.nodupKeys.sublist List.filter_sublist

theorem nodup_rows (t : Table K V) : (t.rows.map Prod.fst).Nodup := by
  have h := t.nodupKeys
  rw [List.NodupKeys, List.keys] at h
  simpa [rows, Function.comp_def] using List.nodup_reverse.2 h

variable [DecidableEq K]

/-- Change the row of `k` by `f`, if there is one. -/
def modify (k : K) (f : V → V) (t : Table K V) : Table K V :=
  mapRows (fun k' v => if k' = k then f v else v) t

theorem mem_rows {t : Table K V} {k : K} {v : V} :
    (k, v) ∈ t.rows ↔ t.lookup k = some v := by
  rw [← Option.mem_def, AList.mem_lookup_iff]
  simp [rows, Sigma.exists]

theorem lookup_mapRows (f : K → V → V) (t : Table K V) (k : K) :
    (mapRows f t).lookup k = (t.lookup k).map (f k) := by
  ext v
  rw [← Option.mem_def, AList.mem_lookup_iff]
  simp only [mapRows, List.mem_map, Option.map_eq_some_iff, Sigma.exists, Sigma.mk.injEq]
  constructor
  · rintro ⟨k', v', hmem, rfl, hv⟩
    exact ⟨v', AList.mem_lookup_iff.2 hmem, eq_of_heq hv⟩
  · rintro ⟨v', hmem, rfl⟩
    exact ⟨k, v', AList.mem_lookup_iff.1 hmem, rfl, HEq.rfl⟩

theorem rows_modify (k : K) (f : V → V) (t : Table K V) :
    (modify k f t).rows = t.rows.map fun e => if e.1 = k then (e.1, f e.2) else e := by
  simp only [rows, modify, mapRows, ← List.map_reverse, List.map_map]
  apply List.map_congr_left
  intro e _
  simp only [Function.comp_apply]
  split <;> rfl

/-- A condition that fails for a row and for what it becomes does not see the change. -/
theorem filter_rows_modify {k : K} {f : V → V} {t : Table K V} {p : K × V → Bool}
    (h : ∀ v, t.lookup k = some v → p (k, v) = false ∧ p (k, f v) = false) :
    (modify k f t).rows.filter p = t.rows.filter p := by
  have hrows : ∀ e ∈ t.rows, e.1 = k → p e = false ∧ p (e.1, f e.2) = false := by
    rintro ⟨k', v⟩ he rfl
    exact h v (mem_rows.1 he)
  rw [rows_modify]
  generalize t.rows = rows at hrows
  induction rows with
  | nil => rfl
  | cons e rows ih =>
      have ih := ih fun e' he' => hrows e' (List.mem_cons_of_mem e he')
      rw [List.map_cons, List.filter_cons, List.filter_cons, ih]
      by_cases hk : e.1 = k
      · obtain ⟨hold, hnew⟩ := hrows e List.mem_cons_self hk
        rw [if_pos hk, hold, hnew, if_neg Bool.false_ne_true, if_neg Bool.false_ne_true]
      · rw [if_neg hk]

theorem rows_insert {k : K} {v : V} {t : Table K V} (h : t.lookup k = none) :
    rows (AList.insert k v t) = t.rows ++ [(k, v)] := by
  have hmem : k ∉ t := AList.lookup_eq_none.1 h
  rw [rows, AList.entries_insert_of_notMem hmem, List.reverse_cons, List.map_append]
  rfl

/-- The rows that satisfy a condition are as many in two tables if they have the same keys. -/
theorem length_filter_rows_congr {t t' : Table K V} {p : K × V → Bool}
    (h : ∀ k, (∃ v, t.lookup k = some v ∧ p (k, v) = true) ↔
      ∃ v, t'.lookup k = some v ∧ p (k, v) = true) :
    (t.rows.filter p).length = (t'.rows.filter p).length := by
  have hkeys : ∀ (t : Table K V) k, k ∈ (t.rows.filter p).map Prod.fst ↔
      ∃ v, t.lookup k = some v ∧ p (k, v) = true := by
    intro t k
    simp only [List.mem_map, List.mem_filter, Prod.exists, mem_rows]
    constructor
    · rintro ⟨k, v, hv, rfl⟩
      exact ⟨v, hv⟩
    · rintro ⟨v, hv⟩
      exact ⟨k, v, hv, rfl⟩
  have hnodup : ∀ t : Table K V, ((t.rows.filter p).map Prod.fst).Nodup := fun t =>
    (nodup_rows t).sublist (List.filter_sublist.map _)
  have hperm := (List.perm_ext_iff_of_nodup (hnodup t) (hnodup t')).2 fun k =>
    (hkeys t k).trans ((h k).trans (hkeys t' k).symm)
  simpa using hperm.length_eq

theorem lookup_modify (k : K) (f : V → V) (t : Table K V) (k' : K) :
    (modify k f t).lookup k' = if k' = k then (t.lookup k').map f else t.lookup k' := by
  rw [modify, lookup_mapRows]
  split <;> simp

@[simp] theorem lookup_modify_self (k : K) (f : V → V) (t : Table K V) :
    (modify k f t).lookup k = (t.lookup k).map f := by
  rw [lookup_modify, if_pos rfl]

theorem lookup_modify_of_ne {k k' : K} (h : k' ≠ k) (f : V → V) (t : Table K V) :
    (modify k f t).lookup k' = t.lookup k' := by
  rw [lookup_modify, if_neg h]

theorem modify_congr {k : K} {f g : V → V} {t : Table K V}
    (h : ∀ v, t.lookup k = some v → f v = g v) : modify k f t = modify k g t := by
  refine AList.ext (List.map_congr_left fun e he => ?_)
  dsimp only
  split
  · next hk =>
      subst hk
      rw [h e.2 (AList.mem_lookup_iff.2 he)]
  · rfl

theorem modify_eq_self {k : K} {f : V → V} {t : Table K V}
    (h : ∀ v, t.lookup k = some v → f v = v) : modify k f t = t := by
  rw [modify_congr h]
  refine AList.ext ((List.map_congr_left fun e _ => ?_).trans (List.map_id _))
  dsimp only
  rw [ite_self]
  rfl

theorem modify_modify (k : K) (f g : V → V) (t : Table K V) :
    modify k g (modify k f t) = modify k (g ∘ f) t := by
  refine AList.ext ((List.map_map ..).trans (List.map_congr_left fun e _ => ?_))
  simp only [Function.comp_apply]
  split <;> rfl

theorem modify_comm {k k' : K} (h : k ≠ k') (f g : V → V) (t : Table K V) :
    modify k f (modify k' g t) = modify k' g (modify k f t) := by
  refine AList.ext ((List.map_map ..).trans (Eq.trans ?_ (List.map_map ..).symm))
  refine List.map_congr_left fun e _ => ?_
  simp only [Function.comp_apply]
  grind

theorem lookup_filterRows (p : K → V → Bool) (t : Table K V) (k : K) :
    (filterRows p t).lookup k = (t.lookup k).filter (p k) := by
  ext v
  rw [← Option.mem_def, AList.mem_lookup_iff]
  simp only [filterRows, List.mem_filter, Option.filter_eq_some_iff]
  rw [← AList.mem_lookup_iff, Option.mem_def]

theorem lookup_insert (t : Table K V) (k : K) (v : V) (k' : K) :
    (AList.insert k v t).lookup k' = if k' = k then some v else t.lookup k' := by
  split
  · next h => rw [h, AList.lookup_insert]
  · next h => exact AList.lookup_insert_ne h

/-! ### What every row satisfies -/

/-- Every row satisfies `P`. -/
def Every (P : V → Prop) (t : Table K V) : Prop := ∀ k v, t.lookup k = some v → P v

section Every

variable {P : V → Prop} {t : Table K V}

theorem Every.of_mem_rows (h : Every P t) {e : K × V} (he : e ∈ t.rows) : P e.2 :=
  h e.1 e.2 (mem_rows.1 he)

theorem Every.insert (h : Every P t) {k : K} {v : V} (hv : P v) : Every P (AList.insert k v t) := by
  intro k' v' h'
  rw [lookup_insert] at h'
  split at h'
  · cases h'
    exact hv
  · exact h k' v' h'

theorem Every.mapRows (h : Every P t) {f : K → V → V} (hf : ∀ k v, P v → P (f k v)) :
    Every P (Table.mapRows f t) := by
  intro k v h'
  rw [lookup_mapRows, Option.map_eq_some_iff] at h'
  obtain ⟨v, hv, rfl⟩ := h'
  exact hf k v (h k v hv)

theorem Every.modify (h : Every P t) {k : K} {f : V → V} (hf : ∀ v, P v → P (f v)) :
    Every P (Table.modify k f t) := by
  refine h.mapRows fun k' v hv => ?_
  split
  · exact hf v hv
  · exact hv

theorem Every.filterRows (h : Every P t) {p : K → V → Bool} : Every P (Table.filterRows p t) := by
  intro k v h'
  rw [lookup_filterRows, Option.filter_eq_some_iff] at h'
  exact h k v h'.1

/-- A list of updates, each by a function that keeps `P`. -/
theorem Every.foldl {A : Type*} {f : Table K V → A → Table K V} {entries : List A}
    (hf : ∀ a ∈ entries, ∀ t, Every P t → Every P (f t a)) (h : Every P t) :
    Every P (entries.foldl f t) := by
  induction entries generalizing t with
  | nil => exact h
  | cons a entries ih =>
      exact ih (fun a' ha' => hf a' (List.mem_cons_of_mem a ha')) (hf a List.mem_cons_self t h)

end Every

/-! ### Lists of updates

A list of entries with distinct keys changes each row at most once, so the row of
a key is decided by the entry of that key alone. -/

variable {B : Type*}

theorem lookup_foldl_modify_of_notMem (f : V → B → V) {entries : List (K × B)} {k : K}
    (h : k ∉ entries.map Prod.fst) (t : Table K V) :
    (entries.foldl (fun t e => t.modify e.1 fun v => f v e.2) t).lookup k = t.lookup k := by
  induction entries generalizing t with
  | nil => rfl
  | cons e entries ih =>
      rw [List.map_cons, List.mem_cons, not_or] at h
      rw [List.foldl_cons, ih h.2, lookup_modify_of_ne h.1]

theorem lookup_foldl_modify (f : V → B → V) {entries : List (K × B)}
    (hnodup : (entries.map Prod.fst).Nodup) {k : K} {b : B} (h : (k, b) ∈ entries)
    (t : Table K V) :
    (entries.foldl (fun t e => t.modify e.1 fun v => f v e.2) t).lookup k =
      (t.lookup k).map fun v => f v b := by
  induction entries generalizing t with
  | nil => cases h
  | cons e entries ih =>
      rw [List.map_cons, List.nodup_cons] at hnodup
      rw [List.foldl_cons]
      rcases List.mem_cons.1 h with rfl | h
      · rw [lookup_foldl_modify_of_notMem f hnodup.1, lookup_modify_self]
      · have hne : k ≠ e.1 := by
          rintro rfl
          exact hnodup.1 (List.mem_map.2 ⟨_, h, rfl⟩)
        rw [ih hnodup.2 h, lookup_modify_of_ne hne]

theorem lookup_modify_eq_some_iff {f : V → V} {p : V → Prop} (hkeep : ∀ v, p v → f v = v)
    (hreflect : ∀ v, p (f v) → p v) (t : Table K V) (k k' : K) {v : V} (hv : p v) :
    (modify k f t).lookup k' = some v ↔ t.lookup k' = some v := by
  rw [lookup_modify]
  split
  · rw [Option.map_eq_some_iff]
    constructor
    · rintro ⟨v', h, rfl⟩
      rw [h, hkeep v' (hreflect v' hv)]
    · intro h
      exact ⟨v, h, hkeep v hv⟩
  · rfl

/-- The rows that no entry changes are the same after a list of updates. -/
theorem lookup_foldl_modify_eq_some_iff {f : V → B → V} {p : V → Prop}
    (hkeep : ∀ v b, p v → f v b = v) (hreflect : ∀ v b, p (f v b) → p v)
    (entries : List (K × B)) (t : Table K V) (k : K) {v : V} (hv : p v) :
    (entries.foldl (fun t e => t.modify e.1 fun v => f v e.2) t).lookup k = some v ↔
      t.lookup k = some v := by
  induction entries generalizing t with
  | nil => rfl
  | cons e entries ih =>
      rw [List.foldl_cons, ih]
      exact lookup_modify_eq_some_iff (fun v => hkeep v e.2) (fun v => hreflect v e.2) t e.1 k hv

/-- What no entry changes of a row is the same after a list of updates. -/
theorem map_lookup_foldl_modify {A : Type*} {f : V → B → V} {g : V → A}
    (hkeep : ∀ v b, g (f v b) = g v) (entries : List (K × B)) (t : Table K V) (k : K) :
    ((entries.foldl (fun t e => t.modify e.1 fun v => f v e.2) t).lookup k).map g =
      (t.lookup k).map g := by
  induction entries generalizing t with
  | nil => rfl
  | cons e entries ih =>
      rw [List.foldl_cons, ih, lookup_modify]
      split
      · rw [Option.map_map]
        exact congrArg (Option.map · _) (funext fun v => hkeep v e.2)
      · rfl

theorem lookup_foldl_insert_of_notMem {A : Type*} (key : A → K) (f : A → V) {entries : List A}
    {k : K} (h : ∀ a ∈ entries, key a ≠ k) (t : Table K V) :
    (entries.foldl (fun t a => AList.insert (key a) (f a) t) t).lookup k = t.lookup k := by
  induction entries generalizing t with
  | nil => rfl
  | cons a entries ih =>
      rw [List.foldl_cons, ih fun a' ha' => h a' (List.mem_cons_of_mem a ha'), lookup_insert,
        if_neg (h a List.mem_cons_self).symm]

/-- Inserting entries of distinct keys leaves each of them. -/
theorem lookup_foldl_insert {A : Type*} (key : A → K) (f : A → V) {entries : List A}
    (hnodup : (entries.map key).Nodup) {a : A} (h : a ∈ entries) (t : Table K V) :
    (entries.foldl (fun t a => AList.insert (key a) (f a) t) t).lookup (key a) = some (f a) := by
  induction entries generalizing t with
  | nil => cases h
  | cons b entries ih =>
      rw [List.map_cons, List.nodup_cons] at hnodup
      rw [List.foldl_cons]
      rcases List.mem_cons.1 h with rfl | h
      · rw [lookup_foldl_insert_of_notMem, AList.lookup_insert]
        intro b hb hkey
        exact hnodup.1 (List.mem_map.2 ⟨b, hb, hkey⟩)
      · exact ih hnodup.2 h _

/-- A row found after inserting a list of entries was there, or is of an entry. -/
theorem lookup_foldl_insert_eq_some {A : Type*} (key : A → K) (f : A → V) {entries : List A}
    {k : K} {v : V} {t : Table K V}
    (h : (entries.foldl (fun t a => AList.insert (key a) (f a) t) t).lookup k = some v) :
    t.lookup k = some v ∨ ∃ a ∈ entries, key a = k ∧ f a = v := by
  induction entries generalizing t with
  | nil => exact Or.inl h
  | cons a entries ih =>
      rw [List.foldl_cons] at h
      rcases ih h with h | ⟨a', ha', hk, hv⟩
      · rw [lookup_insert] at h
        split at h
        · next hk => exact Or.inr ⟨a, List.mem_cons_self, hk.symm, by simpa using h⟩
        · exact Or.inl h
      · exact Or.inr ⟨a', List.mem_cons_of_mem a ha', hk, hv⟩

theorem isSome_lookup_foldl_insert {A : Type*} (key : A → K) (f : A → V) {entries : List A}
    {k : K} {t : Table K V} (h : (t.lookup k).isSome ∨ ∃ a ∈ entries, key a = k) :
    ((entries.foldl (fun t a => AList.insert (key a) (f a) t) t).lookup k).isSome := by
  induction entries generalizing t with
  | nil => simpa using h
  | cons a entries ih =>
      rw [List.foldl_cons]
      apply ih
      rw [lookup_insert]
      by_cases hk : k = key a
      · simp [hk]
      · rcases h with h | ⟨a', ha', rfl⟩
        · simp [hk, h]
        · rcases List.mem_cons.1 ha' with rfl | ha'
          · exact absurd rfl hk
          · exact Or.inr ⟨a', ha', rfl⟩

/-- The order of entries with distinct keys does not matter to what their updates leave. -/
theorem lookup_foldl_modify_perm (f : V → B → V) {entries entries' : List (K × B)}
    (hperm : entries.Perm entries') (hnodup : (entries.map Prod.fst).Nodup) (t : Table K V) (k : K) :
    (entries'.foldl (fun t e => t.modify e.1 fun v => f v e.2) t).lookup k =
      (entries.foldl (fun t e => t.modify e.1 fun v => f v e.2) t).lookup k := by
  have hkeys := hperm.map Prod.fst
  by_cases h : k ∈ entries.map Prod.fst
  · obtain ⟨⟨_, b⟩, hb, rfl⟩ := List.mem_map.1 h
    rw [lookup_foldl_modify f hnodup hb,
      lookup_foldl_modify f (hkeys.nodup_iff.1 hnodup) (hperm.mem_iff.1 hb)]
  · rw [lookup_foldl_modify_of_notMem f h,
      lookup_foldl_modify_of_notMem f fun h' => h (hkeys.mem_iff.2 h')]

theorem lookup_foldl_insert_perm {A : Type*} (key : A → K) (f : A → V) {entries entries' : List A}
    (hperm : entries.Perm entries') (hnodup : (entries.map key).Nodup) (t : Table K V) (k : K) :
    (entries'.foldl (fun t a => AList.insert (key a) (f a) t) t).lookup k =
      (entries.foldl (fun t a => AList.insert (key a) (f a) t) t).lookup k := by
  by_cases h : ∃ a ∈ entries, key a = k
  · obtain ⟨a, ha, rfl⟩ := h
    rw [lookup_foldl_insert key f hnodup ha, lookup_foldl_insert key f
      ((hperm.map key).nodup_iff.1 hnodup) (hperm.mem_iff.1 ha)]
  · have hno : ∀ a ∈ entries, key a ≠ k := fun a ha hk => h ⟨a, ha, hk⟩
    rw [lookup_foldl_insert_of_notMem key f hno,
      lookup_foldl_insert_of_notMem key f fun a ha => hno a (hperm.mem_iff.2 ha)]

end Table
