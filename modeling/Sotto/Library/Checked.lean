import Mathlib.Data.List.Forall2
import Mathlib.Data.List.Induction
import Mathlib.Logic.Basic

/-!
# Checked computations

Computations that stop at the first check that fails: the checks, what a computation that
succeeds went through, and a loop of them.
-/

namespace Sotto

namespace Checked

variable {ε α β : Type*}

/-- Fail with `e` unless `p` holds. -/
def require (p : Prop) [Decidable p] (e : ε) : Except ε Unit :=
  if p then .ok () else .error e

/-- The value, or the error `e` if there is none. -/
def okOr (a : Option α) (e : ε) : Except ε α :=
  match a with
  | some a => .ok a
  | none => .error e

@[simp]
theorem require_eq_ok {p : Prop} [Decidable p] {e : ε} {u : Unit} :
    require p e = .ok u ↔ p := by
  unfold require
  split <;> simp_all

@[simp]
theorem okOr_eq_ok {a : Option α} {e : ε} {b : α} : okOr a e = .ok b ↔ a = some b := by
  cases a <;> simp [okOr]

@[simp]
theorem bind_eq_ok {ε α β : Type u} {x : Except ε α} {f : α → Except ε β} {b : β} :
    x >>= f = .ok b ↔ ∃ a, x = .ok a ∧ f a = .ok b := by
  cases x <;> simp [bind, Except.bind]

theorem bind_of_ok {ε α β : Type u} {x : Except ε α} {f : α → Except ε β} {a : α}
    (h : x = .ok a) : x >>= f = f a := by
  rw [h]
  rfl

@[simp]
theorem pure_eq_ok {ε α : Type u} {a b : α} : (pure a : Except ε α) = .ok b ↔ a = b := by
  simp [pure, Except.pure]

theorem bind_eq_error {ε α β : Type u} {x : Except ε α} {f : α → Except ε β} {e : ε} :
    x >>= f = .error e ↔ x = .error e ∨ ∃ a, x = .ok a ∧ f a = .error e := by
  cases x <;> simp [bind, Except.bind]

theorem require_eq_error {p : Prop} [Decidable p] {e e' : ε} :
    require p e = .error e' ↔ ¬ p ∧ e = e' := by
  unfold require
  split <;> simp_all

theorem okOr_eq_error {a : Option α} {e e' : ε} : okOr a e = .error e' ↔ a = none ∧ e = e' := by
  cases a <;> simp [okOr]

theorem mapError_eq_error {ε ε' α : Type*} {x : Except ε α} {f : ε → ε'} {e : ε'} :
    x.mapError f = .error e ↔ ∃ e', x = .error e' ∧ f e' = e := by
  cases x <;> simp [Except.mapError]

theorem mapM_eq_ok {ε α β : Type u} {f : α → Except ε β} {g : α → β} {l : List α}
    (h : ∀ a ∈ l, f a = .ok (g a)) : l.mapM f = .ok (l.map g) := by
  induction l with
  | nil => rfl
  | cons a l ih =>
    rw [List.mapM_cons, h a List.mem_cons_self, ih fun b hb => h b (List.mem_cons_of_mem a hb)]
    rfl

@[simp]
theorem mapError_eq_ok {ε ε' α : Type*} {x : Except ε α} {f : ε → ε'} {a : α} :
    x.mapError f = .ok a ↔ x = .ok a := by
  cases x <;> simp [Except.mapError]

/-- What is read back from what was written. -/
theorem mapM_map_eq_ok {ε α β : Type u} {f : α → β} {g : β → Except ε α} {l : List α}
    (h : ∀ a ∈ l, g (f a) = .ok a) : (l.map f).mapM g = .ok l := by
  rw [List.mapM_map]
  exact (mapM_eq_ok (g := id) h).trans (by rw [List.map_id])

theorem exists_of_mapM {ε α β : Type u} {f : α → Except ε β} {l : List α} {k : List β} {a : α}
    (h : l.mapM f = .ok k) (ha : a ∈ l) : ∃ b ∈ k, f a = .ok b := by
  induction l generalizing k with
  | nil => cases ha
  | cons a' l ih =>
    rw [List.mapM_cons] at h
    obtain ⟨b, hb, h⟩ := bind_eq_ok.1 h
    obtain ⟨k', hk', h⟩ := bind_eq_ok.1 h
    obtain rfl := pure_eq_ok.1 h
    rcases List.mem_cons.1 ha with rfl | ha
    · exact ⟨b, List.mem_cons_self, hb⟩
    · obtain ⟨b', hb', hfa⟩ := ih hk' ha
      exact ⟨b', List.mem_cons_of_mem b hb', hfa⟩

theorem mapM_eq_ok_iff {ε α β : Type u} {f : α → Except ε β} {l : List α} {k : List β} :
    l.mapM f = .ok k ↔ List.Forall₂ (fun a b => f a = .ok b) l k := by
  induction l generalizing k with
  | nil => simp [pure, Except.pure, eq_comm]
  | cons a l ih =>
    cases k with
    | nil =>
      cases ha : f a <;> cases hl : l.mapM f <;>
        simp [List.mapM_cons, ha, hl, bind, Except.bind]
    | cons b k =>
      rw [List.forall₂_cons, ← ih, List.mapM_cons]
      cases ha : f a <;> cases hl : l.mapM f <;> simp [bind, Except.bind]

theorem exists_of_mapM_eq_error {ε α β : Type u} {f : α → Except ε β} {l : List α} {e : ε}
    (h : l.mapM f = .error e) : ∃ a ∈ l, f a = .error e := by
  induction l with
  | nil => cases h
  | cons a l ih =>
    rw [List.mapM_cons] at h
    rcases bind_eq_error.1 h with h | ⟨b, -, h⟩
    · exact ⟨a, List.mem_cons_self, h⟩
    rcases bind_eq_error.1 h with h | ⟨k, -, h⟩
    · obtain ⟨a', ha', h⟩ := ih h
      exact ⟨a', List.mem_cons_of_mem a ha', h⟩
    · cases h

theorem mapM_eq_some {α β : Type u} {f : α → Option β} {l : List α} {k : List β} :
    l.mapM f = some k ↔ List.Forall₂ (fun a b => f a = some b) l k := by
  induction l generalizing k with
  | nil => simp [eq_comm]
  | cons a l ih =>
    cases k with
    | nil => cases ha : f a <;> cases hl : l.mapM f <;> simp [List.mapM_cons, ha, hl]
    | cons b k =>
      rw [List.forall₂_cons, ← ih, List.mapM_cons]
      cases ha : f a <;> cases hl : l.mapM f <;> simp

/-- Each step of a loop succeeds if the entries up to it satisfy `P`, and the state after it
records them. -/
structure Loop {ε σ α : Type u} (f : σ → α → Except ε σ) (P : List α → Prop)
    (Records : σ → List α → Prop) : Prop where
  shorter : ∀ l a, P (l ++ [a]) → P l
  step : ∀ s l a, Records s l → P l → ((∃ s', f s a = .ok s') ↔ P (l ++ [a]))
  next : ∀ s l a s', Records s l → P (l ++ [a]) → f s a = .ok s' → Records s' (l ++ [a])

theorem Loop.of_append {ε σ α : Type u} {f : σ → α → Except ε σ} {P : List α → Prop}
    {Records : σ → List α → Prop} (h : Loop f P Records) (done l : List α) (hP : P (done ++ l)) :
    P done := by
  induction l using List.reverseRecOn with
  | nil => rwa [List.append_nil] at hP
  | append_singleton l a ih => exact ih (h.shorter _ a (by rwa [List.append_assoc]))

/-- A loop succeeds if all its entries satisfy `P`. -/
theorem Loop.foldlM {ε σ α : Type u} {f : σ → α → Except ε σ} {P : List α → Prop}
    {Records : σ → List α → Prop} (h : Loop f P Records) (l : List α) {k : List α} {s : σ}
    (hs : Records s k) (hP : P k) :
    ((∃ s', l.foldlM f s = .ok s') ↔ P (k ++ l)) ∧
      ∀ s', l.foldlM f s = .ok s' → Records s' (k ++ l) := by
  induction l generalizing k s with
  | nil =>
    simp only [List.foldlM_nil, pure_eq_ok, exists_eq', List.append_nil, true_iff, forall_eq']
    exact ⟨hP, hs⟩
  | cons a l ih =>
    simp only [List.foldlM_cons, bind_eq_ok, List.append_cons k a l]
    constructor
    · constructor
      · rintro ⟨s', s₁, h₁, hl⟩
        have ha := (h.step s k a hs hP).mp ⟨s₁, h₁⟩
        exact (ih (h.next s k a s₁ hs ha h₁) ha).1.mp ⟨s', hl⟩
      · intro hall
        have ha := h.of_append (k ++ [a]) l hall
        obtain ⟨s₁, h₁⟩ := (h.step s k a hs hP).mpr ha
        obtain ⟨s', hl⟩ := (ih (h.next s k a s₁ hs ha h₁) ha).1.mpr hall
        exact ⟨s', s₁, h₁, hl⟩
    · rintro s' ⟨s₁, h₁, hl⟩
      have ha := (h.step s k a hs hP).mp ⟨s₁, h₁⟩
      exact (ih (h.next s k a s₁ hs ha h₁) ha).2 s' hl

end Checked

end Sotto
