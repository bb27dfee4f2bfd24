import Mathlib.Logic.Basic

/-!
# Transactions

A transaction threads a state and can fail. Its run succeeds exactly when its parts do one after
another, so the result of a successful run can be read off from them. Committing a transaction
keeps its state when it succeeds, and the old state when it fails.
-/

universe u

/-- A transaction over states `σ` that fails with `ε`. -/
abbrev Transaction (ε σ : Type u) := StateT σ (Except ε)

namespace Transaction

variable {ε σ α β : Type u} {s s' : σ} {a : α} {b : β}

theorem bind_eq_ok {x : Transaction ε σ α} {f : α → Transaction ε σ β} :
    (x >>= f).run s = .ok (b, s') ↔
      ∃ a s₁, x.run s = .ok (a, s₁) ∧ (f a).run s₁ = .ok (b, s') := by
  rw [StateT.run_bind]
  cases h : x.run s with
  | ok r =>
      obtain ⟨a, s₁⟩ := r
      simp only [bind, Except.bind, Except.ok.injEq, Prod.mk.injEq]
      constructor
      · exact fun h => ⟨a, s₁, ⟨rfl, rfl⟩, h⟩
      · rintro ⟨_, _, ⟨rfl, rfl⟩, h⟩
        exact h
  | error e => simp [bind, Except.bind]

theorem pure_eq_ok {c : α} :
    (pure c : Transaction ε σ α).run s = .ok (a, s') ↔ c = a ∧ s = s' := by
  rw [StateT.run_pure]
  simp [pure, Except.pure]

theorem lift_eq_ok {x : Except ε α} :
    (liftM x : Transaction ε σ α).run s = .ok (a, s') ↔ x = .ok a ∧ s = s' := by
  cases x <;> simp [liftM, monadLift, MonadLift.monadLift, StateT.lift, StateT.run, bind,
    Except.bind, pure, Except.pure]

theorem throw_eq_ok {e : ε} : (throw e : Transaction ε σ α).run s = .ok (a, s') ↔ False := by
  simp [throw, throwThe, MonadExceptOf.throw, StateT.run, StateT.lift, bind, Except.bind]

theorem get_eq_ok {c : σ} : (get : Transaction ε σ σ).run s = .ok (c, s') ↔ s = c ∧ s = s' := by
  simp [pure, Except.pure]

theorem set_eq_ok {c : σ} {u : PUnit} :
    (set c : Transaction ε σ PUnit).run s = .ok (u, s') ↔ c = s' := by
  simp [pure, Except.pure]

theorem modify_eq_ok {f : σ → σ} {u : PUnit} :
    (modify f : Transaction ε σ PUnit).run s = .ok (u, s') ↔ f s = s' := by
  simp [pure, Except.pure]

/-! ### Running the parts of a transaction -/

theorem run_bind_of_ok {x : Transaction ε σ α} {f : α → Transaction ε σ β}
    (h : x.run s = .ok (a, s')) : (x >>= f).run s = (f a).run s' := by
  rw [StateT.run_bind, h]
  rfl

theorem run_bind_of_error {x : Transaction ε σ α} {f : α → Transaction ε σ β} {e : ε}
    (h : x.run s = .error e) : (x >>= f).run s = .error e := by
  rw [StateT.run_bind, h]
  rfl

theorem run_get_bind (f : σ → Transaction ε σ β) :
    ((get : Transaction ε σ σ) >>= f).run s = (f s).run s := rfl

theorem run_set_bind (f : PUnit → Transaction ε σ β) :
    ((set s' : Transaction ε σ PUnit) >>= f).run s = (f ⟨⟩).run s' := rfl

theorem run_modify_bind (g : σ → σ) (f : PUnit → Transaction ε σ β) :
    ((modify g : Transaction ε σ PUnit) >>= f).run s = (f ⟨⟩).run (g s) := rfl

theorem run_pure_eq (c : α) : (pure c : Transaction ε σ α).run s = .ok (c, s) := rfl

theorem run_throw_eq (e : ε) : (throw e : Transaction ε σ α).run s = .error e := rfl

/-- Commit a transaction that succeeds; roll back one that fails. -/
def commit (x : Transaction ε σ α) (s : σ) : Except ε α × σ :=
  match x.run s with
  | .ok (a, s') => (.ok a, s')
  | .error e => (.error e, s)

theorem commit_of_ok {x : Transaction ε σ α} (h : x.run s = .ok (a, s')) :
    x.commit s = (.ok a, s') := by
  rw [commit, h]

theorem commit_of_error {x : Transaction ε σ α} {e : ε} (h : x.run s = .error e) :
    x.commit s = (.error e, s) := by
  rw [commit, h]

/-- A committed transaction has succeeded, or it has changed nothing. -/
theorem commit_cases (x : Transaction ε σ α) (s : σ) :
    (∃ a s', x.run s = .ok (a, s') ∧ x.commit s = (.ok a, s')) ∨
      ∃ e, x.run s = .error e ∧ x.commit s = (.error e, s) := by
  cases h : x.run s with
  | ok r => exact Or.inl ⟨r.1, r.2, rfl, commit_of_ok h⟩
  | error e => exact Or.inr ⟨e, rfl, commit_of_error h⟩

end Transaction
