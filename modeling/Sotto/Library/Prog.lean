import Mathlib.Logic.Basic

/-!
# Programs over a signature of commands

A program either returns or issues one command of a signature and continues with
the reply. The signature is a type `C` of commands with a type of replies for
each, so a program says in which order the commands are issued and what is done
with each reply, and nothing about what a command does. Different meanings are
given to the same program: a deterministic handler here, and the interleaved
executions of the `RelyGuarantee` module.
-/

universe u v w

/-- A program that issues commands of `C`, each answered in `R c`, and returns a
value of `α`. -/
inductive Prog {C : Type u} (R : C → Type v) (α : Type w) : Type (max u v w)
  | ret (a : α)
  | call (c : C) (k : R c → Prog R α)

namespace Prog

variable {C : Type u} {R : C → Type v} {α β γ : Type w} {σ : Type*}

/-- Continue with `f` where the program returns. -/
def bind (p : Prog R α) (f : α → Prog R β) : Prog R β :=
  match p with
  | ret a => f a
  | call c k => call c fun r => (k r).bind f

instance : Monad (Prog R : Type w → Type _) where
  pure := ret
  bind := bind

@[simp] theorem pure_eq (a : α) : (pure a : Prog R α) = ret a := rfl

@[simp] theorem ret_bind (a : α) (f : α → Prog R β) : (ret a >>= f) = f a := rfl

@[simp] theorem call_bind (c : C) (k : R c → Prog R α) (f : α → Prog R β) :
    (call c k >>= f) = call c fun r => k r >>= f := rfl

theorem bind_ret (p : Prog R α) : p >>= ret = p := by
  induction p with
  | ret a => rfl
  | call c k ih =>
      rw [call_bind]
      exact congrArg (call c) (funext ih)

theorem bind_assoc (p : Prog R α) (f : α → Prog R β) (g : β → Prog R γ) :
    p >>= f >>= g = p >>= fun a => f a >>= g := by
  induction p with
  | ret a => rfl
  | call c k ih =>
      rw [call_bind, call_bind, call_bind]
      exact congrArg (call c) (funext ih)

instance : LawfulMonad (Prog R : Type w → Type _) := LawfulMonad.mk' _ bind_ret (fun _ _ => rfl) bind_assoc

/-- The program that issues one command and returns its reply. -/
def perform {R : C → Type w} (c : C) : Prog R (R c) := call c ret

/-- Run a program with a deterministic handler that threads a state. -/
def run (handle : (c : C) → σ → R c × σ) : Prog R α → σ → α × σ
  | ret a, s => (a, s)
  | call c k, s => run handle (k (handle c s).1) (handle c s).2

@[simp] theorem run_ret (handle : (c : C) → σ → R c × σ) (a : α) (s : σ) :
    run handle (ret a) s = (a, s) := rfl

theorem run_call (handle : (c : C) → σ → R c × σ) (c : C) (k : R c → Prog R α) (s : σ) :
    run handle (call c k) s = run handle (k (handle c s).1) (handle c s).2 := rfl

theorem run_bind (handle : (c : C) → σ → R c × σ) (p : Prog R α) (f : α → Prog R β) (s : σ) :
    run handle (p >>= f) s =
      run handle (f (run handle p s).1) (run handle p s).2 := by
  induction p generalizing s with
  | ret a => rfl
  | call c k ih =>
      rw [call_bind, run_call, run_call]
      exact ih _ _

/-- Whether every command passes a check when a program runs with a handler. -/
def passes (handle : (c : C) → σ → R c × σ) (check : C → σ → Bool) : Prog R α → σ → Bool
  | ret _, _ => true
  | call c k, s => check c s && passes handle check (k (handle c s).1) (handle c s).2

theorem passes_of_forall {handle : (c : C) → σ → R c × σ} {check : C → σ → Bool}
    (h : ∀ c s, check c s) (p : Prog R α) (s : σ) : p.passes handle check s := by
  induction p generalizing s with
  | ret a => rfl
  | call c k ih =>
      rw [passes, Bool.and_eq_true]
      exact ⟨h c s, ih _ _⟩

section Expand

variable {C' : Type u} {R' : C' → Type w} {R : C → Type w}

/-- Replace every command by a program over another signature. -/
def expand (h : (c : C) → Prog R' (R c)) : Prog R α → Prog R' α
  | ret a => ret a
  | call c k => h c >>= fun r => (k r).expand h

theorem expand_ret (h : (c : C) → Prog R' (R c)) (a : α) : (ret a).expand h = ret a := rfl

theorem expand_bind (h : (c : C) → Prog R' (R c)) (p : Prog R α) (f : α → Prog R β) :
    (p >>= f).expand h = p.expand h >>= fun a => (f a).expand h := by
  induction p with
  | ret a => rfl
  | call c k ih =>
      rw [call_bind, expand, expand, bind_assoc]
      exact congrArg (h c >>= ·) (funext ih)

/-- Running an expanded program is running it with the handler that runs the expansions. -/
theorem run_expand (handle : (c : C') → σ → R' c × σ) (h : (c : C) → Prog R' (R c))
    (p : Prog R α) (s : σ) :
    run handle (p.expand h) s = run (fun c s => run handle (h c) s) p s := by
  induction p generalizing s with
  | ret a => rfl
  | call c k ih =>
      rw [expand, run_bind, run_call]
      exact ih _ _

theorem expand_perform_eq (h : (c : C) → Prog R' (R c)) (c : C) :
    (perform c : Prog R (R c)).expand h = h c := bind_ret (h c)

/-- Expanding every command to itself changes nothing. -/
theorem expand_perform (p : Prog R α) : p.expand perform = p := by
  induction p with
  | ret a => rfl
  | call c k ih => exact congrArg (call c) (funext ih)

end Expand

/-! ### Running programs that can fail -/

section RunFail

variable {ε : Type w} {handle : (c : C) → σ → R c × σ} {s s' : σ}

/-- Run a program that can fail with a handler. -/
def runE (handle : (c : C) → σ → R c × σ) (p : ExceptT ε (Prog R) α) (s : σ) : Except ε α × σ :=
  run handle p.run s

@[simp] theorem runE_pure (a : α) :
    runE handle (pure a : ExceptT ε (Prog R) α) s = (.ok a, s) := rfl

@[simp] theorem runE_throw (e : ε) :
    runE handle (throw e : ExceptT ε (Prog R) α) s = (.error e, s) := rfl

@[simp] theorem runE_mk (p : Prog R (Except ε α)) :
    runE handle (ExceptT.mk p) s = run handle p s := rfl

theorem runE_bind_of_ok {p : ExceptT ε (Prog R) α} {f : α → ExceptT ε (Prog R) β} {a : α}
    (h : runE handle p s = (.ok a, s')) : runE handle (p >>= f) s = runE handle (f a) s' := by
  have hrun : runE handle (p >>= f) s = run handle (p.run >>= ExceptT.bindCont f) s := rfl
  unfold runE at h
  rw [hrun, run_bind, h]
  rfl

theorem runE_bind_of_error {p : ExceptT ε (Prog R) α} {f : α → ExceptT ε (Prog R) β} {e : ε}
    (h : runE handle p s = (.error e, s')) : runE handle (p >>= f) s = (.error e, s') := by
  have hrun : runE handle (p >>= f) s = run handle (p.run >>= ExceptT.bindCont f) s := rfl
  unfold runE at h
  rw [hrun, run_bind, h]
  rfl

@[simp] theorem runE_lift (p : Prog R α) :
    runE handle (ExceptT.lift p : ExceptT ε (Prog R) α) s =
      (.ok (run handle p s).1, (run handle p s).2) := by
  have h : runE handle (ExceptT.lift p : ExceptT ε (Prog R) α) s =
      run handle (p >>= fun a => ret (.ok a)) s := rfl
  rw [h, run_bind]
  rfl

theorem runE_bind_eq_ok {p : ExceptT ε (Prog R) α} {f : α → ExceptT ε (Prog R) β} {b : β} :
    runE handle (p >>= f) s = (.ok b, s') ↔
      ∃ a s₁, runE handle p s = (.ok a, s₁) ∧ runE handle (f a) s₁ = (.ok b, s') := by
  cases hp : runE handle p s with
  | mk r s₁ =>
      cases r with
      | ok a =>
          rw [runE_bind_of_ok hp]
          constructor
          · intro h
            exact ⟨a, s₁, rfl, h⟩
          · rintro ⟨_, _, h₁, h⟩
            cases h₁
            exact h
      | error e =>
          rw [runE_bind_of_error hp]
          simp

end RunFail

/-- Every command the program can issue satisfies `P`. -/
def Uses (P : C → Prop) : Prog R α → Prop
  | ret _ => True
  | call c k => P c ∧ ∀ r, Uses P (k r)

theorem uses_of_forall {P : C → Prop} (h : ∀ c, P c) (p : Prog R α) : p.Uses P := by
  induction p with
  | ret a => trivial
  | call c k ih => exact ⟨h c, ih⟩

theorem Uses.mono {P P' : C → Prop} {p : Prog R α} (hp : p.Uses P) (h : ∀ {c}, P c → P' c) :
    p.Uses P' := by
  induction p with
  | ret a => trivial
  | call c k ih => exact ⟨h hp.1, fun r => ih r (hp.2 r)⟩

theorem Uses.and {P P' : C → Prop} {p : Prog R α} (hp : p.Uses P) (hp' : p.Uses P') :
    p.Uses fun c => P c ∧ P' c := by
  induction p with
  | ret a => trivial
  | call c k ih => exact ⟨⟨hp.1, hp'.1⟩, fun r => ih r (hp.2 r) (hp'.2 r)⟩

theorem Uses.bind {P : C → Prop} {p : Prog R α} {f : α → Prog R β} (hp : p.Uses P)
    (hf : ∀ a, (f a).Uses P) : (p >>= f).Uses P := by
  induction p with
  | ret a => exact hf a
  | call c k ih =>
      rw [call_bind]
      exact ⟨hp.1, fun r => ih r (hp.2 r)⟩

/-- A relation that every used command keeps holds between the ends of a run. -/
theorem Uses.run {P : C → Prop} {S : σ → σ → Prop} {handle : (c : C) → σ → R c × σ}
    {p : Prog R α} (hp : p.Uses P) (refl : ∀ s, S s s)
    (trans : ∀ {s s' s''}, S s s' → S s' s'' → S s s'')
    (step : ∀ c s, P c → S s (handle c s).2) (s : σ) : S s (p.run handle s).2 := by
  induction p generalizing s with
  | ret a => exact refl s
  | call c k ih => exact trans (step c s hp.1) (ih _ (hp.2 _) _)

theorem Uses.expand {C' : Type u} {R' : C' → Type w} {R : C → Type w} {P : C → Prop}
    {P' : C' → Prop} {h : (c : C) → Prog R' (R c)} {p : Prog R α} (hp : p.Uses P)
    (hh : ∀ c, P c → (h c).Uses P') : (p.expand h).Uses P' := by
  induction p with
  | ret a => trivial
  | call c k ih => exact (hh c hp.1).bind fun r => ih r (hp.2 r)

/-- Every value the program can return satisfies `Q` while the replies satisfy `A`. -/
def Returns (A : (c : C) → R c → Prop) (Q : α → Prop) : Prog R α → Prop
  | ret a => Q a
  | call c k => ∀ r, A c r → Returns A Q (k r)

theorem Returns.bind {A : (c : C) → R c → Prop} {Q : α → Prop} {Q' : β → Prop} {p : Prog R α}
    {f : α → Prog R β} (hp : p.Returns A Q) (hf : ∀ a, Q a → (f a).Returns A Q') :
    (p >>= f).Returns A Q' := by
  induction p with
  | ret a => exact hf a hp
  | call c k ih =>
      rw [call_bind]
      intro r hr
      exact ih r (hp r hr)

/-- What a program returns under all replies it returns under those of a handler. -/
theorem Returns.run {A : (c : C) → R c → Prop} {Q : α → Prop} {handle : (c : C) → σ → R c × σ}
    {p : Prog R α} (hp : p.Returns A Q) (step : ∀ c s, A c (handle c s).1) (s : σ) :
    Q (p.run handle s).1 := by
  induction p generalizing s with
  | ret a => exact hp
  | call c k ih => exact ih _ (hp _ (step c s)) _

theorem returns_true {A : (c : C) → R c → Prop} (p : Prog R α) :
    p.Returns A fun _ => True := by
  induction p with
  | ret a => trivial
  | call c k ih => exact fun r _ => ih r

theorem Returns.expand {C' : Type u} {R' : C' → Type w} {R : C → Type w}
    {A : (c : C) → R c → Prop} {A' : (c : C') → R' c → Prop} {Q : α → Prop}
    {h : (c : C) → Prog R' (R c)} {p : Prog R α} (hp : p.Returns A Q)
    (hh : ∀ c, (h c).Returns A' (A c)) : (p.expand h).Returns A' Q := by
  induction p with
  | ret a => exact hp
  | call c k ih => exact (hh c).bind fun r hr => ih r (hp r hr)

/-! ### Programs that can fail -/

section Fail

variable {ε : Type w} {P : C → Prop}

/-- Every command of a program that can fail satisfies `P`. -/
def UsesE (P : C → Prop) (p : ExceptT ε (Prog R) α) : Prop := Uses P p.run

theorem UsesE.mono {P' : C → Prop} {p : ExceptT ε (Prog R) α} (hp : UsesE P p)
    (h : ∀ {c}, P c → P' c) : UsesE P' p :=
  Uses.mono hp h

theorem UsesE.pure (a : α) : UsesE P (pure a : ExceptT ε (Prog R) α) := trivial

theorem UsesE.throw (e : ε) : UsesE P (throw e : ExceptT ε (Prog R) α) := trivial

theorem UsesE.bind {p : ExceptT ε (Prog R) α} {f : α → ExceptT ε (Prog R) β} (hp : UsesE P p)
    (hf : ∀ a, UsesE P (f a)) : UsesE P (p >>= f) := by
  refine Uses.bind hp ?_
  intro r
  cases r with
  | ok a => exact hf a
  | error e => trivial

theorem UsesE.lift {p : Prog R α} (hp : p.Uses P) :
    UsesE P (ExceptT.lift p : ExceptT ε (Prog R) α) := by
  refine Uses.bind hp ?_
  intro a
  trivial

variable {A : (c : C) → R c → Prop} {T : ε → Prop}

/-- Every error the program can fail with satisfies `T` while the replies satisfy `A`. -/
def Throws (A : (c : C) → R c → Prop) (T : ε → Prop) (p : ExceptT ε (Prog R) α) : Prop :=
  p.run.Returns A fun r => ∀ e, r = .error e → T e

theorem Throws.pure (a : α) : Throws A T (pure a : ExceptT ε (Prog R) α) := by
  intro e h
  cases h

theorem Throws.throw {e : ε} (h : T e) : Throws A T (throw e : ExceptT ε (Prog R) α) := by
  intro e' h'
  cases h'
  exact h

theorem Throws.bind {p : ExceptT ε (Prog R) α} {f : α → ExceptT ε (Prog R) β} (hp : Throws A T p)
    (hf : ∀ a, Throws A T (f a)) : Throws A T (p >>= f) := by
  refine Returns.bind hp ?_
  intro r hr
  cases r with
  | ok a => exact hf a
  | error e =>
      intro e' h'
      cases h'
      exact hr e rfl

theorem Throws.lift (p : Prog R α) : Throws A T (ExceptT.lift p : ExceptT ε (Prog R) α) := by
  refine Returns.bind (returns_true p) ?_
  intro a _ e h
  cases h

/-- A program that is run to its result fails only where the rest does. -/
theorem Throws.attempt {p : ExceptT ε (Prog R) α} {f : Except ε α → ExceptT ε (Prog R) β}
    (hp : Throws A T p) (hf : ∀ r, (∀ e, r = .error e → T e) → Throws A T (f r)) :
    Throws A T ((ExceptT.lift p.run : ExceptT ε (Prog R) (Except ε α)) >>= f) := by
  refine Returns.bind (Q := fun r => ∃ r', r = .ok r' ∧ ∀ e, r' = .error e → T e) ?_ ?_
  · refine Returns.bind hp ?_
    intro r hr
    exact ⟨r, rfl, hr⟩
  · rintro _ ⟨r, rfl, hr⟩
    exact hf r hr

end Fail

end Prog
