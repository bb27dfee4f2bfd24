import Mathlib.Logic.Relation
import Sotto.Library.Prog

/-!
# Programs amid the steps of others

A program runs on a state that others change too: they make any steps between two of its commands,
and a command is executed at the state that it meets. What every step and every command keeps, a
run keeps.
-/

universe u v w

namespace Prog

open Relation

variable {C : Type u} {R : C → Type v} {S : Type*} {α β ε : Type w} {step : S → S → Prop}
  {exec : (c : C) → S → R c → S → Prop} {s s₁ s' : S}

/-- A program that starts at one state ends at another with a result. -/
def Amid (step : S → S → Prop) (exec : (c : C) → S → R c → S → Prop) :
    Prog R α → S → S → α → Prop
  | ret a, s, s', b => ReflTransGen step s s' ∧ a = b
  | call c k, s, s', b => ∃ s₁ r s₂, ReflTransGen step s s₁ ∧ exec c s₁ r s₂ ∧
      Amid step exec (k r) s₂ s' b

section Programs

variable {p : Prog R α} {a : α}

theorem Amid.before (hs : ReflTransGen step s s₁) (hp : p.Amid step exec s₁ s' a) :
    p.Amid step exec s s' a := by
  cases p with
  | ret b => exact ⟨hs.trans hp.1, hp.2⟩
  | call c k =>
      obtain ⟨s₂, r, s₃, hs₂, hrest⟩ := hp
      exact ⟨s₂, r, s₃, hs.trans hs₂, hrest⟩

theorem Amid.after (hp : p.Amid step exec s s₁ a) (hs : ReflTransGen step s₁ s') :
    p.Amid step exec s s' a := by
  induction p generalizing s with
  | ret b => exact ⟨hp.1.trans hs, hp.2⟩
  | call c k ih =>
      obtain ⟨s₂, r, s₃, hs₂, hr, hrest⟩ := hp
      exact ⟨s₂, r, s₃, hs₂, hr, ih r hrest⟩

theorem amid_bind {f : α → Prog R β} {b : β} :
    (p >>= f).Amid step exec s s' b ↔
      ∃ s₁ a, p.Amid step exec s s₁ a ∧ (f a).Amid step exec s₁ s' b := by
  induction p generalizing s with
  | ret a =>
      constructor
      · intro h
        exact ⟨s, a, ⟨.refl, rfl⟩, h⟩
      · rintro ⟨s₁, _, ⟨hs, rfl⟩, h⟩
        exact h.before hs
  | call c k ih =>
      constructor
      · rintro ⟨s₁, r, s₂, hs, hr, hrest⟩
        obtain ⟨s₃, a, hk, hf⟩ := (ih r).1 hrest
        exact ⟨s₃, a, ⟨s₁, r, s₂, hs, hr, hk⟩, hf⟩
      · rintro ⟨s₃, a, ⟨s₁, r, s₂, hs, hr, hk⟩, hf⟩
        exact ⟨s₁, r, s₂, hs, hr, (ih r).2 ⟨s₃, a, hk, hf⟩⟩

theorem amid_perform {c : C} {r : R c} :
    (perform c).Amid step exec s s' r ↔
      ∃ s₁ s₂, ReflTransGen step s s₁ ∧ exec c s₁ r s₂ ∧ ReflTransGen step s₂ s' := by
  constructor
  · rintro ⟨s₁, _, s₂, hs, hr, hs', rfl⟩
    exact ⟨s₁, s₂, hs, hr, hs'⟩
  · rintro ⟨s₁, s₂, hs, hr, hs'⟩
    exact ⟨s₁, r, s₂, hs, hr, hs', rfl⟩

/-- What the steps and the commands of a program relate, a run relates. -/
theorem Amid.related {D : S → S → Prop} {P : C → Prop} (refl : ∀ s, D s s)
    (trans : ∀ {s s₁ s'}, D s s₁ → D s₁ s' → D s s') (hstep : ∀ {s s'}, step s s' → D s s')
    (hexec : ∀ {c s r s'}, P c → exec c s r s' → D s s') (hp : p.Uses P)
    (h : p.Amid step exec s s' a) : D s s' := by
  have hsteps : ∀ {s s'}, ReflTransGen step s s' → D s s' := by
    intro s s' hs
    induction hs with
    | refl => exact refl _
    | tail _ hs ih => exact trans ih (hstep hs)
  induction p generalizing s with
  | ret b => exact hsteps h.1
  | call c k ih =>
      obtain ⟨s₁, r, s₂, hs, hr, hrest⟩ := h
      exact trans (hsteps hs) (trans (hexec hp.1 hr) (ih r (hp.2 r) hrest))

/-- A program whose commands are executed one after another, each after some steps of others. -/
theorem amid_run {handle : (c : C) → S → R c × S}
    (h : ∀ c s, ∃ s₁, ReflTransGen step s s₁ ∧ exec c s₁ (handle c s).1 (handle c s).2)
    (p : Prog R α) (s : S) : p.Amid step exec s (p.run handle s).2 (p.run handle s).1 := by
  induction p generalizing s with
  | ret a => exact ⟨.refl, rfl⟩
  | call c k ih =>
      obtain ⟨s₁, hs, hexec⟩ := h c s
      exact ⟨s₁, _, _, hs, hexec, ih _ _⟩

end Programs

/-! ### Programs that can fail -/

section Failing

variable {C' : Type u} {R' : C' → Type w} {R : C → Type w} {exec : (c : C) → S → R c → S → Prop}
  {h : (c : C') → Prog R (R' c)} {p : ExceptT ε (Prog R') α} {f : α → ExceptT ε (Prog R') β}

/-- A program that can fail, each command of which is expanded. -/
def AmidE (step : S → S → Prop) (exec : (c : C) → S → R c → S → Prop)
    (h : (c : C') → Prog R (R' c)) (p : ExceptT ε (Prog R') α) (s s' : S)
    (result : Except ε α) : Prop :=
  (p.run.expand h).Amid step exec s s' result

theorem amidE_pure_eq_ok {a b : α} :
    AmidE step exec h (pure a : ExceptT ε (Prog R') α) s s' (.ok b) ↔
      ReflTransGen step s s' ∧ a = b := by
  change (_ ∧ Except.ok a = Except.ok b) ↔ _
  rw [Except.ok.injEq]

theorem amidE_throw_eq_ok {e : ε} {b : α} :
    AmidE step exec h (throw e : ExceptT ε (Prog R') α) s s' (.ok b) ↔ False := by
  change (_ ∧ Except.error e = Except.ok b) ↔ _
  simp

theorem amidE_mk_eq_ok {result : Except ε α} {b : α} :
    AmidE step exec h (ExceptT.mk (pure result) : ExceptT ε (Prog R') α) s s' (.ok b) ↔
      ReflTransGen step s s' ∧ result = .ok b := Iff.rfl

theorem amidE_bind_eq_ok {b : β} :
    AmidE step exec h (p >>= f) s s' (.ok b) ↔
      ∃ s₁ a, AmidE step exec h p s s₁ (.ok a) ∧ AmidE step exec h (f a) s₁ s' (.ok b) := by
  rw [AmidE, ExceptT.run_bind, expand_bind, amid_bind]
  constructor
  · rintro ⟨s₁, x, hp, hf⟩
    cases x with
    | ok a => exact ⟨s₁, a, hp, hf⟩
    | error e => cases hf.2
  · rintro ⟨s₁, a, hp, hf⟩
    exact ⟨s₁, .ok a, hp, hf⟩

theorem amidE_lift_eq_ok {q : Prog R' α} {a : α} :
    AmidE step exec h (ExceptT.lift q : ExceptT ε (Prog R') α) s s' (.ok a) ↔
      (q.expand h).Amid step exec s s' a := by
  have hrun : (ExceptT.lift q : ExceptT ε (Prog R') α).run = q >>= fun a => ret (.ok a) := by
    simp [ExceptT.lift, ExceptT.run, ExceptT.mk, map_eq_pure_bind]
  rw [AmidE, hrun, expand_bind, amid_bind]
  constructor
  · rintro ⟨s₁, a', hq, hs, heq⟩
    obtain rfl := Except.ok.inj heq
    exact hq.after hs
  · intro hq
    exact ⟨s', a, hq, .refl, rfl⟩

end Failing

end Prog
