import Mathlib.Logic.Relation
import Sotto.Library.Prog

/-!
# Programs that watch a system

A program that reads the state of a system while the system goes on: the system makes any steps
between two commands, and a command is answered at the state that it meets. So what the program
returns is said of states that the system went through.
-/

universe u v w

namespace Prog

open Relation

variable {C : Type u} {R : C → Type v} {S : Type*} {α β ε : Type w} {step : S → S → Prop}
  {answers answers' : (c : C) → S → R c → Prop} {s s₁ s' : S}

/-- A program that starts at one state returns a result at another. -/
def Watches (step : S → S → Prop) (answers : (c : C) → S → R c → Prop) :
    Prog R α → S → S → α → Prop
  | ret a, s, s', b => ReflTransGen step s s' ∧ a = b
  | call c k, s, s', b => ∃ s₁ r, ReflTransGen step s s₁ ∧ answers c s₁ r ∧
      Watches step answers (k r) s₁ s' b

section Programs

variable {p : Prog R α} {a : α}

theorem Watches.mono (h : ∀ c s r, answers c s r → answers' c s r)
    (hp : p.Watches step answers s s' a) : p.Watches step answers' s s' a := by
  induction p generalizing s with
  | ret b => exact hp
  | call c k ih =>
      obtain ⟨s₁, r, hs, hr, hrest⟩ := hp
      exact ⟨s₁, r, hs, h c s₁ r hr, ih r hrest⟩

/-- The steps of the system while a program watches it. -/
theorem Watches.steps (hp : p.Watches step answers s s' a) : ReflTransGen step s s' := by
  induction p generalizing s with
  | ret b => exact hp.1
  | call c k ih =>
      obtain ⟨s₁, r, hs, -, hrest⟩ := hp
      exact hs.trans (ih r hrest)

theorem Watches.before (hs : ReflTransGen step s s₁) (hp : p.Watches step answers s₁ s' a) :
    p.Watches step answers s s' a := by
  cases p with
  | ret b => exact ⟨hs.trans hp.1, hp.2⟩
  | call c k =>
      obtain ⟨s₂, r, hs₂, hrest⟩ := hp
      exact ⟨s₂, r, hs.trans hs₂, hrest⟩

theorem Watches.after (hp : p.Watches step answers s s₁ a) (hs : ReflTransGen step s₁ s') :
    p.Watches step answers s s' a := by
  induction p generalizing s with
  | ret b => exact ⟨hp.1.trans hs, hp.2⟩
  | call c k ih =>
      obtain ⟨s₂, r, hs₂, hr, hrest⟩ := hp
      exact ⟨s₂, r, hs₂, hr, ih r hrest⟩

theorem watches_bind {f : α → Prog R β} {b : β} :
    (p >>= f).Watches step answers s s' b ↔
      ∃ s₁ a, p.Watches step answers s s₁ a ∧ (f a).Watches step answers s₁ s' b := by
  induction p generalizing s with
  | ret a =>
      constructor
      · intro h
        exact ⟨s, a, ⟨.refl, rfl⟩, h⟩
      · rintro ⟨s₁, _, ⟨hs, rfl⟩, h⟩
        exact h.before hs
  | call c k ih =>
      constructor
      · rintro ⟨s₁, r, hs, hr, hrest⟩
        obtain ⟨s₂, a, hk, hf⟩ := (ih r).1 hrest
        exact ⟨s₂, a, ⟨s₁, r, hs, hr, hk⟩, hf⟩
      · rintro ⟨s₂, a, ⟨s₁, r, hs, hr, hk⟩, hf⟩
        exact ⟨s₁, r, hs, hr, (ih r).2 ⟨s₂, a, hk, hf⟩⟩

/-- A program that watches a system that stands still. -/
theorem watches_run {reply : (c : C) → R c} (h : ∀ c, answers c s (reply c)) (p : Prog R α) :
    p.Watches step answers s s (p.run (fun c (u : Unit) => (reply c, u)) ()).1 := by
  induction p with
  | ret a => exact ⟨.refl, rfl⟩
  | call c k ih => exact ⟨s, reply c, .refl, h c, ih (reply c)⟩

theorem watches_perform {c : C} {r : R c} :
    (perform c).Watches step answers s s' r ↔
      ∃ s₁, ReflTransGen step s s₁ ∧ answers c s₁ r ∧ ReflTransGen step s₁ s' := by
  constructor
  · rintro ⟨s₁, _, hs, hr, hs', rfl⟩
    exact ⟨s₁, hs, hr, hs'⟩
  · rintro ⟨s₁, hs, hr, hs'⟩
    exact ⟨s₁, r, hs, hr, hs', rfl⟩

end Programs

/-! ### Programs that can fail -/

/-- A program that can fail, as a program of what it returns or fails with. -/
def WatchesE (step : S → S → Prop) (answers : (c : C) → S → R c → Prop)
    (p : ExceptT ε (Prog R) α) (s s' : S) (result : Except ε α) : Prop :=
  Watches step answers p.run s s' result

section Failing

variable {p : ExceptT ε (Prog R) α} {f : α → ExceptT ε (Prog R) β} {result : Except ε α}

theorem watchesE_pure {a : α} :
    WatchesE step answers (pure a : ExceptT ε (Prog R) α) s s' result ↔
      ReflTransGen step s s' ∧ .ok a = result := Iff.rfl

theorem watchesE_throw {e : ε} :
    WatchesE step answers (throw e : ExceptT ε (Prog R) α) s s' result ↔
      ReflTransGen step s s' ∧ .error e = result := Iff.rfl

theorem watchesE_bind {result : Except ε β} :
    WatchesE step answers (p >>= f) s s' result ↔
      (∃ s₁ a, WatchesE step answers p s s₁ (.ok a) ∧ WatchesE step answers (f a) s₁ s' result) ∨
      ∃ e, WatchesE step answers p s s' (.error e) ∧ .error e = result := by
  rw [WatchesE, ExceptT.run_bind, watches_bind]
  constructor
  · rintro ⟨s₁, x, hp, hf⟩
    cases x with
    | ok a => exact .inl ⟨s₁, a, hp, hf⟩
    | error e =>
        obtain ⟨hs, rfl⟩ := hf
        exact .inr ⟨e, hp.after hs, rfl⟩
  · rintro (⟨s₁, a, hp, hf⟩ | ⟨e, hp, rfl⟩)
    · exact ⟨s₁, .ok a, hp, hf⟩
    · exact ⟨s', .error e, hp, .refl, rfl⟩

theorem watchesE_bind_eq_ok {b : β} :
    WatchesE step answers (p >>= f) s s' (.ok b) ↔
      ∃ s₁ a, WatchesE step answers p s s₁ (.ok a) ∧ WatchesE step answers (f a) s₁ s' (.ok b) := by
  rw [watchesE_bind]
  simp

theorem watchesE_lift {q : Prog R α} :
    WatchesE step answers (ExceptT.lift q : ExceptT ε (Prog R) α) s s' result ↔
      ∃ a, q.Watches step answers s s' a ∧ .ok a = result := by
  change Watches step answers (q >>= fun a => ret (.ok a)) s s' result ↔ _
  rw [watches_bind]
  constructor
  · rintro ⟨s₁, a, hq, hs, rfl⟩
    exact ⟨a, hq.after hs, rfl⟩
  · rintro ⟨a, hq, rfl⟩
    exact ⟨s', a, hq, .refl, rfl⟩

/-- A program that never fails, whatever the system does from a state on. -/
def Succeeds (step : S → S → Prop) (answers : (c : C) → S → R c → Prop)
    (p : ExceptT ε (Prog R) α) (s : S) : Prop :=
  ∀ s' result, WatchesE step answers p s s' result → ∃ a, result = .ok a

theorem Succeeds.bind (hp : Succeeds step answers p s)
    (hf : ∀ s₁ a, WatchesE step answers p s s₁ (.ok a) → Succeeds step answers (f a) s₁) :
    Succeeds step answers (p >>= f) s := by
  intro s' result h
  rcases watchesE_bind.1 h with ⟨s₁, a, ha, h⟩ | ⟨e, he, -⟩
  · exact hf s₁ a ha s' result h
  · obtain ⟨a, ha⟩ := hp _ _ he
    cases ha

end Failing

end Prog
