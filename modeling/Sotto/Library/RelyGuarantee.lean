import Sotto.Library.Prog
import Mathlib.Order.Basic

/-!
# Rely-guarantee reasoning about programs

A thread runs a program whose commands act on a state it shares with other
threads and on a state of its own. `Setting.wp` is the weakest precondition of
such a program for a postcondition that must hold whenever the program returns,
in every interleaving with steps of the other threads that stay within the
rely. Each own command owes the guarantee and keeps the invariant.

The executions of a command are a relation, so a setting can leave executions
out. What one setting has established can therefore be assumed in the next: its
executions are those of the first at which the established facts hold.
-/

universe u v w

/-- What a thread may assume and what it owes: the steps of the others, the
executions of its own commands, the guarantee each owes, and an invariant of the
shared state. The guarantee of a command sees the own state it starts in. -/
structure Setting {C : Type u} (R : C → Type v) (S L : Type*) where
  rely : S → S → Prop
  exec : (c : C) → S → L → R c → S → L → Prop
  guar : C → S → L → S → Prop
  inv : S → Prop
  rely_refl : ∀ s, rely s s
  rely_trans : ∀ {s s' s''}, rely s s' → rely s' s'' → rely s s''

namespace Setting

variable {C : Type u} {R : C → Type v} {S L : Type*} {α β : Type w}

/-- The states from which every execution of the program owes only what it may
owe and returns in the postcondition. -/
def wp (G : Setting R S L) (p : Prog R α) (Q : α → S → L → Prop) (s : S) (l : L) : Prop :=
  match p with
  | .ret a => ∀ s', G.rely s s' → G.inv s' → Q a s' l
  | .call c k => ∀ s', G.rely s s' → G.inv s' →
      ∀ r s'' l', G.exec c s' l r s'' l' →
        G.guar c s' l s'' ∧ G.inv s'' ∧ G.wp (k r) Q s'' l'

variable {G : Setting R S L} {p : Prog R α} {Q Q' : α → S → L → Prop} {s s' : S} {l : L}

theorem wp_ret {a : α} :
    G.wp (.ret a) Q s l ↔ ∀ s', G.rely s s' → G.inv s' → Q a s' l := Iff.rfl

theorem wp_call {c : C} {k : R c → Prog R α} :
    G.wp (.call c k) Q s l ↔ ∀ s', G.rely s s' → G.inv s' →
      ∀ r s'' l', G.exec c s' l r s'' l' →
        G.guar c s' l s'' ∧ G.inv s'' ∧ G.wp (k r) Q s'' l' := Iff.rfl

/-- A program whose commands meet what they owe returns in some state. -/
theorem wp_true (h : ∀ {c s l r s' l'}, G.exec c s l r s' l' → G.guar c s l s' ∧ G.inv s') :
    G.wp p (fun _ _ _ => True) s l := by
  induction p generalizing s l with
  | ret a => exact fun _ _ _ => trivial
  | call c k ih =>
      intro s' _ _ r s'' l' he
      obtain ⟨hg, hi⟩ := h he
      exact ⟨hg, hi, ih r⟩

/-- A weakest precondition survives the steps of the other threads. -/
theorem wp_rely (h : G.wp p Q s l) (hs : G.rely s s') : G.wp p Q s' l := by
  cases p with
  | ret a => exact fun s'' hs' => h s'' (G.rely_trans hs hs')
  | call c k => exact fun s'' hs' => h s'' (G.rely_trans hs hs')

theorem wp_mono (h : G.wp p Q s l)
    (hQ : ∀ a s' l', G.inv s' → Q a s' l' → Q' a s' l') : G.wp p Q' s l := by
  induction p generalizing s l with
  | ret a => exact fun s' hs hi => hQ a s' l hi (h s' hs hi)
  | call c k ih =>
      intro s' hs hi r s'' l' hr
      obtain ⟨hg, hi', hk⟩ := h s' hs hi r s'' l' hr
      exact ⟨hg, hi', ih r hk⟩

/-- What holds at a return still holds after further steps of the others. -/
theorem wp_stable (h : G.wp p Q s l) :
    G.wp p (fun a s' l' => ∀ s'', G.rely s' s'' → G.inv s'' → Q a s'' l') s l := by
  induction p generalizing s l with
  | ret a => exact fun s' hs _ s'' hs' hi' => h s'' (G.rely_trans hs hs') hi'
  | call c k ih =>
      intro s' hs hi r s'' l' hr
      obtain ⟨hg, hi', hk⟩ := h s' hs hi r s'' l' hr
      exact ⟨hg, hi', ih r hk⟩

theorem wp_bind {f : α → Prog R β} {Q : β → S → L → Prop}
    (h : G.wp p (fun a s' l' => G.wp (f a) Q s' l') s l) : G.wp (p >>= f) Q s l := by
  induction p generalizing s l with
  | ret a =>
      have hf : ∀ s', G.rely s s' → G.inv s' → G.wp (f a) Q s' l := h
      change G.wp (f a) Q s l
      cases hfa : f a with
      | ret b =>
          intro s' hs hi
          have := hf s' hs hi
          rw [hfa] at this
          exact this s' (G.rely_refl s') hi
      | call c k =>
          intro s' hs hi
          have := hf s' hs hi
          rw [hfa] at this
          exact this s' (G.rely_refl s') hi
  | call c k ih =>
      rw [Prog.call_bind]
      intro s' hs hi r s'' l' hr
      obtain ⟨hg, hi', hk⟩ := h s' hs hi r s'' l' hr
      exact ⟨hg, hi', ih r hk⟩

theorem wp_perform {R : C → Type w} {G : Setting R S L} {c : C} {Q : R c → S → L → Prop}
    (h : ∀ s', G.rely s s' → G.inv s' → ∀ r s'' l', G.exec c s' l r s'' l' →
      G.guar c s' l s'' ∧ G.inv s'' ∧
        ∀ s₃, G.rely s'' s₃ → G.inv s₃ → Q r s₃ l') :
    G.wp (Prog.perform c) Q s l := h

/-- A program whose commands change nothing but the own state, and that only within
a preorder, returns in every state that the others and this preorder lead to. -/
theorem wp_of_uses {P : C → Prop} {D : L → L → Prop} (D_refl : ∀ l, D l l)
    (D_trans : ∀ {l l' l''}, D l l' → D l' l'' → D l l'')
    (hexec : ∀ {c s l r s' l'}, P c → G.inv s → G.exec c s l r s' l' → s' = s ∧ D l l')
    (hguar : ∀ {c s l}, P c → G.guar c s l s) (hp : p.Uses P)
    (hQ : ∀ a s' l', G.rely s s' → G.inv s' → D l l' → Q a s' l') : G.wp p Q s l := by
  induction p generalizing s l with
  | ret a => exact fun s' hs hi => hQ a s' l hs hi (D_refl l)
  | call c k ih =>
      intro s' hs hi r s'' l' hr
      obtain ⟨rfl, hl⟩ := hexec hp.1 hi hr
      refine ⟨hguar hp.1, hi, ih r (hp.2 r) ?_⟩
      intro a s₃ l'' hs₃ hi₃ hl'
      exact hQ a s₃ l'' (G.rely_trans hs hs₃) hi₃ (D_trans hl hl')

/-- What a program can return, whatever the states, can be assumed where it returns. -/
theorem wp_returns {A : (c : C) → R c → Prop} {P : α → Prop}
    (hA : ∀ {c s l r s' l'}, G.exec c s l r s' l' → A c r) (hp : p.Returns A P)
    (h : G.wp p (fun a s' l' => P a → Q a s' l') s l) : G.wp p Q s l := by
  induction p generalizing s l with
  | ret a =>
      intro s' hs hi
      exact h s' hs hi hp
  | call c k ih =>
      intro s' hs hi r s'' l' hr
      obtain ⟨hg, hi', hk⟩ := h s' hs hi r s'' l' hr
      exact ⟨hg, hi', ih r (hp r (hA hr)) hk⟩

/-! ### Programs that can fail

The commands of such a program may stand for programs of the setting's own
commands. -/

section Fail

variable {C' : Type u} {R' : C' → Type w} {R : C → Type w} {G : Setting R S L} {ε ε' : Type w}

/-- The weakest precondition of a program that can fail and whose commands are
expanded by `h`, with a postcondition for each way of returning. -/
def wpE (G : Setting R S L) (h : (c : C') → Prog R (R' c)) (p : ExceptT ε (Prog R') α)
    (Q : α → S → L → Prop) (E : ε → S → L → Prop) (s : S) (l : L) : Prop :=
  G.wp (p.run.expand h) (fun r s' l' => match r with
    | .ok a => Q a s' l'
    | .error e => E e s' l') s l

variable {h : (c : C') → Prog R (R' c)} {Q Q' : α → S → L → Prop} {E E' : ε → S → L → Prop}
  {q : ExceptT ε (Prog R') α}

theorem wpE_rely (hq : G.wpE h q Q E s l) (hs : G.rely s s') : G.wpE h q Q E s' l :=
  wp_rely hq hs

theorem wpE_mono (hq : G.wpE h q Q E s l)
    (hQ : ∀ a s' l', G.inv s' → Q a s' l' → Q' a s' l')
    (hE : ∀ e s' l', G.inv s' → E e s' l' → E' e s' l') : G.wpE h q Q' E' s l := by
  refine wp_mono hq ?_
  intro r s' l' hi hr
  cases r with
  | ok a => exact hQ a s' l' hi hr
  | error e => exact hE e s' l' hi hr

theorem wpE_pure {a : α} (hQ : ∀ s', G.rely s s' → G.inv s' → Q a s' l) :
    G.wpE h (pure a : ExceptT ε (Prog R') α) Q E s l := hQ

theorem wpE_throw {e : ε} (hE : ∀ s', G.rely s s' → G.inv s' → E e s' l) :
    G.wpE h (throw e : ExceptT ε (Prog R') α) Q E s l := hE

theorem wpE_bind {f : α → ExceptT ε (Prog R') β} {Q : β → S → L → Prop}
    (hq : G.wpE h q (fun a s' l' => G.wpE h (f a) Q E s' l') E s l) :
    G.wpE h (q >>= f) Q E s l := by
  unfold wpE
  rw [ExceptT.run_bind, Prog.expand_bind]
  refine wp_bind (wp_mono (wp_stable hq) ?_)
  intro r s' l' hi hr
  cases r with
  | ok a => exact hr s' (G.rely_refl s') hi
  | error e => exact hr

theorem wpE_lift {p : Prog R' α} (hp : G.wp (p.expand h) Q s l) :
    G.wpE h (ExceptT.lift p : ExceptT ε (Prog R') α) Q E s l := by
  have hrun : (ExceptT.lift p : ExceptT ε (Prog R') α).run = p >>= fun a => pure (.ok a) := by
    simp [ExceptT.lift, ExceptT.run, ExceptT.mk, map_eq_pure_bind]
  unfold wpE
  rw [hrun, Prog.expand_bind]
  refine wp_bind (wp_mono (wp_stable hp) ?_)
  intro a s' l' hi hQ s'' hs hi'
  exact hQ s'' hs hi'

/-- Running a program to its result, failed or not, in a program that can fail. -/
theorem wpE_lift_run {Q : Except ε α → S → L → Prop} {E : ε' → S → L → Prop}
    (hq : G.wpE h q (fun a => Q (.ok a)) (fun e => Q (.error e)) s l) :
    G.wpE h (ExceptT.lift q.run : ExceptT ε' (Prog R') (Except ε α)) Q E s l := by
  refine wpE_lift (wp_mono hq ?_)
  intro r s' l' _ hr
  cases r with
  | ok a => exact hr
  | error e => exact hr


end Fail

end Setting
