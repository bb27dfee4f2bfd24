import Sotto.Library.Threads

/-!
# Contracts of programs

A contract says which commands a program may issue and what it may count on in the answers. A
program that keeps a contract issues only those commands as long as the answers are as promised.
Where the promises are kept by what the threads of a system do, every program that runs keeps its
contract in every state that the system reaches.
-/

universe u v w

/-- The commands that may be issued, and what is promised of their answers. -/
structure Contract {C : Type u} (R : C → Type v) where
  sends : C → Prop
  answers : (c : C) → R c → Prop

namespace Prog

variable {C : Type u} {R : C → Type v} {K : Contract R} {α β ε : Type w} {Q Q' : α → Prop}

/-- While the answers are as promised, a program issues only commands of the contract, and what it
returns satisfies `Q`. -/
def Keeps (K : Contract R) (Q : α → Prop) : Prog R α → Prop
  | ret a => Q a
  | call c k => K.sends c ∧ ∀ r, K.answers c r → Keeps K Q (k r)

theorem Keeps.mono {p : Prog R α} (hp : p.Keeps K Q) (h : ∀ a, Q a → Q' a) : p.Keeps K Q' := by
  induction p with
  | ret a => exact h a hp
  | call c k ih => exact ⟨hp.1, fun r hr => ih r (hp.2 r hr)⟩

theorem Keeps.bind {Q' : β → Prop} {p : Prog R α} {f : α → Prog R β} (hp : p.Keeps K Q)
    (hf : ∀ a, Q a → (f a).Keeps K Q') : (p >>= f).Keeps K Q' := by
  induction p with
  | ret a => exact hf a hp
  | call c k ih =>
      rw [call_bind]
      exact ⟨hp.1, fun r hr => ih r (hp.2 r hr)⟩

theorem keeps_perform {R : C → Type w} {K : Contract R} {c : C} (h : K.sends c) :
    (perform c).Keeps K (K.answers c) :=
  ⟨h, fun _ hr => hr⟩

theorem Keeps.expand {C' : Type u} {R' : C' → Type w} {R : C → Type w} {K : Contract R}
    {K' : Contract R'} {h : (c : C) → Prog R' (R c)} {p : Prog R α} (hp : p.Keeps K Q)
    (hh : ∀ c, K.sends c → (h c).Keeps K' (K.answers c)) : (p.expand h).Keeps K' Q := by
  induction p with
  | ret a => exact hp
  | call c k ih => exact (hh c hp.1).bind fun r hr => ih r (hp.2 r hr)

/-! ### Programs that can fail -/

/-- What holds of a result that is not an error. -/
def IfOk (Q : α → Prop) (result : Except ε α) : Prop := ∀ a, result = .ok a → Q a

theorem ifOk_ok {a : α} : IfOk (ε := ε) Q (.ok a) ↔ Q a := by simp [IfOk]

theorem ifOk_error {e : ε} : IfOk Q (.error e) := by simp [IfOk]

/-- A program that can fail keeps a contract, and what it returns satisfies `Q` unless it fails. -/
def KeepsE (K : Contract R) (Q : α → Prop) (p : ExceptT ε (Prog R) α) : Prop :=
  Keeps K (IfOk Q) p.run

theorem KeepsE.pure {a : α} (h : Q a) : KeepsE K Q (pure a : ExceptT ε (Prog R) α) := ifOk_ok.2 h

theorem KeepsE.throw {e : ε} : KeepsE K Q (throw e : ExceptT ε (Prog R) α) := ifOk_error

theorem KeepsE.mono {p : ExceptT ε (Prog R) α} (hp : KeepsE K Q p) (h : ∀ a, Q a → Q' a) :
    KeepsE K Q' p :=
  Keeps.mono hp fun _ hr a ha => h a (hr a ha)

theorem KeepsE.bind {Q' : β → Prop} {p : ExceptT ε (Prog R) α} {f : α → ExceptT ε (Prog R) β}
    (hp : KeepsE K Q p) (hf : ∀ a, Q a → KeepsE K Q' (f a)) : KeepsE K Q' (p >>= f) := by
  refine Keeps.bind hp fun r hr => ?_
  cases r with
  | ok a => exact hf a (ifOk_ok.1 hr)
  | error e => exact ifOk_error

theorem KeepsE.lift {p : Prog R α} (hp : p.Keeps K Q) :
    KeepsE K Q (ExceptT.lift p : ExceptT ε (Prog R) α) :=
  Keeps.bind hp fun _ ha => ifOk_ok.2 ha

/-- A program that only computes. -/
theorem KeepsE.mk_pure {result : Except ε α} (h : IfOk Q result) :
    KeepsE K Q (ExceptT.mk (Prog.ret result) : ExceptT ε (Prog R) α) := h

end Prog

/-! ### Systems -/

variable {ι : Type*} [DecidableEq ι] {C : Type u} {R : C → Type v} {S L Op : Type*} {Res : Type w}

/-- The programs of a system keep a contract, and what its threads do keeps what holds of the shared
state and of their own, and is what the contract promises. -/
structure System.Honours (P : System ι R S L Op Res) (K : Contract R) (I : S → Prop)
    (J : L → Prop) : Prop where
  prog : ∀ i op, (P.prog i op).Keeps K fun _ => True
  start : ∀ {i op s l l'}, J l → P.start i op s l l' → J l'
  exec : ∀ {i c s l r s' l'}, I s → J l → K.sends c → P.exec i c s l r s' l' →
    K.answers c r ∧ I s' ∧ J l'
  finish : ∀ {i op a s l l'}, J l → P.finish i op a s l l' → J l'

/-- What holds of a configuration whose running programs keep a contract. -/
structure Config.Keeps (K : Contract R) (I : S → Prop) (J : L → Prop)
    (w : Config ι R S L Op Res) : Prop where
  shared : I w.shared
  own : ∀ i, J (w.threads i).own
  running : ∀ i op p, (w.threads i).running = some (op, p) → p.Keeps K fun _ => True

namespace Config.Keeps

variable {P : System ι R S L Op Res} {K : Contract R} {I : S → Prop} {J : L → Prop}
  {w w' : Config ι R S L Op Res}

/-- A thread that steps, with what is left of its program. -/
theorem update (h : w.Keeps K I J) {s : S} {i : ι} {l : L} {running : Option (Op × Prog R Res)}
    (hs : I s) (hl : J l) (hr : ∀ op p, running = some (op, p) → p.Keeps K fun _ => True) :
    Keeps K I J ⟨s, Function.update w.threads i ⟨l, running⟩⟩ := by
  constructor
  · exact hs
  · intro j
    by_cases hj : j = i
    · subst hj
      simpa using hl
    · simpa [Function.update_of_ne hj] using h.own j
  · intro j op p hrun
    by_cases hj : j = i
    · subst hj
      simp only [Function.update_self] at hrun
      exact hr op p hrun
    · simp only [Function.update_of_ne hj] at hrun
      exact h.running j op p hrun

theorem step (H : P.Honours K I J) (h : w.Keeps K I J) (hstep : P.Step w w') : w'.Keeps K I J := by
  cases hstep with
  | @start i op l' hr hs =>
      refine h.update h.shared (H.start (h.own i) hs) fun op' p hrun => ?_
      cases hrun
      exact H.prog i op
  | @call i op c k r s' l' hr he =>
      obtain ⟨hsends, hk⟩ := h.running i op _ hr
      obtain ⟨hanswers, hs, hl⟩ := H.exec h.shared (h.own i) hsends he
      refine h.update hs hl fun op' p hrun => ?_
      cases hrun
      exact hk r hanswers
  | @finish i op a l' hr hf =>
      refine h.update h.shared (H.finish (h.own i) hf) fun op' p hrun => ?_
      cases hrun

/-- In every state that a system reaches, what runs keeps the contract. -/
theorem reaches (H : P.Honours K I J) (h : w.Keeps K I J) (hw : P.Reaches w w') :
    w'.Keeps K I J := by
  induction hw with
  | refl => exact h
  | tail _ hstep ih => exact ih.step H hstep

end Config.Keeps
