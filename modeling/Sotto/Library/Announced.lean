import Sotto.Library.Contracts

/-!
# Announced commands

The threads of a system may run programs over one signature, each command of which is expanded to
steps of another. When every command is announced before its steps, the commands are seen as they
were issued, whether or not their steps get that far. Announcing changes nothing else: every run of
the system is one with announcements.
-/

universe u w

/-- A command that is announced, or a step. -/
inductive Announced (C C' : Type u)
  | announce (c : C)
  | step (c : C')

namespace Announced

variable {C C' : Type u} {R : C → Type w} {R' : C' → Type w} {α : Type w}

/-- What an announcement or a step is answered. -/
abbrev Reply (R' : C' → Type w) : Announced C C' → Type w
  | announce _ => PUnit
  | step c => R' c

/-- A step as it is. -/
def plain (c : C') : Prog (Reply (C := C) R') (R' c) := Prog.perform (Announced.step c)

/-- The steps of a command, once it is announced. -/
def steps (h : (c : C) → Prog R' (R c)) (c : C) : Prog (Reply (C := C) R') (R c) :=
  .call (announce c) fun _ => (h c).expand plain

/-- The contract of what is announced and of the steps. -/
def contract (K : Contract R) (K' : Contract R') : Contract (Reply (C := C) R') where
  sends
    | announce c => K.sends c
    | step c => K'.sends c
  answers
    | announce _, _ => True
    | step c, r => K'.answers c r

theorem keeps_steps {K : Contract R} {K' : Contract R'} {h : (c : C) → Prog R' (R c)}
    (hh : ∀ c, K.sends c → (h c).Keeps K' (K.answers c)) {p : Prog R α} {Q : α → Prop}
    (hp : p.Keeps K Q) : (p.expand (steps h)).Keeps (contract K K') Q := by
  refine hp.expand fun c hc => ⟨hc, fun _ _ => ?_⟩
  exact (hh c hc).expand fun c' hc' => Prog.keeps_perform (K := contract K K') (c := .step c') hc'

end Announced

/-! ### Systems -/

namespace System

open Announced

variable {ι : Type*} [DecidableEq ι] {C C' : Type u} {R : C → Type w} {R' : C' → Type w}
  {S L Op : Type*} {Res : Type w} {P : System ι R' S L Op Res} {h : (c : C) → Prog R' (R c)}
  {source : ι → Op → Prog R Res}

/-- The system that announces the commands of its programs, and keeps a list of them. -/
def announcing (P : System ι R' S L Op Res) (h : (c : C) → Prog R' (R c))
    (source : ι → Op → Prog R Res) : System ι (Reply (C := C) R') (S × List C) L Op Res where
  prog i op := (source i op).expand (steps h)
  start i op s l l' := P.start i op s.1 l l'
  exec
    | _, .announce c, s, l, _, s', l' => s' = (s.1, c :: s.2) ∧ l' = l
    | i, .step c, s, l, r, s', l' => P.exec i c s.1 l r s'.1 l' ∧ s'.2 = s.2
  finish i op a s l l' := P.finish i op a s.1 l l'

end System
