import Sotto.Library.RelyGuarantee
import Mathlib.Logic.Relation
import Mathlib.Logic.Function.Basic

/-!
# Threads that run programs over a shared state

Every thread is idle or runs the program of one operation, and one step of the
system starts an operation, executes the next command of a running program, or
ends a program that has returned. Steps of different threads interleave freely.

An `Outline` gives each thread a setting, what holds while it is idle, and what
holds when an operation returns. Its obligations are one weakest precondition
for each operation, and that what a thread guarantees is what the others rely on;
`Outline.sound` is the induction over runs.
-/

universe u v w

/-- Operations, the program each runs, and what starting an operation, executing
a command and ending an operation can do. -/
structure System (ι : Type*) {C : Type u} (R : C → Type v) (S L Op : Type*) (Res : Type w) where
  prog : ι → Op → Prog R Res
  start : ι → Op → S → L → L → Prop
  exec : ι → (c : C) → S → L → R c → S → L → Prop
  finish : ι → Op → Res → S → L → L → Prop

/-- A thread: its own state, and the operation it is running with what is left of
the program. -/
structure Thread {C : Type u} (R : C → Type v) (L Op : Type*) (Res : Type w) where
  own : L
  running : Option (Op × Prog R Res)

/-- The shared state and all threads. -/
structure Config (ι : Type*) {C : Type u} (R : C → Type v) (S L Op : Type*) (Res : Type w) where
  shared : S
  threads : ι → Thread R L Op Res

namespace System

variable {ι : Type*} [DecidableEq ι] {C : Type u} {R : C → Type v} {S L Op : Type*}
  {Res : Type w}

/-- One step of one thread. -/
inductive Step (P : System ι R S L Op Res) :
    Config ι R S L Op Res → Config ι R S L Op Res → Prop
  | start {w i op l'} : (w.threads i).running = none →
      P.start i op w.shared (w.threads i).own l' →
      P.Step w ⟨w.shared, Function.update w.threads i ⟨l', some (op, P.prog i op)⟩⟩
  | call {w i op c k r s' l'} : (w.threads i).running = some (op, .call c k) →
      P.exec i c w.shared (w.threads i).own r s' l' →
      P.Step w ⟨s', Function.update w.threads i ⟨l', some (op, k r)⟩⟩
  | finish {w i op a l'} : (w.threads i).running = some (op, .ret a) →
      P.finish i op a w.shared (w.threads i).own l' →
      P.Step w ⟨w.shared, Function.update w.threads i ⟨l', none⟩⟩

/-- The configurations a run reaches. -/
def Reaches (P : System ι R S L Op Res) :
    Config ι R S L Op Res → Config ι R S L Op Res → Prop :=
  Relation.ReflTransGen P.Step

/-- A restriction of what steps may be taken. -/
structure Condition (ι : Type*) {C : Type u} (R : C → Type v) (S L Op : Type*) (Res : Type w) where
  start : ι → Op → S → L → Prop
  exec : ι → (c : C) → S → L → R c → S → L → Prop
  finish : ι → Op → Res → S → L → Prop

/-- One condition is stronger than another. -/
structure Condition.Le (K K' : Condition ι R S L Op Res) : Prop where
  start : ∀ {i op s l}, K.start i op s l → K'.start i op s l
  exec : ∀ {i c s l r s' l'}, K.exec i c s l r s' l' → K'.exec i c s l r s' l'
  finish : ∀ {i op a s l}, K.finish i op a s l → K'.finish i op a s l

/-- The system with only the steps that meet a condition. -/
def restrict (P : System ι R S L Op Res) (K : Condition ι R S L Op Res) :
    System ι R S L Op Res where
  prog := P.prog
  start i op s l l' := P.start i op s l l' ∧ K.start i op s l
  exec i c s l r s' l' := P.exec i c s l r s' l' ∧ K.exec i c s l r s' l'
  finish i op a s l l' := P.finish i op a s l l' ∧ K.finish i op a s l

theorem Step.restrict_mono {P : System ι R S L Op Res} {K K' : Condition ι R S L Op Res}
    (hK : K.Le K') {w w' : Config ι R S L Op Res} (h : (P.restrict K).Step w w') :
    (P.restrict K').Step w w' := by
  cases h with
  | start hr hs => exact .start hr ⟨hs.1, hK.start hs.2⟩
  | call hr he => exact .call hr ⟨he.1, hK.exec he.2⟩
  | finish hr hf => exact .finish hr ⟨hf.1, hK.finish hf.2⟩

theorem Step.of_restrict {P : System ι R S L Op Res} {K : Condition ι R S L Op Res}
    {w w' : Config ι R S L Op Res} (h : (P.restrict K).Step w w') : P.Step w w' := by
  cases h with
  | start hr hs => exact .start hr hs.1
  | call hr he => exact .call hr he.1
  | finish hr hf => exact .finish hr hf.1

theorem Reaches.restrict_mono {P : System ι R S L Op Res} {K K' : Condition ι R S L Op Res}
    (hK : K.Le K') {w w' : Config ι R S L Op Res} (h : (P.restrict K).Reaches w w') :
    (P.restrict K').Reaches w w' := by
  induction h with
  | refl => exact .refl
  | tail _ hstep ih => exact ih.tail (hstep.restrict_mono hK)

/-- A condition that every step meets restricts nothing. -/
theorem Reaches.restrict_of_forall {P : System ι R S L Op Res} {K : Condition ι R S L Op Res}
    (hstart : ∀ i op s l, K.start i op s l) (hexec : ∀ i c s l r s' l', K.exec i c s l r s' l')
    (hfinish : ∀ i op a s l, K.finish i op a s l) {w w' : Config ι R S L Op Res}
    (h : P.Reaches w w') : (P.restrict K).Reaches w w' := by
  induction h with
  | refl => exact .refl
  | tail _ hstep ih =>
      refine ih.tail ?_
      cases hstep with
      | start hr hs => exact .start hr ⟨hs, hstart _ _ _ _⟩
      | call hr he => exact .call hr ⟨he, hexec _ _ _ _ _ _ _⟩
      | finish hr hf => exact .finish hr ⟨hf, hfinish _ _ _ _ _⟩

theorem Reaches.of_restrict {P : System ι R S L Op Res} {K : Condition ι R S L Op Res}
    {w w' : Config ι R S L Op Res} (h : (P.restrict K).Reaches w w') : P.Reaches w w' := by
  induction h with
  | refl => exact .refl
  | tail _ hstep ih => exact ih.tail hstep.of_restrict

/-- What every step of a thread keeps of its own state holds throughout a run. -/
theorem Reaches.own {P : System ι R S L Op Res} {i : ι} {I : L → Prop}
    (hstart : ∀ {op s l l'}, I l → P.start i op s l l' → I l')
    (hexec : ∀ {c s l r s' l'}, I l → P.exec i c s l r s' l' → I l')
    (hfinish : ∀ {op a s l l'}, I l → P.finish i op a s l l' → I l')
    {w w' : Config ι R S L Op Res} (h : I (w.threads i).own) (hw : P.Reaches w w') :
    I (w'.threads i).own := by
  induction hw with
  | refl => exact h
  | @tail w₁ w₂ _ hstep ih =>
      cases hstep with
      | @start j op l' hr hs =>
          by_cases hj : i = j
          · subst hj
            simpa using hstart ih hs
          · simpa [Function.update_of_ne hj] using ih
      | @call j op c k r s' l' hr he =>
          by_cases hj : i = j
          · subst hj
            simpa using hexec ih he
          · simpa [Function.update_of_ne hj] using ih
      | @finish j op a l' hr hf =>
          by_cases hj : i = j
          · subst hj
            simpa using hfinish ih hf
          · simpa [Function.update_of_ne hj] using ih

/-- A running program issues only commands that its operation uses, and what holds when an
operation starts and is kept by every command holds while it runs. -/
theorem Reaches.running {P : System ι R S L Op Res} {used : Op → C → Prop} {I : Op → S → Prop}
    (hprog : ∀ i op, (P.prog i op).Uses (used op))
    (hstart : ∀ {i op s l l'}, P.start i op s l l' → I op s)
    (hexec : ∀ {i op c s l r s' l'}, I op s → P.exec i c s l r s' l' → I op s')
    {w w' : Config ι R S L Op Res} (hidle : ∀ i, (w.threads i).running = none)
    (hw : P.Reaches w w') {i : ι} {op : Op} {p : Prog R Res}
    (hr : (w'.threads i).running = some (op, p)) : p.Uses (used op) ∧ I op w'.shared := by
  induction hw generalizing i op p with
  | refl =>
      rw [hidle i] at hr
      cases hr
  | @tail w₁ w₂ _ hstep ih =>
      cases hstep with
      | @start j op' l' _ hs =>
          by_cases hj : i = j
          · subst hj
            simp only [Function.update_self] at hr
            cases hr
            exact ⟨hprog i op, hstart hs⟩
          · simp only [Function.update_of_ne hj] at hr
            exact ih hr
      | @call j op' c k r s' l' hr' he =>
          by_cases hj : i = j
          · subst hj
            simp only [Function.update_self] at hr
            cases hr
            obtain ⟨huses, hI⟩ := ih hr'
            exact ⟨huses.2 r, hexec hI he⟩
          · simp only [Function.update_of_ne hj] at hr
            obtain ⟨huses, hI⟩ := ih hr
            exact ⟨huses, hexec hI he⟩
      | @finish j op' a l' _ _ =>
          by_cases hj : i = j
          · subst hj
            simp only [Function.update_self] at hr
            cases hr
          · simp only [Function.update_of_ne hj] at hr
            exact ih hr

/-! ### History variables -/

/-- The system whose shared state also has a history, which the commands extend. -/
def withHistory {H : Type*} (P : System ι R S L Op Res)
    (extend : (c : C) → S → R c → S → H → H → Prop) : System ι R (S × H) L Op Res where
  prog := P.prog
  start i op s l l' := P.start i op s.1 l l'
  exec i c s l r s' l' := P.exec i c s.1 l r s'.1 l' ∧ extend c s.1 r s'.1 s.2 s'.2
  finish i op a s l l' := P.finish i op a s.1 l l'

/-- A configuration without the history. -/
def forget {H : Type*} (w : Config ι R (S × H) L Op Res) : Config ι R S L Op Res :=
  ⟨w.shared.1, w.threads⟩

/-- A history restricts nothing: its runs are runs. -/
theorem Reaches.forgets {H : Type*} {P : System ι R S L Op Res}
    {extend : (c : C) → S → R c → S → H → H → Prop} {w w' : Config ι R (S × H) L Op Res}
    (h : (P.withHistory extend).Reaches w w') : P.Reaches (forget w) (forget w') := by
  induction h with
  | refl => exact .refl
  | tail _ hstep ih =>
      refine ih.tail ?_
      cases hstep with
      | start hr hs => exact @Step.start _ _ _ _ _ _ _ _ P (forget _) _ _ _ hr hs
      | call hr he => exact @Step.call _ _ _ _ _ _ _ _ P (forget _) _ _ _ _ _ _ _ hr he.1
      | finish hr hf => exact @Step.finish _ _ _ _ _ _ _ _ P (forget _) _ _ _ _ hr hf

end System

/-- A proof outline: a setting for every thread, an invariant of the shared state,
what holds of an idle thread, and the postcondition of each operation. -/
structure Outline {ι : Type*} {C : Type u} {R : C → Type v} {S L Op : Type*} {Res : Type w}
    (P : System ι R S L Op Res) where
  rely : ι → S → S → Prop
  guar : ι → C → S → L → S → Prop
  inv : S → Prop
  idle : ι → S → L → Prop
  post : ι → Op → Res → S → L → Prop
  rely_refl : ∀ i s, rely i s s
  rely_trans : ∀ i {s s' s''}, rely i s s' → rely i s' s'' → rely i s s''

namespace Outline

variable {ι : Type*} {C : Type u} {R : C → Type v} {S L Op : Type*}
  {Res : Type w} {P : System ι R S L Op Res}

/-- The setting a thread's programs run in. -/
def setting (O : Outline P) (i : ι) : Setting R S L where
  rely := O.rely i
  exec := P.exec i
  guar := O.guar i
  inv := O.inv
  rely_refl := O.rely_refl i
  rely_trans := O.rely_trans i

/-- The obligations of an outline: one for each kind of step, and that the threads
do not interfere. -/
structure Valid (O : Outline P) : Prop where
  start : ∀ {i op s l l'}, O.inv s → O.idle i s l → P.start i op s l l' →
    (O.setting i).wp (P.prog i op) (O.post i op) s l'
  finish : ∀ {i op a s l l'}, O.inv s → O.post i op a s l → P.finish i op a s l l' →
    O.idle i s l'
  guar_rely : ∀ {i j c s l s'}, i ≠ j → O.inv s → O.guar j c s l s' → O.rely i s s'
  idle_stable : ∀ {i s s' l}, O.inv s → O.inv s' → O.rely i s s' → O.idle i s l → O.idle i s' l

/-- What the outline says about one thread of a configuration. -/
def Holds (O : Outline P) (s : S) (i : ι) (t : Thread R L Op Res) : Prop :=
  match t.running with
  | none => O.idle i s t.own
  | some (op, p) => (O.setting i).wp p (O.post i op) s t.own

/-- The outline holds in a configuration. -/
structure Good (O : Outline P) (w : Config ι R S L Op Res) : Prop where
  inv : O.inv w.shared
  thread : ∀ i, O.Holds w.shared i (w.threads i)

theorem Good.idle {O : Outline P} {w : Config ι R S L Op Res} (h : O.Good w) {i : ι}
    (hr : (w.threads i).running = none) : O.idle i w.shared (w.threads i).own := by
  have := h.thread i
  rwa [Holds, hr] at this

theorem Good.running {O : Outline P} {w : Config ι R S L Op Res} (h : O.Good w) {i : ι}
    {op : Op} {p : Prog R Res} (hr : (w.threads i).running = some (op, p)) :
    (O.setting i).wp p (O.post i op) w.shared (w.threads i).own := by
  have := h.thread i
  rwa [Holds, hr] at this

theorem Holds.rely {O : Outline P} (V : O.Valid) {s s' : S} {i : ι} {t : Thread R L Op Res}
    (h : O.Holds s i t) (hi : O.inv s) (hi' : O.inv s') (hs : O.rely i s s') :
    O.Holds s' i t := by
  unfold Holds at h ⊢
  cases hr : t.running with
  | none =>
      rw [hr] at h
      exact V.idle_stable hi hi' hs h
  | some r =>
      rw [hr] at h
      exact Setting.wp_rely (G := O.setting i) h hs

/-- What a command owes is met in every configuration where the outline holds. -/
theorem Good.exec {O : Outline P} {w : Config ι R S L Op Res} (h : O.Good w) {i : ι} {op : Op}
    {c : C} {k : R c → Prog R Res} {r : R c} {s' : S} {l' : L}
    (hr : (w.threads i).running = some (op, .call c k))
    (he : P.exec i c w.shared (w.threads i).own r s' l') :
    O.guar i c w.shared (w.threads i).own s' ∧ O.inv s' := by
  obtain ⟨hg, hi, -⟩ := h.running hr w.shared (O.rely_refl i _) h.inv r s' l' he
  exact ⟨hg, hi⟩

theorem Good.post {O : Outline P} {w : Config ι R S L Op Res} (h : O.Good w) {i : ι} {op : Op}
    {a : Res} (hr : (w.threads i).running = some (op, .ret a)) :
    O.post i op a w.shared (w.threads i).own :=
  h.running hr w.shared (O.rely_refl i _) h.inv

/-! ### Layers

What a valid outline says about every step can be assumed by a further outline of
the same system. -/

/-- What an outline says about the steps. -/
def condition (O : Outline P) : System.Condition ι R S L Op Res where
  start i _ s l := O.inv s ∧ O.idle i s l
  exec i c s l _ s' _ := O.inv s ∧ O.inv s' ∧ O.guar i c s l s'
  finish i op a s l := O.inv s ∧ O.post i op a s l

/-- What a further outline adds to one below: the condition of its runs, invariants of the
shared state, guarantees, and what it says about each thread. -/
structure Extension (ι : Type*) {C : Type u} (R : C → Type v) (S L Op : Type*) (Res : Type w) where
  limit : System.Condition ι R S L Op Res
  inv : S → Prop
  guar : ι → C → S → L → S → Prop
  idle : ι → S → L → Prop
  post : ι → Op → Res → S → L → Prop

/-- The outline over another one, with the same rely. -/
def extend {K : System.Condition ι R S L Op Res} (O : Outline (P.restrict K))
    (E : Extension ι R S L Op Res) : Outline ((P.restrict O.condition).restrict E.limit) where
  rely := O.rely
  guar i c s l s' := O.guar i c s l s' ∧ E.guar i c s l s'
  inv s := O.inv s ∧ E.inv s
  idle i s l := O.idle i s l ∧ E.idle i s l
  post := E.post
  rely_refl := O.rely_refl
  rely_trans := O.rely_trans

/-- The obligations of an extension whose condition is stronger: what is below is not proved
again. -/
theorem Valid.extend {K : System.Condition ι R S L Op Res} {O : Outline (P.restrict K)}
    (V : O.Valid) {E : Extension ι R S L Op Res} (hK : E.limit.Le K)
    (start : ∀ {i op s l l'}, O.inv s → E.inv s → O.idle i s l → E.idle i s l →
      P.start i op s l l' → E.limit.start i op s l →
      ((O.extend E).setting i).wp (P.prog i op) (E.post i op) s l')
    (finish : ∀ {i op a s l l'}, O.inv s → E.inv s → O.post i op a s l → E.post i op a s l →
      P.finish i op a s l l' → E.limit.finish i op a s l → E.idle i s l')
    (idle_stable : ∀ {i s s' l}, O.inv s → E.inv s → O.inv s' → E.inv s' → O.rely i s s' →
      O.idle i s l → E.idle i s l → E.idle i s' l) : (O.extend E).Valid where
  start := fun hi hl h => start hi.1 hi.2 hl.1 hl.2 h.1.1 h.2
  finish := fun hi hp h =>
    ⟨V.finish hi.1 h.1.2.2 ⟨h.1.1, hK.finish h.2⟩, finish hi.1 hi.2 h.1.2.2 hp h.1.1 h.2⟩
  guar_rely := fun hne hi hg => V.guar_rely hne hi.1 hg.1
  idle_stable := fun hi hi' hs hl => ⟨V.idle_stable hi.1 hi'.1 hs hl.1,
    idle_stable hi.1 hi.2 hi'.1 hi'.2 hs hl.1 hl.2⟩

/-- An extension that adds neither an invariant nor a guarantee owes what is below, which its
commands meet. -/
theorem owes_of_extend {K : System.Condition ι R S L Op Res} {O : Outline (P.restrict K)}
    {E : Extension ι R S L Op Res} {i : ι} (hguar : ∀ c s l s', E.guar i c s l s')
    (hinv : ∀ s, E.inv s) {c : C} {s : S} {l : L} {r : R c} {s' : S} {l' : L}
    (h : ((O.extend E).setting i).exec c s l r s' l') :
    ((O.extend E).setting i).guar c s l s' ∧ ((O.extend E).setting i).inv s' :=
  ⟨⟨h.1.2.2.2, hguar c s l s'⟩, h.1.2.2.1, hinv s'⟩

/-! ### Runs -/

variable [DecidableEq ι]

theorem Good.step {O : Outline P} (V : O.Valid) {w w' : Config ι R S L Op Res}
    (h : O.Good w) (hw : P.Step w w') : O.Good w' := by
  cases hw with
  | @start i op l' hr hs =>
      refine ⟨h.inv, ?_⟩
      intro j
      by_cases hj : j = i
      · subst hj
        simpa [Holds] using V.start h.inv (h.idle hr) hs
      · simpa [Function.update_of_ne hj] using h.thread j
  | @call i op c k r s' l' hr he =>
      obtain ⟨hg, hinv, hk⟩ := h.running hr w.shared (O.rely_refl i _) h.inv r s' l' he
      refine ⟨hinv, ?_⟩
      intro j
      by_cases hj : j = i
      · subst hj
        simpa [Holds] using hk
      · simpa [Function.update_of_ne hj] using
          (h.thread j).rely V h.inv hinv (V.guar_rely hj h.inv hg)
  | @finish i op a l' hr hf =>
      have hpost := h.running hr w.shared (O.rely_refl i _) h.inv
      refine ⟨h.inv, ?_⟩
      intro j
      by_cases hj : j = i
      · subst hj
        simpa [Holds] using V.finish h.inv hpost hf
      · simpa [Function.update_of_ne hj] using h.thread j

/-- The outline holds in every configuration that a run reaches from one where it
holds. -/
theorem Good.reaches {O : Outline P} (V : O.Valid) {w w' : Config ι R S L Op Res}
    (h : O.Good w) (hw : P.Reaches w w') : O.Good w' := by
  induction hw with
  | refl => exact h
  | tail _ hstep ih => exact ih.step V hstep

/-- A run of a system with an outline takes only the steps that the outline describes. -/
theorem Good.restrict_condition {K : System.Condition ι R S L Op Res} {O : Outline P} (V : O.Valid)
    {w w' : Config ι R S L Op Res} (h : O.Good w) (hw : (P.restrict K).Reaches w w') :
    ((P.restrict O.condition).restrict K).Reaches w w' := by
  induction hw with
  | refl => exact .refl
  | @tail w₁ w₂ hw hstep ih =>
      have hgood : O.Good w₁ := h.reaches V (System.Reaches.of_restrict hw)
      refine ih.tail ?_
      cases hstep with
      | start hr hs => exact .start hr ⟨⟨hs.1, hgood.inv, hgood.idle hr⟩, hs.2⟩
      | call hr he =>
          obtain ⟨hg, hi⟩ := hgood.exec hr he.1
          exact .call hr ⟨⟨he.1, hgood.inv, hi, hg⟩, he.2⟩
      | finish hr hf => exact .finish hr ⟨⟨hf.1, hgood.inv, hgood.post hr⟩, hf.2⟩

theorem Good.reaches_condition {O : Outline P} (V : O.Valid) {w w' : Config ι R S L Op Res}
    (h : O.Good w) (hw : P.Reaches w w') : (P.restrict O.condition).Reaches w w' := by
  let K : System.Condition ι R S L Op Res :=
    ⟨fun _ _ _ _ => True, fun _ _ _ _ _ _ _ => True, fun _ _ _ _ _ => True⟩
  have hany : (P.restrict K).Reaches w w' := hw.restrict_of_forall (fun _ _ _ _ => trivial)
    (fun _ _ _ _ _ _ _ => trivial) fun _ _ _ _ _ => trivial
  exact (h.restrict_condition V hany).of_restrict

/-- The same for an outline of the system under a weaker condition. -/
theorem Good.layer {K K' : System.Condition ι R S L Op Res} {O : Outline (P.restrict K)}
    (V : O.Valid) (hK : K'.Le K) {w w' : Config ι R S L Op Res} (h : O.Good w)
    (hw : (P.restrict K').Reaches w w') :
    ((P.restrict O.condition).restrict K').Reaches w w' := by
  suffices hboth : ((P.restrict O.condition).restrict K').Reaches w w' ∧ O.Good w' from hboth.1
  induction hw with
  | refl => exact ⟨.refl, h⟩
  | @tail w₁ w₂ _ hstep ih =>
      have hstep' : (P.restrict K).Step w₁ w₂ := hstep.restrict_mono hK
      refine ⟨ih.1.tail ?_, ih.2.step V hstep'⟩
      cases hstep with
      | start hr hs =>
          exact .start hr ⟨⟨hs.1, ih.2.inv, ih.2.idle hr⟩, hs.2⟩
      | call hr he =>
          obtain ⟨hg, hi⟩ := ih.2.exec hr ⟨he.1, hK.exec he.2⟩
          exact .call hr ⟨⟨he.1, ih.2.inv, hi, hg⟩, he.2⟩
      | finish hr hf =>
          exact .finish hr ⟨⟨hf.1, ih.2.inv, ih.2.post hr⟩, hf.2⟩

end Outline

/-! ### One thread alone -/

namespace System

variable {ι : Type*} {C : Type u} {R : C → Type v} {S L Op : Type*} {Res : Type w}

/-- The undisturbed executions of a program. -/
inductive Alone (exec : (c : C) → S → L → R c → S → L → Prop) :
    Prog R Res → S → L → Res → S → L → Prop
  | ret {a s l} : Alone exec (.ret a) s l a s l
  | call {c k s l r s₁ l₁ a s' l'} : exec c s l r s₁ l₁ → Alone exec (k r) s₁ l₁ a s' l' →
      Alone exec (.call c k) s l a s' l'

/-- Running a program with a handler is an undisturbed execution of it when its commands pass. -/
theorem Alone.of_passes {exec : (c : C) → S → L → R c → S → L → Prop}
    {handle : (c : C) → S × L → R c × S × L} {check : C → S × L → Bool}
    (h : ∀ c t, check c t → exec c t.1 t.2 (handle c t).1 (handle c t).2.1 (handle c t).2.2)
    {p : Prog R Res} {t : S × L} (hp : p.passes handle check t) :
    Alone exec p t.1 t.2 (p.run handle t).1 (p.run handle t).2.1 (p.run handle t).2.2 := by
  induction p generalizing t with
  | ret a => exact .ret
  | call c k ih =>
      rw [Prog.passes, Bool.and_eq_true] at hp
      exact .call (h c t hp.1) (ih _ hp.2)

theorem Alone.of_run {exec : (c : C) → S → L → R c → S → L → Prop}
    {handle : (c : C) → S × L → R c × S × L}
    (h : ∀ c t, exec c t.1 t.2 (handle c t).1 (handle c t).2.1 (handle c t).2.2)
    (p : Prog R Res) (t : S × L) :
    Alone exec p t.1 t.2 (p.run handle t).1 (p.run handle t).2.1 (p.run handle t).2.2 :=
  Alone.of_passes (fun c t _ => h c t) (Prog.passes_of_forall (fun _ _ => rfl) p t : p.passes
    handle (fun _ _ => true) t)

/-- What a program ensures it ensures undisturbed. -/
theorem Alone.of_wp {G : Setting R S L} {p : Prog R Res} {Q : Res → S → L → Prop} {s : S} {l : L}
    {a : Res} {s' : S} {l' : L} (h : Alone G.exec p s l a s' l') (hi : G.inv s)
    (hwp : G.wp p Q s l) : G.inv s' ∧ Q a s' l' := by
  induction h with
  | ret => exact ⟨hi, hwp _ (G.rely_refl _) hi⟩
  | call he _ ih =>
      obtain ⟨-, hi', hk⟩ := hwp _ (G.rely_refl _) hi _ _ _ he
      exact ih hi' hk

/-- An undisturbed execution of the remaining program of a thread is a run. -/
theorem Alone.reaches [DecidableEq ι] {P : System ι R S L Op Res} {i : ι} {op : Op}
    {p : Prog R Res} {s : S} {l : L} {a : Res} {s' : S} {l' : L}
    (h : Alone (P.exec i) p s l a s' l') {w : Config ι R S L Op Res} (hs : w.shared = s)
    (hw : w.threads i = ⟨l, some (op, p)⟩) :
    P.Reaches w ⟨s', Function.update w.threads i ⟨l', some (op, .ret a)⟩⟩ := by
  induction h generalizing w with
  | @ret a s l =>
      have : w = ⟨s, Function.update w.threads i ⟨l, some (op, .ret a)⟩⟩ := by
        rw [← hs, ← hw, Function.update_eq_self]
      rw [← this]
      exact .refl
  | @call c k s l r s₁ l₁ a s' l' he _ ih =>
      have hstep : P.Step w ⟨s₁, Function.update w.threads i ⟨l₁, some (op, k r)⟩⟩ := by
        refine .call (by rw [hw]) ?_
        rw [hs, hw]
        exact he
      have hrest := @ih ⟨s₁, Function.update w.threads i ⟨l₁, some (op, k r)⟩⟩ rfl
        (Function.update_self ..)
      rw [Function.update_idem] at hrest
      exact hrest.head hstep

/-- An operation that an idle thread runs undisturbed, from its start to its end, is a run. -/
theorem Alone.completes [DecidableEq ι] {P : System ι R S L Op Res} {i : ι} {op : Op} {s s' : S}
    {l₁ l₂ l₃ : L} {a : Res} (h : Alone (P.exec i) (P.prog i op) s l₁ a s' l₂)
    {w : Config ι R S L Op Res} (hs : w.shared = s) (hr : (w.threads i).running = none)
    (hstart : P.start i op s (w.threads i).own l₁) (hfinish : P.finish i op a s' l₂ l₃) :
    P.Reaches w ⟨s', Function.update w.threads i ⟨l₃, none⟩⟩ := by
  subst hs
  have hbegin : P.Step w ⟨w.shared, Function.update w.threads i ⟨l₁, some (op, P.prog i op)⟩⟩ :=
    .start hr hstart
  have hrun := h.reaches (w := ⟨w.shared, Function.update w.threads i
    ⟨l₁, some (op, P.prog i op)⟩⟩) rfl (Function.update_self ..)
  rw [Function.update_idem] at hrun
  let returned : Config ι R S L Op Res :=
    ⟨s', Function.update w.threads i ⟨l₂, some (op, .ret a)⟩⟩
  have hend : P.Step returned ⟨s', Function.update returned.threads i ⟨l₃, none⟩⟩ := by
    refine @System.Step.finish _ _ _ _ _ _ _ _ P returned i op a l₃ ?_ ?_
    · simp [returned]
    · simpa [returned] using hfinish
  rw [Function.update_idem] at hend
  exact (hrun.tail hend).head hbegin

/-- The same between configurations in which nothing runs. -/
theorem Alone.quiet [DecidableEq ι] {P : System ι R S Unit Op Res} (i : ι) {op : Op} {s s' : S}
    {a : Res} (h : Alone (P.exec i) (P.prog i op) s () a s' ()) (hstart : P.start i op s () ())
    (hfinish : P.finish i op a s' () ()) :
    P.Reaches ⟨s, fun _ => ⟨(), none⟩⟩ ⟨s', fun _ => ⟨(), none⟩⟩ := by
  have hrun := h.completes (w := ⟨s, fun _ => ⟨(), none⟩⟩) rfl rfl hstart hfinish
  rw [Function.update_eq_self i fun _ => (⟨(), none⟩ : Thread R Unit Op Res)] at hrun
  exact hrun

end System
