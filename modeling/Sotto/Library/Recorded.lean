import Sotto.Library.Threads

/-!
# Requests that leave a record

Every thread serves one request, and each command of a request is logged with its reply and its
time. What a command may be issued after is a property of the programs alone, so the log of a run
is disciplined: every command in it was allowed by the commands of its request before it. A run is
then a sequence of logged commands, and what holds of it is shown by induction on the log.
-/

universe u v w

namespace Prog

variable {C : Type u} {R : C → Type v} {α β : Type w}

/-- Commands with their replies, newest first. -/
abbrev Record (R : C → Type v) := List (Σ c, R c)

/-- Every command satisfies `I` after the commands before it, and every result `Q`. -/
def Traces (I : Record R → C → Prop) (Q : Record R → α → Prop) : Prog R α → Record R → Prop
  | ret a, h => Q h a
  | call c k, h => I h c ∧ ∀ r, Traces I Q (k r) (⟨c, r⟩ :: h)

variable {I : Record R → C → Prop} {Q : Record R → β → Prop} {h : Record R}

theorem Traces.bind {Q' : Record R → α → Prop} {p : Prog R α} {f : α → Prog R β}
    (hp : p.Traces I Q' h) (hf : ∀ h a, Q' h a → (f a).Traces I Q h) :
    (p >>= f).Traces I Q h := by
  induction p generalizing h with
  | ret a => exact hf h a hp
  | call c k ih => exact ⟨hp.1, fun r => ih r (hp.2 r)⟩

section Fail

variable {ε : Type w} {A : C → Type w} {J : Record (fun c => Except ε (A c)) → C → Prop}
  {T : Record (fun c => Except ε (A c)) → Except ε β → Prop}
  {l : Record (fun c => Except ε (A c))}

/-- Issue a command that can fail, and fail where it does. -/
def ask (c : C) : ExceptT ε (Prog fun c => Except ε (A c)) (A c) := ExceptT.mk (perform c)

/-- The same for a program that can fail. -/
def TracesE (J : Record (fun c => Except ε (A c)) → C → Prop)
    (T : Record (fun c => Except ε (A c)) → Except ε β → Prop)
    (p : ExceptT ε (Prog fun c => Except ε (A c)) β) (l : Record (fun c => Except ε (A c))) :
    Prop :=
  p.run.Traces J T l

theorem tracesE_pure {b : β} (hb : T l (.ok b)) : TracesE J T (pure b) l := hb

theorem tracesE_throw {e : ε} (he : T l (.error e)) : TracesE J T (throw e) l := he

theorem tracesE_ask {c : C} {k : A c → ExceptT ε (Prog fun c => Except ε (A c)) β} (hc : J l c)
    (herror : ∀ e, T (⟨c, .error e⟩ :: l) (.error e))
    (hok : ∀ a, TracesE J T (k a) (⟨c, .ok a⟩ :: l)) : TracesE J T (ask c >>= k) l := by
  refine ⟨hc, fun r => ?_⟩
  cases r with
  | ok a => exact hok a
  | error e => exact herror e

theorem tracesE_check {α : Type w} {r : Except ε α}
    {k : α → ExceptT ε (Prog fun c => Except ε (A c)) β} (herror : ∀ e, r = .error e → T l (.error e))
    (hok : ∀ a, r = .ok a → TracesE J T (k a) l) :
    TracesE J T (ExceptT.mk (pure r) >>= k) l := by
  cases r with
  | ok a => exact hok a rfl
  | error e => exact herror e rfl

theorem TracesE.bind {T' : Record (fun c => Except ε (A c)) → Except ε α → Prop}
    {p : ExceptT ε (Prog fun c => Except ε (A c)) α}
    {k : α → ExceptT ε (Prog fun c => Except ε (A c)) β} (hp : TracesE J T' p l)
    (herror : ∀ l e, T' l (.error e) → T l (.error e))
    (hok : ∀ l a, T' l (.ok a) → TracesE J T (k a) l) : TracesE J T (p >>= k) l := by
  refine Traces.bind hp ?_
  intro l r hr
  cases r with
  | ok a => exact hok l a hr
  | error e => exact herror l e hr

end Fail

end Prog

/-- An executed command: by which request, when, and with which reply. -/
structure Event (ι : Type*) {C : Type u} (R : C → Type v) (Op : Type*) where
  who : ι
  op : Op
  time : Int
  cmd : C
  reply : R cmd

/-- A state, the time, and the executed commands, newest first. -/
structure Logged (ι : Type*) {C : Type u} (R : C → Type v) (D Op : Type*) where
  state : D
  now : Int
  log : List (Event ι R Op)

/-- The program of each request, and what a command does at a time. -/
structure Service {C : Type u} (R : C → Type v) (D Op : Type*) (Res : Type w) where
  prog : Op → Prog R Res
  does : Op → (c : C) → Int → D → R c → D → Prop

section Log

variable {ι : Type*} [DecidableEq ι] {C : Type u} {R : C → Type v} {Op : Type*}

/-- The commands of one request. -/
def own (log : List (Event ι R Op)) (i : ι) : Prog.Record R :=
  (log.filter fun e => e.who = i).map fun e => ⟨e.cmd, e.reply⟩

theorem own_cons_self (e : Event ι R Op) (log : List (Event ι R Op)) :
    own (e :: log) e.who = ⟨e.cmd, e.reply⟩ :: own log e.who := by
  rw [own, List.filter_cons_of_pos (by simp), List.map_cons, own]

theorem own_cons_of_ne {e : Event ι R Op} {i : ι} (h : e.who ≠ i) (log : List (Event ι R Op)) :
    own (e :: log) i = own log i := by
  rw [own, List.filter_cons_of_neg (by simpa using h), own]

theorem mem_own {log : List (Event ι R Op)} {i : ι} {x : Σ c, R c} :
    x ∈ own log i ↔ ∃ e ∈ log, e.who = i ∧ ⟨e.cmd, e.reply⟩ = x := by
  simp only [own, List.mem_map, List.mem_filter, decide_eq_true_eq, and_assoc]

theorem mem_own_of_mem {log : List (Event ι R Op)} {e : Event ι R Op} (h : e ∈ log) :
    ⟨e.cmd, e.reply⟩ ∈ own log e.who :=
  mem_own.2 ⟨e, h, rfl, rfl⟩

theorem mem_own_cons {log : List (Event ι R Op)} {e : Event ι R Op} {i : ι} {x : Σ c, R c}
    (h : x ∈ own log i) : x ∈ own (e :: log) i := by
  obtain ⟨e', he', hi, hx⟩ := mem_own.1 h
  exact mem_own.2 ⟨e', List.mem_cons_of_mem _ he', hi, hx⟩

end Log

namespace Service

variable {ι : Type*} [DecidableEq ι] {C : Type u} {R : C → Type v} {D Op : Type*} {Res : Type w}
  (V : Service R D Op Res) (I : Op → Prog.Record R → C → Prop)

/-- Requests that run side by side, each in a thread of its own. -/
def system : System ι R (Logged ι R D Op) (Option Op) Op Res where
  prog _ := V.prog
  start _ op _ l l' := l = none ∧ l' = some op
  exec i c s l r s' l' := l' = l ∧ s.now ≤ s'.now ∧ ∃ op, l = some op ∧
    V.does op c s'.now s.state r s'.state ∧ s'.log = ⟨i, op, s'.now, c, r⟩ :: s.log
  finish _ _ _ _ l l' := l' = l

/-- Before any request. -/
structure Opening (w : Config ι R (Logged ι R D Op) (Option Op) Op Res) : Prop where
  log : w.shared.log = []
  unused : ∀ i, (w.threads i).own = none
  idle : ∀ i, (w.threads i).running = none

/-- The sequences of commands that the requests may issue, newest first, with the time and the
state that they lead to. -/
inductive Run (s₀ : D) (t₀ : Int) : List (Event ι R Op) → Int → D → Prop
  | nil : Run s₀ t₀ [] t₀ s₀
  | cons {log now s e s'} : Run s₀ t₀ log now s → I e.op (own log e.who) e.cmd →
      (∀ e' ∈ log, e'.who = e.who → e'.op = e.op) → now ≤ e.time →
      V.does e.op e.cmd e.time s e.reply s' → Run s₀ t₀ (e :: log) e.time s'

variable {V I} {Q : Op → Prog.Record R → Res → Prop} {s₀ s : D} {t₀ now : Int}
  {log : List (Event ι R Op)}

/-- Every command was allowed by those of its request before it. -/
theorem Run.issued (h : V.Run I s₀ t₀ log now s) {e : Event ι R Op} (he : e ∈ log) :
    ∃ l, (∀ x ∈ l, x ∈ own log e.who) ∧ I e.op l e.cmd := by
  induction h with
  | nil => cases he
  | @cons log _ _ e' _ _ hissued _ _ _ ih =>
      rcases List.mem_cons.1 he with rfl | he
      · exact ⟨own log e.who, fun x hx => mem_own_cons hx, hissued⟩
      · obtain ⟨l, hl, hissued⟩ := ih he
        exact ⟨l, fun x hx => mem_own_cons (hl x hx), hissued⟩

/-- A request is one request throughout. -/
theorem Run.op_eq (h : V.Run I s₀ t₀ log now s) {e e' : Event ι R Op} (he : e ∈ log)
    (he' : e' ∈ log) (hwho : e.who = e'.who) : e.op = e'.op := by
  induction h with
  | nil => cases he
  | cons _ _ hsame _ _ ih =>
      rcases List.mem_cons.1 he with rfl | hlog <;> rcases List.mem_cons.1 he' with rfl | hlog'
      · rfl
      · exact (hsame e' hlog' hwho.symm).symm
      · exact hsame e hlog hwho
      · exact ih hlog hlog'

/-- A run up to a command, and the command. -/
theorem Run.split {later earlier : List (Event ι R Op)} {e : Event ι R Op}
    (h : V.Run I s₀ t₀ (later ++ e :: earlier) now s) :
    ∃ now₁ s₁ s₂, V.Run I s₀ t₀ earlier now₁ s₁ ∧ I e.op (own earlier e.who) e.cmd ∧
      now₁ ≤ e.time ∧ V.does e.op e.cmd e.time s₁ e.reply s₂ ∧
      V.Run I s₀ t₀ (e :: earlier) e.time s₂ := by
  induction later generalizing now s with
  | nil =>
      cases h with
      | cons hrun hissued hsame hnow hdoes =>
          exact ⟨_, _, _, hrun, hissued, hnow, hdoes, .cons hrun hissued hsame hnow hdoes⟩
  | cons e' later ih =>
      cases h with
      | cons hrun _ _ _ _ => exact ih hrun

/-- What holds of every configuration of a run. -/
structure Good (I : Op → Prog.Record R → C → Prop) (Q : Op → Prog.Record R → Res → Prop)
    (w : Config ι R (Logged ι R D Op) (Option Op) Op Res) : Prop where
  served : ∀ e ∈ w.shared.log, (w.threads e.who).own = some e.op
  traces : ∀ i op p, (w.threads i).running = some (op, p) →
    (w.threads i).own = some op ∧ p.Traces (I op) (Q op) (own w.shared.log i)

theorem Opening.good {w : Config ι R (Logged ι R D Op) (Option Op) Op Res} (h : Opening w) :
    Good I Q w where
  served e he := by
    rw [h.log] at he
    cases he
  traces i op p hp := by
    rw [h.idle i] at hp
    cases hp

theorem Good.own_eq_nil {w : Config ι R (Logged ι R D Op) (Option Op) Op Res} (h : Good I Q w)
    {i : ι} (hi : (w.threads i).own = none) : own w.shared.log i = [] := by
  refine List.eq_nil_iff_forall_not_mem.2 fun x hx => ?_
  obtain ⟨e, he, rfl, -⟩ := mem_own.1 hx
  rw [h.served e he] at hi
  cases hi

/-- A step logs a command that its request may issue, or nothing. -/
theorem Good.step (hprog : ∀ op, (V.prog op).Traces (I op) (Q op) [])
    {w w' : Config ι R (Logged ι R D Op) (Option Op) Op Res} (h : Good I Q w)
    (hstep : V.system.Step w w') : Good I Q w' ∧ (w'.shared = w.shared ∨
      ∃ e, I e.op (own w.shared.log e.who) e.cmd ∧
        (∀ e' ∈ w.shared.log, e'.who = e.who → e'.op = e.op) ∧ w.shared.now ≤ e.time ∧
        V.does e.op e.cmd e.time w.shared.state e.reply w'.shared.state ∧
        w'.shared.log = e :: w.shared.log ∧ w'.shared.now = e.time) := by
  cases hstep with
  | @start i op l' hr hs =>
      obtain ⟨hown, rfl⟩ := hs
      refine ⟨⟨fun e he => ?_, fun j op' p hp => ?_⟩, .inl rfl⟩
      · have hne : e.who ≠ i := by
          rintro rfl
          rw [h.served e he] at hown
          cases hown
        simp only [Function.update_of_ne hne]
        exact h.served e he
      · by_cases hj : j = i
        · subst hj
          simp only [Function.update_self] at hp ⊢
          cases hp
          exact ⟨rfl, by rw [h.own_eq_nil hown]; exact hprog op⟩
        · simp only [Function.update_of_ne hj] at hp ⊢
          exact h.traces j op' p hp
  | @call i op c k r s' l' hr he =>
      obtain ⟨rfl, hnow, op', hown, hdoes, hlog⟩ := he
      obtain ⟨hop, htraces⟩ := h.traces i op _ hr
      obtain rfl : op' = op := Option.some.inj (hown.symm.trans hop)
      have hsame : ∀ e ∈ w.shared.log, e.who = i → e.op = op' := by
        rintro e he rfl
        exact Option.some.inj ((h.served e he).symm.trans hop)
      refine ⟨⟨fun e he => ?_, fun j op p hp => ?_⟩, .inr ⟨⟨i, op', s'.now, c, r⟩, htraces.1,
        hsame, hnow, hdoes, hlog, rfl⟩⟩
      · simp only [hlog, List.mem_cons] at he
        rcases he with rfl | he
        · simp only [Function.update_self]
          exact hown
        · have hserved := h.served e he
          by_cases hj : e.who = i
          · subst hj
            simp only [Function.update_self]
            exact hserved
          · simp only [Function.update_of_ne hj]
            exact hserved
      · simp only [hlog]
        by_cases hj : j = i
        · subst hj
          simp only [Function.update_self] at hp ⊢
          cases hp
          refine ⟨hown, ?_⟩
          have hcons := own_cons_self (⟨j, op', s'.now, c, r⟩ : Event ι R Op) w.shared.log
          exact hcons ▸ htraces.2 r
        · simp only [Function.update_of_ne hj] at hp ⊢
          rw [own_cons_of_ne (fun h => hj h.symm)]
          exact h.traces j op p hp
  | @finish i op a l' hr hf =>
      obtain rfl := hf
      refine ⟨⟨fun e he => ?_, fun j op' p hp => ?_⟩, .inl rfl⟩
      · have hserved := h.served e he
        by_cases hj : e.who = i
        · subst hj
          simp only [Function.update_self]
          exact hserved
        · simp only [Function.update_of_ne hj]
          exact hserved
      · by_cases hj : j = i
        · subst hj
          simp only [Function.update_self] at hp
          cases hp
        · simp only [Function.update_of_ne hj] at hp ⊢
          exact h.traces j op' p hp

/-- What a run of the requests reaches is reached by a sequence of commands that they may issue. -/
theorem run_of_reaches (hprog : ∀ op, (V.prog op).Traces (I op) (Q op) [])
    {w₀ w : Config ι R (Logged ι R D Op) (Option Op) Op Res} (hopening : Opening w₀)
    (h : V.system.Reaches w₀ w) :
    V.Run I w₀.shared.state w₀.shared.now w.shared.log w.shared.now w.shared.state := by
  have hgood : Good I Q w ∧
      V.Run I w₀.shared.state w₀.shared.now w.shared.log w.shared.now w.shared.state := by
    induction h with
    | refl =>
        refine ⟨hopening.good, ?_⟩
        rw [hopening.log]
        exact .nil
    | tail _ hstep ih =>
        obtain ⟨hgood, hrest⟩ := ih.1.step hprog hstep
        refine ⟨hgood, ?_⟩
        rcases hrest with hsame | ⟨e, hissued, hop, hnow, hdoes, hlog, htime⟩
        · rw [hsame]
          exact ih.2
        · rw [hlog, htime]
          exact .cons ih.2 hissued hop hnow hdoes
  exact hgood.2

/-! ### Books of one-time entries -/

/-- What the commands enter under keys, and the entries that are live in a state. -/
structure Book (ι : Type*) {C : Type u} (R : C → Type v) (D Op K W : Type*) where
  enters : Event ι R Op → Option (K × W)
  live : D → K → Option W

/-- The keys that were entered. -/
def Book.keys {K W : Type*} (B : Book ι R D Op K W) (log : List (Event ι R Op)) : List K :=
  (log.filterMap B.enters).map Prod.fst

/-- A command enters a new key, or at most removes entries. -/
def Book.Steps {K W : Type*} (B : Book ι R D Op K W) (log : List (Event ι R Op)) (s : D)
    (e : Event ι R Op) (s' : D) : Prop :=
  (∃ k v, B.enters e = some (k, v) ∧ k ∉ B.keys log ∧
    ∀ k' v', B.live s' k' = some v' → (k', v') = (k, v) ∨ B.live s k' = some v') ∨
  B.enters e = none ∧ ∀ k v, B.live s' k = some v → B.live s k = some v

/-- Nothing is live at first, and every command keeps the book. -/
structure Book.Kept {K W : Type*} (B : Book ι R D Op K W) (V : Service R D Op Res)
    (I : Op → Prog.Record R → C → Prop) (s₀ : D) (t₀ : Int) : Prop where
  empty : ∀ k, B.live s₀ k = none
  steps : ∀ {log now s e s'}, V.Run I s₀ t₀ log now s → I e.op (own log e.who) e.cmd →
    V.does e.op e.cmd e.time s e.reply s' → B.Steps log s e s'

section Books

variable {K W : Type*} {B : Book ι R D Op K W} {k : K} {v : W}

omit [DecidableEq ι] in
theorem Book.mem_keys : k ∈ B.keys log ↔ ∃ e ∈ log, ∃ v, B.enters e = some (k, v) := by
  simp only [Book.keys, List.mem_map, List.mem_filterMap, Prod.exists, exists_and_right,
    exists_eq_right]
  constructor
  · rintro ⟨v, e, he, hv⟩
    exact ⟨e, he, v, hv⟩
  · rintro ⟨e, he, v, hv⟩
    exact ⟨v, e, he, hv⟩

/-- What is live was entered. -/
theorem Book.Kept.entered (hB : B.Kept V I s₀ t₀) (h : V.Run I s₀ t₀ log now s)
    (hlive : B.live s k = some v) : ∃ e ∈ log, B.enters e = some (k, v) := by
  induction h with
  | nil =>
      rw [hB.empty] at hlive
      cases hlive
  | cons hrun hissued _ _ hdoes ih =>
      rcases hB.steps hrun hissued hdoes with ⟨k', v', henters, -, hkeep⟩ | ⟨-, hkeep⟩
      · rcases hkeep k v hlive with heq | hlive
        · cases heq
          exact ⟨_, List.mem_cons_self, henters⟩
        · obtain ⟨e, he, hv⟩ := ih hlive
          exact ⟨e, List.mem_cons_of_mem _ he, hv⟩
      · obtain ⟨e, he, hv⟩ := ih (hkeep k v hlive)
        exact ⟨e, List.mem_cons_of_mem _ he, hv⟩

/-- A key is entered once. -/
theorem Book.Kept.once (hB : B.Kept V I s₀ t₀) (h : V.Run I s₀ t₀ log now s) {e e' : Event ι R Op}
    {v' : W} (he : e ∈ log) (he' : e' ∈ log) (hv : B.enters e = some (k, v))
    (hv' : B.enters e' = some (k, v')) : e = e' := by
  induction h with
  | nil => cases he
  | @cons log _ _ e₀ _ hrun hissued _ _ hdoes ih =>
      have hnew : ∀ {e₁ v₀ v₁}, B.enters e₀ = some (k, v₀) → e₁ ∈ log →
          B.enters e₁ = some (k, v₁) → False := by
        intro e₁ v₀ v₁ h₀ he₁ h₁
        rcases hB.steps hrun hissued hdoes with ⟨k', v', henters, hfresh, -⟩ | ⟨hnone, -⟩
        · rw [h₀] at henters
          cases henters
          exact hfresh (Book.mem_keys.2 ⟨e₁, he₁, v₁, h₁⟩)
        · rw [h₀] at hnone
          cases hnone
      rcases List.mem_cons.1 he with rfl | hlog <;> rcases List.mem_cons.1 he' with rfl | hlog'
      · rfl
      · exact (hnew hv hlog' hv').elim
      · exact (hnew hv' hlog hv).elim
      · exact ih hlog hlog'

/-- A key that was entered and is not live stays so. -/
theorem Book.Kept.gone (hB : B.Kept V I s₀ t₀) {later : List (Event ι R Op)}
    (h : V.Run I s₀ t₀ (later ++ log) now s) (hk : k ∈ B.keys log)
    (hdead : ∀ now₁ s₁, V.Run I s₀ t₀ log now₁ s₁ → B.live s₁ k = none) : B.live s k = none := by
  induction later generalizing now s with
  | nil => exact hdead now s h
  | cons e later ih =>
      cases h with
      | cons hrun hissued _ _ hdoes =>
          have hnone := ih hrun
          refine Option.eq_none_iff_forall_ne_some.2 fun v hlive => ?_
          rcases hB.steps hrun hissued hdoes with ⟨k', v', -, hfresh, hkeep⟩ | ⟨-, hkeep⟩
          · rcases hkeep k v hlive with heq | hlive
            · cases heq
              obtain ⟨e', he', hv⟩ := Book.mem_keys.1 hk
              exact hfresh (Book.mem_keys.2 ⟨e', List.mem_append_right _ he', hv⟩)
            · rw [hnone] at hlive
              cases hlive
          · have hlive := hkeep k v hlive
            rw [hnone] at hlive
            cases hlive

/-- A key that is gone after a command is not live where a later command is executed. -/
theorem Book.Kept.gone_later (hB : B.Kept V I s₀ t₀) {later earlier : List (Event ι R Op)}
    {e e' : Event ι R Op} (h : V.Run I s₀ t₀ (later ++ e :: earlier) now s) (he' : e' ∈ later)
    (hk : k ∈ B.keys earlier)
    (hdead : ∀ now₁ s₁, V.Run I s₀ t₀ (e :: earlier) now₁ s₁ → B.live s₁ k = none) :
    ∃ s₁ s₂, V.does e'.op e'.cmd e'.time s₁ e'.reply s₂ ∧ B.live s₁ k = none := by
  obtain ⟨later', between, rfl⟩ := List.append_of_mem he'
  rw [List.append_assoc, List.cons_append] at h
  obtain ⟨now₁, s₁, s₂, hrun, -, -, hdoes, -⟩ := h.split
  obtain ⟨e₀, he₀, hv⟩ := Book.mem_keys.1 hk
  exact ⟨s₁, s₂, hdoes,
    hB.gone hrun (Book.mem_keys.2 ⟨e₀, List.mem_cons_of_mem _ he₀, hv⟩) hdead⟩

end Books

/-! ### Requests that are served alone -/

/-- How commands are answered, where they are allowed. -/
structure Backend (V : Service R D Op Res) where
  answer : Op → (c : C) → Int → D → R c × D
  allowed : Op → C → Int → D → Bool
  sound : ∀ {op c t s}, allowed op c t s = true →
    V.does op c t s (answer op c t s).1 (answer op c t s).2

section Alone

variable (B : Backend V) (i : ι) (op : Op) (t : Int)

/-- A command is answered and logged. -/
def Backend.step (c : C) (s : Logged ι R D Op) : R c × Logged ι R D Op :=
  let r := B.answer op c t s.state
  (r.1, ⟨r.2, t, ⟨i, op, t, c, r.1⟩ :: s.log⟩)

def Backend.check (c : C) (s : Logged ι R D Op) : Bool :=
  decide (s.now ≤ t) && B.allowed op c t s.state

/-- Serve a request alone. -/
def Backend.serve (s : Logged ι R D Op) : Logged ι R D Op := ((V.prog op).run (B.step i op t) s).2

def Backend.serves (s : Logged ι R D Op) : Bool :=
  (V.prog op).passes (B.step i op t) (B.check op t) s

/-- Serve requests one after another, each in a thread and at a time. -/
def Backend.serveAll : List (ι × Op × Int) → Logged ι R D Op → Logged ι R D Op
  | [], s => s
  | (i, op, t) :: requests, s => Backend.serveAll requests (B.serve i op t s)

def Backend.servesAll : List (ι × Op × Int) → Logged ι R D Op → Bool
  | [], _ => true
  | (i, op, t) :: requests, s =>
      B.serves i op t s && Backend.servesAll requests (B.serve i op t s)

variable {B i op t}

theorem Backend.alone {p : Prog R Res} {s : Logged ι R D Op}
    (h : p.passes (B.step i op t) (B.check op t) s = true) :
    System.Alone (V.system.exec i) p s (some op) (p.run (B.step i op t) s).1
      (p.run (B.step i op t) s).2 (some op) := by
  induction p generalizing s with
  | ret a => exact .ret
  | call c k ih =>
      rw [Prog.passes, Bool.and_eq_true, Backend.check, Bool.and_eq_true, decide_eq_true_eq] at h
      have hexec : V.system.exec i c s (some op) (B.step i op t c s).1 (B.step i op t c s).2
          (some op) := ⟨rfl, h.1.1, op, rfl, B.sound h.1.2, rfl⟩
      exact .call hexec (ih _ h.2)

/-- What is served alone is a run. -/
theorem Backend.reaches_serve {w : Config ι R (Logged ι R D Op) (Option Op) Op Res}
    (hidle : (w.threads i).running = none) (hunused : (w.threads i).own = none)
    (h : B.serves i op t w.shared = true) : V.system.Reaches w
      ⟨B.serve i op t w.shared, Function.update w.threads i ⟨some op, none⟩⟩ :=
  (Backend.alone h).completes rfl hidle ⟨hunused, rfl⟩ rfl

theorem Backend.reaches_serveAll {requests : List (ι × Op × Int)}
    {w : Config ι R (Logged ι R D Op) (Option Op) Op Res}
    (hidle : ∀ x ∈ requests, (w.threads x.1).running = none ∧ (w.threads x.1).own = none)
    (hnodup : (requests.map Prod.fst).Nodup) (h : B.servesAll requests w.shared = true) :
    ∃ w', V.system.Reaches w w' ∧ w'.shared = B.serveAll requests w.shared := by
  induction requests generalizing w with
  | nil => exact ⟨w, .refl, rfl⟩
  | cons x requests ih =>
      obtain ⟨i, op, t⟩ := x
      rw [Backend.servesAll, Bool.and_eq_true] at h
      rw [List.map_cons, List.nodup_cons] at hnodup
      obtain ⟨hrun, hown⟩ := hidle (i, op, t) List.mem_cons_self
      have hserve := Backend.reaches_serve hrun hown h.1
      have hrest : ∀ x ∈ requests, x.1 ≠ i := by
        rintro x hx rfl
        exact hnodup.1 (List.mem_map.2 ⟨x, hx, rfl⟩)
      obtain ⟨w', hreach, hshared⟩ := ih
        (w := ⟨B.serve i op t w.shared, Function.update w.threads i ⟨some op, none⟩⟩)
        (fun x hx => by
          simp only [Function.update_of_ne (hrest x hx)]
          exact hidle x (List.mem_cons_of_mem _ hx)) hnodup.2 h.2
      exact ⟨w', hserve.trans hreach, hshared⟩

end Alone

end Service
