import Sotto.Library.Threads

/-!
# Sessions of a database

Any number of sessions run requests against one database, whose isolation level is READ COMMITTED.
A statement sees the rows that are committed and the changes of its own transaction. It waits until
no other session holds a lock that conflicts with one it takes, and its changes are applied when the
transaction commits, together and in order. A transaction that is dropped has no effect. Every
statement can fail.

A `Discipline` says what a transaction may commit, and which locks guard what. A request that
commits only what its discipline allows `Secures` it; if every request does, then the history of
every run is a sequence of allowed commits, each of which happened at once at the state before it.
-/

namespace Sessions

/-- The commands of a session: statements, with the locks they take and the changes they make, the
drawing of a value, and the two ways a transaction ends. -/
inductive Command (D Δ K ε : Type) : Type 1
  | run (α : Type) (locks : D → List K) (statement : D → Except ε (α × List Δ))
  | draw (α : Type) [Inhabited α]
  | commit
  | drop

/-- What a command returns. -/
abbrev Command.Reply {D Δ K ε : Type} : Command D Δ K ε → Type
  | run α _ _ => Except ε α
  | draw α => α
  | commit => Except ε Unit
  | drop => Unit

/-- A committed transaction: its request, the locks it took, and the database before and after
it. -/
structure Entry (D K Op : Type) where
  op : Op
  locks : List K
  before : D
  after : D

/-- The database, the locks that each session holds, and as a history variable the committed
transactions, newest first. -/
structure Shared (ι D K Op : Type) where
  db : D
  held : ι → List K
  log : List (Entry D K Op)

/-- The changes of the open transaction, and as history variables the request, and whether it has
committed any change. -/
structure Own (Δ Op : Type) where
  pending : List Δ
  op : Option Op
  wrote : Bool

section Execution

variable {ι D Δ K ε Op : Type}

/-- Apply changes, in order. -/
def applyAll (apply : Δ → D → D) (changes : List Δ) (db : D) : D :=
  changes.foldl (fun db c => apply c db) db

theorem applyAll_nil (apply : Δ → D → D) (db : D) : applyAll apply [] db = db := rfl

theorem applyAll_cons (apply : Δ → D → D) (c : Δ) (changes : List Δ) (db : D) :
    applyAll apply (c :: changes) db = applyAll apply changes (apply c db) := rfl

theorem applyAll_append (apply : Δ → D → D) (changes changes' : List Δ) (db : D) :
    applyAll apply (changes ++ changes') db =
      applyAll apply changes' (applyAll apply changes db) :=
  List.foldl_append

variable [DecidableEq ι]

/-- Whether a session can take a lock. -/
def Shared.Free (conflicts : K → K → Prop) (s : Shared ι D K Op) (i : ι) (k : K) : Prop :=
  ∀ j, j ≠ i → ∀ k' ∈ s.held j, ¬ conflicts k k'

def Shared.lock (s : Shared ι D K Op) (i : ι) (locks : List K) : Shared ι D K Op :=
  { s with held := Function.update s.held i (locks ++ s.held i) }

def Shared.release (s : Shared ι D K Op) (i : ι) : Shared ι D K Op :=
  { s with held := Function.update s.held i [] }

theorem Shared.held_lock (s : Shared ι D K Op) (i : ι) (locks : List K) :
    (s.lock i locks).held i = locks ++ s.held i := Function.update_self ..

theorem Shared.held_lock_of_ne (s : Shared ι D K Op) {i j : ι} (h : j ≠ i) (locks : List K) :
    (s.lock i locks).held j = s.held j := Function.update_of_ne h ..

theorem Shared.held_release (s : Shared ι D K Op) (i : ι) : (s.release i).held i = [] :=
  Function.update_self ..

theorem Shared.held_release_of_ne (s : Shared ι D K Op) {i j : ι} (h : j ≠ i) :
    (s.release i).held j = s.held j := Function.update_of_ne h ..

/-- The executions of a command by a session; `fault` is the error of one that fails. -/
def Executes (apply : Δ → D → D) (conflicts : K → K → Prop) (fault : ε) (i : ι) :
    (c : Command D Δ K ε) →
      Shared ι D K Op → Own Δ Op → c.Reply → Shared ι D K Op → Own Δ Op → Prop
  | .run _ locks statement, s, l, r, s', l' =>
      (r = .error fault ∧ s' = s ∧ l' = l) ∨
        (∀ k ∈ locks (applyAll apply l.pending s.db), s.Free conflicts i k) ∧
          match statement (applyAll apply l.pending s.db) with
          | .ok (a, changes) => r = .ok a ∧
              s' = s.lock i (locks (applyAll apply l.pending s.db)) ∧
              l' = { l with pending := l.pending ++ changes }
          | .error e => r = .error e ∧ s' = s ∧ l' = l
  | @Command.draw _ _ _ _ _ _, s, l, _, s', l' => s' = s ∧ l' = l
  | .commit, s, l, r, s', l' =>
      (r = .error fault ∧ s' = s ∧ l' = l) ∨
        r = .ok () ∧
        s' = { s.release i with
          db := applyAll apply l.pending s.db
          log := (l.op.map fun op =>
            ⟨op, s.held i, s.db, applyAll apply l.pending s.db⟩).toList ++ s.log } ∧
        l' = { l with pending := [], wrote := l.wrote || !l.pending.isEmpty }
  | .drop, s, l, _, s', l' => s' = s.release i ∧ l' = { l with pending := [] }

end Execution

/-! ### The programs of requests -/

section Programs

variable {D Δ K ε α β : Type}

/-- The program of a request. -/
abbrev Session (D Δ K ε : Type) : Type → Type 1 :=
  ExceptT ε (Prog (Command.Reply (D := D) (Δ := Δ) (K := K) (ε := ε)))

/-- A statement, with the locks it takes and the changes it makes. -/
def statement (locks : D → List K) (f : D → Except ε (α × List Δ)) : Session D Δ K ε α :=
  ExceptT.mk (Prog.perform (Command.run α locks f))

/-- A statement that only reads. -/
def query (f : D → Except ε α) : Session D Δ K ε α :=
  statement (fun _ => []) fun db => (f db).map fun a => (a, [])

/-- A value that the request draws, or that the time gives it. -/
def draw (α : Type) [Inhabited α] : Session D Δ K ε α := ExceptT.lift (Prog.perform (Command.draw α))

def commit : Session D Δ K ε Unit := ExceptT.mk (Prog.perform Command.commit)

/-- Run a transaction; what it has not committed at its end is dropped. -/
def transaction (body : Session D Δ K ε α) : Session D Δ K ε α :=
  ExceptT.mk (body.run >>= fun r => Prog.perform Command.drop >>= fun _ => pure r)

/-- Run a request to its result, failed or not. -/
def attempt (p : Session D Δ K ε α) : Session D Δ K ε (Except ε α) := ExceptT.lift p.run

/-- Fail with `e` unless `p` holds. -/
def require (p : Prop) [Decidable p] (e : ε) : Session D Δ K ε Unit :=
  if p then pure () else throw e

/-- Fail where a check fails. -/
def check (r : Except ε α) : Session D Δ K ε α :=
  match r with
  | .ok a => pure a
  | .error e => throw e

end Programs

/-! ### What transactions may commit -/

/-- Which locks conflict, what a transaction may commit for a request when it holds locks, how the
database evolves, and what stays as it is while a lock is held. -/
structure Discipline (D Δ K Op : Type) where
  apply : Δ → D → D
  Conflicts : K → K → Prop
  Sound : D → Prop
  Later : D → D → Prop
  Guarded : K → D → D → Prop
  Commits : Op → List K → D → List Δ → Prop
  conflicts_symm : ∀ {k k'}, Conflicts k k' → Conflicts k' k
  later_refl : ∀ db, Later db db
  later_trans : ∀ {db db' db''}, Later db db' → Later db' db'' → Later db db''
  guarded_refl : ∀ k db, Guarded k db db
  guarded_trans : ∀ {k db db' db''}, Guarded k db db' → Guarded k db' db'' → Guarded k db db''
  sound : ∀ {op locks db changes}, Sound db → Commits op locks db changes →
    Sound (applyAll apply changes db)
  later : ∀ {op locks db changes}, Sound db → Commits op locks db changes →
    Later db (applyAll apply changes db)
  guarded : ∀ {op locks db changes k}, Sound db → Commits op locks db changes →
    (∀ k' ∈ locks, ¬ Conflicts k k') → Guarded k db (applyAll apply changes db)

namespace Discipline

variable {ι D Δ K ε Op Res α β : Type}

/-- The sequences of allowed commits, newest first, and the databases they lead to. -/
inductive History (P : Discipline D Δ K Op) (db₀ : D) : List (Entry D K Op) → D → Prop
  | nil : P.History db₀ [] db₀
  | cons {log db op locks changes} : P.History db₀ log db → P.Sound db →
      P.Commits op locks db changes →
      P.History db₀ (⟨op, locks, db, applyAll P.apply changes db⟩ :: log)
        (applyAll P.apply changes db)

/-- Every committed transaction was allowed at the database before it. -/
theorem History.commits {P : Discipline D Δ K Op} {db₀ db : D} {log : List (Entry D K Op)}
    (h : P.History db₀ log db) {e : Entry D K Op} (he : e ∈ log) :
    ∃ changes, P.Sound e.before ∧ P.Commits e.op e.locks e.before changes ∧
      e.after = applyAll P.apply changes e.before := by
  induction h with
  | nil => cases he
  | cons _ hsound hcommits ih =>
      rcases List.mem_cons.1 he with rfl | he
      · exact ⟨_, hsound, hcommits, rfl⟩
      · exact ih he

/-- What every committed transaction carries over holds of every database of the history. -/
theorem History.carries {P : Discipline D Δ K Op} {db₀ db : D} {log : List (Entry D K Op)}
    (h : P.History db₀ log db) {R : D → D → Prop} (hrefl : ∀ db, R db db)
    (htrans : ∀ {db db' db''}, R db db' → R db' db'' → R db db'')
    (hstep : ∀ {e : Entry D K Op} {changes}, e ∈ log → P.Sound e.before →
      P.Commits e.op e.locks e.before changes → e.after = applyAll P.apply changes e.before →
      R e.before e.after) : R db₀ db ∧ ∀ e ∈ log, R e.after db := by
  induction h with
  | nil => exact ⟨hrefl _, nofun⟩
  | @cons log db op locks changes _ hsound hcommits ih =>
      obtain ⟨hfirst, hlater⟩ := ih fun he => hstep (List.mem_cons_of_mem _ he)
      have hlast : R db (applyAll P.apply changes db) :=
        hstep (e := ⟨op, locks, db, applyAll P.apply changes db⟩) List.mem_cons_self hsound
          hcommits rfl
      refine ⟨htrans hfirst hlast, fun e he => ?_⟩
      rcases List.mem_cons.1 he with rfl | he
      · exact hrefl _
      · exact htrans (hlater e he) hlast

/-- What a session relies on: what its locks guard stays as it is. -/
structure Rely (P : Discipline D Δ K Op) (i : ι) (s s' : Shared ι D K Op) : Prop where
  later : P.Later s.db s'.db
  held : s'.held i = s.held i
  guarded : ∀ k ∈ s.held i, P.Guarded k s.db s'.db

/-- What has stayed as it was since a database, under locks. -/
structure Since (P : Discipline D Δ K Op) (locks : List K) (d db : D) : Prop where
  later : P.Later d db
  guarded : ∀ k ∈ locks, P.Guarded k d db

/-- The transaction of a session: the changes it has made, the locks it has taken, and whether its
request has committed any change. -/
structure Stage (Δ K : Type) where
  changes : List Δ
  locks : List K
  wrote : Bool

/-- Outside of a transaction. -/
abbrev Stage.outside (Δ K : Type) (wrote : Bool) : Stage Δ K := ⟨[], [], wrote⟩

/-- What a session knows within a transaction: its changes, and its locks since `d`. -/
structure Held (P : Discipline D Δ K Op) (i : ι) (op : Op) (d : D) (g : Stage Δ K)
    (s : Shared ι D K Op) (l : Own Δ Op) : Prop where
  own : l = ⟨g.changes, some op, g.wrote⟩
  held : s.held i = g.locks
  since : P.Since g.locks d s.db

/-- No two sessions hold locks that conflict. -/
def Compatible (P : Discipline D Δ K Op) (s : Shared ι D K Op) : Prop :=
  ∀ i j, i ≠ j → ∀ k ∈ s.held i, ∀ k' ∈ s.held j, ¬ P.Conflicts k k'

section Relies

variable {P : Discipline D Δ K Op} {i : ι} {op : Op} {locks : List K} {d : D} {g : Stage Δ K}
  {s s' s'' : Shared ι D K Op} {l : Own Δ Op}

theorem Rely.refl (P : Discipline D Δ K Op) (i : ι) (s : Shared ι D K Op) : P.Rely i s s :=
  ⟨P.later_refl _, rfl, fun _ _ => P.guarded_refl _ _⟩

theorem Rely.trans (h : P.Rely i s s') (h' : P.Rely i s' s'') : P.Rely i s s'' where
  later := P.later_trans h.later h'.later
  held := h'.held.trans h.held
  guarded k hk := P.guarded_trans (h.guarded k hk) (h'.guarded k (h.held ▸ hk))

theorem Since.refl (P : Discipline D Δ K Op) (locks : List K) (d : D) : P.Since locks d d :=
  ⟨P.later_refl d, fun _ _ => P.guarded_refl _ _⟩

/-- Under more locks no less has stayed as it was. -/
theorem Since.trans {locks' : List K} {d d' db : D} (h : P.Since locks d d')
    (h' : P.Since locks' d' db) (hsub : ∀ k ∈ locks, k ∈ locks') : P.Since locks d db :=
  ⟨P.later_trans h.later h'.later, fun k hk =>
    P.guarded_trans (h.guarded k hk) (h'.guarded k (hsub k hk))⟩

theorem Held.rely (h : P.Held i op d g s l) (hs : P.Rely i s s') : P.Held i op d g s' l where
  own := h.own
  held := hs.held.trans h.held
  since := ⟨P.later_trans h.since.later hs.later, fun k hk =>
    P.guarded_trans (h.since.guarded k hk) (hs.guarded k (h.held.symm ▸ hk))⟩

theorem Held.outside {wrote : Bool} (hown : l = ⟨[], some op, wrote⟩) (hheld : s.held i = []) :
    P.Held i op s.db (.outside Δ K wrote) s l :=
  ⟨hown, hheld, Since.refl P _ _⟩

end Relies

variable [DecidableEq ι]

section Rules

variable {P : Discipline D Δ K Op} {i : ι} {op : Op} {locks : List K} {d d' db db₀ : D}
  {changes : List Δ} {wrote : Bool} {s s' s'' : Shared ι D K Op} {l : Own Δ Op}

/-- The setting of a session: others rely on what their locks guard, and the log is a history of
allowed commits. -/
def setting (P : Discipline D Δ K Op) (fault : ε) (db₀ : D) (i : ι) :
    Setting (Command.Reply (D := D) (Δ := Δ) (K := K) (ε := ε)) (Shared ι D K Op)
      (Own Δ Op) where
  rely := P.Rely i
  exec := Executes P.apply P.Conflicts fault i
  guar _ s _ s' := ∀ j, j ≠ i → P.Rely j s s'
  inv s := P.Sound s.db ∧ P.History db₀ s.log s.db ∧ P.Compatible s
  rely_refl := Rely.refl P i
  rely_trans := Rely.trans

/-- What is known at the end of a program: the request, and at which stage which result is. -/
def Ends (P : Discipline D Δ K Op) (op : Op) (d : D) (Q : Except ε α → Stage Δ K → Prop)
    (i : ι) (r : Except ε α) (s : Shared ι D K Op) (l : Own Δ Op) : Prop :=
  l.op = some op ∧ P.Later d s.db ∧ Q r ⟨l.pending, s.held i, l.wrote⟩

/-- A program that, wherever it is run within a transaction, commits only what is allowed, and
ends at a stage of which `Q` holds. -/
def Secures (P : Discipline D Δ K Op) (ι : Type) [DecidableEq ι] (fault : ε)
    (Q : Except ε α → Stage Δ K → Prop) (op : Op) (d : D) (g : Stage Δ K)
    (p : Session D Δ K ε α) : Prop :=
  ∀ (i : ι) db₀ s l, P.Held i op d g s l →
    (P.setting fault db₀ i).wp p.run (P.Ends op d Q i) s l

/-- A result that is an error is the end of a transaction that is dropped. -/
def InBody (Q : α → Bool → Prop) (r : Except ε α) (g : Stage Δ K) : Prop :=
  match r with
  | .ok a => Q a g.wrote
  | .error _ => g.wrote = false

/-- A request ends outside of transactions, and where it fails it has committed no change, unless
it may fail at its end. -/
def AtEnd (late : Prop) (r : Except ε α) (g : Stage Δ K) : Prop :=
  g.changes = [] ∧ g.locks = [] ∧ ∀ e, r = .error e → g.wrote = true → late

variable {fault : ε} {g : Stage Δ K} {Q : Except ε β → Stage Δ K → Prop}
  {p : Session D Δ K ε α} {k : α → Session D Δ K ε β}

theorem secures_ret {r : Except ε β} (hQ : Q r g) :
    P.Secures ι fault Q op d g (ExceptT.mk (Prog.ret r)) := by
  intro i db₀ s l hl s' hs _
  have hl' := hl.rely hs
  exact ⟨by rw [hl'.own], hl'.since.later, by rw [hl'.own, hl'.held]; exact hQ⟩

theorem secures_pure {a : β} (hQ : Q (.ok a) g) :
    P.Secures ι fault Q op d g (pure a : Session D Δ K ε β) :=
  secures_ret hQ

theorem secures_throw {e : ε} (hQ : Q (.error e) g) :
    P.Secures ι fault Q op d g (throw e : Session D Δ K ε β) :=
  secures_ret hQ

theorem secures_require {q : Prop} [Decidable q] {e : ε} {k : Unit → Session D Δ K ε β}
    (hQ : ∀ e, Q (.error e) g) (h : q → P.Secures ι fault Q op d g (k ())) :
    P.Secures ι fault Q op d g (require q e >>= k) := by
  unfold require
  split
  · next hq =>
      rw [pure_bind]
      exact h hq
  · exact secures_throw (hQ e)

theorem secures_check {r : Except ε α} (hQ : ∀ e, Q (.error e) g)
    (h : ∀ a, r = .ok a → P.Secures ι fault Q op d g (k a)) :
    P.Secures ι fault Q op d g (check r >>= k) := by
  cases r with
  | ok a =>
      have hcheck : (check (.ok a) : Session D Δ K ε α) >>= k = k a := pure_bind a k
      rw [hcheck]
      exact h a rfl
  | error e => exact secures_throw (hQ e)

/-- Taking locks disturbs no other session. -/
theorem Rely.lock {taken : List K} {j : ι} (hne : j ≠ i) : P.Rely j s (s.lock i taken) :=
  ⟨P.later_refl _, Shared.held_lock_of_ne _ hne _, fun _ _ => P.guarded_refl _ _⟩

theorem Rely.release {j : ι} (hne : j ≠ i) : P.Rely j s (s.release i) :=
  ⟨P.later_refl _, Shared.held_release_of_ne _ hne, fun _ _ => P.guarded_refl _ _⟩

theorem Compatible.lock {taken : List K} (h : P.Compatible s)
    (hfree : ∀ k ∈ taken, s.Free P.Conflicts i k) : P.Compatible (s.lock i taken) := by
  have hnew : ∀ j, j ≠ i → ∀ k ∈ (s.lock i taken).held i, ∀ k' ∈ s.held j,
      ¬ P.Conflicts k k' := by
    intro j hne k hk k' hk'
    rw [Shared.held_lock] at hk
    rcases List.mem_append.1 hk with hk | hk
    · exact hfree k hk j hne k' hk'
    · exact h i j hne.symm k hk k' hk'
  intro j₁ j₂ hne k hk k' hk'
  by_cases h₁ : j₁ = i
  · subst h₁
    rw [Shared.held_lock_of_ne _ hne.symm] at hk'
    exact hnew j₂ hne.symm k hk k' hk'
  · by_cases h₂ : j₂ = i
    · subst h₂
      rw [Shared.held_lock_of_ne _ h₁] at hk
      exact fun hc => hnew j₁ h₁ k' hk' k hk (P.conflicts_symm hc)
    · rw [Shared.held_lock_of_ne _ h₁] at hk
      rw [Shared.held_lock_of_ne _ h₂] at hk'
      exact h j₁ j₂ hne k hk k' hk'

theorem Compatible.release (h : P.Compatible s) : P.Compatible (s.release i) := by
  have hsub : ∀ j, ∀ k ∈ (s.release i).held j, k ∈ s.held j := by
    intro j k hk
    by_cases hj : j = i
    · subst hj
      rw [Shared.held_release] at hk
      cases hk
    · rwa [Shared.held_release_of_ne _ hj] at hk
  exact fun j₁ j₂ hne k hk k' hk' => h j₁ j₂ hne k (hsub j₁ k hk) k' (hsub j₂ k' hk')

theorem lock_nil (s : Shared ι D K Op) (i : ι) : s.lock i [] = s := by
  simp [Shared.lock]

theorem Held.lock {taken : List K} {new : List Δ} (hl : P.Held i op d g s l) :
    P.Held i op s.db ⟨g.changes ++ new, taken ++ g.locks, g.wrote⟩ (s.lock i taken)
      ⟨g.changes ++ new, some op, g.wrote⟩ where
  own := rfl
  held := by rw [Shared.held_lock, hl.held]
  since := Since.refl P _ _

/-- A statement is executed at a later state, or it fails there. -/
theorem wp_statement {taken : D → List K} {f : D → Except ε (α × List Δ)}
    (hQ : ∀ e, Q (.error e) g) (hl : P.Held i op d g s l)
    (h : ∀ s a new, P.Sound s.db → P.Held i op d g s l →
      f (applyAll P.apply g.changes s.db) = .ok (a, new) →
      (P.setting fault db₀ i).wp (k a).run (P.Ends op d Q i)
        (s.lock i (taken (applyAll P.apply g.changes s.db)))
        ⟨g.changes ++ new, some op, g.wrote⟩) :
    (P.setting fault db₀ i).wp (statement taken f >>= k).run (P.Ends op d Q i) s l := by
  show (P.setting fault db₀ i).wp (.call (Command.run α taken f) fun r => ExceptT.bindCont k r) _ s l
  intro s' hs hi r s'' l' he
  have hl' := hl.rely hs
  have hfail : ∀ e : ε, (P.setting fault db₀ i).wp (ExceptT.bindCont k (.error e))
      (P.Ends op d Q i) s' l :=
    fun e => secures_ret (hQ e) i db₀ s' l hl'
  rcases he with ⟨rfl, rfl, rfl⟩ | ⟨hfree, he⟩
  · exact ⟨fun j _ => Rely.refl P j _, hi, hfail fault⟩
  · rw [hl'.own] at hfree he
    dsimp only at hfree he
    split at he
    · next a new hf =>
        obtain ⟨rfl, rfl, rfl⟩ := he
        exact ⟨fun j hne => Rely.lock hne, ⟨hi.1, hi.2.1, hi.2.2.lock hfree⟩,
          h s' a new hi.1 hl' hf⟩
    · obtain ⟨rfl, rfl, rfl⟩ := he
      rw [← hl'.own]
      exact ⟨fun j _ => Rely.refl P j _, hi, hfail _⟩

/-- A statement that takes locks: from then on nobody else changes what they guard. -/
theorem secures_lock {taken : D → List K} {f : D → Except ε (α × List Δ)}
    (hQ : ∀ e, Q (.error e) g)
    (h : ∀ db a new, P.Sound db → P.Since g.locks d db →
      f (applyAll P.apply g.changes db) = .ok (a, new) →
      P.Secures ι fault Q op db
        ⟨g.changes ++ new, taken (applyAll P.apply g.changes db) ++ g.locks, g.wrote⟩ (k a)) :
    P.Secures ι fault Q op d g (statement taken f >>= k) := by
  intro i db₀ s l hl
  refine wp_statement hQ hl ?_
  intro s a new hsound hl hf
  refine Setting.wp_mono (h s.db a new hsound hl.since hf i db₀ _ _ hl.lock) ?_
  rintro _ s' l' _ ⟨hop, hlater, hQ'⟩
  exact ⟨hop, P.later_trans hl.since.later hlater, hQ'⟩

/-- A statement that takes no locks. -/
theorem secures_write {f : D → Except ε (α × List Δ)} (hQ : ∀ e, Q (.error e) g)
    (h : ∀ db a new, P.Sound db → P.Since g.locks d db →
      f (applyAll P.apply g.changes db) = .ok (a, new) →
      P.Secures ι fault Q op d ⟨g.changes ++ new, g.locks, g.wrote⟩ (k a)) :
    P.Secures ι fault Q op d g (statement (fun _ => []) f >>= k) := by
  intro i db₀ s l hl
  refine wp_statement hQ hl ?_
  intro s a new hsound hl hf
  rw [lock_nil]
  exact h s.db a new hsound hl.since hf i db₀ s _ ⟨rfl, hl.held, hl.since⟩

theorem secures_query {f : D → Except ε α} (hQ : ∀ e, Q (.error e) g)
    (h : ∀ db a, P.Sound db → P.Since g.locks d db → f (applyAll P.apply g.changes db) = .ok a →
      P.Secures ι fault Q op d g (k a)) :
    P.Secures ι fault Q op d g (query f >>= k) := by
  refine secures_write hQ ?_
  intro db a new hsound hsince hf
  cases hr : f (applyAll P.apply g.changes db) with
  | error e =>
      rw [hr] at hf
      cases hf
  | ok r =>
      rw [hr] at hf
      cases hf
      rw [List.append_nil]
      exact h db a hsound hsince hr

/-- A read outside of transactions: the database only moves on. -/
theorem secures_fetch {f : D → Except ε α} (hQ : ∀ e, Q (.error e) (.outside Δ K wrote))
    (h : ∀ db a, P.Sound db → P.Later d db → f db = .ok a →
      P.Secures ι fault Q op db (.outside Δ K wrote) (k a)) :
    P.Secures ι fault Q op d (.outside Δ K wrote) (query f >>= k) := by
  refine secures_lock hQ ?_
  intro db a new hsound hsince hf
  change (f db).map (fun a => (a, [])) = .ok (a, new) at hf
  cases hr : f db with
  | error e =>
      rw [hr] at hf
      cases hf
  | ok r =>
      rw [hr] at hf
      cases hf
      exact h db a hsound hsince.later hr

theorem secures_draw [Inhabited α] {k : α → Session D Δ K ε β}
    (h : ∀ a, P.Secures ι fault Q op d g (k a)) :
    P.Secures ι fault Q op d g (draw α >>= k) := by
  intro i db₀ s l hl
  show (P.setting fault db₀ i).wp (.call (Command.draw α) fun a => (k a).run) _ s l
  intro s' hs hi a s'' l' he
  obtain ⟨rfl, rfl⟩ := he
  exact ⟨fun j _ => Rely.refl P j _, hi, h a i db₀ _ _ (hl.rely hs)⟩

/-- What a commit changes is not guarded by the locks of others. -/
theorem Rely.commit (hl : P.Held i op d g s l) (hsound : P.Sound s.db) (hcompat : P.Compatible s)
    (hcommits : P.Commits op g.locks s.db g.changes) {j : ι} (hne : j ≠ i)
    {log : List (Entry D K Op)} :
    P.Rely j s { s.release i with db := applyAll P.apply g.changes s.db, log := log } where
  later := P.later hsound hcommits
  held := Shared.held_release_of_ne s hne
  guarded k hk := P.guarded hsound hcommits fun k' hk' =>
    hcompat j i hne k hk k' (hl.held.symm ▸ hk')

/-- A commit is the last that is done in a transaction. -/
theorem secures_commit {k : Unit → Session D Δ K ε β} (hQ : ∀ e, Q (.error e) g)
    (hcommits : ∀ db, P.Sound db → P.Since g.locks d db → P.Commits op g.locks db g.changes)
    (h : ∀ db, P.Later d db →
      P.Secures ι fault Q op db (.outside Δ K (g.wrote || !g.changes.isEmpty)) (k ())) :
    P.Secures ι fault Q op d g (commit >>= k) := by
  intro i db₀ s l hl
  show (P.setting fault db₀ i).wp (.call Command.commit fun r => ExceptT.bindCont k r) _ s l
  intro s' hs hi r s'' l' he
  have hl' := hl.rely hs
  rcases he with ⟨rfl, rfl, rfl⟩ | ⟨rfl, rfl, rfl⟩
  · exact ⟨fun j _ => Rely.refl P j _, hi, secures_ret (hQ fault) i db₀ _ _ hl'⟩
  · have hallowed := hcommits s'.db hi.1 hl'.since
    have hlater := P.later hi.1 hallowed
    rw [hl'.own, hl'.held]
    refine ⟨fun j hne => Rely.commit hl' hi.1 hi.2.2 hallowed hne,
      ⟨P.sound hi.1 hallowed, .cons hi.2.1 hi.1 hallowed, hi.2.2.release⟩, ?_⟩
    · refine Setting.wp_mono (h _ (P.later_trans hl'.since.later hlater) i db₀ _ _ ?_) ?_
      · exact ⟨rfl, Shared.held_release s' i, Since.refl P _ _⟩
      · rintro _ s₃ l₃ _ ⟨hop, hlater', hQ'⟩
        exact ⟨hop, P.later_trans (P.later_trans hl'.since.later hlater) hlater', hQ'⟩

/-- A transaction: what it has not committed is dropped. -/
theorem secures_transaction {body : Session D Δ K ε α} {B : α → Bool → Prop}
    (hbody : P.Secures ι fault (InBody B) op d (.outside Δ K false) body)
    (hQ : ∀ e, Q (.error e) (.outside Δ K false))
    (h : ∀ db a wrote, P.Later d db → B a wrote →
      P.Secures ι fault Q op db (.outside Δ K wrote) (k a)) :
    P.Secures ι fault Q op d (.outside Δ K false) (transaction body >>= k) := by
  intro i db₀ s l hl
  have hrun : (transaction body >>= k).run = body.run >>= fun r =>
      Prog.perform Command.drop >>= fun _ => ExceptT.bindCont k r := by
    show (body.run >>= fun r => Prog.perform Command.drop >>= fun _ => pure r) >>=
      ExceptT.bindCont k = _
    rw [bind_assoc]
    rfl
  rw [hrun]
  refine Setting.wp_bind (Setting.wp_mono (hbody i db₀ s l hl) ?_)
  rintro r s₁ l₁ hi₁ ⟨hop, hlater, hB⟩
  show (P.setting fault db₀ i).wp (.call Command.drop fun _ => ExceptT.bindCont k r) _ s₁ l₁
  intro s₂ hs hi₂ _ s₃ l₃ he
  obtain ⟨rfl, rfl⟩ := he
  refine ⟨fun j hne => Rely.release hne, ⟨hi₂.1, hi₂.2.1, hi₂.2.2.release⟩, ?_⟩
  have hlater₂ := P.later_trans hlater hs.later
  have hheld : P.Held i op s₂.db (.outside Δ K l₁.wrote) (s₂.release i)
      { l₁ with pending := [] } :=
    ⟨by rw [← hop], Shared.held_release s₂ i, Since.refl P _ _⟩
  have hrest : P.Secures ι fault Q op s₂.db (.outside Δ K l₁.wrote)
      (ExceptT.mk (ExceptT.bindCont k r)) := by
    cases r with
    | ok a => exact h s₂.db a l₁.wrote hlater₂ hB
    | error e =>
        have hwrote : l₁.wrote = false := hB
        rw [hwrote]
        exact secures_ret (hQ e)
  refine Setting.wp_mono (hrest i db₀ _ _ hheld) ?_
  rintro _ s₄ l₄ _ ⟨hop₄, hlater₄, hQ₄⟩
  exact ⟨hop₄, P.later_trans hlater₂ hlater₄, hQ₄⟩

/-- A part that is run to its result, outside of transactions, and only reads. -/
theorem secures_attempt {k : Except ε α → Session D Δ K ε β}
    (hp : P.Secures ι fault (fun _ g => g = .outside Δ K wrote) op d (.outside Δ K wrote) p)
    (h : ∀ db r, P.Later d db → P.Secures ι fault Q op db (.outside Δ K wrote) (k r)) :
    P.Secures ι fault Q op d (.outside Δ K wrote) (attempt p >>= k) := by
  intro i db₀ s l hl
  have hrun : (attempt p >>= k).run = p.run >>= fun r => (k r).run := by
    show ((p.run >>= fun r => pure (.ok r)) >>= ExceptT.bindCont k) = _
    rw [bind_assoc]
    rfl
  rw [hrun]
  refine Setting.wp_bind (Setting.wp_mono (Setting.wp_stable (hp i db₀ s l hl)) ?_)
  intro r s₁ l₁ hi₁ hstable
  obtain ⟨hop, hlater, hstage⟩ := hstable s₁ (Rely.refl P i s₁) hi₁
  injection hstage with hpending hlocks hwrote
  refine Setting.wp_mono (h s₁.db r hlater i db₀ s₁ l₁ (Held.outside ?_ hlocks)) ?_
  · cases l₁
    simp_all
  · rintro _ s₂ l₂ _ ⟨hop₂, hlater₂, hQ₂⟩
    exact ⟨hop₂, P.later_trans hlater hlater₂, hQ₂⟩

theorem Secures.of_bind_pure {p : Session D Δ K ε β}
    (h : P.Secures ι fault Q op d g (p >>= pure)) : P.Secures ι fault Q op d g p := by
  rwa [bind_pure] at h

/-- A loop: `I` holds of what is left of the list, and of the stage since when. -/
theorem secures_forM {A : Type} {I : List A → D → Stage Δ K → Prop}
    {f : A → Session D Δ K ε PUnit} {k : PUnit → Session D Δ K ε β}
    (hbody : ∀ x rest d g (k : PUnit → Session D Δ K ε β), I (x :: rest) d g →
      (∀ d' g', I rest d' g' → P.Secures ι fault Q op d' g' (k ⟨⟩)) →
      P.Secures ι fault Q op d g (f x >>= k))
    (h : ∀ d' g', I [] d' g' → P.Secures ι fault Q op d' g' (k ⟨⟩))
    {xs : List A} (hI : I xs d g) :
    P.Secures ι fault Q op d g (xs.forM f >>= k) := by
  induction xs generalizing d g with
  | nil =>
      have hnil : ([] : List A).forM f >>= k = k ⟨⟩ := pure_bind _ _
      rw [hnil]
      exact h d g hI
  | cons x xs ih =>
      have hcons : (x :: xs).forM f >>= k = f x >>= fun _ => xs.forM f >>= k :=
        bind_assoc _ _ _
      rw [hcons]
      exact hbody x xs d g _ hI fun d' g' hI' => ih hI'

end Rules

/-! ### Runs -/

section Runs

variable (P : Discipline D Δ K Op) (fault : ε) (handler : Op → Session D Δ K ε Res)

/-- Sessions that run requests. -/
def system : System ι (Command.Reply (D := D) (Δ := Δ) (K := K) (ε := ε)) (Shared ι D K Op)
    (Own Δ Op) Op (Except ε Res) where
  prog _ op := (handler op).run
  start _ op _ l l' := l' = { l with op := some op, wrote := false }
  exec i := Executes P.apply P.Conflicts fault i
  finish _ _ _ _ l l' := l' = { l with op := none }

/-- The configurations of sessions. -/
abbrev Situation (ι D Δ K ε Op Res : Type) : Type 1 :=
  Config ι (Command.Reply (D := D) (Δ := Δ) (K := K) (ε := ε)) (Shared ι D K Op) (Own Δ Op) Op
    (Except ε Res)

/-- A database without sessions. -/
def quiet (db : D) : Situation ι D Δ K ε Op Res where
  shared := ⟨db, fun _ => [], []⟩
  threads _ := ⟨⟨[], none, false⟩, none⟩

variable (late : Op → Prop)

def outline (db₀ : D) : Outline (P.system (ι := ι) fault handler) where
  rely := P.Rely
  guar i _ s _ s' := ∀ j, j ≠ i → P.Rely j s s'
  inv s := P.Sound s.db ∧ P.History db₀ s.log s.db ∧ P.Compatible s
  idle i s l := l.pending = [] ∧ s.held i = []
  post i op r s l := AtEnd (late op) r ⟨l.pending, s.held i, l.wrote⟩
  rely_refl := Rely.refl P
  rely_trans _ := Rely.trans

/-- Every request commits only what is allowed, and where it fails it has committed nothing, unless
it may fail at its end. -/
def Obeyed : Prop :=
  ∀ op d, P.Secures ι fault (AtEnd (late op)) op d (.outside Δ K false) (handler op)

variable {P fault handler late}

theorem outline_valid (h : P.Obeyed (ι := ι) fault handler late) (db₀ : D) :
    (P.outline (ι := ι) fault handler late db₀).Valid where
  start := by
    rintro i op s l l' - ⟨hpending, hlocks⟩ rfl
    have hheld : P.Held i op s.db (.outside Δ K false) s { l with op := some op, wrote := false } :=
      Held.outside (by rw [hpending]) hlocks
    refine Setting.wp_mono (h op s.db i db₀ s _ hheld) ?_
    rintro _ s' l' _ ⟨-, -, hend⟩
    exact hend
  finish := by
    rintro i op a s l l' - ⟨hpending, hlocks, -⟩ rfl
    exact ⟨hpending, hlocks⟩
  guar_rely hne _ hg := hg _ hne
  idle_stable _ _ hs hl := ⟨hl.1, hs.held.trans hl.2⟩

theorem good_of_reaches (h : P.Obeyed (ι := ι) fault handler late) {db₀ : D}
    (hsound : P.Sound db₀) {w : Situation ι D Δ K ε Op Res}
    (hw : (P.system fault handler).Reaches (quiet db₀) w) :
    (P.outline fault handler late db₀).Good w := by
  have hgood : (P.outline (ι := ι) fault handler late db₀).Good (quiet db₀) :=
    ⟨⟨hsound, .nil, fun _ _ _ _ hk => absurd hk List.not_mem_nil⟩, fun _ => ⟨rfl, rfl⟩⟩
  exact hgood.reaches (outline_valid h db₀) hw

/-- In every run of requests that commit only what is allowed, the log is a history of allowed
commits that leads to the database. -/
theorem history_of_reaches (h : P.Obeyed (ι := ι) fault handler late) {db₀ : D}
    (hsound : P.Sound db₀) {w : Situation ι D Δ K ε Op Res}
    (hw : (P.system fault handler).Reaches (quiet db₀) w) :
    P.Sound w.shared.db ∧ P.History db₀ w.shared.log w.shared.db :=
  have hinv := (good_of_reaches h hsound hw).inv
  ⟨hinv.1, hinv.2.1⟩

end Runs

end Discipline

end Sessions
