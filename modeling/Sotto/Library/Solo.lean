import Sotto.Library.Sessions

/-!
# A session that runs alone

What a session does that runs requests one after another, with nobody else there and with no
statement failing for a reason of its own. It is computed, and it is one of the runs.
-/

namespace Sessions

variable {ι D Δ K ε Op Res α : Type}

/-- The database, the open transaction, and the committed transactions. -/
structure Solo (D Δ K Op : Type) where
  db : D
  pending : List Δ
  locks : List K
  wrote : Bool
  log : List (Entry D K Op)

/-- The execution of a command. -/
def Solo.handle (apply : Δ → D → D) (op : Op) :
    (c : Command D Δ K ε) → Solo D Δ K Op → c.Reply × Solo D Δ K Op
  | .run _ locks statement, s =>
      match statement (applyAll apply s.pending s.db) with
      | .ok (a, changes) => (.ok a, { s with
          pending := s.pending ++ changes
          locks := locks (applyAll apply s.pending s.db) ++ s.locks })
      | .error e => (.error e, s)
  | @Command.draw _ _ _ _ _ _, s => (default, s)
  | .commit, s => (.ok (), {
      db := applyAll apply s.pending s.db
      pending := []
      locks := []
      wrote := s.wrote || !s.pending.isEmpty
      log := ⟨op, s.locks, s.db, applyAll apply s.pending s.db⟩ :: s.log })
  | .drop, s => ((), { s with pending := [], locks := [] })

/-- Run one request, and then the next. -/
def Solo.requests (apply : Δ → D → D) (handler : Op → Session D Δ K ε Res) :
    List Op → D × List (Entry D K Op) → D × List (Entry D K Op)
  | [], s => s
  | op :: ops, s =>
      let s' := ((handler op).run.run (handle apply op) ⟨s.1, [], [], false, s.2⟩).2
      requests apply handler ops (s'.db, s'.log)

namespace Discipline

/-- A session runs a program, and nobody else holds a lock. -/
structure Alone (i : ι) (op : Op) (p : Prog (Command.Reply (D := D) (Δ := Δ) (K := K) (ε := ε))
    (Except ε Res)) (s : Solo D Δ K Op) (w : Situation ι D Δ K ε Op Res) : Prop where
  db : w.shared.db = s.db
  log : w.shared.log = s.log
  held : w.shared.held i = s.locks
  others : ∀ j, j ≠ i → w.shared.held j = []
  own : (w.threads i).own = ⟨s.pending, some op, s.wrote⟩
  running : (w.threads i).running = some (op, p)

/-- All sessions are idle. -/
structure Settled (s : D × List (Entry D K Op)) (w : Situation ι D Δ K ε Op Res) : Prop where
  db : w.shared.db = s.1
  log : w.shared.log = s.2
  held : ∀ i, w.shared.held i = []
  idle : ∀ i, (w.threads i).running = none ∧ (w.threads i).own.pending = []

theorem settled_quiet (db : D) : Settled (db, []) (quiet db : Situation ι D Δ K ε Op Res) :=
  ⟨rfl, rfl, fun _ => rfl, fun _ => ⟨rfl, rfl⟩⟩

variable [DecidableEq ι] {P : Discipline D Δ K Op} {fault : ε} {handler : Op → Session D Δ K ε Res}
  {i : ι} {op : Op}

theorem Alone.free {p : Prog (Command.Reply (D := D) (Δ := Δ) (K := K) (ε := ε)) (Except ε Res)}
    {s : Solo D Δ K Op} {w : Situation ι D Δ K ε Op Res} (hw : Alone i op p s w) (k : K) :
    w.shared.Free P.Conflicts i k := by
  intro j hne k' hk'
  rw [hw.others j hne] at hk'
  cases hk'

/-- The execution of a command is a step. -/
theorem Alone.executes
    {p : Prog (Command.Reply (D := D) (Δ := Δ) (K := K) (ε := ε)) (Except ε Res)}
    {s : Solo D Δ K Op} {w : Situation ι D Δ K ε Op Res} (hw : Alone i op p s w)
    (fault : ε) (c : Command D Δ K ε) : ∃ shared own,
      Executes P.apply P.Conflicts fault i c w.shared (w.threads i).own
        (Solo.handle P.apply op c s).1 shared own ∧
      shared.db = (Solo.handle P.apply op c s).2.db ∧
      shared.log = (Solo.handle P.apply op c s).2.log ∧
      shared.held i = (Solo.handle P.apply op c s).2.locks ∧
      (∀ j, j ≠ i → shared.held j = []) ∧
      own = ⟨(Solo.handle P.apply op c s).2.pending, some op,
        (Solo.handle P.apply op c s).2.wrote⟩ := by
  rw [hw.own]
  cases c with
  | run α locks statement =>
      cases hr : statement (applyAll P.apply s.pending s.db) with
      | ok r =>
          obtain ⟨a, changes⟩ := r
          have hreply : Solo.handle P.apply op (Command.run α locks statement) s = (.ok a, { s with
              pending := s.pending ++ changes
              locks := locks (applyAll P.apply s.pending s.db) ++ s.locks }) := by
            simp only [Solo.handle, hr]
          refine ⟨w.shared.lock i (locks (applyAll P.apply s.pending s.db)),
            ⟨s.pending ++ changes, some op, s.wrote⟩, .inr ⟨fun k _ => hw.free k, ?_⟩, ?_⟩
          · rw [hreply, hw.db]
            simp only [hr, and_self]
          · rw [hreply]
            refine ⟨hw.db, hw.log, ?_, fun j hne => ?_, rfl⟩
            · rw [Shared.held_lock, hw.held]
            · rw [Shared.held_lock_of_ne _ hne, hw.others j hne]
      | error e =>
          have hreply : Solo.handle P.apply op (Command.run α locks statement) s =
              (.error e, s) := by
            simp only [Solo.handle, hr]
          refine ⟨w.shared, ⟨s.pending, some op, s.wrote⟩, .inr ⟨fun k _ => hw.free k, ?_⟩, ?_⟩
          · rw [hreply, hw.db]
            simp only [hr, and_self]
          · rw [hreply]
            exact ⟨hw.db, hw.log, hw.held, hw.others, rfl⟩
  | draw α => exact ⟨w.shared, _, ⟨rfl, rfl⟩, hw.db, hw.log, hw.held, hw.others, rfl⟩
  | commit =>
      refine ⟨_, _, .inr ⟨rfl, rfl, rfl⟩, ?_, ?_, Shared.held_release _ i, fun j hne => ?_, rfl⟩
      · rw [hw.db]
        rfl
      · rw [hw.db, hw.log, hw.held]
        rfl
      · exact (Shared.held_release_of_ne _ hne).trans (hw.others j hne)
  | drop =>
      refine ⟨_, _, ⟨rfl, rfl⟩, hw.db, hw.log, Shared.held_release _ i, fun j hne => ?_, rfl⟩
      exact (Shared.held_release_of_ne _ hne).trans (hw.others j hne)

/-- What is computed is a run. -/
theorem reaches_run (fault : ε) (handler : Op → Session D Δ K ε Res) {p : Prog (Command.Reply (D := D) (Δ := Δ) (K := K) (ε := ε)) (Except ε Res)}
    {s : Solo D Δ K Op} {w : Situation ι D Δ K ε Op Res} (hw : Alone i op p s w) :
    ∃ w', (P.system fault handler).Reaches w w' ∧
      Alone i op (.ret (p.run (Solo.handle P.apply op) s).1)
        (p.run (Solo.handle P.apply op) s).2 w' ∧
      ∀ j, j ≠ i → w'.threads j = w.threads j := by
  induction p generalizing s w with
  | ret r => exact ⟨w, .refl, hw, fun _ _ => rfl⟩
  | call c k ih =>
      obtain ⟨shared, own, he, hdb, hlog, hheld, hothers, hown⟩ :=
        hw.executes (P := P) fault c
      have hnext : Alone i op (k (Solo.handle P.apply op c s).1) (Solo.handle P.apply op c s).2
          ⟨shared, Function.update w.threads i
            ⟨own, some (op, k (Solo.handle P.apply op c s).1)⟩⟩ := by
        refine ⟨hdb, hlog, hheld, hothers, ?_, ?_⟩
        · simp only [Function.update_self, hown]
        · simp only [Function.update_self]
      obtain ⟨w', hreach, hw', hrest⟩ := ih _ hnext
      refine ⟨w', .head (.call hw.running he) hreach, hw', fun j hne => ?_⟩
      rw [hrest j hne]
      exact Function.update_of_ne hne _ _

variable {late : Op → Prop} {db₀ : D}

/-- The requests that a session makes one after another are one of the runs. -/
theorem reaches_requests (h : P.Obeyed (ι := ι) fault handler late) (hsound : P.Sound db₀) (i : ι)
    {ops : List Op} {s : D × List (Entry D K Op)} {w : Situation ι D Δ K ε Op Res}
    (hw₀ : (P.system fault handler).Reaches (quiet db₀) w) (hw : Settled s w) :
    ∃ w' : Situation ι D Δ K ε Op Res, (P.system fault handler).Reaches (quiet db₀) w' ∧
      Settled (Solo.requests P.apply handler ops s) w' := by
  induction ops generalizing s w with
  | nil => exact ⟨w, hw₀, hw⟩
  | cons op ops ih =>
      obtain ⟨hidle, hpending⟩ := hw.idle i
      have hstart : (P.system fault handler).Step w ⟨w.shared, Function.update w.threads i
          ⟨{ (w.threads i).own with op := some op, wrote := false },
            some (op, (handler op).run)⟩⟩ := .start hidle rfl
      have halone : Alone i op (handler op).run ⟨s.1, [], [], false, s.2⟩ ⟨w.shared,
          Function.update w.threads i ⟨{ (w.threads i).own with op := some op, wrote := false },
            some (op, (handler op).run)⟩⟩ := by
        refine ⟨hw.db, hw.log, hw.held i, fun j _ => hw.held j, ?_, ?_⟩
        · simp only [Function.update_self, hpending]
        · simp only [Function.update_self]
      obtain ⟨w₁, hreach, hw₁, hrest⟩ := reaches_run (P := P) fault handler halone
      have hw₁₀ := (hw₀.tail hstart).trans hreach
      obtain ⟨hchanges, hlocks, -⟩ := (good_of_reaches h hsound hw₁₀).post hw₁.running
      have hend : (P.system fault handler).Step w₁ ⟨w₁.shared, Function.update w₁.threads i
          ⟨{ (w₁.threads i).own with op := none }, none⟩⟩ := .finish hw₁.running rfl
      refine ih (hw₁₀.tail hend) ⟨hw₁.db, hw₁.log, fun j => ?_, fun j => ?_⟩
      · by_cases hj : j = i
        · subst hj
          exact hlocks
        · exact hw₁.others j hj
      · by_cases hj : j = i
        · subst hj
          simp only [Function.update_self]
          exact ⟨trivial, hchanges⟩
        · simp only [Function.update_of_ne hj]
          rw [hrest j hj]
          simp only [Function.update_of_ne hj]
          exact hw.idle j

end Discipline

end Sessions
