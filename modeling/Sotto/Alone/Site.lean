import Sotto.Server.Effects
import Sotto.Cli.Writes
import Sotto.Cli.Merge

/-!
# One device alone with the server

A device that runs an operation while nothing else changes the server: its store, the database
and its draws are one state, no step fails by a fault, and an operation is a function of that
state. The store and the database are arbitrary.
-/

namespace Sotto

open Core Cli

/-- A device with the server it is alone with. -/
structure Site where
  store : Store
  db : Server.Db
  seed : Seed

namespace Site

/-- The execution of a step. -/
def perform : (c : Cmd) → Site → c.Reply × Site
  | .fresh, s => (s.seed, { s with seed := ⟨s.seed.owner, s.seed.draw + 1⟩ })
  | .net, s => (.ok (), s)
  | .store c, s => ((c.exec s.store).1, { s with store := (c.exec s.store).2 })
  | .server stmt, s => ((stmt.exec s.db).1, { s with db := (stmt.exec s.db).2 })

/-- The execution of a command. -/
def call (c : Call) (s : Site) : c.Reply × Site := c.steps.run perform s

/-- An operation with its result. -/
def exec {α : Type} (action : Action α) (s : Site) : Except Cli.Error α × Site :=
  Prog.runE call action s

/-- A request handler with its response. -/
def serve {α : Type} (handler : Handler α) (s : Site) : Except Server.Error α × Site :=
  Prog.runE perform handler s

section Rules

variable {α β : Type} {s s' : Site}

@[simp] theorem exec_pure (a : α) : exec (pure a) s = (.ok a, s) := rfl

@[simp] theorem exec_throw (e : Cli.Error) : exec (throw e : Action α) s = (.error e, s) := rfl

theorem exec_bind_of_ok {p : Action α} {f : α → Action β} {a : α} (h : exec p s = (.ok a, s')) :
    exec (p >>= f) s = exec (f a) s' :=
  Prog.runE_bind_of_ok h

theorem exec_bind_of_error {p : Action α} {f : α → Action β} {e : Cli.Error}
    (h : exec p s = (.error e, s')) : exec (p >>= f) s = (.error e, s') :=
  Prog.runE_bind_of_error h

theorem exec_bind_eq_ok {p : Action α} {f : α → Action β} {b : β} :
    exec (p >>= f) s = (.ok b, s') ↔
      ∃ a s₁, exec p s = (.ok a, s₁) ∧ exec (f a) s₁ = (.ok b, s') :=
  Prog.runE_bind_eq_ok

@[simp] theorem exec_store (c : StoreCmd) :
    exec (Action.store c) s = ((c.exec s.store).1, { s with store := (c.exec s.store).2 }) := rfl

@[simp] theorem exec_fresh :
    exec Action.fresh s = (.ok s.seed, { s with seed := ⟨s.seed.owner, s.seed.draw + 1⟩ }) := rfl

@[simp] theorem exec_ofExcept (result : Except Cli.Error α) :
    exec (Action.ofExcept result) s = (result, s) := rfl

/-- An operation that is run to its result does not fail. -/
@[simp] theorem exec_attempt (action : Action α) :
    exec action.attempt s = (.ok (exec action s).1, (exec action s).2) :=
  Prog.runE_lift action.run

@[simp] theorem serve_pure (a : α) : serve (pure a) s = (.ok a, s) := rfl

@[simp] theorem serve_throw (e : Server.Error) :
    serve (throw e : Handler α) s = (.error e, s) := rfl

theorem serve_bind_of_ok {p : Handler α} {f : α → Handler β} {a : α} (h : serve p s = (.ok a, s')) :
    serve (p >>= f) s = serve (f a) s' :=
  Prog.runE_bind_of_ok h

theorem serve_bind_of_error {p : Handler α} {f : α → Handler β} {e : Server.Error}
    (h : serve p s = (.error e, s')) : serve (p >>= f) s = (.error e, s') :=
  Prog.runE_bind_of_error h

theorem serve_bind_eq_ok {p : Handler α} {f : α → Handler β} {b : β} :
    serve (p >>= f) s = (.ok b, s') ↔
      ∃ a s₁, serve p s = (.ok a, s₁) ∧ serve (f a) s₁ = (.ok b, s') :=
  Prog.runE_bind_eq_ok

@[simp] theorem serve_perform (stmt : Server.Stmt) :
    serve (Server.Database.perform stmt) s =
      ((stmt.exec s.db).1, { s with db := (stmt.exec s.db).2 }) := rfl

theorem serve_perform_eq_ok {stmt : Server.Stmt} {a : stmt.Reply} :
    serve (Server.Database.perform stmt) s = (.ok a, s') ↔
      ∃ db, stmt.exec s.db = (.ok a, db) ∧ s' = { s with db := db } := by
  rw [serve_perform]
  constructor
  · intro h
    obtain ⟨hr, rfl⟩ := Prod.mk.inj h
    exact ⟨_, Prod.ext hr rfl, rfl⟩
  · rintro ⟨db, h, rfl⟩
    rw [h]

@[simp] theorem serve_check (result : Except Server.Error α) :
    serve (Server.check result) s = (result, s) := by
  cases result <;> rfl

@[simp] theorem serve_require {p : Prop} [Decidable p] {e : Server.Error} :
    serve (Server.require p e) s = if p then (.ok (), s) else (.error e, s) := by
  unfold Server.require
  split <;> rfl

/-- The client's view of a response. -/
def received (response : Except Server.Error α × Site) : Except Cli.Error α × Site :=
  (response.1.mapError serverError, response.2)

theorem received_eq_ok {response : Except Server.Error α × Site} {a : α} :
    received response = (.ok a, s') ↔ response = (.ok a, s') := by
  obtain ⟨result, s₁⟩ := response
  cases result with
  | ok b => simp [received, Except.mapError]
  | error e => simp [received, Except.mapError]

theorem runE_send (handler : Handler α) :
    Prog.runE perform (send handler) s = (.ok (serve handler s).1, (serve handler s).2) := by
  have hnet : ∀ t : Site, Prog.runE perform Exchange.net t = (.ok (), t) := fun _ => rfl
  unfold send
  rw [Prog.runE_bind_of_ok (hnet s), Prog.runE_bind_of_ok (Prog.runE_lift _),
    Prog.runE_bind_of_ok (hnet _)]
  rfl

theorem exec_request {r : Request} {handler : Handler r.Response}
    (h : r.exchange = request handler) : exec (Action.http r) s = received (serve handler s) := by
  have hrun : exec (Action.http r) s = Prog.runE perform r.exchange s := rfl
  rw [hrun, h, request, Prog.runE_bind_of_ok (runE_send handler)]
  cases hr : serve handler s with
  | mk response s₁ => cases response <;> rfl

end Rules

end Site

end Sotto
