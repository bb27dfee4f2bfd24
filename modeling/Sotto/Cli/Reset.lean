import Sotto.Cli.Session
import Sotto.Cli.Device

/-!
# The account reset of a device

A reset asks its user, creates a fresh identity on the device and then uploads its material, which
replaces the account on the server. Any step may fail: a question to the user, an operation on the
device's storages, the crossing of the network in either direction, and the statement that the
server runs, which then changes nothing.
-/

namespace Sotto

namespace Cli

namespace Reset

open Core Api Session

/-- What has to be answered before a reset changes anything. -/
inductive Question
  | syncClient
  | confirm
  | readNewPassword
deriving DecidableEq

/-- One step of a reset. -/
inductive Cmd
  | question (q : Question)
  | storage (c : Session.Cmd)
  | send
  | server (s : Server.Stmt)
  | receive

/-- The answer to a step. -/
abbrev Cmd.Answer : Cmd → Type
  | question _ => Except Error Unit
  | storage c => c.Answer
  | send => Except Error Unit
  | server s => Except Server.Error s.Reply
  | receive => Except Error Unit

/-- The device's storages and the server's database. -/
structure World where
  storage : Storage
  db : Server.Db

/-- Which steps fail. -/
structure Faults where
  question : Question → Option Error
  storage : Operation → Option Error
  send : Option Error
  server : Option Server.Error
  receive : Option Error

/-- The answer of a step that only fails or succeeds. -/
def answer (fails : Option Error) : Except Error Unit :=
  match fails with
  | some e => .error e
  | none => .ok ()

/-- The execution of a step. -/
def Cmd.exec (faults : Faults) : (c : Cmd) → World → c.Answer × World
  | question q, w => (answer (faults.question q), w)
  | storage c, w => ((c.exec faults.storage w.storage).1,
      { w with storage := (c.exec faults.storage w.storage).2 })
  | send, w => (answer faults.send, w)
  | server s, w =>
      match faults.server with
      | some e => (.error e, w)
      | none => ((s.exec w.db).1, { w with db := (s.exec w.db).2 })
  | receive, w => (answer faults.receive, w)

/-- The program of a command of the CLI. -/
abbrev Command := ExceptT Error (Prog Cmd.Answer)

/-- The program of a request handler. -/
abbrev Handler := ExceptT Server.Error (Prog Cmd.Answer)

instance : Server.Database Handler where
  perform s := ExceptT.mk (Prog.perform (Cmd.server s))

/-- Run a command where some steps fail. -/
def Command.exec {α : Type} (command : Command α) (faults : Faults) (w : World) :
    Except Error α × World :=
  Prog.runE (Cmd.exec faults) command w

def ask (q : Question) : Command Unit := ExceptT.mk (Prog.perform (Cmd.question q))

def send : Command Unit := ExceptT.mk (Prog.perform Cmd.send)

def receive : Command Unit := ExceptT.mk (Prog.perform Cmd.receive)

/-- A flow on the device's storages. -/
def onDevice {α : Type} (flow : Flow α) : Command α :=
  ExceptT.mk (flow.run.expand fun c => Prog.perform (Cmd.storage c))

/-- Send a request, turning a non-success response into an error. -/
def request {α : Type} (handler : Handler α) : Command α := do
  send
  let response ← ExceptT.lift handler.run
  receive
  match response with
  | .ok a => return a
  | .error e => throw (serverError e)

/-- Assemble the local account material for upload. -/
def material : Flow AccountBundle := do
  match ← step .getIdentity with
  | none => throw .noIdentity
  | some identity =>
      match ← step .getAccountKeys with
      | none => throw .noIdentity
      | some keys => return ⟨b64encode keys.publicKey, b64encode keys.encPrivateKeys,
          b64encode identity.kdfSalt, b64encode keys.recoveryBlob⟩

/-- Reset the account with fresh keys: generate a new identity locally and replace the server-side
account material. -/
def reset (userId : Ident) (seed : Seed) (now ttl : Int) (password : Bytes) :
    Command EmergencyKit := do
  ask .syncClient
  ask .confirm
  ask .readNewPassword
  let kit ← onDevice (reinit seed now ttl password)
  let bundle ← onDevice material
  request (Server.resetAccount userId bundle)
  return kit

/-- Upload account crypto material on first push; a conflict means it is already initialised. -/
def ensureAccount (userId : Ident) : Command Unit := do
  let bundle ← onDevice material
  match ← ExceptT.lift (request (Server.putAccount userId bundle)).run with
  | .ok _ => return ()
  | .error (.conflict _) => return ()
  | .error e => throw e

end Reset

end Cli

end Sotto
