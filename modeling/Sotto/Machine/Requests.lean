import Sotto.Auth.Routes
import Sotto.Cli.Store
import Sotto.Server.Requests

/-!
# The requests of machines

A machine token reads one environment: its own sealed copy of the vault key, and the secrets. The
row of a token is found by the hash of its text, which no statement changes, so a map gives the id
of the row. Each request authenticates anew, and each of its statements is answered at the database
that it meets.
-/

namespace Sotto

namespace Machine

open Core Api Server

/-- The errors of the requests. -/
inductive Rejection
  | unauthorized
  | notFound (message : String)
  | internal
deriving DecidableEq

/-- One statement of a request. -/
inductive Query
  | machine (token : String)
  | sealedKey (tokenId : Ident)
  | revision (envId : Ident)
  | secrets (envId : Ident)

/-- What a statement returns. -/
abbrev Query.Reply : Query → Type
  | machine _ => Option (Ident × Ident)
  | sealedKey _ => Option Bytes
  | revision _ => Option Int
  | secrets _ => List (Ident × Secret)

/-- An organisation that is gone hides its environments. -/
def inForce (db : Db) (orgId : Option Ident) : Bool :=
  (orgId.bind db.organizations.lookup).all fun org => decide (org.lifecycle ≠ .deleted)

/-- What a statement reads. -/
def Query.read (tokenOf : String → Option Ident) : (q : Query) → Db → q.Reply
  | machine token, db => do
      let id ← tokenOf token
      let row ← db.machineTokens.lookup id
      let env ← db.environments.lookup row.envId
      let project ← db.projects.lookup env.projectId
      if ¬ row.revoked ∧ inForce db project.orgId then some (id, row.envId) else none
  | sealedKey tokenId, db => do
      let row ← db.machineTokens.lookup tokenId
      if row.revoked then none else some row.encVaultKey
  | revision envId, db => (db.environments.lookup envId).map Environment.revision
  | secrets envId, db => db.secretsOf envId

/-- A step of a request: the network, or a statement of the server. -/
inductive Call
  | net
  | query (q : Query)

/-- What is answered to a step; the network can fail, and so can a statement. -/
abbrev Call.Reply : Call → Type
  | net => Except Cli.Error Unit
  | query q => Except Rejection q.Reply

/-- The program of a request handler. -/
abbrev Handler := ExceptT Rejection (Prog Call.Reply)

def ask (q : Query) : Handler q.Reply :=
  ExceptT.mk (Prog.perform (Call.query q))

def okOr {α : Type} (a : Option α) (e : Rejection) : Handler α :=
  match a with
  | some a => pure a
  | none => throw e

/-- The authenticated machine, scoped to one environment. -/
structure MachineAuth where
  tokenId : Ident
  envId : Ident

def tokenPrefix : String := "smt_"

def machineAuth (headers : Auth.Headers) : Handler MachineAuth := do
  let token ← okOr (Auth.tokenFromHeaders headers) .unauthorized
  if ¬ tokenPrefix.toList.isPrefixOf token.toList then throw .unauthorized
  let row ← ask (.machine token)
  let row ← okOr row .unauthorized
  return ⟨row.1, row.2⟩

structure MachineGrant where
  envId : Ident
  encVaultKey : Base64

/-- `GET /machine/grant` -/
def machineGrant (headers : Auth.Headers) : Handler MachineGrant := do
  let machine ← machineAuth headers
  let encVaultKey ← ask (.sealedKey machine.tokenId)
  let encVaultKey ← okOr encVaultKey .unauthorized
  return ⟨machine.envId, encode encVaultKey⟩

/-- `GET /machine/secrets` -/
def machineSecrets (headers : Auth.Headers) : Handler Snapshot := do
  let machine ← machineAuth headers
  let revision ← ask (.revision machine.envId)
  let revision ← okOr revision (.notFound "environment not found")
  let rows ← ask (.secrets machine.envId)
  return ⟨revision, rows.map secretView⟩

end Machine

end Sotto
