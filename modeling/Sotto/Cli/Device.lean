import Sotto.Cli.Vault
import Sotto.Server.Requests
import Sotto.Library.Prog

/-!
# The commands of a device

A CLI operation draws randomness, calls functions of its store and sends requests.
A request in turn crosses the network, runs the statements of its handler on the
server, and crosses the network again; the HTTP client maps the server's errors to
those of the CLI.
-/

namespace Sotto

namespace Cli

open Core Api

/-- A call of the local store; `vaultSet` and `vaultDelete` are one such call of
the vault over it. -/
inductive StoreCmd
  | getAccountKeys
  | getProject (id : Ident)
  | getEnvironment (projectId : Ident) (name : String)
  | updateEnvVaultKey (envId : Ident) (encVaultKey : Bytes)
  | allSecrets (envId : Ident)
  | findSecret (envId id : Ident)
  | putRemoteSecret (envId : Ident) (secret : SyncSecret)
  | syncedRevision (envId : Ident)
  | setSyncedRevision (envId : Ident) (revision : Int)
  | vaultSet (keypair : Keypair) (projectId : Ident) (envName : String) (idSeed seed : Seed)
      (name : String) (value : Bytes)
  | vaultDelete (keypair : Keypair) (projectId : Ident) (envName : String) (name : String)
  | putIdentityWithKeys (keys : AccountKeys)
  | createProjectWithId (id : Ident) (name : String)
  | findEnvironment (id : Ident)
  | createEnvironment (id projectId : Ident) (name : String) (encVaultKey : Bytes)

namespace StoreCmd

/-- What a store call returns. -/
abbrev Reply : StoreCmd → Type
  | getAccountKeys => Option AccountKeys
  | getProject _ => Option String
  | getEnvironment .. => Option (Ident × Environment)
  | allSecrets _ => List SyncSecret
  | findSecret .. => Option SyncSecret
  | syncedRevision _ => Int
  | updateEnvVaultKey .. => Unit
  | putRemoteSecret .. => Unit
  | setSyncedRevision .. => Unit
  | vaultSet .. => Unit
  | vaultDelete .. => Unit
  | putIdentityWithKeys _ => Unit
  | createProjectWithId .. => Unit
  | findEnvironment _ => Option Environment
  | createEnvironment .. => Unit

/-- A call that changes the store when it succeeds. -/
def write (result : Except Error Store) (store : Store) : Except Error Unit × Store :=
  match result with
  | .ok store' => (.ok (), store')
  | .error e => (.error e, store)

/-- What a store call does. -/
def exec : (c : StoreCmd) → Store → Except Error c.Reply × Store
  | getAccountKeys, store => (.ok store.getAccountKeys, store)
  | getProject id, store => (.ok (store.getProject id), store)
  | getEnvironment projectId name, store => (.ok (store.getEnvironment projectId name), store)
  | allSecrets envId, store => (.ok (store.allSecrets envId), store)
  | findSecret envId id, store => (.ok (store.findSecret envId id), store)
  | syncedRevision envId, store => (.ok (store.syncedRevision envId), store)
  | updateEnvVaultKey envId encVaultKey, store =>
      write (store.updateEnvVaultKey envId encVaultKey) store
  | putRemoteSecret envId secret, store => write (store.putRemoteSecret envId secret) store
  | setSyncedRevision envId revision, store =>
      write (store.setSyncedRevision envId revision) store
  | vaultSet keypair projectId envName idSeed seed name value, store =>
      write (do (← Vault.open store keypair projectId envName).set idSeed seed name value store)
        store
  | vaultDelete keypair projectId envName name, store =>
      write (do (← Vault.open store keypair projectId envName).delete name store) store
  | putIdentityWithKeys keys, store => write (.ok (store.putIdentityWithKeys keys)) store
  | createProjectWithId id name, store => write (store.createProjectWithId id name) store
  | findEnvironment id, store => (.ok (store.findEnvironment id), store)
  | createEnvironment id projectId name encVaultKey, store =>
      write (store.createEnvironment id projectId name encVaultKey) store

end StoreCmd

/-- A request of the sync API, with the user its session belongs to. -/
inductive Request
  | putAccount (userId : Ident) (bundle : AccountBundle)
  | listOrgs (userId : Ident)
  | createProject (userId : Ident) (project : NewProject)
  | createEnvironment (userId projectId : Ident) (env : NewEnvironment)
  | snapshot (userId envId : Ident) (ifNoneMatch : Option Int)
  | writeSecrets (userId envId : Ident) (batch : BatchRequest)
  | listHistory (userId envId : Ident)
  | listGrantHolders (userId envId : Ident)
  | listMembers (userId orgId : Ident)
  | listMachineTokens (userId envId : Ident)
  | rotate (userId envId : Ident) (req : RotateRequest)
  | getGrant (userId envId : Ident)
  | resetAccount (userId : Ident) (bundle : AccountBundle)
  | getAccount (userId : Ident)
  | listEnvironments (userId projectId : Ident)
  | createGrant (userId envId : Ident) (grant : CreateGrant)

/-- What the client makes of the response to a request. -/
abbrev Request.Response : Request → Type
  | putAccount .. => Unit
  | listOrgs _ => List OrgInfo
  | createProject .. => Unit
  | createEnvironment .. => Unit
  | snapshot .. => Option Snapshot
  | writeSecrets .. => Int
  | listHistory .. => List HistoryRow
  | listGrantHolders .. => List Ident
  | listMembers .. => List MemberInfo
  | listMachineTokens .. => List MachineTokenInfo
  | rotate .. => Int
  | getGrant .. => Option Base64
  | resetAccount .. => Unit
  | getAccount _ => Option AccountBundle
  | listEnvironments .. => List EnvironmentInfo
  | createGrant .. => Unit

/-- One command of a CLI operation: draw randomness, call the store, or send a
request. -/
inductive Call
  | fresh
  | store (c : StoreCmd)
  | http (r : Request)

/-- The answer to a command. -/
abbrev Call.Reply : Call → Type
  | fresh => Seed
  | store c => Except Error c.Reply
  | http r => Except Error r.Response

/-- The program of a CLI operation. -/
abbrev Action := ExceptT Error (Prog Call.Reply)

namespace Action

/-- Draw fresh randomness. -/
def fresh : Action Seed := ExceptT.lift (Prog.perform Call.fresh)

/-- Call a function of the store. -/
def store (c : StoreCmd) : Action c.Reply := ExceptT.mk (Prog.perform (Call.store c))

/-- Send a request. -/
def http (r : Request) : Action r.Response := ExceptT.mk (Prog.perform (Call.http r))

/-- Run an operation and return its result, failed or not. -/
def attempt {α : Type} (action : Action α) : Action (Except Error α) := ExceptT.lift action.run

/-- Fail where a computation fails. -/
def ofExcept {α : Type} (result : Except Error α) : Action α := ExceptT.mk (pure result)

end Action

/-- Map a non-success response to an error, distinguishing concurrency conflicts
and refusals. -/
def serverError : Server.Error → Error
  | .conflict m => .conflict s!"409 Conflict: {m}"
  | .precondition m => .conflict s!"412 Precondition Failed: {m}"
  | .forbidden m => .forbidden s!"403 Forbidden: {m}"
  | .quota m => .input m
  | .badRequest m => .server s!"400 Bad Request: {m}"
  | .notFound m => .server s!"404 Not Found: {m}"
  | .internal => .server "500 Internal Server Error: internal error"

/-! ### Requests step by step -/

/-- One step of a device: a draw, a call of the store, a crossing of the network, or
a statement that the server runs for a request. -/
inductive Cmd
  | fresh
  | net
  | store (c : StoreCmd)
  | server (s : Server.Stmt)

/-- The answer to a step. -/
abbrev Cmd.Reply : Cmd → Type
  | fresh => Seed
  | net => Except Error Unit
  | store c => Except Error c.Reply
  | server s => Except Server.Error s.Reply

/-- The program of a request handler. -/
abbrev Handler := ExceptT Server.Error (Prog Cmd.Reply)

instance : Server.Database Handler where
  perform s := ExceptT.mk (Prog.perform (Cmd.server s))

/-- The program of a request as its client sees it. -/
abbrev Exchange := ExceptT Error (Prog Cmd.Reply)

/-- Cross the network, which may fail. -/
def Exchange.net : Exchange Unit := ExceptT.mk (Prog.perform Cmd.net)

/-- Send a request and receive its response. -/
def send {α : Type} (handler : Handler α) : Exchange (Except Server.Error α) := do
  Exchange.net
  let response ← ExceptT.lift handler.run
  Exchange.net
  return response

/-- Send a request, turning a non-success response into an error. -/
def request {α : Type} (handler : Handler α) : Exchange α := do
  match ← send handler with
  | .ok a => return a
  | .error e => throw (serverError e)

/-- Send a request to which a 404 is an answer. -/
def requestOption {α : Type} (handler : Handler α) : Exchange (Option α) := do
  match ← send handler with
  | .ok a => return some a
  | .error (.notFound _) => return none
  | .error e => throw (serverError e)

/-- The steps of a request; a missing grant is not an error. -/
def Request.exchange : (r : Request) → Exchange r.Response
  | putAccount userId bundle => request (Server.putAccount userId bundle)
  | listOrgs userId => request (Server.listOrgs userId)
  | createProject userId project => request (Server.createProject userId project)
  | createEnvironment userId projectId env =>
      request (Server.createEnvironment userId projectId env)
  | snapshot userId envId ifNoneMatch => request (Server.snapshot userId envId ifNoneMatch)
  | writeSecrets userId envId batch => request (Server.writeSecrets userId envId batch)
  | listHistory userId envId => request (Server.history userId envId)
  | listGrantHolders userId envId => request (Server.listGrantHolders userId envId)
  | listMembers userId orgId => request (Server.listMembers userId orgId)
  | listMachineTokens userId envId => request (Server.listTokens userId envId)
  | rotate userId envId req => request (Server.rotate userId envId req)
  | getGrant userId envId => do
      match ← send (Server.getGrant userId envId) with
      | .ok grant => return some grant
      | .error (.notFound _) => return none
      | .error e => throw (serverError e)
  | resetAccount userId bundle => request (Server.resetAccount userId bundle)
  | getAccount userId => requestOption (Server.getAccount userId)
  | listEnvironments userId projectId => request (Server.listEnvironments userId projectId)
  | createGrant userId envId grant => request (Server.createGrant userId envId grant)

/-- The steps of a command. -/
def Call.steps : (c : Call) → Prog Cmd.Reply c.Reply
  | fresh => Prog.perform Cmd.fresh
  | store c => Prog.perform (Cmd.store c)
  | http r => r.exchange.run

/-- Encode opaque bytes for transport. -/
def b64encode (bytes : Bytes) : Base64 := .valid bytes

/-- Decode an opaque base64 field received from the server. -/
def b64decode : Base64 → Except Error Bytes
  | .valid bytes => .ok bytes
  | .malformed text => .error (.server s!"invalid base64 from server: {text}")

/-- The HTTP client, with the user its session belongs to. -/
structure HttpClient where
  userId : Ident

namespace HttpClient

variable (api : HttpClient)

def putAccount (bundle : AccountBundle) : Action Unit :=
  Action.http (.putAccount api.userId bundle)

def listOrgs : Action (List OrgInfo) := Action.http (.listOrgs api.userId)

def createProject (project : NewProject) : Action Unit :=
  Action.http (.createProject api.userId project)

def createEnvironment (projectId : Ident) (env : NewEnvironment) : Action Unit :=
  Action.http (.createEnvironment api.userId projectId env)

/-- Full snapshot, or `none` when `ifNoneMatch` matches. -/
def snapshot (envId : Ident) (ifNoneMatch : Option Int) : Action (Option Snapshot) :=
  Action.http (.snapshot api.userId envId ifNoneMatch)

def writeSecrets (envId : Ident) (batch : BatchRequest) : Action Int :=
  Action.http (.writeSecrets api.userId envId batch)

def listHistory (envId : Ident) : Action (List HistoryRow) :=
  Action.http (.listHistory api.userId envId)

def listGrantHolders (envId : Ident) : Action (List Ident) :=
  Action.http (.listGrantHolders api.userId envId)

def listMembers (orgId : Ident) : Action (List MemberInfo) :=
  Action.http (.listMembers api.userId orgId)

def listMachineTokens (envId : Ident) : Action (List MachineTokenInfo) :=
  Action.http (.listMachineTokens api.userId envId)

def rotate (envId : Ident) (req : RotateRequest) : Action Int :=
  Action.http (.rotate api.userId envId req)

def resetAccount (bundle : AccountBundle) : Action Unit :=
  Action.http (.resetAccount api.userId bundle)

/-- The caller's account, or `none` for a 404. -/
def getAccount : Action (Option AccountBundle) := Action.http (.getAccount api.userId)

def listEnvironments (projectId : Ident) : Action (List EnvironmentInfo) :=
  Action.http (.listEnvironments api.userId projectId)

def createGrant (envId userId : Ident) (encVaultKey : Base64) : Action Unit :=
  Action.http (.createGrant api.userId envId ⟨userId, encVaultKey⟩)

/-- The caller's grant, or `none` for a 404. -/
def getGrant (envId : Ident) : Action (Option Base64) :=
  Action.http (.getGrant api.userId envId)

end HttpClient

end Cli

end Sotto
