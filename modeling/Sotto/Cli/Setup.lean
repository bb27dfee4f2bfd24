import Sotto.Cli.Session
import Sotto.Cli.Sync

/-!
# Setting up a new device

A setup restores the identity from the account on the server, recreates the project and its
environments in the local store, and pulls the active environment. An environment is inserted
under its decrypted name, or under its id where no key opens the name.

Every step of a setup may fail, and a failed step changes nothing.
-/

namespace Sotto

namespace Cli

open Core Api

/-- The configuration of a directory, with the project's name. -/
structure ProjectConfig extends Config where
  project : String

/-- Decrypt an environment's name. -/
def decryptEnvName (key : Bytes) (envId : Ident) (ciphertext : Bytes) : Except Core.Error Bytes :=
  Aead.open key ciphertext (.envName envId)

/-- The local name of an environment: its name under the key, else under the master key, else its
id. -/
def localEnvName (key master : Bytes) (envId : Ident) (encName : Bytes) : String :=
  let decrypted := (decryptEnvName key envId encName).toOption <|>
    (decryptEnvName master envId encName).toOption
  (decrypted.bind fun bytes => (Vault.fromUtf8 bytes).toOption).getD (toString envId)

/-- Insert the environments that the store lacks and that the caller holds a grant for. -/
def createEnvironments (key master : Bytes) (projectId : Ident) :
    List EnvironmentInfo → Action Unit
  | [] => return ()
  | env :: rest => do
      let found ← Action.store (.findEnvironment env.id)
      match found, env.encVaultKey with
      | none, some grantB64 => do
          let encName ← Action.ofExcept (b64decode env.encName)
          let grant ← Action.ofExcept (b64decode grantB64)
          Action.store (.createEnvironment env.id projectId
            (localEnvName key master env.id encName) grant)
          createEnvironments key master projectId rest
      | _, _ => createEnvironments key master projectId rest

/-- Reconstruct the local project and environments from the server. -/
def pullEnvironments (api : HttpClient) (master : Bytes) (config : ProjectConfig) :
    Action Unit := do
  let project ← Action.store (.getProject config.projectId)
  if project.isNone then
    Action.store (.createProjectWithId config.projectId config.project)
  let key ← nameKey api master config.orgId
  let envs ← api.listEnvironments config.projectId
  createEnvironments key master config.projectId envs

/-- Best effort: an environment's name under the caller's copy of the organisation's key. -/
def decryptedEnvName (api : HttpClient) (keypair : Keypair) (projectId envId : Ident)
    (orgId : Option Ident) : Action (Option String) := do
  match orgId with
  | none => return none
  | some orgId =>
      match ← Action.attempt (orgKey api keypair orgId) with
      | .ok (some key) =>
          match ← Action.attempt (api.listEnvironments projectId) with
          | .ok envs => return do
              let env ← envs.find? fun e => e.id = envId
              let ciphertext ← (b64decode env.encName).toOption
              let name ← (decryptEnvName key envId ciphertext).toOption
              (Vault.fromUtf8 name).toOption
          | .error _ => return none
      | _ => return none

/-- The label of a cloned environment: the caller's, else its name, else a generic one. -/
def cloneLabel (api : HttpClient) (keypair : Keypair) (projectId envId : Ident)
    (envLabel : Option String) (orgId : Option Ident) : Action String := do
  match envLabel with
  | some label => return label
  | none => do
      let name ← decryptedEnvName api keypair projectId envId orgId
      return name.getD "shared"

/-- Create a project that the store lacks. -/
def addProject (projectId : Ident) (name : String) : Action Unit := do
  let project ← Action.store (.getProject projectId)
  if project.isNone then
    Action.store (.createProjectWithId projectId name)
  else return ()

/-- Create an environment that the store lacks. -/
def addEnvironment (envId projectId : Ident) (name : String) (grant : Bytes) : Action Unit := do
  let found ← Action.store (.findEnvironment envId)
  if found.isNone then
    Action.store (.createEnvironment envId projectId name grant)
  else return ()

/-- Clone a shared environment onto this device. -/
def cloneEnv (api : HttpClient) (keypair : Keypair) (projectId envId : Ident)
    (projectLabel envLabel : Option String) (orgId : Option Ident) : Action ProjectConfig := do
  match ← api.getGrant envId with
  | none => throw (.input
      "you have not been granted this environment (ask an admin to share it)")
  | some grantB64 => do
      let grant ← Action.ofExcept (b64decode grantB64)
      -- the grant opens before anything is stored
      let _ ← Action.ofExcept (Error.ofCore (Core.Vault.openVaultKey keypair grant))
      let envName ← cloneLabel api keypair projectId envId envLabel orgId
      let projectName := projectLabel.getD "shared"
      addProject projectId projectName
      addEnvironment envId projectId envName grant
      let config : ProjectConfig := ⟨⟨projectId, envName, orgId⟩, projectName⟩
      let _ ← pull api config.toConfig
      return config

namespace Setup

/-- What a setup asks for before it restores anything. -/
inductive Question
  | discoverConfig
  | syncClient
  | readSecretKey
  | readPassword
deriving DecidableEq

/-- One step of a setup. -/
inductive Cmd
  | question (q : Question)
  | storage (c : Session.Cmd)
  | getSession
  | deleteSession
  | call (c : Call)

/-- The answer to a step. -/
abbrev Cmd.Answer : Cmd → Type
  | question _ => Except Error Unit
  | storage c => c.Answer
  | getSession => Except Error (Option Session.CachedKey)
  | deleteSession => Except Error Unit
  | call c => c.Reply

/-- The errors of a setup. -/
inductive Failure
  | locked
  | failed (e : Error)
deriving DecidableEq

/-- The program of a setup. -/
abbrev Command := ExceptT Failure (Prog Cmd.Answer)

/-- Fail a setup with an error of the CLI. -/
def orFail {α : Type} (p : Prog Cmd.Answer (Except Error α)) : Command α :=
  ExceptT.mk (p >>= fun r => return r.mapError Failure.failed)

def ask (q : Question) : Command Unit := orFail (Prog.perform (Cmd.question q))

/-- A flow on the device's storages. -/
def onDevice {α : Type} (flow : Session.Flow α) : Command α :=
  orFail (flow.run.expand fun c => Prog.perform (Cmd.storage c))

/-- An operation of the sync engine. -/
def onServer {α : Type} (action : Action α) : Command α :=
  orFail (action.run.expand fun c => Prog.perform (Cmd.call c))

/-- The cached master key if the session is still valid; an expired entry is purged. -/
def currentMasterKey (now : Int) : Command (Option Bytes) := do
  match ← orFail (Prog.perform Cmd.getSession) with
  | none => return none
  | some cached =>
      if cached.expiry ≤ now then
        orFail (Prog.perform Cmd.deleteSession)
        return none
      else return some cached.masterKey

/-- Reconstruct the local identity from a downloaded account bundle. -/
def restoreAccount (seed : Seed) (now ttl : Int) (bundle : AccountBundle)
    (secretKey password : Bytes) : Command Unit := do
  let salt ← orFail (pure (b64decode bundle.kdfParams))
  let publicKey ← orFail (pure (b64decode bundle.publicKey))
  let encPrivateKeys ← orFail (pure (b64decode bundle.encPrivateKeys))
  let recoveryBlob ← orFail (pure (b64decode bundle.recoveryBlob))
  onDevice (Session.restore seed now ttl password secretKey salt
    ⟨publicKey, encPrivateKeys, recoveryBlob⟩)

/-- Set up this device from the server; the clock is read when the session is cached, and later
when it is used. -/
def setup (api : HttpClient) (seed : Seed) (now later ttl : Int) (secretKey password : Bytes)
    (config : ProjectConfig) : Command Int := do
  match ← onDevice (Session.step .getIdentity) with
  | some _ => throw (.failed .alreadyInitialized)
  | none => do
      ask .discoverConfig
      ask .syncClient
      match ← onServer api.getAccount with
      | none => throw (.failed (.input
          "no account on the server; run `sotto init` then `sotto push` on your first device"))
      | some bundle => do
          ask .readSecretKey
          ask .readPassword
          restoreAccount seed now ttl bundle secretKey password
          match ← currentMasterKey later with
          | none => throw .locked
          | some master => do
              onServer (pullEnvironments api master config)
              onServer (pull api config.toConfig)

end Setup

end Cli

end Sotto
