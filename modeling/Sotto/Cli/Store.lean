import Sotto.Api
import Sotto.Library.Table

/-!
# The local store

The SQLite tables that syncing and the vault use, and the store's functions on
them. A function that fails leaves the store as it was: each makes one statement,
or several in one transaction. Rows are listed in row-number order, and replacing
a row moves it last. Timestamps are left out; a tombstone is a flag.
-/

namespace Sotto

namespace Cli

open Core

/-- The CLI errors that the store, the keychain, the vault and the sync engine raise. -/
inductive Error
  | notFound (message : String)
  | store (message : String)
  | keychain (message : String)
  | crypto
  | conflict (message : String)
  | alreadyInitialized
  | noIdentity
  | network (message : String)
  | server (message : String)
  | forbidden (message : String)
  | input (message : String)
deriving DecidableEq

/-- Core errors stay opaque. -/
def Error.ofCore {α : Type} : Except Core.Error α → Except Error α
  | .ok a => .ok a
  | .error _ => .error .crypto

/-- The identity and account keys: KDF salt, public key, sealed private keys and
recovery blob. -/
structure AccountKeys where
  kdfSalt : Bytes
  publicKey : Bytes
  encPrivateKeys : Bytes
  recoveryBlob : Bytes
deriving DecidableEq

/-- An environment, with the vault-key grant it is opened with. -/
structure Environment where
  projectId : Ident
  name : String
  encVaultKey : Bytes
deriving DecidableEq

/-- A stored secret; all payload fields are opaque ciphertext. -/
structure SecretRow where
  envId : Ident
  encName : Bytes
  encValue : Bytes
  encDataKey : Bytes
  version : Int
  deleted : Bool
deriving DecidableEq

structure SecretVersion where
  encName : Bytes
  encValue : Bytes
  encDataKey : Bytes
deriving DecidableEq

/-- A secret as the sync engine sees it: ciphertext, version and tombstone flag. -/
structure SyncSecret where
  id : Ident
  encName : Bytes
  encValue : Bytes
  encDataKey : Bytes
  version : Int
  deleted : Bool
deriving DecidableEq

/-- The local SQLite store. -/
structure Store where
  accountKeys : Option AccountKeys
  projects : Table Ident String
  environments : Table Ident Environment
  secrets : Table Ident SecretRow
  secretVersions : Table (Ident × Int) SecretVersion
  syncState : Table Ident Int

namespace Store

def getAccountKeys (store : Store) : Option AccountKeys := store.accountKeys

/-- The project's name. -/
def getProject (id : Ident) (store : Store) : Option String := store.projects.lookup id

/-- Create a project with a caller-supplied id. -/
def createProjectWithId (id : Ident) (name : String) (store : Store) : Except Error Store :=
  match store.projects.lookup id with
  | some _ => .error (.store "UNIQUE constraint failed: projects.id")
  | none => .ok { store with projects := AList.insert id name store.projects }

/-- Store the identity with its account keys, replacing any before. -/
def putIdentityWithKeys (keys : AccountKeys) (store : Store) : Store :=
  { store with accountKeys := some keys }

def getEnvironment (projectId : Ident) (name : String) (store : Store) :
    Option (Ident × Environment) :=
  store.environments.rows.find? fun e => e.2.projectId = projectId ∧ e.2.name = name

/-- Look up an environment by its id. -/
def findEnvironment (id : Ident) (store : Store) : Option Environment :=
  store.environments.lookup id

/-- Create an environment; its id, and its name within the project, are unique. -/
def createEnvironment (id projectId : Ident) (name : String) (encVaultKey : Bytes)
    (store : Store) : Except Error Store :=
  match store.environments.lookup id, store.getEnvironment projectId name,
      store.projects.lookup projectId with
  | some _, _, _ => .error (.store "UNIQUE constraint failed: environments.id")
  | none, some _, _ => .error (.store
      "UNIQUE constraint failed: environments.project_id, environments.name")
  | none, none, none => .error (.store "FOREIGN KEY constraint failed")
  | none, none, some _ => .ok { store with
      environments := AList.insert id ⟨projectId, name, encVaultKey⟩ store.environments }

/-- Replace an environment's stored vault-key grant. -/
def updateEnvVaultKey (envId : Ident) (encVaultKey : Bytes) (store : Store) :
    Except Error Store :=
  match store.environments.lookup envId with
  | none => .error (.notFound (toString envId))
  | some _ => .ok { store with
      environments := store.environments.modify envId fun e => { e with encVaultKey } }

/-- The rows of an environment, live or tombstoned. -/
def secretRows (envId : Ident) (deleted : Bool) (store : Store) : List (Ident × SecretRow) :=
  store.secrets.rows.filter fun s => s.2.envId = envId ∧ s.2.deleted = deleted

def listSecrets (envId : Ident) (store : Store) : List (Ident × SecretRow) :=
  store.secretRows envId false

def listDeletedSecrets (envId : Ident) (store : Store) : List (Ident × SecretRow) :=
  store.secretRows envId true

/-- Append a history row; `(secret_id, version)` is unique. -/
def snapshot (id : Ident) (version : Int) (enc : SecretVersion) (store : Store) :
    Except Error Store :=
  match store.secretVersions.lookup (id, version) with
  | some _ => .error (.store
      "UNIQUE constraint failed: secret_versions.secret_id, secret_versions.version")
  | none => .ok { store with
      secretVersions := AList.insert (id, version) enc store.secretVersions }

/-- Insert a new secret at version 1 with a caller-supplied id. -/
def insertSecret (id envId : Ident) (enc : SecretVersion) (store : Store) : Except Error Store :=
  match store.environments.lookup envId, store.secrets.lookup id with
  | none, _ => .error (.store "FOREIGN KEY constraint failed")
  | _, some _ => .error (.store "UNIQUE constraint failed: secrets.id")
  | some _, none =>
      snapshot id 1 enc { store with
        secrets := AList.insert id ⟨envId, enc.encName, enc.encValue, enc.encDataKey, 1, false⟩
          store.secrets }

/-- Update an existing secret to `newVersion`, which must follow the stored
version, un-deleting any tombstone. -/
def updateSecret (id : Ident) (newVersion : Int) (enc : SecretVersion) (store : Store) :
    Except Error Store :=
  match store.secrets.lookup id with
  | none => .error (.notFound (toString id))
  | some row =>
      if newVersion ≠ i64Succ row.version then
        .error (.conflict
          s!"secret {id}: expected version {i64Succ row.version}, got {newVersion}")
      else
        snapshot id newVersion enc { store with
          secrets := store.secrets.modify id fun row =>
            { row with
              encName := enc.encName
              encValue := enc.encValue
              encDataKey := enc.encDataKey
              version := newVersion
              deleted := false } }

/-- Soft-delete a secret; history is retained. -/
def deleteSecret (id : Ident) (store : Store) : Except Error Store :=
  match store.secrets.lookup id with
  | some row =>
      if row.deleted then .error (.notFound (toString id))
      else .ok { store with
        secrets := store.secrets.modify id fun row => { row with deleted := true } }
  | none => .error (.notFound (toString id))

/-- A row as the sync engine sees it. -/
def syncSecret (id : Ident) (row : SecretRow) : SyncSecret :=
  ⟨id, row.encName, row.encValue, row.encDataKey, row.version, row.deleted⟩

/-- All secrets of an environment, including tombstones. -/
def allSecrets (envId : Ident) (store : Store) : List SyncSecret :=
  (store.secrets.rows.filter fun s => s.2.envId = envId).map fun s => syncSecret s.1 s.2

/-- A single secret, including a tombstone, by id within an environment. -/
def findSecret (envId id : Ident) (store : Store) : Option SyncSecret :=
  match store.secrets.lookup id with
  | some row => if row.envId = envId then some (syncSecret id row) else none
  | none => none

/-- Overwrite the row of a secret's id and record the version in history unless it
is there. -/
def replaceSecret (envId : Ident) (secret : SyncSecret) (store : Store) : Store :=
  { store with
    secrets := AList.insert secret.id
      ⟨envId, secret.encName, secret.encValue, secret.encDataKey, secret.version, secret.deleted⟩
      store.secrets
    secretVersions :=
      match store.secretVersions.lookup (secret.id, secret.version) with
      | some _ => store.secretVersions
      | none => AList.insert (secret.id, secret.version)
          ⟨secret.encName, secret.encValue, secret.encDataKey⟩ store.secretVersions }

/-- Apply server truth for one secret, overwriting local state. -/
def putRemoteSecret (envId : Ident) (secret : SyncSecret) (store : Store) : Except Error Store :=
  match store.environments.lookup envId with
  | none => .error (.store "FOREIGN KEY constraint failed")
  | some _ => .ok (store.replaceSecret envId secret)

/-- The last server revision this environment was reconciled with, 0 if never
synced. -/
def syncedRevision (envId : Ident) (store : Store) : Int :=
  (store.syncState.lookup envId).getD 0

def setSyncedRevision (envId : Ident) (revision : Int) (store : Store) : Except Error Store :=
  match store.environments.lookup envId with
  | none => .error (.store "FOREIGN KEY constraint failed")
  | some _ => .ok { store with syncState := AList.insert envId revision store.syncState }

end Store

end Cli

end Sotto
