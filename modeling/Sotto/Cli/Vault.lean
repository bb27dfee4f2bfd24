import Sotto.Cli.Store
import Sotto.Core.Vault

/-!
# Crypto orchestration over the local store

An opened environment resolves secret names by decrypting each row's name in
turn; the first row that does not decrypt fails the whole operation. `set`
resurrects a tombstone of the name in place and otherwise inserts a new secret
under a fresh id. The randomness of an operation is passed in as draws.
-/

namespace Sotto

namespace Cli

open Core

/-- An unlocked view of one environment's secrets. -/
structure Vault where
  envId : Ident
  vaultKey : Bytes

namespace Vault

/-- Open an environment for reading and writing; opening the grant with `keypair`
doubles as the check. -/
def «open» (store : Store) (keypair : Keypair) (projectId : Ident) (envName : String) :
    Except Error Vault :=
  match store.getEnvironment projectId envName with
  | none => .error (.notFound s!"environment `{envName}`")
  | some (id, env) => do
      let vaultKey ← Error.ofCore (Core.Vault.openVaultKey keypair env.encVaultKey)
      return ⟨id, vaultKey⟩

/-- The text of a decrypted name. -/
def fromUtf8 (bytes : Bytes) : Except Error String :=
  match bytes with
  | .raw bytes =>
      match String.fromUTF8? bytes with
      | some name => .ok name
      | none => .error .crypto
  | _ => .error .crypto

/-- The bytes of a name. -/
def nameBytes (name : String) : Bytes := .raw name.toUTF8

def decryptName (vault : Vault) (id : Ident) (row : SecretRow) : Except Error String := do
  fromUtf8 (← Error.ofCore
    (Core.Vault.decryptName vault.vaultKey vault.envId id row.version row.encName row.encDataKey))

def decryptValue (vault : Vault) (id : Ident) (row : SecretRow) : Except Error Bytes :=
  Error.ofCore
    (Core.Vault.decryptValue vault.vaultKey vault.envId id row.version row.encValue row.encDataKey)

def decryptEntry (vault : Vault) (id : Ident) (row : SecretRow) : Except Error (String × Bytes) := do
  let (name, value) ← Error.ofCore (Core.Vault.decryptSecret vault.vaultKey vault.envId id
    row.version row.encName row.encValue row.encDataKey)
  return (← fromUtf8 name, value)

/-- Match `name` against rows by decrypting each row's name. -/
def resolveName (vault : Vault) (name : String) :
    List (Ident × SecretRow) → Except Error (Option (Ident × SecretRow))
  | [] => .ok none
  | row :: rows => do
      if (← vault.decryptName row.1 row.2) = name then return some row
      resolveName vault name rows

def findByName (vault : Vault) (name : String) (store : Store) :
    Except Error (Option (Ident × SecretRow)) :=
  vault.resolveName name (store.listSecrets vault.envId)

def findDeletedByName (vault : Vault) (name : String) (store : Store) :
    Except Error (Option (Ident × SecretRow)) :=
  vault.resolveName name (store.listDeletedSecrets vault.envId)

def encrypt (vault : Vault) (seed : Seed) (id : Ident) (version : Int) (name : String)
    (value : Bytes) : SecretVersion :=
  let enc := Core.Vault.encryptSecret seed vault.vaultKey vault.envId id version (nameBytes name)
    value
  ⟨enc.encName, enc.encValue, enc.encDataKey⟩

/-- The row a `set` of `name` writes over: a live secret of that name, else a
tombstone of it. -/
def existing (vault : Vault) (name : String) (store : Store) :
    Except Error (Option (Ident × SecretRow)) := do
  match ← vault.findByName name store with
  | some row => return some row
  | none => vault.findDeletedByName name store

/-- Set (insert or update) a secret by name. -/
def set (vault : Vault) (idSeed seed : Seed) (name : String) (value : Bytes) (store : Store) :
    Except Error Store := do
  match ← vault.existing name store with
  | some (id, row) =>
      let newVersion := i64Succ row.version
      store.updateSecret id newVersion (vault.encrypt seed id newVersion name value)
  | none =>
      let id := Ident.uuid idSeed
      store.insertSecret id vault.envId (vault.encrypt seed id 1 name value)

/-- Get a secret's value by name. -/
def get (vault : Vault) (name : String) (store : Store) : Except Error Bytes := do
  match ← vault.findByName name store with
  | some (id, row) => vault.decryptValue id row
  | none => .error (.notFound name)

/-- List the names of all non-deleted secrets, sorted. -/
def listNames (vault : Vault) (store : Store) : Except Error (List String) := do
  let names ← (store.listSecrets vault.envId).mapM fun row => vault.decryptName row.1 row.2
  return names.mergeSort fun a b => decide (a ≤ b)

/-- All non-deleted secrets as name and value pairs, sorted by name. -/
def entries (vault : Vault) (store : Store) : Except Error (List (String × Bytes)) := do
  let entries ← (store.listSecrets vault.envId).mapM fun row => vault.decryptEntry row.1 row.2
  return entries.mergeSort fun a b => decide (a.1 ≤ b.1)

/-- Delete a secret by name (tombstone; version history retained). -/
def delete (vault : Vault) (name : String) (store : Store) : Except Error Store := do
  match ← vault.findByName name store with
  | some (id, _) => store.deleteSecret id
  | none => .error (.notFound name)

end Vault

end Cli

end Sotto
