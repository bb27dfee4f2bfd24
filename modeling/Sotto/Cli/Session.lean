import Sotto.Cli.Vault
import Sotto.Library.Prog

/-!
# Identity setup and the session

The identity of a device lies in two storages: the salt, the verifier and the account keys are rows
of the store, and the secret key is an entry of the keychain, as is the cached session. A setup
flow writes to both in several steps. Every operation on them, and the derivation of the master key,
may fail; a failed operation leaves both as they were.

The randomness of a flow is one draw, and the time is passed in. Keys are kept unformatted, and the
lengths of secret keys and salts are left out.
-/

namespace Sotto

namespace Core

namespace Kdf

/-- Derive the master key from the password, the secret key and the salt. -/
def deriveMasterKey (password secretKey salt : Bytes) : Bytes := .derived password secretKey salt

end Kdf

namespace Vault

/-- Seal the account's secret key under the master key. -/
def wrapPrivateKey (nonce : Seed × Nat) (masterKey secret : Bytes) : Bytes :=
  Wrap.wrapKey nonce masterKey secret .privKeys

end Vault

end Core

namespace Cli

open Core

namespace Session

/-- The identity record of the store. -/
structure Identity where
  kdfSalt : Bytes
  encVerifier : Bytes
deriving DecidableEq

/-- The account key material of the store. -/
structure AccountKeys where
  publicKey : Bytes
  encPrivateKeys : Bytes
  recoveryBlob : Bytes
deriving DecidableEq

/-- The cached session: the master key and its expiry. -/
structure CachedKey where
  masterKey : Bytes
  expiry : Int
deriving DecidableEq

/-- The store's identity and account keys, and the keychain's secret key and session. -/
structure Storage where
  identity : Option Identity
  accountKeys : Option AccountKeys
  secretKey : Option Bytes
  session : Option CachedKey
deriving DecidableEq

/-- What a user must keep to recover access. -/
structure EmergencyKit where
  secretKey : Bytes
  recoveryKey : Bytes

/-- A step of a flow that may fail, with its operands. -/
inductive Cmd
  | derive (password secretKey salt : Bytes)
  | getIdentity
  | getAccountKeys
  | putIdentityWithKeys (identity : Identity) (keys : AccountKeys)
  | getSecretKey
  | setSecretKey (key : Bytes)
  | deleteSecretKey
  | setSession (cached : CachedKey)

/-- The steps without their operands. -/
inductive Operation
  | derive
  | getIdentity
  | getAccountKeys
  | putIdentityWithKeys
  | getSecretKey
  | setSecretKey
  | deleteSecretKey
  | setSession
deriving DecidableEq

namespace Cmd

def operation : Cmd → Operation
  | derive .. => .derive
  | getIdentity => .getIdentity
  | getAccountKeys => .getAccountKeys
  | putIdentityWithKeys .. => .putIdentityWithKeys
  | getSecretKey => .getSecretKey
  | setSecretKey _ => .setSecretKey
  | deleteSecretKey => .deleteSecretKey
  | setSession _ => .setSession

/-- What a step returns. -/
abbrev Reply : Cmd → Type
  | derive .. => Bytes
  | getIdentity => Option Identity
  | getAccountKeys => Option AccountKeys
  | getSecretKey => Option Bytes
  | putIdentityWithKeys .. => Unit
  | setSecretKey _ => Unit
  | deleteSecretKey => Unit
  | setSession _ => Unit

abbrev Answer (c : Cmd) : Type := Except Error c.Reply

/-- What a step does when it succeeds. -/
def effect : (c : Cmd) → Storage → c.Reply × Storage
  | derive password secretKey salt, s => (Kdf.deriveMasterKey password secretKey salt, s)
  | getIdentity, s => (s.identity, s)
  | getAccountKeys, s => (s.accountKeys, s)
  | putIdentityWithKeys identity keys, s =>
      ((), { s with identity := some identity, accountKeys := some keys })
  | getSecretKey, s => (s.secretKey, s)
  | setSecretKey key, s => ((), { s with secretKey := some key })
  | deleteSecretKey, s => ((), { s with secretKey := none })
  | setSession cached, s => ((), { s with session := some cached })

/-- The execution of a step, where some operations fail. -/
def exec (fails : Operation → Option Error) (c : Cmd) (s : Storage) : c.Answer × Storage :=
  match fails c.operation with
  | some e => (.error e, s)
  | none => (.ok (c.effect s).1, (c.effect s).2)

end Cmd

/-- The program of a flow. -/
abbrev Flow := ExceptT Error (Prog Cmd.Answer)

/-- Take a step. -/
def step (c : Cmd) : Flow c.Reply := ExceptT.mk (Prog.perform c)

/-- Run a flow and return its result, failed or not. -/
def attempt {α : Type} (flow : Flow α) : Flow (Except Error α) := ExceptT.lift flow.run

/-- Run a flow where some operations fail. -/
def Flow.exec {α : Type} (flow : Flow α) (fails : Operation → Option Error) (s : Storage) :
    Except Error α × Storage :=
  Prog.runE (Cmd.exec fails) flow s

/-- Marker sealed under the master key at init and checked at unlock. -/
def verifierPlaintext : Bytes := .raw "sotto-verifier-v1".toUTF8

/-- Cache the master key until its expiry, both bounded by 64 bits. -/
def cacheSession (masterKey : Bytes) (now ttl : Int) : Flow Unit :=
  step (.setSession ⟨masterKey, min (now + min ttl i64Max) i64Max⟩)

/-- Write the secret key, then the identity; where the second write fails, remove the secret key
again. -/
def persist (secretKey : Bytes) (identity : Identity) (keys : AccountKeys) : Flow Unit := do
  step (.setSecretKey secretKey)
  match ← attempt (step (.putIdentityWithKeys identity keys)) with
  | .ok () => return ()
  | .error e =>
      let _ ← attempt (step .deleteSecretKey)
      throw e

/-- Create a fresh identity, overwriting any existing one. -/
def reinit (seed : Seed) (now ttl : Int) (password : Bytes) : Flow EmergencyKit := do
  let secretKey := Bytes.random seed 0
  let salt := Bytes.random seed 1
  let masterKey ← step (.derive password secretKey salt)
  let encVerifier := Aead.seal (seed, 2) masterKey verifierPlaintext .verifier
  let keypair : Keypair := ⟨.random seed 3⟩
  let recoveryKey := Bytes.random seed 4
  let accountKeys : AccountKeys :=
    { publicKey := keypair.public
      encPrivateKeys := Vault.wrapPrivateKey (seed, 5) masterKey keypair.secret
      recoveryBlob := Wrap.wrapKey (seed, 6) recoveryKey masterKey .recovery }
  persist secretKey ⟨salt, encVerifier⟩ accountKeys
  cacheSession masterKey now ttl
  return ⟨secretKey, recoveryKey⟩

/-- Create the local identity; an error if one already exists. -/
def init (seed : Seed) (now ttl : Int) (password : Bytes) : Flow EmergencyKit := do
  match ← step .getIdentity with
  | some _ => throw .alreadyInitialized
  | none => reinit seed now ttl password

/-- Reconstruct the local identity on a new device from downloaded account material. -/
def restore (seed : Seed) (now ttl : Int) (password secretKey salt : Bytes)
    (accountKeys : AccountKeys) : Flow Unit := do
  match ← step .getIdentity with
  | some _ => throw .alreadyInitialized
  | none =>
      let masterKey ← step (.derive password secretKey salt)
      match Vault.openAccountKeypair masterKey accountKeys.encPrivateKeys with
      | .error _ => throw .crypto
      | .ok _ =>
          let encVerifier := Aead.seal (seed, 2) masterKey verifierPlaintext .verifier
          persist secretKey ⟨salt, encVerifier⟩ accountKeys
          cacheSession masterKey now ttl

/-- Re-derive the master key from the password, verify it, and start a session. -/
def unlock (now ttl : Int) (password : Bytes) : Flow Unit := do
  match ← step .getSecretKey with
  | none => throw .noIdentity
  | some secretKey =>
      match ← step .getIdentity with
      | none => throw .noIdentity
      | some identity =>
          let masterKey ← step (.derive password secretKey identity.kdfSalt)
          match Aead.open masterKey identity.encVerifier .verifier with
          | .error _ => throw .crypto
          | .ok _ => cacheSession masterKey now ttl

end Session

end Cli

end Sotto
