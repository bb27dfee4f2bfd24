import Mathlib.Logic.Basic

/-!
# Byte strings and ideal encryption

The byte strings of the program, with encryption taken as ideal: a value of
`random::bytes` is a part of a fresh draw, an AEAD envelope opens only under the
key and the associated data it was sealed with, and a sealed box opens only with
the secret key of the public key it was sealed to. Known bytes authenticate under
no key. Sizes are those of the formats: two header bytes, a nonce of 24 and a tag
of 16 around an AEAD plaintext; an ephemeral public key of 32 and a tag of 16
around a boxed one.

Associated data is kept as the fields it is rendered from, and a record id is
either a fresh UUID or a text.
-/

namespace Sotto

namespace Core

/-- One draw of the random number generator, by the device that made it. The
parts of a draw are independent values. -/
structure Seed where
  owner : Nat
  draw : Nat
deriving DecidableEq, Repr

/-- A record id: a version 4 UUID, or a text. -/
inductive Ident
  | uuid (seed : Seed)
  | text (s : String)
deriving DecidableEq

instance : Inhabited Ident := ⟨.text ""⟩

instance : ToString Ident where
  toString
    | .uuid seed => s!"uuid-{seed.owner}-{seed.draw}"
    | .text s => s

/-- The associated data an envelope is bound to. -/
inductive Aad
  | privKeys
  | verifier
  | recovery
  | dataKey (envId secretId : Ident) (version : Int)
  | name (envId secretId : Ident) (version : Int)
  | value (envId secretId : Ident) (version : Int)
  | projectName (id : Ident)
  | envName (id : Ident)
deriving DecidableEq

/-- A byte string: known bytes, random bytes, the public key of a secret key, the key
derived from a password, a secret key and a salt, an AEAD envelope, or a sealed box. -/
inductive Bytes
  | raw (bytes : ByteArray)
  | random (seed : Seed) (part : Nat)
  | publicKey (secret : Bytes)
  | derived (password secretKey salt : Bytes)
  | envelope (key : Bytes) (nonce : Seed × Nat) (aad : Aad) (plaintext : Bytes)
  | sealedBox (recipient : Bytes) (ephemeral : Seed × Nat) (plaintext : Bytes)
deriving DecidableEq

instance : Inhabited Bytes := ⟨.raw .empty⟩

/-- The length in bytes. -/
def Bytes.len : Bytes → Nat
  | raw bytes => bytes.size
  | random _ _ => 32
  | publicKey _ => 32
  | derived _ _ _ => 32
  | envelope _ _ _ plaintext => 2 + 24 + 16 + plaintext.len
  | sealedBox _ _ plaintext => 32 + 16 + plaintext.len

/-- The errors of the crypto core. -/
inductive Error
  | malformed (message : String)
  | crypto
deriving DecidableEq

/-- Symmetric key length shared across the hierarchy. -/
def keyLen : Nat := 32

namespace Aead

/-- Encrypt `plaintext` under `key`, binding `aad`. -/
def «seal» (nonce : Seed × Nat) (key plaintext : Bytes) (aad : Aad) : Bytes :=
  .envelope key nonce aad plaintext

/-- Decrypt an envelope under `key`, verifying `aad`. -/
def «open» (key : Bytes) (envelope : Bytes) (aad : Aad) : Except Error Bytes :=
  match envelope with
  | .envelope key' _ aad' plaintext =>
      if key' = key ∧ aad' = aad then .ok plaintext else .error .crypto
  | _ => .error .crypto

end Aead

/-- A keypair: the secret key and the public key derived from it. -/
structure Keypair where
  secret : Bytes
deriving DecidableEq

/-- The public half of a keypair. -/
def Keypair.public (keypair : Keypair) : Bytes := .publicKey keypair.secret

namespace Wrap

/-- Wrap `plaintext` to `recipientPublic` in a sealed box. -/
def sealToPublic (ephemeral : Seed × Nat) (recipientPublic plaintext : Bytes) : Bytes :=
  .sealedBox recipientPublic ephemeral plaintext

/-- Open a sealed box addressed to `keypair`. -/
def openSealed (keypair : Keypair) (boxed : Bytes) : Except Error Bytes :=
  match boxed with
  | .sealedBox recipient _ plaintext =>
      if recipient = keypair.public then .ok plaintext else .error .crypto
  | _ => .error .crypto

/-- Wrap `key` under the key-encryption key `kek`, binding `aad`. -/
def wrapKey (nonce : Seed × Nat) (kek key : Bytes) (aad : Aad) : Bytes :=
  Aead.seal nonce kek key aad

/-- Unwrap a key wrapped under `kek`, verifying `aad`. -/
def unwrapKey (kek wrapped : Bytes) (aad : Aad) : Except Error Bytes := do
  let key ← Aead.open kek wrapped aad
  if key.len = keyLen then .ok key else .error (.malformed "wrapped key wrong length")

end Wrap

@[simp] theorem Aead.open_envelope (key nonce aad plaintext key' aad') :
    Aead.open key' (.envelope key nonce aad plaintext) aad' =
      if key = key' ∧ aad = aad' then .ok plaintext else .error .crypto := rfl

theorem Aead.open_seal (nonce key plaintext aad) :
    Aead.open key (Aead.seal nonce key plaintext aad) aad = .ok plaintext := by
  simp [Aead.seal]

/-- Opening succeeds only on an envelope sealed under the same key and data. -/
theorem Aead.open_eq_ok {key envelope plaintext : Bytes} {aad : Aad}
    (h : Aead.open key envelope aad = .ok plaintext) :
    ∃ nonce, envelope = .envelope key nonce aad plaintext := by
  cases envelope with
  | envelope key' nonce aad' plaintext' =>
      rw [Aead.open_envelope] at h
      split at h
      · next hk =>
          obtain ⟨rfl, rfl⟩ := hk
          exact ⟨nonce, by simpa using h⟩
      · cases h
  | _ => cases h

theorem Wrap.unwrapKey_wrapKey (nonce kek key aad) (h : key.len = keyLen) :
    Wrap.unwrapKey kek (Wrap.wrapKey nonce kek key aad) aad = .ok key := by
  simp [Wrap.unwrapKey, Wrap.wrapKey, Aead.open_seal, bind, Except.bind, h]

theorem Wrap.unwrapKey_eq_ok {kek wrapped key : Bytes} {aad : Aad}
    (h : Wrap.unwrapKey kek wrapped aad = .ok key) :
    (∃ nonce, wrapped = .envelope kek nonce aad key) ∧ key.len = keyLen := by
  unfold Wrap.unwrapKey at h
  cases ho : Aead.open kek wrapped aad with
  | error e => simp [ho, bind, Except.bind] at h
  | ok key' =>
      simp only [ho, bind, Except.bind] at h
      split at h
      · next hlen =>
          obtain rfl : key' = key := by simpa using h
          exact ⟨Aead.open_eq_ok ho, hlen⟩
      · cases h

theorem Wrap.openSealed_sealToPublic (ephemeral plaintext) (keypair : Keypair) :
    Wrap.openSealed keypair (Wrap.sealToPublic ephemeral keypair.public plaintext) =
      .ok plaintext := by
  simp [Wrap.openSealed, Wrap.sealToPublic]

end Core

end Sotto
