import Sotto.Library.Text

/-!
# The places of ciphertexts

A ciphertext is bound to its place by the associated data, which is a text of the ids, the version
and the kind. The cipher is a parameter, and the random bytes are passed in.
-/

namespace Sotto

namespace Places

open Text

abbrev Bytes := List UInt8

inductive Error
  | malformed (message : String)
  | unsupportedScheme (scheme alg : UInt8)
  | crypto
deriving DecidableEq

/-! ### Envelopes -/

def schemeV1 : UInt8 := 1

/-- The algorithm id of the cipher. -/
def algXChaCha20Poly1305 : UInt8 := 1

def nonceLen : ℕ := 24

def keyLen : ℕ := 32

/-- A symmetric key. -/
abbrev Key := { bytes : Bytes // bytes.length = keyLen }

abbrev Nonce := { bytes : Bytes // bytes.length = nonceLen }

/-- An authenticated cipher with associated data. -/
structure Cipher where
  encrypt (key : Key) (nonce : Nonce) (message aad : Bytes) : Bytes
  decrypt (key : Key) (nonce : Nonce) (ciphertext aad : Bytes) : Option Bytes

/-- Validate the header of an envelope and give its nonce and its ciphertext. -/
def parseEnvelope (bytes : Bytes) : Except Error (Nonce × Bytes) :=
  match bytes with
  | scheme :: alg :: rest =>
    if h : nonceLen ≤ rest.length then
      if scheme ≠ schemeV1 ∨ alg ≠ algXChaCha20Poly1305 then
        .error (.unsupportedScheme scheme alg)
      else .ok (⟨rest.take nonceLen, List.length_take_of_le h⟩, rest.drop nonceLen)
    else .error (.malformed "envelope too short")
  | _ => .error (.malformed "envelope too short")

section Ciphers

variable (cipher : Cipher)

/-- Encrypt `plaintext` under `key`, binding `aad`, in an envelope. -/
def «seal» (nonce : Nonce) (key : Key) (plaintext aad : Bytes) : Bytes :=
  schemeV1 :: algXChaCha20Poly1305 :: (nonce.1 ++ cipher.encrypt key nonce plaintext aad)

/-- Decrypt an envelope under `key`, verifying `aad`. -/
def «open» (key : Key) (envelope aad : Bytes) : Except Error Bytes := do
  let (nonce, ciphertext) ← parseEnvelope envelope
  match cipher.decrypt key nonce ciphertext aad with
  | some plaintext => .ok plaintext
  | none => .error .crypto

def wrapKey (nonce : Nonce) (kek key : Key) (aad : Bytes) : Bytes :=
  «seal» cipher nonce kek key.1 aad

/-- Unwrap a key that is wrapped under `kek`, verifying `aad`. -/
def unwrapKey (kek : Key) (wrapped aad : Bytes) : Except Error Key := do
  let plaintext ← «open» cipher kek wrapped aad
  if h : plaintext.length = keyLen then .ok ⟨plaintext, h⟩
  else .error (.malformed "wrapped key wrong length")

/-! ### Associated data -/

def secretAad (kind : String) (envId secretId : List Char) (version : ℤ) : List Char :=
  "sotto/v1/".toList ++ kind.toList ++ "|env=".toList ++ envId ++ "|secret=".toList ++ secretId ++
    "|ver=".toList ++ (toString version).toList

def dataKeyAad (envId secretId : List Char) (version : ℤ) : List Char :=
  secretAad "datakey" envId secretId version

def nameAad (envId secretId : List Char) (version : ℤ) : List Char :=
  secretAad "name" envId secretId version

def valueAad (envId secretId : List Char) (version : ℤ) : List Char :=
  secretAad "value" envId secretId version

def recordAad (kind : String) (id : List Char) : List Char :=
  "sotto/v1/".toList ++ kind.toList ++ "|id=".toList ++ id

def orgAad (id : List Char) : List Char :=
  recordAad "org-name" id

def projectAad (id : List Char) : List Char :=
  recordAad "project-name" id

def envAad (id : List Char) : List Char :=
  recordAad "env-name" id

/-! ### Secrets -/

structure EncryptedSecret where
  encName : Bytes
  encValue : Bytes
  encDataKey : Bytes
deriving DecidableEq

/-- The random bytes of an encryption. -/
structure Randomness where
  dataKey : Key
  nameNonce : Nonce
  valueNonce : Nonce
  keyNonce : Nonce

/-- Encrypt the name and the value of a secret under a fresh data key. -/
def encryptSecret (random : Randomness) (vaultKey : Key) (envId secretId : List Char)
    (version : ℤ) (name value : Bytes) : EncryptedSecret :=
  { encName := «seal» cipher random.nameNonce random.dataKey name
      (utf8 (nameAad envId secretId version))
    encValue := «seal» cipher random.valueNonce random.dataKey value
      (utf8 (valueAad envId secretId version))
    encDataKey := wrapKey cipher random.keyNonce vaultKey random.dataKey
      (utf8 (dataKeyAad envId secretId version)) }

def unwrapDataKey (vaultKey : Key) (envId secretId : List Char) (version : ℤ)
    (encDataKey : Bytes) : Except Error Key :=
  unwrapKey cipher vaultKey encDataKey (utf8 (dataKeyAad envId secretId version))

def decryptName (vaultKey : Key) (envId secretId : List Char) (version : ℤ)
    (encName encDataKey : Bytes) : Except Error Bytes := do
  let dataKey ← unwrapDataKey cipher vaultKey envId secretId version encDataKey
  «open» cipher dataKey encName (utf8 (nameAad envId secretId version))

def decryptValue (vaultKey : Key) (envId secretId : List Char) (version : ℤ)
    (encValue encDataKey : Bytes) : Except Error Bytes := do
  let dataKey ← unwrapDataKey cipher vaultKey envId secretId version encDataKey
  «open» cipher dataKey encValue (utf8 (valueAad envId secretId version))

/-- Decrypt both the name and the value, unwrapping the data key a single time. -/
def decryptSecret (vaultKey : Key) (envId secretId : List Char) (version : ℤ)
    (encName encValue encDataKey : Bytes) : Except Error (Bytes × Bytes) := do
  let dataKey ← unwrapDataKey cipher vaultKey envId secretId version encDataKey
  let name := «open» cipher dataKey encName (utf8 (nameAad envId secretId version))
  let value := «open» cipher dataKey encValue (utf8 (valueAad envId secretId version))
  match name, value with
  | .ok name, .ok value => .ok (name, value)
  | .ok _, .error e => .error e
  | .error e, _ => .error e

/-- Rewrap a data key from the old vault key to the new one. -/
def rewrapDataKey (nonce : Nonce) (oldVaultKey newVaultKey : Key) (envId secretId : List Char)
    (version : ℤ) (encDataKey : Bytes) : Except Error Bytes := do
  let dataKey ← unwrapDataKey cipher oldVaultKey envId secretId version encDataKey
  return wrapKey cipher nonce newVaultKey dataKey (utf8 (dataKeyAad envId secretId version))

/-! ### Display names -/

def encryptOrgName (nonce : Nonce) (key : Key) (orgId : List Char) (name : Bytes) : Bytes :=
  «seal» cipher nonce key name (utf8 (orgAad orgId))

def decryptOrgName (key : Key) (orgId : List Char) (ciphertext : Bytes) : Except Error Bytes :=
  «open» cipher key ciphertext (utf8 (orgAad orgId))

def encryptProjectName (nonce : Nonce) (key : Key) (projectId : List Char) (name : Bytes) :
    Bytes :=
  «seal» cipher nonce key name (utf8 (projectAad projectId))

def decryptProjectName (key : Key) (projectId : List Char) (ciphertext : Bytes) :
    Except Error Bytes :=
  «open» cipher key ciphertext (utf8 (projectAad projectId))

def encryptEnvName (nonce : Nonce) (key : Key) (envId : List Char) (name : Bytes) : Bytes :=
  «seal» cipher nonce key name (utf8 (envAad envId))

def decryptEnvName (key : Key) (envId : List Char) (ciphertext : Bytes) : Except Error Bytes :=
  «open» cipher key ciphertext (utf8 (envAad envId))

end Ciphers

/-- The characters of an id that the server admits. -/
def isIdChar (c : Char) : Bool :=
  c.isAlphanum || c = '-' || c = '_'

/-- An id of the characters that the server admits. -/
abbrev Id := { id : List Char // ∀ c ∈ id, isIdChar c = true }

end Places

end Sotto
