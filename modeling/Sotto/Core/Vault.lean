import Sotto.Core.Bytes

/-!
# The environment key hierarchy and secret encryption

A per-environment vault key is shared to each member as a grant, sealed to the
member's public key. Each secret write generates a fresh data key wrapped under
the vault key; name and value are sealed under the data key, with associated data
binding environment, secret, version and field. Randomness is passed in as a
draw: each function names the parts of it that it uses.

`Opens k row` says that the row's data key is wrapped under the vault key `k` and
that name and value are sealed under it at the row's place; it is what encryption
establishes, what rewrapping moves to another vault key, and what decryption
needs.
-/

namespace Sotto

namespace Core

namespace Vault

/-- Ciphertext components produced by encrypting one secret. -/
structure EncryptedSecret where
  encName : Bytes
  encValue : Bytes
  encDataKey : Bytes
deriving DecidableEq

/-- Generate a fresh environment vault key. -/
def generateVaultKey (seed : Seed) : Bytes := .random seed 0

/-- Recover the account keypair from `encPrivateKeys` under the master key. -/
def openAccountKeypair (masterKey encPrivateKeys : Bytes) : Except Error Keypair := do
  let secret ← Wrap.unwrapKey masterKey encPrivateKeys .privKeys
  return ⟨secret⟩

/-- Seal a vault key to a grantee's public key: a grant. -/
def grantVaultKey (ephemeral : Seed × Nat) (recipientPublic vaultKey : Bytes) : Bytes :=
  Wrap.sealToPublic ephemeral recipientPublic vaultKey

/-- Open a granted vault key with the grantee's keypair. -/
def openVaultKey (keypair : Keypair) (grant : Bytes) : Except Error Bytes := do
  let opened ← Wrap.openSealed keypair grant
  if opened.len = keyLen then .ok opened
  else .error (.malformed "granted vault key has the wrong length")

/-- Encrypt a secret's name and value under a fresh data key wrapped by the vault
key. -/
def encryptSecret (seed : Seed) (vaultKey : Bytes) (envId secretId : Ident) (version : Int)
    (name value : Bytes) : EncryptedSecret :=
  let dataKey := Bytes.random seed 0
  { encName := Aead.seal (seed, 1) dataKey name (.name envId secretId version)
    encValue := Aead.seal (seed, 2) dataKey value (.value envId secretId version)
    encDataKey := Wrap.wrapKey (seed, 3) vaultKey dataKey (.dataKey envId secretId version) }

/-- Recover a secret's data key. -/
def unwrapDataKey (vaultKey : Bytes) (envId secretId : Ident) (version : Int)
    (encDataKey : Bytes) : Except Error Bytes :=
  Wrap.unwrapKey vaultKey encDataKey (.dataKey envId secretId version)

/-- Decrypt a secret's name. -/
def decryptName (vaultKey : Bytes) (envId secretId : Ident) (version : Int)
    (encName encDataKey : Bytes) : Except Error Bytes := do
  let dataKey ← unwrapDataKey vaultKey envId secretId version encDataKey
  Aead.open dataKey encName (.name envId secretId version)

/-- Decrypt a secret's value. -/
def decryptValue (vaultKey : Bytes) (envId secretId : Ident) (version : Int)
    (encValue encDataKey : Bytes) : Except Error Bytes := do
  let dataKey ← unwrapDataKey vaultKey envId secretId version encDataKey
  Aead.open dataKey encValue (.value envId secretId version)

/-- Decrypt both name and value, unwrapping the data key a single time. -/
def decryptSecret (vaultKey : Bytes) (envId secretId : Ident) (version : Int)
    (encName encValue encDataKey : Bytes) : Except Error (Bytes × Bytes) := do
  let dataKey ← unwrapDataKey vaultKey envId secretId version encDataKey
  let name ← Aead.open dataKey encName (.name envId secretId version)
  let value ← Aead.open dataKey encValue (.value envId secretId version)
  return (name, value)

/-- Rewrap a secret's data key from the old vault key to the new one, keeping the
place it is bound to. -/
def rewrapDataKey (nonce : Seed × Nat) (oldVaultKey newVaultKey : Bytes) (envId secretId : Ident)
    (version : Int) (encDataKey : Bytes) : Except Error Bytes := do
  let dataKey ← unwrapDataKey oldVaultKey envId secretId version encDataKey
  return Wrap.wrapKey nonce newVaultKey dataKey (.dataKey envId secretId version)

/-- The name and the value of a secret are sealed at its place under one data key,
and the data key is wrapped there under `vaultKey`. -/
structure Opens (vaultKey : Bytes) (envId secretId : Ident) (version : Int)
    (name value : Bytes) (enc : EncryptedSecret) : Prop where
  dataKey : ∃ dataKey, dataKey.len = keyLen ∧
    (∃ nonce, enc.encDataKey = .envelope vaultKey nonce (.dataKey envId secretId version) dataKey) ∧
    (∃ nonce, enc.encName = .envelope dataKey nonce (.name envId secretId version) name) ∧
    (∃ nonce, enc.encValue = .envelope dataKey nonce (.value envId secretId version) value)

variable {vaultKey newVaultKey : Bytes} {envId secretId : Ident} {version : Int}
  {name value : Bytes} {enc : EncryptedSecret}

theorem opens_encryptSecret (seed : Seed) :
    Opens vaultKey envId secretId version name value
      (encryptSecret seed vaultKey envId secretId version name value) :=
  ⟨.random seed 0, rfl, ⟨_, rfl⟩, ⟨_, rfl⟩, ⟨_, rfl⟩⟩

theorem Opens.unwrapDataKey_eq (h : Opens vaultKey envId secretId version name value enc) :
    ∃ dataKey, unwrapDataKey vaultKey envId secretId version enc.encDataKey = .ok dataKey ∧
      Aead.open dataKey enc.encName (.name envId secretId version) = .ok name ∧
      Aead.open dataKey enc.encValue (.value envId secretId version) = .ok value := by
  obtain ⟨dataKey, hlen, ⟨n₁, h₁⟩, ⟨n₂, h₂⟩, n₃, h₃⟩ := h.dataKey
  refine ⟨dataKey, ?_, ?_, ?_⟩
  · rw [h₁]
    exact Wrap.unwrapKey_wrapKey n₁ _ _ _ hlen
  · simp [h₂]
  · simp [h₃]

theorem Opens.decryptName_eq (h : Opens vaultKey envId secretId version name value enc) :
    decryptName vaultKey envId secretId version enc.encName enc.encDataKey = .ok name := by
  obtain ⟨dataKey, hd, hn, -⟩ := h.unwrapDataKey_eq
  simp [decryptName, hd, hn, bind, Except.bind]

theorem Opens.decryptValue_eq (h : Opens vaultKey envId secretId version name value enc) :
    decryptValue vaultKey envId secretId version enc.encValue enc.encDataKey = .ok value := by
  obtain ⟨dataKey, hd, -, hv⟩ := h.unwrapDataKey_eq
  simp [decryptValue, hd, hv, bind, Except.bind]

theorem Opens.decryptSecret_eq (h : Opens vaultKey envId secretId version name value enc) :
    decryptSecret vaultKey envId secretId version enc.encName enc.encValue enc.encDataKey =
      .ok (name, value) := by
  obtain ⟨dataKey, hd, hn, hv⟩ := h.unwrapDataKey_eq
  simp [decryptSecret, hd, hn, hv, bind, Except.bind, pure, Except.pure]

/-- A data key unwraps only under the vault key it is wrapped under. -/
theorem Opens.unwrapDataKey_eq_ok {vaultKey' dataKey : Bytes}
    (h : Opens vaultKey envId secretId version name value enc)
    (hu : unwrapDataKey vaultKey' envId secretId version enc.encDataKey = .ok dataKey) :
    vaultKey' = vaultKey := by
  obtain ⟨_, -, ⟨n, hn⟩, -⟩ := h.dataKey
  obtain ⟨⟨n', hn'⟩, -⟩ := Wrap.unwrapKey_eq_ok hu
  rw [hn] at hn'
  injection hn' with hk
  exact hk.symm

/-- A rewrapped data key opens the same name and value under the new vault key. -/
theorem Opens.rewrap {encDataKey : Bytes} {nonce : Seed × Nat} {oldVaultKey : Bytes}
    (h : Opens vaultKey envId secretId version name value enc)
    (hr : rewrapDataKey nonce oldVaultKey newVaultKey envId secretId version enc.encDataKey =
      .ok encDataKey) :
    Opens newVaultKey envId secretId version name value { enc with encDataKey := encDataKey } := by
  obtain ⟨dataKey, hlen, ⟨n₁, h₁⟩, hname, hvalue⟩ := h.dataKey
  refine ⟨dataKey, hlen, ?_, hname, hvalue⟩
  unfold rewrapDataKey unwrapDataKey at hr
  cases hu : Wrap.unwrapKey oldVaultKey enc.encDataKey (.dataKey envId secretId version) with
  | error e => simp [hu, bind, Except.bind] at hr
  | ok dataKey' =>
      obtain ⟨⟨n', hn'⟩, -⟩ := Wrap.unwrapKey_eq_ok hu
      rw [h₁] at hn'
      injection hn' with _ _ _ hd
      subst hd
      simp only [hu, bind, Except.bind, pure, Except.pure, Except.ok.injEq] at hr
      exact ⟨nonce, hr.symm⟩

theorem openVaultKey_grantVaultKey (ephemeral) (keypair : Keypair) (h : vaultKey.len = keyLen) :
    openVaultKey keypair (grantVaultKey ephemeral keypair.public vaultKey) = .ok vaultKey := by
  simp [openVaultKey, grantVaultKey, Wrap.openSealed_sealToPublic, bind, Except.bind, h]

end Vault

end Core

end Sotto
