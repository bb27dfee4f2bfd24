import Sotto.Core.Vault
import Sotto.Library.Knowledge

/-!
# What an observer learns from byte strings

An observer computes what the program computes: public keys, derived keys, envelopes and sealed
boxes, and opens an envelope or a box with its key. Whatever is guarded relative to what the
observer knows tells nothing more: what it seals is known, or sealed under a key that the observer
cannot come by.
-/

namespace Sotto

namespace Core

open Knowledge

/-- What an observer computes from byte strings. -/
inductive Infers : List Bytes → Bytes → Prop
  | publicKey {secret : Bytes} : Infers [secret] (.publicKey secret)
  | derive {password secretKey salt : Bytes} :
      Infers [password, secretKey, salt] (.derived password secretKey salt)
  | encrypt {key plaintext : Bytes} {nonce : Seed × Nat} {aad : Aad} :
      Infers [key, plaintext] (.envelope key nonce aad plaintext)
  | decrypt {key plaintext : Bytes} {nonce : Seed × Nat} {aad : Aad} :
      Infers [key, .envelope key nonce aad plaintext] plaintext
  | sealTo {recipient plaintext : Bytes} {ephemeral : Seed × Nat} :
      Infers [recipient, plaintext] (.sealedBox recipient ephemeral plaintext)
  | openBox {secret plaintext : Bytes} {ephemeral : Seed × Nat} :
      Infers [secret, .sealedBox (.publicKey secret) ephemeral plaintext] plaintext

/-- What an observer can compute who knows some byte strings. -/
abbrev Learns (K : Set Bytes) : Bytes → Prop := Derives Infers K

/-- Known bytes or a part of a draw: what cannot be computed from anything else. -/
def Bytes.Atomic : Bytes → Prop
  | .raw _ => True
  | .random _ _ => True
  | _ => False

/-! ### What the program computes, an observer computes -/

section Computes

variable {K : Set Bytes}

end Computes

/-! ### What is guarded -/

/-- Whatever is inside is known, or sealed under a key that is not guarded itself. -/
def Guarded (known : Set Bytes) : Bytes → Prop
  | .raw bytes => .raw bytes ∈ known
  | .random seed part => .random seed part ∈ known
  | .publicKey _ => True
  | .derived password secretKey salt =>
      Guarded known password ∧ Guarded known secretKey ∧ Guarded known salt
  | .envelope key _ _ plaintext => Guarded known key → Guarded known plaintext
  | .sealedBox (.publicKey secret) _ plaintext => Guarded known secret → Guarded known plaintext
  | .sealedBox _ _ _ => True

variable {known : Set Bytes}

theorem closed_guarded : Closed Infers (Guarded known) := by
  intro premises m hrule h
  cases hrule with
  | publicKey => trivial
  | derive => exact ⟨h _ (by simp), h _ (by simp), h _ (by simp)⟩
  | encrypt => exact fun _ => h _ (by simp)
  | @decrypt key plaintext nonce aad =>
      have henvelope : Guarded known (.envelope key nonce aad m) := h _ (by simp)
      exact henvelope (h _ (by simp))
  | @sealTo recipient plaintext ephemeral =>
      cases recipient with
      | publicKey secret => exact fun _ => h _ (by simp)
      | _ => trivial
  | @openBox secret plaintext ephemeral =>
      have hbox : Guarded known (.sealedBox (.publicKey secret) ephemeral m) := h _ (by simp)
      exact hbox (h _ (by simp))

/-- From what is guarded an observer learns nothing that is not guarded. -/
theorem Learns.guarded {K : Set Bytes} {b : Bytes} (h : Learns K b)
    (hK : ∀ b ∈ K, Guarded known b) : Guarded known b :=
  h.of_closed closed_guarded hK

/-- A grant: what it seals is kept from the observer. -/
structure GuardedGrant (known : Set Bytes) (b : Bytes) : Prop where
  guarded : Guarded known b
  content : ∀ recipient ephemeral key, b = .sealedBox recipient ephemeral key → ¬ Guarded known key

/-- A public key whose secret key is kept from the observer. -/
structure GuardedKey (known : Set Bytes) (b : Bytes) : Prop where
  guarded : Guarded known b
  content : ∀ secret, b = .publicKey secret → ¬ Guarded known secret

/-- What devices draw is not known. -/
def DrawsUnknown (known : Set Bytes) : Prop :=
  ∀ seed part, seed.owner ≠ 0 → Bytes.random seed part ∉ known

/-! ### What the program seals is guarded -/

section Seals

variable {key plaintext : Bytes} {nonce : Seed × Nat} {aad : Aad}

theorem guarded_seal (hkey : ¬ Guarded known key) :
    Guarded known (Aead.seal nonce key plaintext aad) :=
  fun h => absurd h hkey

theorem guardedGrant_grantVaultKey {ephemeral : Seed × Nat} {recipientPublic vaultKey : Bytes}
    (hrecipient : GuardedKey known recipientPublic) (hkey : ¬ Guarded known vaultKey) :
    GuardedGrant known (Vault.grantVaultKey ephemeral recipientPublic vaultKey) := by
  constructor
  · cases recipientPublic with
    | publicKey secret => exact fun h => absurd h (hrecipient.content secret rfl)
    | _ => trivial
  · rintro recipient ephemeral' key heq
    cases heq
    exact hkey

theorem not_guarded_of_openVaultKey {keypair : Keypair} {grant vaultKey : Bytes}
    (hgrant : GuardedGrant known grant) (h : Vault.openVaultKey keypair grant = .ok vaultKey) :
    ¬ Guarded known vaultKey := by
  cases grant with
  | sealedBox recipient ephemeral plaintext =>
      simp only [Vault.openVaultKey, Wrap.openSealed, bind, Except.bind] at h
      split at h
      · cases h
      · next opened hopen =>
          split at hopen
          · obtain rfl := Except.ok.inj hopen
            split at h
            · obtain rfl := Except.ok.inj h
              exact hgrant.content _ _ _ rfl
            · cases h
          · cases hopen
  | _ => cases h

theorem guarded_encryptSecret {seed : Seed} {vaultKey name value : Bytes} {envId secretId : Ident}
    {version : Int} (hvault : ¬ Guarded known vaultKey) (hseed : Bytes.random seed 0 ∉ known) :
    let enc := Vault.encryptSecret seed vaultKey envId secretId version name value
    Guarded known enc.encName ∧ Guarded known enc.encValue ∧ Guarded known enc.encDataKey :=
  ⟨guarded_seal hseed, guarded_seal hseed, guarded_seal hvault⟩

theorem guarded_of_rewrapDataKey {oldVaultKey newVaultKey encDataKey encDataKey' : Bytes}
    {envId secretId : Ident} {version : Int} (hnew : ¬ Guarded known newVaultKey)
    (h : Vault.rewrapDataKey nonce oldVaultKey newVaultKey envId secretId version encDataKey =
      .ok encDataKey') : Guarded known encDataKey' := by
  simp only [Vault.rewrapDataKey, bind, Except.bind] at h
  split at h
  · cases h
  · obtain rfl := Except.ok.inj h
    exact guarded_seal hnew

end Seals

end Core

end Sotto
