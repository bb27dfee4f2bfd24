import Sotto.Base.Batch
import Sotto.Cli.Edits

/-!
# The request of a rotation

What the lists of an accepted rotation contain: for every row of the snapshot it
was built from, the row's data key rewrapped to the new vault key, and for every
recipient a grant of that key to the recipient's public key.
-/

namespace Sotto

open Core Cli

section Lists

variable {seed : Seed} {oldVault newVault : Bytes} {envId : Ident}

theorem rewrapKeys_eq_ok {part : Nat} {entries out : List (Ident × Int × Base64)}
    (h : rewrapKeys seed oldVault newVault envId part entries = .ok out) :
    out.map (·.1) = entries.map (·.1) ∧
      ∀ id version enc, (id, version, enc) ∈ entries → ∃ nonce wrapped key, enc = .valid wrapped ∧
        Core.Vault.rewrapDataKey nonce oldVault newVault envId id version wrapped = .ok key ∧
        (id, version, Base64.valid key) ∈ out := by
  induction entries generalizing part out with
  | nil =>
      obtain rfl : [] = out := Except.ok.inj h
      exact ⟨rfl, by simp⟩
  | cons entry rest ih =>
      obtain ⟨id, version, enc⟩ := entry
      simp only [rewrapKeys, Cli.bind_eq_ok, Cli.Error.ofCore_eq_ok, pure, Except.pure,
        Except.ok.injEq] at h
      obtain ⟨wrapped, hwrapped, key, hkey, tail, htail, rfl⟩ := h
      obtain ⟨hids, hmem⟩ := ih htail
      have henc : enc = .valid wrapped := by
        cases enc with
        | valid bytes => rw [Except.ok.inj hwrapped]
        | malformed text => cases hwrapped
      refine ⟨by simp [hids], ?_⟩
      intro id' version' enc' hentry
      rcases List.mem_cons.1 hentry with heq | hrest
      · cases heq
        exact ⟨_, wrapped, key, henc, hkey, List.mem_cons_self⟩
      · obtain ⟨nonce, wrapped', key', henc', hkey', hmem'⟩ := hmem _ _ _ hrest
        exact ⟨nonce, wrapped', key', henc', hkey', List.mem_cons_of_mem _ hmem'⟩

end Lists

section Grants

variable {seed : Seed} {newVault : Bytes} {members : List Api.MemberInfo} {revoke : Option Ident}
  {part : Nat} {holders : List Ident} {out : List Api.GrantEntry} {userId : Ident}

theorem decodePublicKey_eq_ok {value : Base64} {publicKey : Bytes}
    (h : decodePublicKey value = .ok publicKey) : value = .valid publicKey := by
  simp only [decodePublicKey, b64decode, Cli.bind_eq_ok] at h
  obtain ⟨bytes, hbytes, hlen⟩ := h
  split at hlen
  · obtain rfl := Except.ok.inj hlen
    cases value with
    | valid b => rw [Except.ok.inj hbytes]
    | malformed text => cases hbytes
  · cases hlen

/-- Whom a rotation grants, under which public key. -/
theorem mem_regrant (h : regrant seed newVault members revoke part holders = .ok out) :
    ∀ g ∈ out, g.userId ∈ holders ∧ some g.userId ≠ revoke ∧ ∃ m publicKey ephemeral,
      members.find? (fun m => m.userId = g.userId) = some m ∧
      m.publicKey = some (.valid publicKey) ∧
      g.encVaultKey = .valid (.sealedBox publicKey ephemeral newVault) := by
  induction holders generalizing part out with
  | nil =>
      obtain rfl : [] = out := Except.ok.inj h
      simp
  | cons holder rest ih =>
      have hrest : ∀ {part out}, regrant seed newVault members revoke part rest = .ok out →
          ∀ g ∈ out, g.userId ∈ holder :: rest ∧ some g.userId ≠ revoke ∧ ∃ m publicKey ephemeral,
            members.find? (fun m => m.userId = g.userId) = some m ∧
            m.publicKey = some (.valid publicKey) ∧
            g.encVaultKey = .valid (.sealedBox publicKey ephemeral newVault) := by
        intro part out h g hg
        obtain ⟨hmem, hrest⟩ := ih h g hg
        exact ⟨List.mem_cons_of_mem _ hmem, hrest⟩
      rw [regrant] at h
      split at h
      · exact hrest h
      · next hrevoke =>
          split at h
          · exact hrest h
          · next m hfind =>
              split at h
              · cases h
              · next publicKeyB64 hkey =>
                  simp only [Cli.bind_eq_ok, pure, Except.pure, Except.ok.injEq] at h
                  obtain ⟨publicKey, hpublic, tail, htail, rfl⟩ := h
                  intro g hg
                  rcases List.mem_cons.1 hg with rfl | hg
                  · rw [decodePublicKey_eq_ok hpublic] at hkey
                    exact ⟨List.mem_cons_self, hrevoke, m, publicKey, _, hfind, hkey, rfl⟩
                  · exact hrest htail g hg

/-- Every holder that is listed as a member is granted. -/
theorem exists_mem_regrant (h : regrant seed newVault members revoke part holders = .ok out)
    (hholder : userId ∈ holders) (hrevoke : some userId ≠ revoke)
    (hmember : members.find? (fun m => m.userId = userId) ≠ none) :
    ∃ g ∈ out, g.userId = userId := by
  induction holders generalizing part out with
  | nil => cases hholder
  | cons holder rest ih =>
      rw [regrant] at h
      split at h
      · next heq =>
          rcases List.mem_cons.1 hholder with rfl | hrest
          · exact absurd heq hrevoke
          · exact ih h hrest
      · split at h
        · next hnone =>
            rcases List.mem_cons.1 hholder with rfl | hrest
            · exact absurd hnone hmember
            · exact ih h hrest
        · split at h
          · cases h
          · simp only [Cli.bind_eq_ok, pure, Except.pure, Except.ok.injEq] at h
            obtain ⟨publicKey, -, tail, htail, rfl⟩ := h
            rcases List.mem_cons.1 hholder with rfl | hrest
            · exact ⟨_, List.mem_cons_self, rfl⟩
            · obtain ⟨g, hg, huser⟩ := ih htail hrest
              exact ⟨g, List.mem_cons_of_mem _ hg, huser⟩

theorem regrant_eq_ok {S : Setup} (hmembers : MembersKnown S members)
    (h : regrant seed newVault members revoke part holders = .ok out) :
    ∀ g ∈ out, ∃ ephemeral, g.encVaultKey =
      .valid (.sealedBox (S.keypair g.userId).public ephemeral newVault) := by
  intro g hg
  obtain ⟨-, -, m, publicKey, ephemeral, hfind, hkey, hvalue⟩ := mem_regrant h g hg
  have hm : m.userId = g.userId := by simpa using List.find?_some hfind
  have hpublic := hmembers m (List.mem_of_find?_eq_some hfind) _ hkey
  rw [Base64.valid.inj hpublic, hm] at hvalue
  exact ⟨ephemeral, hvalue⟩

end Grants

section Decoded

theorem decodeEntries_eq_ok {K : Type} {field : String} {entries : List (K × Base64)}
    {out : List (K × Bytes)} (h : Server.decodeEntries field entries = .ok out) :
    entries = out.map fun e => (e.1, .valid e.2) := by
  induction entries generalizing out with
  | nil =>
      obtain rfl : [] = out := Except.ok.inj h
      rfl
  | cons entry rest ih =>
      obtain ⟨k, value⟩ := entry
      simp only [Server.decodeEntries, Server.bind_eq_ok, Server.decode_eq_ok, pure, Except.pure,
        Except.ok.injEq] at h
      obtain ⟨bytes, ⟨rfl, -⟩, tail, htail, rfl⟩ := h
      rw [ih htail]
      rfl

/-- What a decoded rotation has of the request. -/
theorem decodeRotation_eq_ok {userId : Ident} {req : Api.RotateRequest} {rotation : Server.Rotation}
    (h : Server.decodeRotation userId req = .ok rotation) :
    rotation.baseRevision = req.baseRevision ∧
      (req.grants.map fun g => (g.userId, g.encVaultKey)) =
        rotation.grants.map (fun g => (g.1, .valid g.2)) ∧
      (req.dataKeys.map fun k => (k.secretId, k.encDataKey)) =
        rotation.dataKeys.map (fun k => (k.1, .valid k.2)) ∧
      ∃ g ∈ rotation.grants, g.1 = userId := by
  simp only [Server.decodeRotation, Server.bind_eq_ok, Server.require_eq_ok, pure, Except.pure,
    Except.ok.injEq] at h
  obtain ⟨_, -, grants, hgrants, dataKeys, hkeys, machineGrants, -, historyKeys, -, _, hown, rfl⟩ := h
  refine ⟨rfl, decodeEntries_eq_ok hgrants, decodeEntries_eq_ok hkeys, ?_⟩
  simpa using hown

end Decoded

/-! ### The tables after a rotation -/

theorem lookup_rewrapSecrets {envId : Ident} {dataKeys : List (Ident × Bytes)}
    (hnodup : (dataKeys.map Prod.fst).Nodup) {secrets : Table Ident Server.Secret} {id : Ident}
    {key : Bytes} (hmem : (id, key) ∈ dataKeys) {r : Server.Secret}
    (hr : secrets.lookup id = some r) (henv : r.envId = envId) :
    (Server.rewrapSecrets envId dataKeys secrets).lookup id = some { r with encDataKey := key } := by
  have := Table.lookup_foldl_modify
    (fun (s : Server.Secret) (k : Bytes) => if s.envId = envId then { s with encDataKey := k } else s)
    hnodup hmem secrets
  rw [Server.rewrapSecrets, this, hr, Option.map_some, if_pos henv]

theorem lookup_rewrapSecrets_none {envId : Ident} {dataKeys : List (Ident × Bytes)}
    {secrets : Table Ident Server.Secret} {id : Ident} (hr : secrets.lookup id = none) :
    (Server.rewrapSecrets envId dataKeys secrets).lookup id = none := by
  unfold Server.rewrapSecrets
  induction dataKeys generalizing secrets with
  | nil => exact hr
  | cons d dataKeys ih =>
      rw [List.foldl_cons]
      refine ih ?_
      rw [Table.lookup_modify]
      split <;> simp [hr]

theorem lookup_replaceGrants {envId : Ident} {grants : List (Ident × Bytes)}
    {table : Table (Ident × Ident) Bytes} {u : Ident} {grant : Bytes}
    (h : (Server.replaceGrants envId grants table).lookup (envId, u) = some grant) :
    (u, grant) ∈ grants := by
  unfold Server.replaceGrants at h
  rcases Table.lookup_foldl_insert_eq_some (fun g : Ident × Bytes => (envId, g.1))
      (fun g => g.2) h with h | ⟨g, hg, hkey, rfl⟩
  · rw [Table.lookup_filterRows] at h
    simp at h
  · cases hkey
    exact hg

theorem isSome_lookup_replaceGrants {envId : Ident} {grants : List (Ident × Bytes)}
    {table : Table (Ident × Ident) Bytes} {u : Ident} (h : ∃ g ∈ grants, g.1 = u) :
    ((Server.replaceGrants envId grants table).lookup (envId, u)).isSome := by
  obtain ⟨g, hg, rfl⟩ := h
  exact Table.isSome_lookup_foldl_insert (fun g : Ident × Bytes => (envId, g.1)) (fun g => g.2)
    (Or.inr ⟨g, hg, rfl⟩)

end Sotto
