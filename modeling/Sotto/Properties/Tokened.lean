import Sotto.Base.Layer
import Sotto.Properties.Rotation
import Sotto.Rounds.Rotate
import Sotto.Server.Admission
import Sotto.Server.Service

/-!
# What machine tokens seal

A rotation reads the active tokens of the environment between its fetch and its commit, and seals
the new vault key to each of them. So in every run, every active token seals the current vault key.
-/

namespace Sotto

open Core Cli

/-- What of a token no request of a device changes. -/
def Server.MachineToken.identity (t : Server.MachineToken) : Ident × Bytes × Bool :=
  (t.envId, t.publicKey, t.revoked)

/-- The active tokens of the environment seal the current vault key to their public keys, and all
tokens are those of the setup, as are the project and the organisation. -/
structure Shared.Tokened (S : Setup) (s : Shared) : Prop where
  access : Server.SameAccess S.db s.db
  tokens : ∀ id, (s.db.machineTokens.lookup id).map Server.MachineToken.identity =
    (S.db.machineTokens.lookup id).map Server.MachineToken.identity
  sealed : ∀ id t, s.db.machineTokens.lookup id = some t → t.envId = S.envId → t.revoked = false →
    ∃ key ephemeral, s.keys.head? = some key ∧ t.encVaultKey = .sealedBox t.publicKey ephemeral key

/-- The active tokens of a setup seal its vault key. -/
def Setup.TokensSealed (S : Setup) : Prop :=
  ∀ id t, S.db.machineTokens.lookup id = some t → t.envId = S.envId → t.revoked = false →
    ∃ ephemeral, t.encVaultKey = .sealedBox t.publicKey ephemeral (.random S.vaultKey 0)

/-- What the outline adds: what is said of the tokens. -/
def tokenedExtension (S : Setup) :
    Outline.Extension Nat Cmd.Reply Shared Device Op (Except Cli.Error Unit) where
  limit := anyRun
  inv s := s.Tokened S
  guar _ _ _ _ _ := True
  idle _ _ _ := True
  post _ _ _ _ _ := True

/-- The outline over the base outline. -/
def tokened (S : Setup) : Outline (S.grounded.restrict anyRun) :=
  (base S).extend (tokenedExtension S)

/-- The setting of a device. -/
abbrev tokenedSetting (S : Setup) (d : Nat) : Setting Cmd.Reply Shared Device :=
  (tokened S).setting d

theorem tokened_grounded {S : Setup} (d : Nat) : Grounded S d (tokenedSetting S d) :=
  (base_grounded d).extend (fun h => h) fun _ _ _ => trivial

/-! ### Rotations -/

theorem regrantTokens_eq_ok {seed : Seed} {newVault : Bytes} {part : Nat}
    {tokens : List Api.MachineTokenInfo} {out : List Api.MachineGrantEntry}
    (h : regrantTokens seed newVault part tokens = .ok out) :
    ∀ t ∈ tokens, ∃ publicKey ephemeral, t.publicKey = .valid publicKey ∧
      ⟨t.tokenId, .valid (.sealedBox publicKey ephemeral newVault)⟩ ∈ out := by
  induction tokens generalizing part out with
  | nil => simp
  | cons token rest ih =>
      simp only [regrantTokens, Cli.bind_eq_ok, pure, Except.pure, Except.ok.injEq] at h
      obtain ⟨publicKey, hpublic, tail, htail, rfl⟩ := h
      simp only [decodePublicKey, b64decode, Cli.bind_eq_ok] at hpublic
      obtain ⟨bytes, hbytes, hlen⟩ := hpublic
      split at hlen
      · obtain rfl := Except.ok.inj hlen
        intro t ht
        rcases List.mem_cons.1 ht with rfl | ht
        · refine ⟨bytes, _, ?_, List.mem_cons_self⟩
          cases hkey : t.publicKey with
          | valid b =>
              rw [hkey] at hbytes
              rw [Except.ok.inj hbytes]
          | malformed text =>
              rw [hkey] at hbytes
              cases hbytes
        · obtain ⟨publicKey, ephemeral, hkey, hmem⟩ := ih htail t ht
          exact ⟨publicKey, ephemeral, hkey, List.mem_cons_of_mem _ hmem⟩
      · cases hlen

namespace Server

theorem identity_resealTokens (envId : Ident) (machineGrants : List (Ident × Bytes))
    (tokens : Table Ident MachineToken) (id : Ident) :
    ((resealTokens envId machineGrants tokens).lookup id).map MachineToken.identity =
      (tokens.lookup id).map MachineToken.identity := by
  refine Table.map_lookup_foldl_modify (f := fun (t : MachineToken) (key : Bytes) =>
    if t.envId = envId then { t with encVaultKey := key } else t) ?_ machineGrants tokens id
  intro t key
  split <;> rfl

theorem lookup_resealTokens {envId : Ident} {machineGrants : List (Ident × Bytes)}
    (hnodup : (machineGrants.map Prod.fst).Nodup) {id : Ident} {key : Bytes}
    (hmem : (id, key) ∈ machineGrants) {tokens : Table Ident MachineToken} {t : MachineToken}
    (ht : tokens.lookup id = some t) (henv : t.envId = envId) :
    (resealTokens envId machineGrants tokens).lookup id = some { t with encVaultKey := key } := by
  have := Table.lookup_foldl_modify (fun (t : MachineToken) (key : Bytes) =>
    if t.envId = envId then { t with encVaultKey := key } else t) hnodup hmem tokens
  rw [resealTokens, this, ht, Option.map_some, if_pos henv]

theorem mem_activeTokensOf {db : Db} {envId id : Ident} {t : MachineToken} :
    (id, t) ∈ db.activeTokensOf envId ↔
      db.machineTokens.lookup id = some t ∧ t.envId = envId ∧ t.revoked = false := by
  rw [Db.activeTokensOf, List.mem_filter, Table.mem_rows]
  simp

theorem foldl_effect_machineTokens (envId : Ident) (changes : List Api.SecretChange) (db : Db) :
    (changes.foldl (effect envId) db).machineTokens = db.machineTokens := by
  induction changes generalizing db with
  | nil => rfl
  | cons c changes ih =>
      rw [List.foldl_cons, ih]
      unfold effect
      split <;> rfl

end Server

section Rounds

variable {S : Setup} {d : Nat} {s : Shared} {l : Device} {grant : Bytes} {s₁ s₂ s₄ s₇ : Shared}
  {revision : Int} {l₁ l₄ l₅ l₇ : Device} {access : Server.ProjectAccess} {v : Int}
  {G : Setting Cmd.Reply Shared Device} {keySeed : Seed} {orgId : Ident}
  {rotation : Server.Rotation}

theorem Shared.Tokened.wrote (h : s₄.Tokened S)
    (hwrote : Wrote S d G grant s l s₁ s₂ s₄ revision l₁ access v l₄ l₅) :
    (afterBatch S s₂ s₄ revision access l₄).Tokened S := by
  obtain ⟨-, -, hdb⟩ :=
    Server.writeSecretsTx_eq_ok_iff.1 (Server.commit_run hwrote.committed.result)
  have hrows : (afterBatch S s₂ s₄ revision access l₄).db =
      ((changesOf S (s₂.db.secretsOf S.envId) l₄.store).foldl (Server.effect S.envId)
        s₄.db).withRevision S.envId v := hdb
  have htokens : (afterBatch S s₂ s₄ revision access l₄).db.machineTokens =
      s₄.db.machineTokens := by
    rw [hrows]
    exact Server.foldl_effect_machineTokens _ _ _
  refine ⟨?_, ?_, ?_⟩
  · rw [hrows]
    exact (h.access.trans (Server.SameAccess.foldl_effect _ _ _)).trans
      (Server.SameAccess.withRevision _ _ _)
  · rw [htokens]
    exact h.tokens
  · rw [htokens]
    exact h.sealed

/-- A rotation seals the new key to every active token. -/
theorem Shared.Tokened.rotated (Gr : Grounded S d G) (h : s₇.Tokened S)
    (hrot : Rotated S d G s l s₁ s₂ s₇ revision keySeed access orgId rotation v l₇) :
    (afterRotation S s₇ access orgId rotation).Tokened S := by
  have hkeys := (hrot.rekeyed Gr).keys
  obtain ⟨tokenSeed, machineGrants, req, s₃, h₃, h₃₇, hregrant, hreq, hdecode⟩ := hrot.tokens
  have haccepted := Server.rotateTx_eq_ok (Server.commit_run hrot.committed.result)
  obtain ⟨hform, rfl⟩ := Server.decodeRotation_eq_ok_iff.1 hdecode
  -- the tokens were read at the revision at which the rotation was accepted
  have hdb : s₇.db = s₃.db := by
    obtain ⟨env, henv, hrev⟩ := haccepted.base
    rw [hrot.baseRevision] at hrev
    obtain ⟨_, _, _, hfetch, _⟩ := hrot.fetched
    have hbetween := (Gr.later hfetch.between).toEvolves.trans (Gr.later h₃).toEvolves
    exact (hbetween.eq_between (Gr.later h₃₇).toEvolves hfetch.revision ⟨env, henv, hrev⟩).2.1
  have hresult : (afterRotation S s₇ access orgId (Server.opened req)).db = _ := haccepted.result
  refine ⟨?_, ?_, ?_⟩
  · rw [hresult]
    exact h.access.trans ⟨rfl, rfl, rfl, rfl, fun envId => by
      rw [Table.lookup_modify]
      split
      · rw [Option.map_map]
        rfl
      · rfl⟩
  · intro id
    rw [hresult]
    exact (Server.identity_resealTokens _ _ _ id).trans (h.tokens id)
  · intro id t' ht' henv hactive
    rw [hresult] at ht'
    have hidentity := Server.identity_resealTokens S.envId (Server.opened req).machineGrants
      s₇.db.machineTokens id
    rw [show (Server.resealTokens _ _ _).lookup id = some t' from ht'] at hidentity
    obtain ⟨t, ht, heq⟩ := Option.map_eq_some_iff.1 hidentity.symm
    simp only [Server.MachineToken.identity, Prod.mk.injEq] at heq
    obtain ⟨henv', hpublic, hrevoked⟩ := heq
    rw [henv] at henv'
    rw [hactive] at hrevoked
    have hinfo : (⟨id, Server.encode t.publicKey⟩ : Api.MachineTokenInfo) ∈ tokensOf S s₃ := by
      refine List.mem_map.2 ⟨(id, t), Server.mem_activeTokensOf.2 ?_, rfl⟩
      rw [← hdb]
      exact ⟨ht, henv', hrevoked⟩
    obtain ⟨publicKey, ephemeral, hkey, hmem⟩ := regrantTokens_eq_ok hregrant _ hinfo
    cases hkey
    have hentry : (id, Bytes.sealedBox t.publicKey ephemeral (.random keySeed 0)) ∈
        (Server.opened req).machineGrants := by
      simp only [Server.opened, List.mem_map]
      exact ⟨_, hreq ▸ hmem, rfl⟩
    have hnodup : ((Server.opened req).machineGrants.map Prod.fst).Nodup := by
      simpa [Server.opened, Function.comp_def] using hform.tokens
    have hlookup := Server.lookup_resealTokens hnodup hentry ht henv'
    rw [show (Server.resealTokens _ _ _).lookup id = some t' from ht'] at hlookup
    obtain rfl := Option.some.inj hlookup
    exact ⟨_, ephemeral, by rw [hkeys]; rfl, rfl⟩

end Rounds

theorem tokened_layer {S : Setup} :
    Layer S (base S) (tokenedExtension S) (fun _ _ _ _ _ => True) where
  guar_refl := fun _ _ _ _ => trivial
  start := fun _ _ _ _ _ _ => trivial
  later := fun _ _ _ _ _ => trivial
  set := fun _ _ hi _ _ => ⟨trivial, ⟨hi.2.access, hi.2.tokens, hi.2.sealed⟩, trivial⟩
  delete := fun _ _ _ _ _ _ _ => trivial
  ended := fun _ _ _ _ => trivial
  pulled := fun _ _ _ _ _ => trivial
  retried := fun _ _ _ _ => trivial
  wrote := fun _ _ hwrote => ⟨trivial, hwrote.inv₄.2.wrote hwrote⟩
  pushed := fun _ _ _ _ => trivial
  rotated := fun _ _ _ _ hrot =>
    ⟨trivial, hrot.inv₇.2.rotated (tokened_grounded _) hrot, trivial⟩
  finish := fun _ _ _ _ _ => trivial
  idle_stable := fun _ _ _ _ _ => trivial

theorem tokened_valid {S : Setup} : (tokened S).Valid :=
  tokened_layer.valid (faithful_system S) base_grounded (fun h => h) base_valid (le_anyRun _)

theorem tokened_init {S : Setup} (h : S.TokensSealed) : (tokened S).Good S.init where
  inv := by
    refine ⟨sound_init S, .refl _, fun _ => rfl, ?_⟩
    intro id t ht henv hactive
    obtain ⟨ephemeral, hkey⟩ := h id t ht henv hactive
    exact ⟨_, ephemeral, rfl, hkey⟩
  thread d := ⟨soundDevice_init S d, trivial⟩

/-! ### Reachable states -/

section Runs

variable {S : Setup} {w w' : Setup.World}

/-- What holds in every state that the devices reach. -/
theorem tokened_of_reaches (h : S.TokensSealed) (hw : S.system.Reaches S.init w) :
    w.shared.Sound S ∧ w.shared.Tokened S :=
  ((tokened_init h).reaches tokened_valid (grounded_reaches (reaches_anyRun hw))).inv

end Runs

end Sotto
