import Sotto.Cli.Contest
import Sotto.Properties.Retained
import Sotto.Team

/-!
# Rotations keep what the secrets say

A rotation rewraps the data keys of an environment while others write to it and rotate it. If it is
accepted, every secret and every retained version opens under the new vault key to what it opened to
under the old one just before, and no longer under the old one.
-/

namespace Sotto

open Core Cli Relation

/-! ### Rewrapped rows -/

/-- A row opens under the new vault key to what it opened to under the old one, and no longer under
the old one. -/
structure Rekeys (oldVault newVault : Bytes) (envId secretId : Ident) (version : Int)
    (encName encValue encDataKey encDataKey' : Bytes) : Prop where
  opens : Vault.decryptSecret newVault envId secretId version encName encValue encDataKey' =
    Vault.decryptSecret oldVault envId secretId version encName encValue encDataKey
  wrapped : ∃ dataKey, Vault.unwrapDataKey oldVault envId secretId version encDataKey = .ok dataKey
  closed : ∀ dataKey,
    Vault.unwrapDataKey oldVault envId secretId version encDataKey' ≠ .ok dataKey

/-- What a rotation makes of the secrets and the history of an environment. -/
structure PreservesPlaintext (envId : Ident) (oldVault newVault : Bytes)
    (before after : Server.Db) : Prop where
  secrets : ∀ id r', (id, r') ∈ after.secretsOf envId → ∃ r, (id, r) ∈ before.secretsOf envId ∧
    r' = { r with encDataKey := r'.encDataKey } ∧
    Rekeys oldVault newVault envId id r.version r.encName r.encValue r.encDataKey r'.encDataKey
  secretsKept : ∀ id r, (id, r) ∈ before.secretsOf envId → ∃ r', (id, r') ∈ after.secretsOf envId
  history : ∀ k v', (k, v') ∈ after.historyOf envId → ∃ v, (k, v) ∈ before.historyOf envId ∧
    v' = { v with encDataKey := v'.encDataKey } ∧
    Rekeys oldVault newVault envId k.1 k.2 v.encName v.encValue v.encDataKey v'.encDataKey
  historyKept : ∀ k v, (k, v) ∈ before.historyOf envId → ∃ v', (k, v') ∈ after.historyOf envId

section Rows

variable {oldVault newVault : Bytes} {envId : Ident}

theorem sealedKey_of_openVaultKey {keypair : Keypair} {grant vaultKey : Bytes}
    (h : Vault.openVaultKey keypair grant = .ok vaultKey) : sealedKey grant = some vaultKey := by
  cases grant with
  | sealedBox recipient ephemeral plaintext =>
      simp only [Vault.openVaultKey, Wrap.openSealed, bind, Except.bind] at h
      split at h
      · cases h
      · next opened hopen =>
          split at hopen
          · obtain rfl := Except.ok.inj hopen
            split at h
            · obtain rfl := Except.ok.inj h
              rfl
            · cases h
          · cases hopen
  | _ => cases h

theorem rekeys_of_rewrapDataKey {secretId : Ident} {version : Int}
    {encName encValue encDataKey encDataKey' : Bytes} {nonce : Seed × Nat}
    (hne : oldVault ≠ newVault)
    (h : Vault.rewrapDataKey nonce oldVault newVault envId secretId version encDataKey =
      .ok encDataKey') :
    Rekeys oldVault newVault envId secretId version encName encValue encDataKey encDataKey' := by
  cases hu : Vault.unwrapDataKey oldVault envId secretId version encDataKey with
  | error e =>
      simp only [Vault.rewrapDataKey, hu, bind, Except.bind] at h
      cases h
  | ok dataKey =>
      have hnew := Vault.unwrapDataKey_of_rewrap hu h
      refine ⟨?_, ⟨dataKey, hu⟩, fun dataKey' hold => hne ?_⟩
      · rw [Vault.decryptSecret, Vault.decryptSecret, hu, hnew]
      · obtain ⟨⟨n, hn⟩, -⟩ := Wrap.unwrapKey_eq_ok hnew
        obtain ⟨⟨n', hn'⟩, -⟩ := Wrap.unwrapKey_eq_ok hold
        rw [hn] at hn'
        injection hn' with hkey
        exact hkey.symm

section Commit

variable {seed seed' : Seed} {req : Api.RotateRequest} {rotation : Server.Rotation}
  {userId orgId : Ident} {access : Server.ProjectAccess} {v : Int} {db db₁ before after : Server.Db}

/-- The secrets after a rotation whose data keys were rewrapped from those of the same rows. -/
theorem lookup_rewrapped_secrets {dataKeys : List (Ident × Int × Base64)}
    (hkeys : rewrapKeys seed oldVault newVault envId 0
      ((db.secretsOf envId).map fun s => (s.1, s.2.version, Base64.valid s.2.encDataKey)) =
        .ok dataKeys)
    (hdecode : dataKeys.map (fun d => (d.1, d.2.2)) =
      rotation.dataKeys.map fun k => (k.1, Base64.valid k.2))
    (hsame : Server.SameEnvironment envId db before) {id : Ident} {r : Server.Secret}
    (hr : (id, r) ∈ before.secretsOf envId) : ∃ nonce key,
      Vault.rewrapDataKey nonce oldVault newVault envId id r.version r.encDataKey = .ok key ∧
      (Server.rewrapSecrets envId rotation.dataKeys before.secrets).lookup id =
        some { r with encDataKey := key } := by
  obtain ⟨hids, hmem⟩ := rewrapKeys_eq_ok hkeys
  obtain ⟨hlookup, henv⟩ := mem_secretsOf.1 hr
  have hdb : (id, r) ∈ db.secretsOf envId :=
    mem_secretsOf.2 ⟨(hsame.secrets id r henv).1 hlookup, henv⟩
  obtain ⟨nonce, wrapped, key, henc, hkey, hout⟩ := hmem id r.version (.valid r.encDataKey)
    (List.mem_map.2 ⟨(id, r), hdb, rfl⟩)
  obtain rfl := Base64.valid.inj henc
  have hin : (id, Base64.valid key) ∈ rotation.dataKeys.map fun k => (k.1, Base64.valid k.2) := by
    rw [← hdecode]
    exact List.mem_map.2 ⟨_, hout, rfl⟩
  obtain ⟨⟨id', key'⟩, hentry, heq⟩ := List.mem_map.1 hin
  cases heq
  have hnodup : (rotation.dataKeys.map Prod.fst).Nodup := by
    have hfst : rotation.dataKeys.map Prod.fst = (db.secretsOf envId).map Prod.fst := by
      have hd := congrArg (List.map Prod.fst) hdecode
      simp only [List.map_map, Function.comp_def] at hd hids
      rw [← hids]
      exact hd.symm
    rw [hfst]
    exact nodup_secretsOf db envId
  exact ⟨nonce, _, hkey, lookup_rewrapSecrets hnodup hentry hlookup henv⟩

/-- The history after a rotation whose data keys were rewrapped from those of the same rows. -/
theorem lookup_rewrapped_history {historyKeys : List (Ident × Int × Base64)}
    (hkeys : rewrapKeys seed oldVault newVault envId 0
      ((db.historyOf envId).map fun v => (v.1.1, v.1.2, Base64.valid v.2.encDataKey)) =
        .ok historyKeys)
    (hdecode : rotation.historyKeys =
      historyKeys.map fun h => ((h.1, h.2.1), Server.decoded h.2.2))
    (hnodup : (rotation.historyKeys.map Prod.fst).Nodup)
    (hsame : Server.SameEnvironment envId db before) {k : Ident × Int} {v : Server.SecretVersion}
    (hv : (k, v) ∈ before.historyOf envId) : ∃ nonce key,
      Vault.rewrapDataKey nonce oldVault newVault envId k.1 k.2 v.encDataKey = .ok key ∧
      (Server.rewrapHistory rotation.historyKeys before.secretVersions).lookup k =
        some { v with encDataKey := key } := by
  obtain ⟨-, hmem⟩ := rewrapKeys_eq_ok hkeys
  have hdb : (k, v) ∈ db.historyOf envId := (hsame.history (k, v)).1 hv
  obtain ⟨nonce, wrapped, key, henc, hkey, hout⟩ := hmem k.1 k.2 (.valid v.encDataKey)
    (List.mem_map.2 ⟨(k, v), hdb, rfl⟩)
  obtain rfl := Base64.valid.inj henc
  have hentry : (k, key) ∈ rotation.historyKeys := by
    rw [hdecode]
    exact List.mem_map.2 ⟨_, hout, rfl⟩
  exact ⟨nonce, key, hkey, Server.lookup_rewrapHistory_of_mem hnodup hentry
    (Server.mem_historyOf.1 hv).1⟩

/-- A rotation keeps the environments of the secrets. -/
theorem envId_rewrapSecrets {dataKeys : List (Ident × Bytes)}
    {secrets : Table Ident Server.Secret} (id : Ident) :
    ((Server.rewrapSecrets envId dataKeys secrets).lookup id).map Server.Secret.envId =
      (secrets.lookup id).map Server.Secret.envId :=
  Table.map_lookup_foldl_modify
    (f := fun (s : Server.Secret) (key : Bytes) =>
      if s.envId = envId then { s with encDataKey := key } else s)
    (by intro s key; split <;> rfl) dataKeys secrets id

theorem mem_secretsOf_rekeyed {id : Ident} (h : after = (before.rekeyed envId rotation).withRevision
    envId v) (hid : ∃ r', (id, r') ∈ after.secretsOf envId) :
    ∃ r, (id, r) ∈ before.secretsOf envId := by
  obtain ⟨r', hr'⟩ := hid
  obtain ⟨hlookup, henv⟩ := mem_secretsOf.1 hr'
  subst h
  have hkeep : ((Server.rewrapSecrets envId rotation.dataKeys before.secrets).lookup id).map
      Server.Secret.envId = (before.secrets.lookup id).map Server.Secret.envId :=
    envId_rewrapSecrets id
  change (Server.rewrapSecrets envId rotation.dataKeys before.secrets).lookup id = _ at hlookup
  rw [hlookup, Option.map_some] at hkeep
  obtain ⟨r, hr, heq⟩ := Option.map_eq_some_iff.1 hkeep.symm
  exact ⟨r, mem_secretsOf.2 ⟨hr, heq.trans henv⟩⟩

/-- The secrets and the history after a rotation that rewrapped those before it. -/
theorem preservesPlaintext_of_rotateTx {dataKeys historyKeys : List (Ident × Int × Base64)}
    (hne : oldVault ≠ newVault)
    (hdata : rewrapKeys seed oldVault newVault envId 0
      ((db.secretsOf envId).map fun s => (s.1, s.2.version, Base64.valid s.2.encDataKey)) =
        .ok dataKeys)
    (hhistory : rewrapKeys seed' oldVault newVault envId 0
      ((db₁.historyOf envId).map fun v => (v.1.1, v.1.2, Base64.valid v.2.encDataKey)) =
        .ok historyKeys)
    (hreq : req.dataKeys = dataKeys.map fun d => ⟨d.1, d.2.2⟩)
    (hreq' : req.historyKeys = historyKeys.map fun h => ⟨h.1, h.2.1, h.2.2⟩)
    (hdecode : Server.decodeRotation userId req = .ok rotation)
    (hafter : after = (before.rekeyed envId rotation).withRevision envId v)
    (hsame : Server.SameEnvironment envId db before)
    (hsame' : Server.SameEnvironment envId db₁ before) :
    PreservesPlaintext envId oldVault newVault before after := by
  have hdataKeys : dataKeys.map (fun d => (d.1, d.2.2)) =
      rotation.dataKeys.map fun k => (k.1, Base64.valid k.2) := by
    obtain ⟨-, -, hkeys, -⟩ := decodeRotation_eq_ok hdecode
    rw [← hkeys, hreq, List.map_map]
    rfl
  obtain ⟨hform, hopened⟩ := Server.decodeRotation_eq_ok_iff.1 hdecode
  have hhistoryKeys : rotation.historyKeys =
      historyKeys.map fun h => ((h.1, h.2.1), Server.decoded h.2.2) := by
    rw [hopened, Server.opened, hreq', List.map_map]
    rfl
  have hnodup : (rotation.historyKeys.map Prod.fst).Nodup := by
    rw [hopened, Server.opened, List.map_map]
    exact hform.history
  have hsecret : ∀ id r, (id, r) ∈ before.secretsOf envId → ∃ nonce key,
      Vault.rewrapDataKey nonce oldVault newVault envId id r.version r.encDataKey = .ok key ∧
      after.secrets.lookup id = some { r with encDataKey := key } := by
    intro id r hr
    rw [hafter]
    exact lookup_rewrapped_secrets hdata hdataKeys hsame hr
  have hversion : ∀ k v, (k, v) ∈ before.historyOf envId → ∃ nonce key,
      Vault.rewrapDataKey nonce oldVault newVault envId k.1 k.2 v.encDataKey = .ok key ∧
      after.secretVersions.lookup k = some { v with encDataKey := key } := by
    intro k v hv
    rw [hafter]
    exact lookup_rewrapped_history hhistory hhistoryKeys hnodup hsame' hv
  have hold : ∀ id r', (id, r') ∈ after.secretsOf envId → ∃ r, (id, r) ∈ before.secretsOf envId :=
    fun id r' hr' => mem_secretsOf_rekeyed hafter ⟨r', hr'⟩
  have hkept : ∀ id r, (id, r) ∈ before.secretsOf envId →
      ∃ r', (id, r') ∈ after.secretsOf envId := by
    intro id r hr
    obtain ⟨_, key, -, hlookup⟩ := hsecret id r hr
    exact ⟨_, mem_secretsOf.2 ⟨hlookup, (mem_secretsOf.1 hr).2⟩⟩
  constructor
  · intro id r' hr'
    obtain ⟨r, hr⟩ := hold id r' hr'
    obtain ⟨nonce, key, hkey, hlookup⟩ := hsecret id r hr
    obtain rfl := Option.some.inj ((mem_secretsOf.1 hr').1.symm.trans hlookup)
    exact ⟨r, hr, rfl, rekeys_of_rewrapDataKey hne hkey⟩
  · exact hkept
  · intro k v' hv'
    obtain ⟨hlookup', secret', hsecret', henv'⟩ := Server.mem_historyOf.1 hv'
    obtain ⟨secret, hmem⟩ := hold k.1 secret' (mem_secretsOf.2 ⟨hsecret', henv'⟩)
    obtain ⟨hsec, henv⟩ := mem_secretsOf.1 hmem
    have hkeep := Table.map_lookup_foldl_modify
      (f := fun (v : Server.SecretVersion) (key : Bytes) => { v with encDataKey := key })
      (g := fun _ => ()) (fun _ _ => rfl) rotation.historyKeys before.secretVersions k
    have hrows : after.secretVersions =
        Server.rewrapHistory rotation.historyKeys before.secretVersions := by
      rw [hafter]
      rfl
    change ((Server.rewrapHistory rotation.historyKeys before.secretVersions).lookup k).map _ = _
      at hkeep
    rw [← hrows, hlookup', Option.map_some] at hkeep
    obtain ⟨v, hv, -⟩ := Option.map_eq_some_iff.1 hkeep.symm
    have hmemv : (k, v) ∈ before.historyOf envId := Server.mem_historyOf.2 ⟨hv, secret, hsec, henv⟩
    obtain ⟨nonce, key, hkey, hlookup⟩ := hversion k v hmemv
    obtain rfl := Option.some.inj (hlookup'.symm.trans hlookup)
    exact ⟨v, hmemv, rfl, rekeys_of_rewrapDataKey hne hkey⟩
  · intro k v hv
    obtain ⟨-, secret, hsec, henv⟩ := Server.mem_historyOf.1 hv
    obtain ⟨_, key, -, hlookup⟩ := hversion k v hv
    obtain ⟨secret', hmem⟩ := hkept k.1 secret (mem_secretsOf.2 ⟨hsec, henv⟩)
    obtain ⟨hsec', henv'⟩ := mem_secretsOf.1 hmem
    exact ⟨_, Server.mem_historyOf.2 ⟨hlookup, secret', hsec', henv'⟩⟩

end Commit

end Rows

/-! ### The grants after a rotation -/

section Grants

variable {envId userId u : Ident} {revoke : Option Ident} {seed : Seed} {newVault : Bytes}
  {members : List Api.MemberInfo} {holders : List Ident} {req : Api.RotateRequest}
  {rotation : Server.Rotation} {db : Server.Db} {v : Int}

/-- The grants after a rotation. -/
theorem lookup_regranted {grant : Bytes}
    (hgrants : regrant seed newVault members revoke 0 holders = .ok req.grants)
    (hdecode : Server.decodeRotation userId req = .ok rotation)
    (h : ((db.rekeyed envId rotation).withRevision envId v).grants.lookup (envId, u) =
      some grant) : u ∈ holders ∧ some u ≠ revoke ∧ ∃ m publicKey ephemeral,
      members.find? (fun m => m.userId = u) = some m ∧ m.publicKey = some (.valid publicKey) ∧
      grant = .sealedBox publicKey ephemeral newVault := by
  obtain ⟨-, hentries, -, -⟩ := decodeRotation_eq_ok hdecode
  have hentry : (u, Base64.valid grant) ∈ req.grants.map fun g => (g.userId, g.encVaultKey) := by
    rw [hentries]
    exact List.mem_map.2 ⟨(u, grant), lookup_replaceGrants h, rfl⟩
  obtain ⟨g, hg, heq⟩ := List.mem_map.1 hentry
  obtain rfl : g.userId = u := congrArg Prod.fst heq
  obtain ⟨hholder, hrevoke, m, publicKey, ephemeral, hfind, hkey, hvalue⟩ :=
    mem_regrant hgrants g hg
  refine ⟨hholder, hrevoke, m, publicKey, ephemeral, hfind, hkey, ?_⟩
  exact Base64.valid.inj ((congrArg Prod.snd heq).symm.trans hvalue)

theorem isSome_lookup_regranted
    (hgrants : regrant seed newVault members revoke 0 holders = .ok req.grants)
    (hdecode : Server.decodeRotation userId req = .ok rotation) (hholder : u ∈ holders)
    (hrevoke : some u ≠ revoke) (hmember : members.find? (fun m => m.userId = u) ≠ none) :
    (((db.rekeyed envId rotation).withRevision envId v).grants.lookup (envId, u)).isSome := by
  obtain ⟨-, hentries, -, -⟩ := decodeRotation_eq_ok hdecode
  obtain ⟨g, hg, huser⟩ := exists_mem_regrant hgrants hholder hrevoke hmember
  have hentry : (g.userId, g.encVaultKey) ∈
      rotation.grants.map fun g => (g.1, Base64.valid g.2) := by
    rw [← hentries]
    exact List.mem_map.2 ⟨g, hg, rfl⟩
  obtain ⟨g', hg', heq⟩ := List.mem_map.1 hentry
  exact isSome_lookup_replaceGrants ⟨g', hg', (congrArg Prod.fst heq).trans huser⟩

end Grants

/-! ### The rounds of a rotation -/

namespace Contested

open Prog

/-- The accepted round of a rotation, from the grant to the answer. -/
inductive Round (step : Contested → Contested → Prop) (api : HttpClient) (keypair : Keypair)
    (envId : Ident) (revoke : Option Ident) (members : List Api.MemberInfo) (s' : Contested)
    (revision : Int) : Prop
  | intro {t t₁ t₂ t₃ t₄ t₅ t₆ t₇ t₈ t₉ t₁₀ t₁₁ : Contested} {oldGrantB64 : Base64}
      {oldGrant oldVault : Bytes} {keySeed secretSeed historySeed grantSeed tokenSeed : Seed}
      {snapshot : Api.Snapshot} {history : List Api.HistoryRow} {holders : List Ident}
      {tokens : List Api.MachineTokenInfo} {dataKeys historyKeys : List (Ident × Int × Base64)}
      {req : Api.RotateRequest}
      (getGrant : Acts step (api.getGrant envId) t t₁ (.ok (some oldGrantB64)))
      (decode : b64decode oldGrantB64 = .ok oldGrant)
      (openVault : Vault.openVaultKey keypair oldGrant = .ok oldVault)
      (key : Acts step Action.fresh t₁ t₂ (.ok keySeed))
      (secretNonces : Acts step Action.fresh t₂ t₃ (.ok secretSeed))
      (historyNonces : Acts step Action.fresh t₃ t₄ (.ok historySeed))
      (grantNonces : Acts step Action.fresh t₄ t₅ (.ok grantSeed))
      (tokenNonces : Acts step Action.fresh t₅ t₆ (.ok tokenSeed))
      (fullSnapshot : Acts step (fullSnapshot api envId) t₆ t₇ (.ok snapshot))
      (rewrapSecrets : rewrapKeys secretSeed oldVault (Vault.generateVaultKey keySeed) envId 0
        (snapshot.secrets.map fun s => (s.id, s.version, s.encDataKey)) = .ok dataKeys)
      (listHistory : Acts step (api.listHistory envId) t₇ t₈ (.ok history))
      (rewrapHistory : rewrapKeys historySeed oldVault (Vault.generateVaultKey keySeed) envId 0
        (history.map fun h => (h.secretId, h.version, h.encDataKey)) = .ok historyKeys)
      (listGrantHolders : Acts step (api.listGrantHolders envId) t₈ t₉ (.ok holders))
      (regrant : regrant grantSeed (Vault.generateVaultKey keySeed) members revoke 0 holders =
        .ok req.grants)
      (listMachineTokens : Acts step (api.listMachineTokens envId) t₉ t₁₀ (.ok tokens))
      (baseRevision : req.baseRevision = snapshot.revision)
      (secretKeys : req.dataKeys = dataKeys.map fun d => ⟨d.1, d.2.2⟩)
      (versionKeys : req.historyKeys = historyKeys.map fun h => ⟨h.1, h.2.1, h.2.2⟩)
      (rotate : Acts step (api.rotate envId req) t₁₀ t₁₁ (.ok revision))
      (answered : ReflTransGen step t₁₁ s')

/-- A rotation that returns a revision ends with an accepted round. -/
theorem round_of_rotateLoop {step : Contested → Contested → Prop} {api : HttpClient}
    {keypair : Keypair} {envId : Ident} {revoke : Option Ident} {members : List Api.MemberInfo}
    {s s' : Contested} {revision : Int} {attempts : Nat}
    (h : Acts step (rotateLoop api keypair envId revoke members attempts) s s'
      (.ok (some revision))) : Round step api keypair envId revoke members s' revision := by
  induction attempts generalizing s with
  | zero => exact (amidE_throw_eq_ok.1 h).elim
  | succ attempts ih =>
      rw [rotateLoop] at h
      obtain ⟨t₁, grant, hgrant, h⟩ := amidE_bind_eq_ok.1 h
      cases grant with
      | none => cases (amidE_pure_eq_ok.1 h).2
      | some oldGrantB64 =>
          obtain ⟨t₂, oldGrant, hdecode, h⟩ := amidE_bind_eq_ok.1 h
          obtain ⟨ht₂, hdecode⟩ := acts_ofExcept hdecode
          obtain ⟨t₃, oldVault, hopen, h⟩ := amidE_bind_eq_ok.1 h
          obtain ⟨ht₃, hopen⟩ := acts_ofExcept hopen
          obtain ⟨t₄, keySeed, hkey, h⟩ := amidE_bind_eq_ok.1 h
          obtain ⟨t₅, secretSeed, hsecretSeed, h⟩ := amidE_bind_eq_ok.1 h
          obtain ⟨t₆, historySeed, hhistorySeed, h⟩ := amidE_bind_eq_ok.1 h
          obtain ⟨t₇, grantSeed, hgrantSeed, h⟩ := amidE_bind_eq_ok.1 h
          obtain ⟨t₈, tokenSeed, htokenSeed, h⟩ := amidE_bind_eq_ok.1 h
          obtain ⟨t₉, snapshot, hsnapshot, h⟩ := amidE_bind_eq_ok.1 h
          obtain ⟨t₁₀, dataKeys, hdataKeys, h⟩ := amidE_bind_eq_ok.1 h
          obtain ⟨ht₁₀, hdataKeys⟩ := acts_ofExcept hdataKeys
          obtain ⟨t₁₁, history, hhistory, h⟩ := amidE_bind_eq_ok.1 h
          obtain ⟨t₁₂, historyKeys, hhistoryKeys, h⟩ := amidE_bind_eq_ok.1 h
          obtain ⟨ht₁₂, hhistoryKeys⟩ := acts_ofExcept hhistoryKeys
          obtain ⟨t₁₃, holders, hholders, h⟩ := amidE_bind_eq_ok.1 h
          obtain ⟨t₁₄, grants, hgrants, h⟩ := amidE_bind_eq_ok.1 h
          obtain ⟨ht₁₄, hgrants⟩ := acts_ofExcept hgrants
          obtain ⟨t₁₅, tokens, htokens, h⟩ := amidE_bind_eq_ok.1 h
          obtain ⟨t₁₆, machineGrants, hmachineGrants, h⟩ := amidE_bind_eq_ok.1 h
          obtain ⟨ht₁₆, -⟩ := acts_ofExcept hmachineGrants
          obtain ⟨t₁₇, response, hrotate, h⟩ := amidE_bind_eq_ok.1 h
          have hrotate := amidE_lift_eq_ok.1 hrotate
          cases response with
          | error e =>
              cases e with
              | conflict m => exact ih h
              | _ => exact (amidE_throw_eq_ok.1 h).elim
          | ok v =>
              obtain ⟨hanswer, heq⟩ := amidE_pure_eq_ok.1 h
              obtain rfl := Option.some.inj heq
              -- the client's own computations take no step of their own
              exact .intro hgrant hdecode (Cli.Error.ofCore_eq_ok.1 hopen)
                (hkey.before (ht₂.trans ht₃)) hsecretSeed hhistorySeed hgrantSeed htokenSeed
                hsnapshot hdataKeys (hhistory.before ht₁₀) hhistoryKeys (hholders.before ht₁₂)
                hgrants (htokens.before ht₁₄) rfl rfl rfl (hrotate.before ht₁₆) hanswer

end Contested

/-! ### What a rotation reads -/

namespace Contested

open Prog

section Requests

variable {envId : Ident} {api : HttpClient} {s s' : Contested}

/-- A grant that is answered is stored at a moment. -/
theorem acts_getGrant {value : Base64}
    (h : Acts Contends (api.getGrant envId) s s' (.ok (some value))) :
    ∃ e ∈ s'.executed, ∃ grant, e.before.grants.lookup (envId, api.userId) = some grant ∧
      value = .valid grant := by
  obtain ⟨s₁, response, hsend, h⟩ := amidE_bind_eq_ok.1 (acts_http h)
  cases response with
  | error e =>
      cases e with
      | notFound m => cases (amidE_pure_eq_ok.1 h).2
      | _ => exact (amidE_throw_eq_ok.1 h).elim
  | ok b =>
      obtain ⟨hs, heq⟩ := amidE_pure_eq_ok.1 h
      obtain rfl : b = value := Option.some.inj heq
      obtain ⟨s₂, _, _, h⟩ := amidE_bind_eq_ok.1 (serves_send hsend)
      obtain ⟨s₃, row, hrow, h⟩ := amidE_bind_eq_ok.1 h
      obtain ⟨s₄, -, hread, -, hmem⟩ := serves_query envId rfl hrow
      cases row with
      | none => exact (amidE_throw_eq_ok.1 h).elim
      | some grant =>
          obtain ⟨hs', rfl⟩ := amidE_pure_eq_ok.1 h
          have hlater : Leads envId s₃ s' := leads_of_steps (hs'.trans hs)
          exact ⟨_, hlater.executed hmem, grant, Except.ok.inj hread, rfl⟩

/-- The revision of a snapshot is read before its rows. -/
theorem acts_fullSnapshot {snapshot : Api.Snapshot}
    (h : Acts Contends (fullSnapshot api envId) s s' (.ok snapshot)) :
    ∃ s₁ s₂, Leads envId s s₁ ∧ s₁.db.revisionOf envId = some snapshot.revision ∧
      Leads envId s₁ s₂ ∧ snapshot.secrets = (s₂.db.secretsOf envId).map Server.secretView ∧
      Leads envId s₂ s' := by
  obtain ⟨t, answer, hanswer, h⟩ := amidE_bind_eq_ok.1 h
  cases answer with
  | none => exact (amidE_throw_eq_ok.1 h).elim
  | some found =>
      obtain ⟨hs, rfl⟩ := amidE_pure_eq_ok.1 h
      obtain ⟨t₁, _, haccess, h⟩ := amidE_bind_eq_ok.1 (serves_request (acts_http hanswer))
      obtain ⟨t₀, hleads₀, -, hleads₁, -⟩ := serves_query envId rfl haccess
      obtain ⟨t₂, revision, hrevision, h⟩ := amidE_bind_eq_ok.1 h
      obtain ⟨t₃, env, henv, hrevision⟩ := amidE_bind_eq_ok.1 hrevision
      obtain ⟨s₁, hleads₂, hread, hleads₃, -⟩ := serves_query envId rfl henv
      have henv : s₁.db.environments.lookup envId = env := Except.ok.inj hread
      cases env with
      | none => exact (amidE_throw_eq_ok.1 hrevision).elim
      | some env =>
          obtain ⟨hs₁, rfl⟩ := amidE_pure_eq_ok.1 hrevision
          have h : Serves Contends (do
              let rows ← Server.Database.perform (.selectSecrets envId)
              return some ⟨env.revision, rows.map Server.secretView⟩ :
                Handler (Option Api.Snapshot)) t₂ t (.ok (some found)) := h
          obtain ⟨t₄, rows, hrows, h⟩ := amidE_bind_eq_ok.1 h
          obtain ⟨s₂, hleads₄, hread', hleads₅, -⟩ := serves_query envId rfl hrows
          obtain ⟨hs₂, heq⟩ := amidE_pure_eq_ok.1 h
          obtain rfl := Option.some.inj heq
          obtain rfl := Except.ok.inj hread'
          refine ⟨s₁, s₂, hleads₀.trans (hleads₁.trans hleads₂), ?_,
            hleads₃.trans ((leads_of_steps hs₁).trans hleads₄), rfl,
            hleads₅.trans (leads_of_steps (hs₂.trans hs))⟩
          rw [Server.Db.revisionOf, henv]
          rfl

theorem acts_listHistory {history : List Api.HistoryRow}
    (h : Acts Contends (api.listHistory envId) s s' (.ok history)) :
    ∃ s₁, Leads envId s s₁ ∧ history.map (fun h => (h.secretId, h.version, h.encDataKey)) =
        (s₁.db.historyOf envId).map (fun v => (v.1.1, v.1.2, Server.encode v.2.encDataKey)) ∧
      Leads envId s₁ s' := by
  obtain ⟨t₁, _, haccess, h⟩ := amidE_bind_eq_ok.1 (serves_request (acts_http h))
  obtain ⟨t₀, hleads₀, -, hleads₁, -⟩ := serves_query envId rfl haccess
  obtain ⟨t₂, rows, hrows, h⟩ := amidE_bind_eq_ok.1 h
  obtain ⟨s₁, hleads₂, hread, hleads₃, -⟩ := serves_query envId rfl hrows
  obtain ⟨hs, rfl⟩ := amidE_pure_eq_ok.1 h
  obtain rfl := Except.ok.inj hread
  refine ⟨s₁, hleads₀.trans (hleads₁.trans hleads₂), ?_, hleads₃.trans (leads_of_steps hs)⟩
  rw [List.map_map]
  rfl

theorem acts_listGrantHolders {holders : List Ident}
    (h : Acts Contends (api.listGrantHolders envId) s s' (.ok holders)) : Leads envId s s' := by
  obtain ⟨t₁, _, haccess, h⟩ := amidE_bind_eq_ok.1 (serves_request (acts_http h))
  obtain ⟨t₀, hleads₀, -, hleads₁, -⟩ := serves_query envId rfl haccess
  obtain ⟨t₂, _, hrequire, h⟩ := amidE_bind_eq_ok.1 h
  obtain ⟨t₃, hleads₂, -, hleads₃, -⟩ := serves_query envId rfl h
  exact (hleads₀.trans hleads₁).trans ((serves_require hrequire).trans (hleads₂.trans hleads₃))

theorem acts_listMachineTokens {tokens : List Api.MachineTokenInfo}
    (h : Acts Contends (api.listMachineTokens envId) s s' (.ok tokens)) : Leads envId s s' := by
  obtain ⟨t₁, _, haccess, h⟩ := amidE_bind_eq_ok.1 (serves_request (acts_http h))
  obtain ⟨t₀, hleads₀, -, hleads₁, -⟩ := serves_query envId rfl haccess
  obtain ⟨t₂, _, hrequire, h⟩ := amidE_bind_eq_ok.1 h
  obtain ⟨t₃, rows, hrows, h⟩ := amidE_bind_eq_ok.1 h
  obtain ⟨t₄, hleads₂, -, hleads₃, -⟩ := serves_query envId rfl hrows
  exact (hleads₀.trans hleads₁).trans ((serves_require hrequire).trans
    (hleads₂.trans (hleads₃.trans (leads_of_steps (amidE_pure_eq_ok.1 h).1))))

/-- A rotation that is answered was accepted at a moment. -/
theorem acts_rotate {req : Api.RotateRequest} {v : Int}
    (h : Acts Contends (api.rotate envId req) s s' (.ok v)) :
    ∃ s₁ access orgId rotation, Leads envId s s₁ ∧
      Server.decodeRotation api.userId req = .ok rotation ∧
      (⟨.rotate access envId orgId rotation, s₁.db⟩ : Executed) ∈ s'.executed ∧
      (Server.rotateTx access envId orgId rotation).run s₁.db =
        .ok (v, (⟨.rotate access envId orgId rotation, s₁.db⟩ : Executed).after) := by
  obtain ⟨t₁, ⟨_, access⟩, haccess, h⟩ := amidE_bind_eq_ok.1 (serves_request (acts_http h))
  obtain ⟨t₀, hleads₀, -, hleads₁, -⟩ := serves_query envId rfl haccess
  obtain ⟨t₂, _, hmanage, h⟩ := amidE_bind_eq_ok.1 h
  obtain ⟨hleads₂, -⟩ := serves_check envId hmanage
  obtain ⟨t₃, orgId, horg, h⟩ := amidE_bind_eq_ok.1 h
  obtain ⟨t₄, hleads₃, -, hleads₄, -⟩ := serves_query envId rfl horg
  cases orgId with
  | none => exact (amidE_throw_eq_ok.1 h).elim
  | some orgId =>
      obtain ⟨t₅, rotation, hdecode, h⟩ := amidE_bind_eq_ok.1 h
      obtain ⟨hleads₅, hdecode⟩ := serves_check envId hdecode
      have h : ((Prog.perform (Cmd.server (.rotate access envId orgId rotation))).expand
        Prog.perform).Amid Contends Executes t₅ s' (.ok v) := h
      rw [expand_perform] at h
      obtain ⟨s₁, s₂, hs, hexec, hs'⟩ := amid_perform.1 h
      have hlater : Leads envId s₂ s' := leads_of_steps hs'
      rcases hexec with ⟨hr, rfl⟩ | ⟨hr, -⟩
      · refine ⟨s₁, access, orgId, rotation, ?_, hdecode,
          hlater.executed List.mem_cons_self, Server.commit_run hr.symm⟩
        exact (hleads₀.trans hleads₁).trans (hleads₂.trans (hleads₃.trans (hleads₄.trans
          (hleads₅.trans (leads_of_steps hs)))))
      · cases hr

end Requests

/-! ### What a rotation issues -/

section Issued

variable {envId orgId userId : Ident} {api : HttpClient} {s s' : Contested}

/-- A call whose steps a rotation of an environment takes. -/
def IssuesCall (envId : Ident) (c : Cli.Call) : Prop := c.steps.Uses (Issues envId)

theorem uses_query {stmt : Server.Stmt} (h : stmt.isQuery) :
    Prog.UsesE (Issues envId) (Server.Database.perform stmt : Handler stmt.Reply) :=
  uses_perform (.inl h)

theorem issues_getGrant : IssuesCall envId (.http (.getGrant userId envId)) := by
  have hhandler : Prog.UsesE (Issues envId) (Server.getGrant userId envId : Handler Base64) := by
    refine Prog.UsesE.bind (uses_query rfl) fun _ => Prog.UsesE.bind (uses_query rfl) fun row => ?_
    cases row with
    | some grant => exact Prog.UsesE.pure _
    | none => exact Prog.UsesE.throw _
  refine Prog.UsesE.bind (uses_send trivial hhandler) fun response => ?_
  split
  · exact Prog.UsesE.pure _
  · exact Prog.UsesE.pure _
  · exact Prog.UsesE.throw _

theorem issues_snapshot : IssuesCall envId (.http (.snapshot userId envId none)) := by
  refine uses_request trivial (Prog.UsesE.bind (uses_query rfl) fun _ =>
    Prog.UsesE.bind (Prog.UsesE.bind (uses_query rfl) fun env => ?_) fun revision => ?_)
  · cases env with
    | some env => exact Prog.UsesE.pure _
    | none => exact Prog.UsesE.throw _
  · split
    · exact Prog.UsesE.pure _
    · exact Prog.UsesE.bind (uses_query rfl) fun _ => Prog.UsesE.pure _

theorem issues_listHistory : IssuesCall envId (.http (.listHistory userId envId)) :=
  uses_request trivial (Prog.UsesE.bind (uses_query rfl) fun _ =>
    Prog.UsesE.bind (uses_query rfl) fun _ => Prog.UsesE.pure _)

theorem issues_listMachineTokens : IssuesCall envId (.http (.listMachineTokens userId envId)) :=
  uses_request trivial (Prog.UsesE.bind (uses_query rfl) fun _ =>
    Prog.UsesE.bind uses_require fun _ =>
      Prog.UsesE.bind (uses_query rfl) fun _ => Prog.UsesE.pure _)

theorem issues_listMembers : IssuesCall envId (.http (.listMembers userId orgId)) :=
  uses_request trivial (Prog.UsesE.bind (uses_query rfl) fun _ =>
    Prog.UsesE.bind (uses_query rfl) fun _ => Prog.UsesE.pure _)

theorem issues_rotate (req : Api.RotateRequest) :
    IssuesCall envId (.http (.rotate userId envId req)) := by
  refine uses_request trivial (Prog.UsesE.bind (uses_query rfl) fun _ =>
    Prog.UsesE.bind uses_check fun _ => Prog.UsesE.bind (uses_query rfl) fun orgId => ?_)
  cases orgId with
  | none => exact Prog.UsesE.throw _
  | some orgId =>
      exact Prog.UsesE.bind uses_check fun _ => uses_perform (.inr ⟨_, _, _, rfl⟩)

theorem issues_rotateLoop {keypair : Keypair} {revoke : Option Ident}
    {members : List Api.MemberInfo} (attempts : Nat) :
    Prog.UsesE (IssuesCall envId) (rotateLoop api keypair envId revoke members attempts) := by
  have hfresh : Prog.UsesE (IssuesCall envId) Action.fresh :=
    uses_fresh (show (Prog.perform Cmd.fresh).Uses (Issues envId) from ⟨trivial, fun _ => trivial⟩)
  induction attempts with
  | zero => exact Prog.UsesE.throw _
  | succ attempts ih =>
      rw [rotateLoop]
      refine Prog.UsesE.bind (uses_http issues_getGrant) fun grant => ?_
      cases grant with
      | none => exact Prog.UsesE.pure _
      | some oldGrant =>
          refine Prog.UsesE.bind uses_ofExcept fun _ => Prog.UsesE.bind uses_ofExcept fun _ => ?_
          refine Prog.UsesE.bind hfresh fun _ => Prog.UsesE.bind hfresh fun _ =>
            Prog.UsesE.bind hfresh fun _ => Prog.UsesE.bind hfresh fun _ =>
            Prog.UsesE.bind hfresh fun _ => ?_
          refine Prog.UsesE.bind (Prog.UsesE.bind (uses_http issues_snapshot) fun snapshot => ?_)
            fun _ => ?_
          · cases snapshot with
            | some snapshot => exact Prog.UsesE.pure _
            | none => exact Prog.UsesE.throw _
          · refine Prog.UsesE.bind uses_ofExcept fun _ =>
              Prog.UsesE.bind (uses_http issues_listHistory) fun _ =>
              Prog.UsesE.bind uses_ofExcept fun _ =>
              Prog.UsesE.bind (uses_http (uses_listGrantHolders trivial (.inl rfl) (.inl rfl)))
                fun _ => Prog.UsesE.bind uses_ofExcept fun _ =>
              Prog.UsesE.bind (uses_http issues_listMachineTokens) fun _ =>
              Prog.UsesE.bind uses_ofExcept fun _ =>
              Prog.UsesE.bind (uses_attempt (uses_http (issues_rotate _))) fun response => ?_
            split
            · exact Prog.UsesE.pure _
            · exact ih
            · exact Prog.UsesE.throw _

theorem leads_of_acts {α : Type} {action : Action α} {result : Except Cli.Error α}
    (hp : Prog.UsesE (IssuesCall envId) action) (h : Acts Contends action s s' result) :
    Leads envId s s' :=
  leads_of_amid (Prog.Uses.expand hp fun _ hc => hc) h

theorem leads_of_rotate {req : Api.RotateRequest} {result : Except Cli.Error Int}
    (h : Acts Contends (api.rotate envId req) s s' result) : Leads envId s s' :=
  leads_of_acts (uses_http (issues_rotate req)) h

end Issued

/-! ### Rotations -/

/-- A rotation that was accepted as the statement `e`, from an old vault key that a grant of its
user sealed to a new one. -/
structure Rewrote (keypair : Keypair) (userId envId : Ident) (revision : Int) (s : Contested)
    (e : Executed) (oldVault newVault : Bytes) : Prop where
  executed : e ∈ s.executed
  commits : e.Commits envId revision
  granted : ∃ g ∈ s.executed, ∃ grant, g.before.grants.lookup (envId, userId) = some grant ∧
    Vault.openVaultKey keypair grant = .ok oldVault
  grants : ∀ u grant, e.after.grants.lookup (envId, u) = some grant →
    sealedKey grant = some newVault
  own : (e.after.grants.lookup (envId, userId)).isSome
  different : oldVault ≠ newVault
  plaintext : PreservesPlaintext envId oldVault newVault e.before e.after

section Rotations

variable {keypair : Keypair} {envId : Ident} {api : HttpClient} {oldVault newVault : Bytes}
  {members : List Api.MemberInfo} {revoke : Option Ident} {s s₁ s₂ s₃ s' : Contested} {v : Int}

/-- An accepted rotation that was built from a snapshot and a history. -/
theorem rewrote_of_rotate {secretSeed historySeed grantSeed : Seed} {req : Api.RotateRequest}
    {dataKeys historyKeys : List (Ident × Int × Base64)} {holders : List Ident}
    (hrevision : s₁.db.revisionOf envId = some req.baseRevision) (h₁ : Leads envId s₁ s₂)
    (hdata : rewrapKeys secretSeed oldVault newVault envId 0
      ((s₂.db.secretsOf envId).map fun s => (s.1, s.2.version, Base64.valid s.2.encDataKey)) =
        .ok dataKeys)
    (hdataKeys : req.dataKeys = dataKeys.map fun d => ⟨d.1, d.2.2⟩) (h₂ : Leads envId s₂ s₃)
    (hhistory : rewrapKeys historySeed oldVault newVault envId 0
      ((s₃.db.historyOf envId).map fun v => (v.1.1, v.1.2, Base64.valid v.2.encDataKey)) =
        .ok historyKeys)
    (hhistoryKeys : req.historyKeys = historyKeys.map fun h => ⟨h.1, h.2.1, h.2.2⟩)
    (hgrants : regrant grantSeed newVault members revoke 0 holders = .ok req.grants)
    (hne : oldVault ≠ newVault) (h₃ : Leads envId s₃ s)
    (h : Acts Contends (api.rotate envId req) s s' (.ok v))
    (hgranted : ∃ g ∈ s'.executed, ∃ grant,
      g.before.grants.lookup (envId, api.userId) = some grant ∧
        Vault.openVaultKey keypair grant = .ok oldVault) :
    ∃ e, Rewrote keypair api.userId envId v s' e oldVault newVault := by
  obtain ⟨t, access, orgId, rotation, hst, hdecode, hmem, hrun⟩ := acts_rotate h
  obtain ⟨⟨-, hbase, -⟩, -, hafter⟩ := Server.rotateTx_eq_ok_iff.1 hrun
  obtain ⟨hbaseRevision, -, -, hown⟩ := decodeRotation_eq_ok hdecode
  have hbase' : t.db.revisionOf envId = some req.baseRevision := by
    rw [hbase, hbaseRevision]
  -- nothing of the environment changed since the snapshot
  have hsame : Server.SameEnvironment envId s₂.db t.db :=
    (h₁.onward.same_between (h₂.trans (h₃.trans hst)).onward hrevision hbase').2
  have hsame' : Server.SameEnvironment envId s₃.db t.db :=
    ((h₁.trans h₂).onward.same_between (h₃.trans hst).onward hrevision hbase').2
  refine ⟨_, hmem, ⟨access, orgId, rotation, t.db, rfl, hrun⟩, hgranted, ?_, ?_, hne,
    preservesPlaintext_of_rotateTx hne hdata hhistory hdataKeys hhistoryKeys hdecode hafter hsame
      hsame'⟩
  · intro u grant hlookup
    rw [hafter] at hlookup
    obtain ⟨-, -, m, publicKey, ephemeral, -, -, rfl⟩ := lookup_regranted hgrants hdecode hlookup
    rfl
  · rw [hafter]
    exact isSome_lookup_replaceGrants hown

/-- A rotation that returns a revision was accepted with it. -/
theorem rewrote_of_round (h : Round Contends api keypair envId revoke members s' v) :
    ∃ e oldVault newVault, Rewrote keypair api.userId envId v s' e oldVault newVault := by
  obtain ⟨hgrant, hdecode, hopen, hkey, hsecretSeed, hhistorySeed, hgrantSeed, htokenSeed,
    hsnapshot, hdataKeys, hhistory, hhistoryKeys, hholders, hgrants, htokens, hrevision, hreq,
    hreq', hrotate, hanswer⟩ := h
  obtain ⟨g, hg, oldGrant, hstored, rfl⟩ := acts_getGrant hgrant
  obtain rfl := Except.ok.inj hdecode
  obtain ⟨hlater, hnew⟩ : Leads envId _ _ ∧ New _ _ := acts_fresh hkey
  obtain ⟨s₁, s₂, hs₁, hrevision', hs₂, hsecrets, hs₂'⟩ := acts_fullSnapshot hsnapshot
  obtain ⟨s₃, hs₃, hrows, hs₃'⟩ := acts_listHistory hhistory
  rw [hsecrets, List.map_map] at hdataKeys
  rw [hrows] at hhistoryKeys
  rw [← hrevision] at hrevision'
  have h₂ : Leads envId s₂ s₃ := hs₂'.trans hs₃
  have h₃ : Leads envId s₃ _ :=
    hs₃'.trans ((acts_listGrantHolders hholders).trans (acts_listMachineTokens htokens))
  have hdraws : Leads envId _ _ := (acts_fresh hsecretSeed).1.trans
    ((acts_fresh hhistorySeed).1.trans ((acts_fresh hgrantSeed).1.trans (acts_fresh htokenSeed).1))
  have hrotate' : Acts Contends (api.rotate envId _) _ s' (.ok v) := hrotate.after hanswer
  have hg' : g ∈ s'.executed :=
    ((hlater.trans (hdraws.trans (hs₁.trans (hs₂.trans (h₂.trans h₃))))).trans
      (leads_of_rotate hrotate')).executed hg
  obtain ⟨e, he⟩ := rewrote_of_rotate hrevision' hs₂ hdataKeys hreq h₂ hhistoryKeys hreq' hgrants
    (by
      rintro rfl
      exact hnew g hg _ (Table.mem_rows.2 hstored) (sealedKey_of_openVaultKey hopen))
    h₃ hrotate' ⟨g, hg', oldGrant, hstored, hopen⟩
  exact ⟨e, _, _, he⟩

end Rotations

end Contested

open Contested

/-- A rejected statement is not an accepted rotation. -/
theorem Executed.Rejected.not_commits {e : Executed} {envId : Ident} {revision : Int}
    (h : e.Rejected) : ¬ e.Commits envId revision := by
  rintro ⟨access, orgId, rotation, before, rfl, hrun⟩
  obtain ⟨error, herror⟩ := h
  simp only [Server.Stmt.exec, Server.commit, hrun] at herror
  cases herror

/-- A rotation among the writes of others. If it returns a revision, it was accepted at a moment as
a statement that keeps what every secret and every retained version says, under a new vault key
which all grants seal. Other statements of it, and rejected ones, change nothing. -/
theorem rotate_preserves_plaintext {api : HttpClient} {keypair : Keypair} {orgId envId : Ident}
    {revoke : Option Ident} {db : Server.Db} {s' : Contested}
    {result : Except Cli.Error (Option Int)}
    (h : Acts Contends (rotateEnv api keypair orgId envId revoke) ⟨db, []⟩ s' result) :
    (∀ revision, result = .ok (some revision) → ∃ e oldVault newVault,
      Rewrote keypair api.userId envId revision s' e oldVault newVault) ∧
    (∀ e ∈ s'.executed, e.after = e.before ∨ ∃ revision, e.Commits envId revision) ∧
    ∀ e ∈ s'.executed, e.Rejected → e.after = e.before := by
  have hleads : Leads envId ⟨db, []⟩ s' := by
    refine leads_of_acts ?_ h
    exact Prog.UsesE.bind (uses_http issues_listMembers) fun _ => issues_rotateLoop _
  have hchanged : ∀ e ∈ s'.executed, e.after = e.before ∨ ∃ revision, e.Commits envId revision := by
    intro e he
    rcases hleads.changed e he with hnil | hchanged
    · cases hnil
    · exact hchanged
  refine ⟨?_, hchanged, fun e he hrejected => ?_⟩
  · rintro revision rfl
    obtain ⟨s₁, members, -, hloop⟩ := Prog.amidE_bind_eq_ok.1 h
    exact rewrote_of_round (round_of_rotateLoop hloop)
  · rcases hchanged e he with hsame | ⟨revision, hcommits⟩
    · exact hsame
    · exact absurd hcommits hrejected.not_commits

namespace Team

/-- A database with a secret at two versions. -/
def twoVersions : Server.Db :=
  (setup.run (whole 0 (.set "X" value) ++ whole 0 .push ++ whole 1 .pull ++
    whole 1 (.set "X" (.raw "2".toUTF8)) ++ whole 1 .push) setup.init).shared.db

/-- A rotation of this database that nobody disturbs. -/
def rotateTwoVersions : Except Cli.Error (Option Int) × Contested :=
  ((rotateEnv ⟨alice⟩ (keypair alice) orgId envId none).run.expand Call.steps).run unhindered
    ⟨twoVersions, []⟩

end Team

set_option maxRecDepth 10000 in
/-- An accepted rotation of a secret at two versions. -/
theorem rotate_preserves_plaintext_twice : ∃ e oldVault newVault,
    Team.twoVersions.secretVersions.rows.length = 2 ∧
      Rewrote (Team.keypair Team.alice) Team.alice Team.envId 3 Team.rotateTwoVersions.2 e oldVault
        newVault := by
  have hresult : Team.rotateTwoVersions.1 = .ok (some 3) := by decide +kernel
  have hrows : Team.twoVersions.secretVersions.rows.length = 2 := by decide +kernel
  have hacts : Acts Contends
      (rotateEnv ⟨Team.alice⟩ (Team.keypair Team.alice) Team.orgId Team.envId none)
      ⟨Team.twoVersions, []⟩ Team.rotateTwoVersions.2 Team.rotateTwoVersions.1 :=
    Prog.amid_run (fun c s => ⟨s, .refl, executes_unhindered c s⟩) _ _
  obtain ⟨e, oldVault, newVault, hrewrote⟩ := (rotate_preserves_plaintext hacts).1 3
    hresult
  exact ⟨e, oldVault, newVault, hrows, hrewrote⟩

end Sotto
