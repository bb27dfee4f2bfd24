import Sotto.Base.Layer
import Sotto.Properties.AccountReset
import Sotto.Properties.Environments
import Sotto.Properties.Keyed
import Sotto.Properties.Rotation
import Sotto.Properties.Settable

/-!
# The history of the server

The history has a row for the current version of every secret, with its name and its value. Whatever
requests run side by side, a row of the history is kept, and only its data key changes. Where the
clients are honest and adopt a grant only when they have nothing ahead of the server, the row's data
key opens under the current vault key to that of the secret.
-/

namespace Sotto

open Core

namespace Server

open Api

/-- The history has the name and the value of every secret at its version. -/
def Retains (db : Db) : Prop :=
  ∀ id r, db.secrets.lookup id = some r → ∃ v, db.secretVersions.lookup (id, r.version) = some v ∧
    v.encName = r.encName ∧ v.encValue = r.encValue

/-- Every row of the history is kept with its name and its value. -/
def KeepsHistory (db db' : Db) : Prop :=
  ∀ k v, db.secretVersions.lookup k = some v → ∃ v', db'.secretVersions.lookup k = some v' ∧
    v'.encName = v.encName ∧ v'.encValue = v.encValue

theorem KeepsHistory.refl (db : Db) : KeepsHistory db db :=
  fun _ v hv => ⟨v, hv, rfl, rfl⟩

theorem KeepsHistory.trans {db db' db'' : Db} (h : KeepsHistory db db')
    (h' : KeepsHistory db' db'') : KeepsHistory db db'' := by
  intro k v hv
  obtain ⟨v', hv', hname, hvalue⟩ := h k v hv
  obtain ⟨v'', hv'', hname', hvalue'⟩ := h' k v' hv'
  exact ⟨v'', hv'', hname'.trans hname, hvalue'.trans hvalue⟩

/-! ### Batches -/

section Batches

variable {envId : Ident} {changes : List SecretChange} {db : Db}

/-- A batch appends to the history. -/
theorem lookup_foldl_secretVersions (h : Admissible envId changes db) {k : Ident × Int}
    {v : SecretVersion} (hv : db.secretVersions.lookup k = some v) :
    (changes.foldl (effect envId) db).secretVersions.lookup k = some v := by
  induction changes generalizing db with
  | nil => exact hv
  | cons c changes ih =>
      obtain ⟨hc, hrest⟩ := admissible_cons.1 h
      refine ih hrest ?_
      rw [lookup_effect_secretVersions, if_neg, hv]
      rintro ⟨hset, rfl⟩
      have hfresh := hc.fresh hset
      rw [hv] at hfresh
      cases hfresh

/-- A secret after a batch was set by it, and is then in the history as it is, or it has the version
and the ciphertext that it had. -/
theorem foldl_effect_cases (h : Admissible envId changes db) {id : Ident} {r' : Secret}
    (hr' : (changes.foldl (effect envId) db).secrets.lookup id = some r') :
    (changes.foldl (effect envId) db).secretVersions.lookup (id, r'.version) =
        some ⟨r'.encName, r'.encValue, r'.encDataKey⟩ ∨
      ∃ r, db.secrets.lookup id = some r ∧ r'.version = r.version ∧ r'.encName = r.encName ∧
        r'.encValue = r.encValue ∧ r'.encDataKey = r.encDataKey := by
  induction changes generalizing db with
  | nil => exact .inr ⟨r', hr', rfl, rfl, rfl, rfl⟩
  | cons c changes ih =>
      obtain ⟨-, hrest⟩ := admissible_cons.1 h
      rcases ih hrest hr' with hset | ⟨r₁, hr₁, hversion, hname, hvalue, hkey⟩
      · exact .inl hset
      rw [lookup_effect_secrets] at hr₁
      split at hr₁
      · next hid =>
          subst hid
          cases hop : c.op with
          | set =>
              simp only [hop, Option.some.injEq] at hr₁
              subst hr₁
              left
              refine lookup_foldl_secretVersions hrest ?_
              rw [lookup_effect_secretVersions, if_pos ⟨hop, by rw [hversion]; rfl⟩, hname, hvalue,
                hkey]
              rfl
          | delete =>
              simp only [hop, Option.map_eq_some_iff] at hr₁
              obtain ⟨r, hr, rfl⟩ := hr₁
              right
              refine ⟨r, hr, ?_⟩
              rw [hversion, hname, hvalue, hkey]
              unfold deleteRow
              split <;> exact ⟨rfl, rfl, rfl, rfl⟩
      · exact .inr ⟨r₁, hr₁, hversion, hname, hvalue, hkey⟩

end Batches

/-! ### Rotations -/

section Rotations

variable {db db' : Db}

theorem rewrapSecrets_cases {envId : Ident} {dataKeys : List (Ident × Bytes)}
    {secrets : Table Ident Secret} {id : Ident} {r' : Secret}
    (h : (rewrapSecrets envId dataKeys secrets).lookup id = some r') :
    ∃ r, secrets.lookup id = some r ∧ r'.version = r.version ∧ r'.encName = r.encName ∧
      r'.encValue = r.encValue := by
  have hkeep := Table.map_lookup_foldl_modify
    (f := fun (s : Secret) (key : Bytes) =>
      if s.envId = envId then { s with encDataKey := key } else s)
    (g := fun s => (s.version, s.encName, s.encValue))
    (by intro s key; split <;> rfl) dataKeys secrets id
  change ((rewrapSecrets envId dataKeys secrets).lookup id).map _ = _ at hkeep
  rw [h] at hkeep
  obtain ⟨r, hr, heq⟩ := Option.map_eq_some_iff.1 hkeep.symm
  simp only [Prod.mk.injEq] at heq
  exact ⟨r, hr, heq.1.symm, heq.2.1.symm, heq.2.2.symm⟩

theorem lookup_rewrapHistory_of_mem {historyKeys : List ((Ident × Int) × Bytes)}
    (hnodup : (historyKeys.map Prod.fst).Nodup) {k : Ident × Int} {key : Bytes}
    (hmem : (k, key) ∈ historyKeys) {versions : Table (Ident × Int) SecretVersion}
    {v : SecretVersion} (hv : versions.lookup k = some v) :
    (rewrapHistory historyKeys versions).lookup k = some { v with encDataKey := key } := by
  have := Table.lookup_foldl_modify
    (fun (v : SecretVersion) (key : Bytes) => { v with encDataKey := key }) hnodup hmem versions
  rw [rewrapHistory, this, hv, Option.map_some]

theorem lookup_rewrapHistory {historyKeys : List ((Ident × Int) × Bytes)}
    {versions : Table (Ident × Int) SecretVersion} {k : Ident × Int} {v : SecretVersion}
    (hv : versions.lookup k = some v) :
    ∃ v', (rewrapHistory historyKeys versions).lookup k = some v' ∧ v'.encName = v.encName ∧
      v'.encValue = v.encValue := by
  have hkeep := Table.map_lookup_foldl_modify
    (f := fun (v : SecretVersion) (key : Bytes) => { v with encDataKey := key })
    (g := fun v => (v.encName, v.encValue)) (fun _ _ => rfl) historyKeys versions k
  change ((rewrapHistory historyKeys versions).lookup k).map _ = _ at hkeep
  rw [hv] at hkeep
  obtain ⟨v', hv', heq⟩ := Option.map_eq_some_iff.1 hkeep
  simp only [Prod.mk.injEq] at heq
  exact ⟨v', hv', heq.1, heq.2⟩

end Rotations

/-! ### Statements -/

/-- What a statement does to the secrets and to the history: a secret is in the history after it, or
has the version and the ciphertext that it had, and no row of the history is lost. -/
structure HistoryStep (db db' : Db) : Prop where
  secrets : ∀ id r', db'.secrets.lookup id = some r' →
    (∃ v, db'.secretVersions.lookup (id, r'.version) = some v ∧ v.encName = r'.encName ∧
      v.encValue = r'.encValue) ∨
    ∃ r, db.secrets.lookup id = some r ∧ r'.version = r.version ∧ r'.encName = r.encName ∧
      r'.encValue = r.encValue
  history : KeepsHistory db db'

namespace HistoryStep

variable {db db' : Db}

theorem of_tables (hs : db'.secrets = db.secrets) (hv : db'.secretVersions = db.secretVersions) :
    HistoryStep db db' := by
  constructor
  · intro id r hr
    rw [hs] at hr
    exact .inr ⟨r, hr, rfl, rfl, rfl⟩
  · intro k v h
    rw [← hv] at h
    exact ⟨v, h, rfl, rfl⟩

theorem of_commit {α : Type} {tx : Tx α}
    (h : ∀ a db', tx.run db = .ok (a, db') → HistoryStep db db') :
    HistoryStep db (commit tx db).2 := by
  unfold commit
  cases hr : tx.run db with
  | ok r => exact h r.1 r.2 hr
  | error e => exact of_tables rfl rfl

theorem retains (h : HistoryStep db db') (hdb : Retains db) : Retains db' := by
  intro id r' hr'
  rcases h.secrets id r' hr' with hset | ⟨r, hr, hversion, hname, hvalue⟩
  · exact hset
  · obtain ⟨v, hv, hvname, hvvalue⟩ := hdb id r hr
    obtain ⟨v', hv', hname', hvalue'⟩ := h.history _ v hv
    rw [hversion, hname, hvalue]
    exact ⟨v', hv', hname'.trans hvname, hvalue'.trans hvvalue⟩

theorem writeSecretsTx {access : ProjectAccess} {envId : Ident} {req : BatchRequest} {v : Int}
    (h : (writeSecretsTx access envId req).run db = .ok (v, db')) : HistoryStep db db' := by
  obtain ⟨⟨-, -, hadmits⟩, -, rfl⟩ := writeSecretsTx_eq_ok_iff.1 h
  constructor
  · intro id r' hr'
    rcases foldl_effect_cases hadmits hr' with hv | ⟨r, hr, hversion, hname, hvalue, -⟩
    · exact .inl ⟨_, hv, rfl, rfl⟩
    · exact .inr ⟨r, hr, hversion, hname, hvalue⟩
  · intro k v hv
    exact ⟨v, lookup_foldl_secretVersions hadmits hv, rfl, rfl⟩

theorem rotateTx {access : ProjectAccess} {envId orgId : Ident} {req : Rotation} {v : Int}
    (h : (rotateTx access envId orgId req).run db = .ok (v, db')) : HistoryStep db db' := by
  rw [(rotateTx_eq_ok h).result]
  exact ⟨fun _ _ hr' => .inr (rewrapSecrets_cases hr'), fun _ _ hv => lookup_rewrapHistory hv⟩

theorem updateAccount {userId : Ident} {account : Account} {u : Unit}
    (h : (updateAccount userId account).run db = .ok (u, db')) : HistoryStep db db' := by
  simp only [Server.updateAccount, Tx.bind_eq_ok, Tx.get_eq_ok] at h
  obtain ⟨_, _, ⟨rfl, rfl⟩, h⟩ := h
  split at h
  · obtain rfl := Tx.modify_eq_ok.1 h
    exact of_tables rfl rfl
  · cases Tx.throw_eq_ok.1 h

theorem insertProject {id ownerId : Ident} {orgId : Option Ident} {encName : Bytes} {b : Bool}
    (h : (insertProject id ownerId orgId encName).run db = .ok (b, db')) : HistoryStep db db' := by
  simp only [Server.insertProject, Tx.bind_eq_ok, Tx.get_eq_ok] at h
  obtain ⟨_, db₁, hq, _, _, ⟨rfl, rfl⟩, h⟩ := h
  obtain rfl := requireProjectQuota_eq_ok hq
  split at h
  · obtain ⟨-, rfl⟩ := Tx.pure_eq_ok.1 h
    exact of_tables rfl rfl
  · simp only [Tx.bind_eq_ok, Tx.modify_eq_ok, Tx.pure_eq_ok] at h
    obtain ⟨_, _, rfl, -, rfl⟩ := h
    exact of_tables rfl rfl

theorem insertEnvironment {access : ProjectAccess} {projectId userId id : Ident}
    {encName encVaultKey : Bytes} {b : Bool}
    (h : (insertEnvironment access projectId userId id encName encVaultKey).run db =
      .ok (b, db')) : HistoryStep db db' := by
  simp only [Server.insertEnvironment, Tx.bind_eq_ok, Tx.get_eq_ok] at h
  obtain ⟨_, db₁, haccess, _, _, ⟨rfl, rfl⟩, h⟩ := h
  obtain rfl := requireManageStructureTx_eq_ok haccess
  split at h
  · obtain ⟨-, rfl⟩ := Tx.pure_eq_ok.1 h
    exact of_tables rfl rfl
  · simp only [Tx.bind_eq_ok, Tx.modify_eq_ok, Tx.pure_eq_ok] at h
    obtain ⟨_, _, rfl, -, rfl⟩ := h
    exact of_tables rfl rfl

theorem resetAccountTx {userId : Ident} {account : Account} {u : Unit}
    (h : (resetAccountTx userId account).run db = .ok (u, db')) : HistoryStep db db' := by
  simp only [Server.resetAccountTx, Tx.bind_eq_ok, Tx.get_eq_ok, forM_requireWrite_eq_ok] at h
  obtain ⟨_, _, ⟨rfl, rfl⟩, _, _, ⟨-, rfl⟩, h⟩ := h
  split at h
  · obtain rfl := Tx.set_eq_ok.1 h
    exact of_tables rfl rfl
  · cases Tx.throw_eq_ok.1 h

theorem createGrantTx {access : ProjectAccess} {envId orgId userId : Ident} {encVaultKey : Bytes}
    {u : Unit} (h : (createGrantTx access envId orgId userId encVaultKey).run db = .ok (u, db')) :
    HistoryStep db db' := by
  simp only [Server.createGrantTx, Tx.bind_eq_ok, Tx.get_eq_ok, Tx.require_eq_ok,
    Tx.set_eq_ok] at h
  obtain ⟨_, _, haccess, _, _, ⟨rfl, rfl⟩, _, _, ⟨-, rfl⟩, _, _, ⟨-, rfl⟩, rfl⟩ := h
  obtain rfl := requireManageStructureTx_eq_ok haccess
  exact of_tables rfl rfl

/-- Every statement of every request keeps the history. -/
theorem exec (stmt : Stmt) (db : Db) : HistoryStep db (stmt.exec db).2 := by
  cases stmt with
  | updateAccount => exact of_commit fun _ _ h => updateAccount h
  | insertProject => exact of_commit fun _ _ h => insertProject h
  | insertEnvironment => exact of_commit fun _ _ h => insertEnvironment h
  | writeSecrets => exact of_commit fun _ _ h => writeSecretsTx h
  | rotate => exact of_commit fun _ _ h => rotateTx h
  | resetAccount => exact of_commit fun _ _ h => resetAccountTx h
  | createGrant => exact of_commit fun _ _ h => createGrantTx h
  | _ => exact of_tables rfl rfl

end HistoryStep

/-- In every run of any requests no row of the history is lost, and a history that has every secret
at its version still has. -/
theorem reaches_history {w w' : Hosting} (h : hosting.Reaches w w') :
    KeepsHistory w.shared w'.shared ∧ (Retains w.shared → Retains w'.shared) := by
  induction h with
  | refl => exact ⟨.refl _, id⟩
  | @tail w₁ w₂ _ hstep ih =>
      cases hstep with
      | start hr hs => exact ih
      | @call i op stmt k r db' l' hr he =>
          have hstmt := HistoryStep.exec stmt w₁.shared
          rw [show stmt.exec w₁.shared = (r, db') from he] at hstmt
          exact ⟨ih.1.trans hstmt.history, fun h => hstmt.retains (ih.2 h)⟩
      | finish hr hf => exact ih

/-- A request that a client sends runs to its end. -/
theorem reaches_request {w : Hosting} {i : Nat} (hidle : (w.threads i).running = none)
    (call : Call) : ∃ w', hosting.Reaches w w' ∧
      w'.shared = (call.handler.run.run Stmt.exec w.shared).2 ∧
      ∀ j, j ≠ i → w'.threads j = w.threads j := by
  have hrun : ∀ (p : Prog Stmt.Answer (Except Error Int)) (w : Hosting),
      (w.threads i).running = some (call, p) → ∃ w', hosting.Reaches w w' ∧
        w'.shared = (p.run Stmt.exec w.shared).2 ∧ ∀ j, j ≠ i → w'.threads j = w.threads j := by
    intro p
    induction p with
    | ret r => exact fun w _ => ⟨w, .refl, rfl, fun _ _ => rfl⟩
    | call stmt k ih =>
        intro w hr
        obtain ⟨w', hreaches, hshared, hothers⟩ := ih (stmt.exec w.shared).1
          ⟨(stmt.exec w.shared).2, Function.update w.threads i
            ⟨(), some (call, k (stmt.exec w.shared).1)⟩⟩ (by simp)
        refine ⟨w', .head (.call hr rfl) hreaches, hshared, fun j hj => ?_⟩
        rw [hothers j hj]
        exact Function.update_of_ne hj _ _
  obtain ⟨w', hreaches, hshared, hothers⟩ := hrun call.handler.run
    ⟨w.shared, Function.update w.threads i ⟨(), some (call, call.handler.run)⟩⟩ (by simp)
  refine ⟨w', .head (.start hidle trivial) hreaches, hshared, fun j hj => ?_⟩
  rw [hothers j hj]
  exact Function.update_of_ne hj _ _

end Server

/-! ### The devices -/

open Cli

theorem Core.Vault.unwrapDataKey_of_rewrap {vaultKey oldVaultKey newVaultKey encDataKey
    encDataKey' dataKey : Bytes} {envId secretId : Ident} {version : Int} {nonce : Seed × Nat}
    (h : Core.Vault.unwrapDataKey vaultKey envId secretId version encDataKey = .ok dataKey)
    (hr : Core.Vault.rewrapDataKey nonce oldVaultKey newVaultKey envId secretId version encDataKey =
      .ok encDataKey') :
    Core.Vault.unwrapDataKey newVaultKey envId secretId version encDataKey' = .ok dataKey := by
  obtain ⟨⟨n, hn⟩, hlen⟩ := Wrap.unwrapKey_eq_ok h
  simp only [Core.Vault.rewrapDataKey, bind, Except.bind] at hr
  cases hu : Core.Vault.unwrapDataKey oldVaultKey envId secretId version encDataKey with
  | error e =>
      rw [hu] at hr
      cases hr
  | ok dataKey' =>
      obtain ⟨⟨n', hn'⟩, -⟩ := Wrap.unwrapKey_eq_ok hu
      rw [hn] at hn'
      injection hn' with _ _ _ hkey
      subst hkey
      rw [hu] at hr
      obtain rfl := Except.ok.inj hr
      exact Wrap.unwrapKey_wrapKey _ _ _ _ hlen

/-- The history has every secret at its version with the name and the value of the secret, and the
current vault key opens both data keys to the same. -/
def Shared.Versioned (S : Setup) (s : Shared) : Prop :=
  ∀ id r, s.db.secrets.lookup id = some r → ∃ v key dataKey,
    s.db.secretVersions.lookup (id, r.version) = some v ∧ v.encName = r.encName ∧
    v.encValue = r.encValue ∧ s.keys.head? = some key ∧
    Core.Vault.unwrapDataKey key S.envId id r.version v.encDataKey = .ok dataKey ∧
    Core.Vault.unwrapDataKey key S.envId id r.version r.encDataKey = .ok dataKey

/-- What the outline adds: the history agrees with the secrets. -/
def versionedExtension (S : Setup) :
    Outline.Extension Nat Cmd.Reply Shared Device Op (Except Cli.Error Unit) where
  limit := coveredAdoption
  inv s := s.Versioned S
  guar _ _ _ _ _ := True
  idle _ _ _ := True
  post _ _ _ _ _ := True

/-- The outline over the one of what is keyed. -/
def versioned (S : Setup) : Outline ((S.grounded.restrict (keyed S).condition).restrict
    coveredAdoption) :=
  (keyed S).extend (versionedExtension S)

/-- The setting of a device. -/
abbrev versionedSetting (S : Setup) (d : Nat) : Setting Cmd.Reply Shared Device :=
  (versioned S).setting d

theorem versioned_grounded {S : Setup} (d : Nat) : Grounded S d (versionedSetting S d) :=
  (keyed_grounded d).extend (fun h => h.1) fun _ _ _ => trivial

section Rounds

variable {S : Setup} {d : Nat} {s s' : Shared} {l l' : Device} {grant key : Bytes}
  {s₁ s₂ s₄ s₇ : Shared} {revision : Int} {l₁ l₄ l₅ l₇ : Device} {access : Server.ProjectAccess}
  {v : Int} {G : Setting Cmd.Reply Shared Device} {keySeed : Seed} {orgId : Ident}
  {rotation : Server.Rotation}

/-- A batch that is sealed under the current key keeps the agreement. -/
theorem Shared.Versioned.wrote (h : s₄.Versioned S)
    (hwrote : Wrote S d (versionedSetting S d) grant s l s₁ s₂ s₄ revision l₁ access v l₄ l₅) :
    (afterBatch S s₂ s₄ revision access l₄).Versioned S := by
  have hkeyed : (afterBatch S s₂ s₄ revision access l₄).Keyed S :=
    hwrote.committed.exec.1.2.2.1.2
  obtain ⟨⟨-, -, hadmits⟩, -, hdb⟩ :=
    Server.writeSecretsTx_eq_ok_iff.1 (Server.commit_run hwrote.committed.result)
  intro id r' hr'
  obtain ⟨key, hhead, name, value, -, hopens⟩ := hkeyed.rows id r' hr'
  obtain ⟨dataKey, hkey, -, -⟩ := hopens.unwrapDataKey_eq
  have hrows : (afterBatch S s₂ s₄ revision access l₄).db =
      ((changesOf S (s₂.db.secretsOf S.envId) l₄.store).foldl (Server.effect S.envId)
        s₄.db).withRevision S.envId v := hdb
  rw [hrows] at hr' ⊢
  rcases Server.foldl_effect_cases hadmits hr' with hset | ⟨r, hr, hversion, hname, hvalue, henc⟩
  · exact ⟨_, key, dataKey, hset, rfl, rfl, hhead, hkey, hkey⟩
  · obtain ⟨version, key₀, dataKey₀, hlookup, hvname, hvvalue, hhead₀, hopens₀, hkey₀⟩ := h id r hr
    rw [hversion, hname, hvalue, henc]
    exact ⟨version, key₀, dataKey₀, Server.lookup_foldl_secretVersions hadmits hlookup, hvname,
      hvvalue, hhead₀, hopens₀, hkey₀⟩

/-- A rotation rewraps the row of a secret's version to the data key that it had. -/
theorem Rotated.rewrapped (Gr : Grounded S d G) {id : Ident} {version : Int}
    {row : Server.SecretVersion} {r : Server.Secret}
    (h : Rotated S d G s l s₁ s₂ s₇ revision keySeed access orgId rotation v l₇)
    (hr : s₇.db.secrets.lookup id = some r)
    (hrow : s₇.db.secretVersions.lookup (id, version) = some row) :
    ∃ nonce oldVault encDataKey,
      (afterRotation S s₇ access orgId rotation).db.secretVersions.lookup (id, version) =
        some { row with encDataKey := encDataKey } ∧
      Core.Vault.rewrapDataKey nonce oldVault (.random keySeed 0) S.envId id version
        row.encDataKey = .ok encDataKey := by
  obtain ⟨historySeed, oldVault, historyKeys, req, s₃, h₃, h₃₇, hrewrap, hreq, hdecode⟩ := h.history
  have haccepted := Server.rotateTx_eq_ok (Server.commit_run h.committed.result)
  obtain ⟨hform, rfl⟩ := Server.decodeRotation_eq_ok_iff.1 hdecode
  -- the history was read at the revision at which the rotation was accepted
  have hdb : s₇.db = s₃.db := by
    obtain ⟨env, henv, hrev⟩ := haccepted.base
    rw [h.baseRevision] at hrev
    obtain ⟨_, _, _, hfetch, _⟩ := h.fetched
    have hbetween := (Gr.later hfetch.between).toEvolves.trans (Gr.later h₃).toEvolves
    exact (hbetween.eq_between (Gr.later h₃₇).toEvolves hfetch.revision ⟨env, henv, hrev⟩).2.1
  have hentry : (id, version, Server.encode row.encDataKey) ∈ historyOf S s₃ := by
    refine List.mem_map.2 ⟨((id, version), row), Server.mem_historyOf.2 ?_, rfl⟩
    rw [← hdb]
    exact ⟨hrow, r, hr, ((Gr.sound h.inv₇).rows id r hr).1⟩
  obtain ⟨nonce, wrapped, encDataKey, hwrapped, hkey, hmem⟩ :=
    (rewrapKeys_eq_ok hrewrap).2 _ _ _ hentry
  cases hwrapped
  refine ⟨nonce, oldVault, encDataKey, ?_, hkey⟩
  have hresult : (afterRotation S s₇ access orgId (Server.opened req)).db.secretVersions =
      Server.rewrapHistory (Server.opened req).historyKeys s₇.db.secretVersions :=
    congrArg Server.Db.secretVersions haccepted.result
  rw [hresult]
  refine Server.lookup_rewrapHistory_of_mem ?_ ?_ hrow
  · simpa [Server.opened, Function.comp_def] using hform.history
  · simp only [Server.opened, List.mem_map]
    refine ⟨⟨id, version, .valid encDataKey⟩, ?_, rfl⟩
    rw [hreq]
    exact List.mem_map.2 ⟨_, hmem, rfl⟩

/-- A rotation rewraps both data keys of a secret. -/
theorem Shared.Versioned.rotated (Gr : Grounded S d G) (h : s₇.Versioned S)
    (hrot : Rotated S d G s l s₁ s₂ s₇ revision keySeed access orgId rotation v l₇) :
    (afterRotation S s₇ access orgId rotation).Versioned S := by
  have hrekeyed := hrot.rekeyed Gr
  intro id r' hr'
  cases hr : s₇.db.secrets.lookup id with
  | none =>
      rw [hrekeyed.absent id hr] at hr'
      cases hr'
  | some r =>
      obtain ⟨encDataKey, nonce, oldKey, hr₁, hrewrap⟩ := hrekeyed.rows id r hr
      obtain rfl : { r with encDataKey := encDataKey } = r' := by
        rw [hr₁] at hr'
        exact Option.some.inj hr'
      obtain ⟨row, key, dataKey, hrow, hname, hvalue, -, hopens, hkey⟩ := h id r hr
      obtain ⟨nonce', oldKey', encDataKey', hrow', hrewrap'⟩ := hrot.rewrapped Gr hr hrow
      exact ⟨_, _, dataKey, hrow', hname, hvalue, by rw [hrekeyed.keys]; rfl,
        Core.Vault.unwrapDataKey_of_rewrap hopens hrewrap',
        Core.Vault.unwrapDataKey_of_rewrap hkey hrewrap⟩

end Rounds

theorem versioned_layer {S : Setup} :
    Layer S (keyed S) (versionedExtension S) (fun _ _ _ _ _ => True) where
  guar_refl := fun _ _ _ _ => trivial
  start := fun _ _ _ _ _ _ => trivial
  later := fun _ _ _ _ _ => trivial
  set := fun _ _ hi _ _ => ⟨trivial, hi.2, trivial⟩
  delete := fun _ _ _ _ _ _ _ => trivial
  ended := fun _ _ _ _ => trivial
  pulled := fun _ _ _ _ _ => trivial
  retried := fun _ _ _ _ => trivial
  wrote := fun _ _ hwrote => ⟨trivial, hwrote.inv₄.2.wrote hwrote⟩
  pushed := fun _ _ _ _ => trivial
  rotated := fun _ _ _ _ hrot =>
    ⟨trivial, hrot.inv₇.2.rotated (versioned_grounded _) hrot, trivial⟩
  finish := fun _ _ _ _ _ => trivial
  idle_stable := fun _ _ _ _ _ => trivial

theorem versioned_valid {S : Setup} : (versioned S).Valid :=
  versioned_layer.valid ((faithful_system S).restrict _) keyed_grounded (fun h => h.1) keyed_valid
    ⟨fun h => h, fun h => h, fun h => h⟩

theorem versioned_init {S : Setup} : (versioned S).Good S.init where
  inv := by
    refine ⟨keyed_init.inv, ?_⟩
    intro id r hr
    have hr : S.db.secrets.lookup id = some r := hr
    rw [S.secrets] at hr
    cases hr
  thread d := ⟨keyed_init.idle (O := keyed S) (w := S.init) (i := d) rfl, trivial⟩

/-- In every run of any requests the history has every secret at its version, and its rows keep
their name and their value. In every run of devices in which they adopt grants only when they have
nothing ahead of the server, the current vault key opens both data keys of every secret to the
same. -/
theorem history_versioned {db : Server.Db} (hdb : db.secrets = ∅) {w w' : Server.Hosting}
    (hw : Server.hosting.Reaches (Server.quiet db) w) (hw' : Server.hosting.Reaches w w')
    (S : Setup) {world : Setup.World}
    (hworld : (S.system.restrict coveredAdoption).Reaches S.init world) :
    Server.Retains w.shared ∧ Server.KeepsHistory w.shared w'.shared ∧
      world.shared.Versioned S := by
  have hretains : Server.Retains db := by
    intro id r hr
    rw [hdb] at hr
    cases hr
  have hgood : (versioned S).Good world := versioned_init.reaches versioned_valid
    (keyed_init.layer keyed_valid ⟨fun h => h, fun h => h, fun h => h⟩ (grounded_reaches hworld))
  exact ⟨(Server.reaches_history hw).2 hretains, (Server.reaches_history hw').1, hgood.inv.2⟩

/-! ### Runs of the team -/

namespace Team

/-- The batch that sets the secret at a version. -/
def setBatch (version : Int) : Api.BatchRequest where
  baseRevision := version - 1
  changes := [Api.SecretChange.set (.text "token") version (.valid (.raw "name".toUTF8))
    (.valid value) (.valid (.raw "key".toUTF8))]

/-- The request of the first user with that batch. -/
def setCall (version : Int) : Server.Call :=
  .write (.writeSecrets alice envId (setBatch version))

/-- A device with two versions of a secret adopts a rotation. -/
def rewrapRun : List Move :=
  whole 0 (.set "X" value) ++ whole 0 .push ++ whole 1 .pull ++
  whole 1 (.set "X" (.raw "2".toUTF8)) ++ whole 1 .push ++ whole 0 .pull ++ whole 0 .rotate ++
  whole 1 .pull

end Team

set_option maxRecDepth 10000 in
/-- Two batches of a run, and a run in which a rotation rewraps two versions. -/
theorem history_versioned_twice : ∃ (db db' : Server.Db) (s : Shared),
    db.secretVersions.rows.length = 1 ∧ db'.secretVersions.rows.length = 2 ∧
      s.db.secretVersions.rows.length = 2 ∧ s.keys.length = 2 ∧
      Server.Retains db ∧ Server.KeepsHistory db db' ∧ s.Versioned Team.setup := by
  obtain ⟨w, hw, hshared, hothers⟩ :=
    Server.reaches_request (w := Server.quiet Team.db) (i := 0) rfl (Team.setCall 1)
  obtain ⟨w', hw', hshared', -⟩ := Server.reaches_request (w := w) (i := 1)
    (by rw [hothers 1 (by decide)]; rfl) (Team.setCall 2)
  have hworld : (Team.setup.system.restrict coveredAdoption).Reaches Team.setup.init
      (Team.setup.run Team.rewrapRun Team.setup.init) :=
    (((Setup.run_reaches (C := settableCheck Team.setup) (by decide +kernel)).restrict_mono
      settableCheck_le).restrict_mono settableRuns_le_steady).restrict_mono steadyAdoption_le
  refine ⟨w.shared, w'.shared, _, ?_, ?_, ?_, ?_, history_versioned rfl hw hw' Team.setup hworld⟩
  · rw [hshared]
    decide +kernel
  · rw [hshared', hshared]
    decide +kernel
  · decide +kernel
  · decide +kernel

/-- Whether the current key fails to open the data key of a secret. -/
def unversioned (S : Setup) (s : Shared) : Bool :=
  s.db.secrets.rows.any fun e => s.keys.head?.all fun key =>
    !(Core.Vault.unwrapDataKey key S.envId e.1 e.2.version e.2.encDataKey).toBool

theorem not_versioned {S : Setup} {s : Shared} (h : unversioned S s = true) : ¬ s.Versioned S := by
  intro hversioned
  obtain ⟨⟨id, r⟩, hmem, hall⟩ := List.any_eq_true.1 h
  obtain ⟨_, key, dataKey, -, -, -, hhead, -, hkey⟩ := hversioned id r (Table.mem_rows.1 hmem)
  rw [hhead, Option.all_some, hkey] at hall
  cases hall

set_option maxRecDepth 10000 in
/-- A device sets a secret, another rotates the key, and the first device pulls and pushes: the
current key opens the data key of the secret neither in its row nor in the history. -/
theorem history_unopened : ∃ w, Team.setup.system.Reaches Team.setup.init w ∧
    ¬ w.shared.Versioned Team.setup :=
  ⟨Team.setup.run (Team.whole 0 (.set "X" Team.value) ++ Team.whole 1 .rotate ++
    Team.whole 0 .pull ++ Team.whole 0 .push) Team.setup.init, Setup.reaches_run,
    not_versioned (by decide +kernel)⟩

end Sotto
