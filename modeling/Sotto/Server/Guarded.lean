import Sotto.Core.Knowledge
import Sotto.Server.Admission

/-!
# What the server keeps is guarded

The requests carry, and the tables hold, names, values and keys that are guarded from whoever runs
the server, grants that seal a key that is kept from them, and public keys whose secret keys are. A
statement that carries guarded data keeps a guarded database, and what it returns is guarded.
-/

namespace Sotto

open Core

/-- What a base64 text decodes to satisfies `P`. -/
def Base64.Holds (P : Bytes → Prop) : Base64 → Prop
  | valid bytes => P bytes
  | malformed _ => True

/-- The name, the value and the data key of a secret are guarded. -/
structure GuardedSecret (known : Set Bytes) (encName encValue encDataKey : Bytes) : Prop where
  encName : Guarded known encName
  encValue : Guarded known encValue
  encDataKey : Guarded known encDataKey

/-! ### Requests -/

namespace Api

structure AccountBundle.Guarded (known : Set Bytes) (bundle : AccountBundle) : Prop where
  publicKey : bundle.publicKey.Holds (GuardedKey known)
  encPrivateKeys : bundle.encPrivateKeys.Holds (Core.Guarded known)
  kdfParams : bundle.kdfParams.Holds (Core.Guarded known)
  recoveryBlob : bundle.recoveryBlob.Holds (Core.Guarded known)

structure SecretChange.Guarded (known : Set Bytes) (change : SecretChange) : Prop where
  encName : ∀ value ∈ change.encName, value.Holds (Core.Guarded known)
  encValue : ∀ value ∈ change.encValue, value.Holds (Core.Guarded known)
  encDataKey : ∀ value ∈ change.encDataKey, value.Holds (Core.Guarded known)

def BatchRequest.Guarded (known : Set Bytes) (req : BatchRequest) : Prop :=
  ∀ change ∈ req.changes, change.Guarded known

structure NewEnvironment.Guarded (known : Set Bytes) (env : NewEnvironment) : Prop where
  encName : env.encName.Holds (Core.Guarded known)
  encVaultKey : env.encVaultKey.Holds (GuardedGrant known)

structure RotateRequest.Guarded (known : Set Bytes) (req : RotateRequest) : Prop where
  grants : ∀ g ∈ req.grants, g.encVaultKey.Holds (GuardedGrant known)
  dataKeys : ∀ d ∈ req.dataKeys, d.encDataKey.Holds (Core.Guarded known)
  machineGrants : ∀ g ∈ req.machineGrants, g.encVaultKey.Holds (GuardedGrant known)
  historyKeys : ∀ h ∈ req.historyKeys, h.encDataKey.Holds (Core.Guarded known)

end Api

namespace Server

open Api

/-! ### Tables -/

structure Account.Guarded (known : Set Bytes) (account : Account) : Prop where
  publicKey : GuardedKey known account.publicKey
  encPrivateKeys : Core.Guarded known account.encPrivateKeys
  kdfParams : Core.Guarded known account.kdfParams
  recoveryBlob : Core.Guarded known account.recoveryBlob

structure MachineToken.Guarded (known : Set Bytes) (token : MachineToken) : Prop where
  publicKey : GuardedKey known token.publicKey
  encVaultKey : GuardedGrant known token.encVaultKey

structure Rotation.Guarded (known : Set Bytes) (req : Rotation) : Prop where
  grants : ∀ g ∈ req.grants, GuardedGrant known g.2
  dataKeys : ∀ d ∈ req.dataKeys, Core.Guarded known d.2
  machineGrants : ∀ g ∈ req.machineGrants, GuardedGrant known g.2
  historyKeys : ∀ h ∈ req.historyKeys, Core.Guarded known h.2

/-- Whatever the tables hold is guarded. -/
structure Db.Guarded (known : Set Bytes) (db : Db) : Prop where
  users : Table.Every (fun user => ∀ account ∈ user, Account.Guarded known account) db.users
  organizations : Table.Every (fun org => Core.Guarded known org.encName) db.organizations
  memberships : Table.Every (fun m => ∀ key ∈ m.encOrgKey, GuardedGrant known key) db.memberships
  projects : Table.Every (fun project => Core.Guarded known project.encName) db.projects
  environments : Table.Every (fun env => Core.Guarded known env.encName) db.environments
  grants : Table.Every (GuardedGrant known) db.grants
  secrets : Table.Every (fun s => GuardedSecret known s.encName s.encValue s.encDataKey) db.secrets
  secretVersions :
    Table.Every (fun v => GuardedSecret known v.encName v.encValue v.encDataKey) db.secretVersions
  machineTokens : Table.Every (MachineToken.Guarded known) db.machineTokens

variable {known : Set Bytes} {db db' : Db}

/-! ### Batches -/

theorem Db.Guarded.applyChange {envId : Ident} {change : SecretChange} {u : Unit}
    (hdb : db.Guarded known) (hc : change.Guarded known)
    (h : (applyChange envId change).run db = .ok (u, db')) : db'.Guarded known := by
  rw [Server.applyChange, Tx.bind_eq_ok] at h
  obtain ⟨_, _, hid, h⟩ := h
  obtain ⟨-, rfl⟩ := Tx.lift_eq_ok.1 hid
  cases hop : change.op with
  | set =>
      rw [hop] at h
      obtain ⟨encName, encValue, encDataKey, hacc, rfl⟩ := applySet_eq_ok h
      have hguarded : GuardedSecret known encName encValue encDataKey :=
        ⟨hc.encName _ hacc.encName, hc.encValue _ hacc.encValue,
          hc.encDataKey _ hacc.encDataKey⟩
      exact { hdb with
        secrets := hdb.secrets.insert hguarded
        secretVersions := hdb.secretVersions.insert hguarded }
  | delete =>
      rw [hop] at h
      rw [applyDelete_eq_ok h]
      refine { hdb with secrets := hdb.secrets.modify fun s hs => ?_ }
      rw [deleteRow]
      split <;> exact hs

theorem Db.Guarded.applyChanges {envId : Ident} {changes : List SecretChange} {u : Unit}
    (hdb : db.Guarded known) (hc : ∀ change ∈ changes, change.Guarded known)
    (h : (changes.forM (Server.applyChange envId)).run db = .ok (u, db')) :
    db'.Guarded known := by
  induction changes generalizing db with
  | nil =>
      have h : (pure u : Tx PUnit).run db = .ok (u, db') := h
      rw [Tx.pure_eq_ok] at h
      obtain ⟨-, rfl⟩ := h
      exact hdb
  | cons change rest ih =>
      have h : (Server.applyChange envId change >>= fun _ =>
          rest.forM (Server.applyChange envId)).run db = .ok (u, db') := h
      rw [Tx.bind_eq_ok] at h
      obtain ⟨_, db₁, h₁, hrest⟩ := h
      exact ih (hdb.applyChange (hc change List.mem_cons_self) h₁)
        (fun c hmem => hc c (List.mem_cons_of_mem change hmem)) hrest

theorem Db.Guarded.writeSecretsTx {access : ProjectAccess} {envId : Ident} {req : BatchRequest}
    {v : Int} (hdb : db.Guarded known) (hreq : req.Guarded known)
    (h : (writeSecretsTx access envId req).run db = .ok (v, db')) : db'.Guarded known := by
  obtain ⟨mid, happlied, rfl⟩ := (writeSecretsTx_eq_ok h).applied
  have hmid := hdb.applyChanges hreq happlied
  exact { hmid with environments := hmid.environments.modify fun _ he => he }

/-! ### Rotations -/

theorem Db.Guarded.rotateTx {access : ProjectAccess} {envId orgId : Ident} {req : Rotation}
    {v : Int} (hdb : db.Guarded known) (hreq : req.Guarded known)
    (h : (rotateTx access envId orgId req).run db = .ok (v, db')) : db'.Guarded known := by
  rw [(rotateTx_eq_ok h).result]
  refine { hdb with environments := ?_, grants := ?_, secrets := ?_, secretVersions := ?_,
                    machineTokens := ?_ }
  · exact hdb.environments.modify fun _ he => he
  · exact hdb.grants.filterRows.foldl fun g hg t ht => ht.insert (hreq.grants g hg)
  · refine hdb.secrets.foldl fun d hd t ht => ht.modify fun s hs => ?_
    split
    · exact ⟨hs.encName, hs.encValue, hreq.dataKeys d hd⟩
    · exact hs
  · refine hdb.secretVersions.foldl fun k hk t ht => ht.modify fun v hv => ?_
    exact ⟨hv.encName, hv.encValue, hreq.historyKeys k hk⟩
  · refine hdb.machineTokens.foldl fun g hg t ht => ht.modify fun token htoken => ?_
    split
    · exact ⟨htoken.publicKey, hreq.machineGrants g hg⟩
    · exact htoken

/-! ### Accounts, projects and environments -/

theorem Db.Guarded.updateAccount {userId : Ident} {account : Account} {u : Unit}
    (hdb : db.Guarded known) (haccount : account.Guarded known)
    (h : (updateAccount userId account).run db = .ok (u, db')) : db'.Guarded known := by
  simp only [Server.updateAccount, Tx.bind_eq_ok, Tx.get_eq_ok] at h
  obtain ⟨_, _, ⟨rfl, rfl⟩, h⟩ := h
  split at h
  · obtain rfl := Tx.modify_eq_ok.1 h
    refine { hdb with users := hdb.users.insert fun a ha => ?_ }
    obtain rfl := Option.mem_some_iff.1 ha
    exact haccount
  · cases Tx.throw_eq_ok.1 h

theorem Db.Guarded.resetAccountTx {userId : Ident} {account : Account} {u : Unit}
    (hdb : db.Guarded known) (haccount : account.Guarded known)
    (h : (resetAccountTx userId account).run db = .ok (u, db')) : db'.Guarded known := by
  simp only [Server.resetAccountTx, Tx.bind_eq_ok, Tx.get_eq_ok, forM_requireWrite_eq_ok] at h
  obtain ⟨_, _, ⟨rfl, rfl⟩, _, _, ⟨-, rfl⟩, h⟩ := h
  split at h
  · obtain rfl := Tx.set_eq_ok.1 h
    refine { hdb with users := hdb.users.insert fun a ha => ?_, grants := hdb.grants.filterRows,
                      memberships := hdb.memberships.mapRows fun k m hm => ?_ }
    · obtain rfl := Option.mem_some_iff.1 ha
      exact haccount
    · split
      · exact fun key hkey => nomatch hkey
      · exact hm
  · cases Tx.throw_eq_ok.1 h

theorem Db.Guarded.insertProject {id ownerId : Ident} {orgId : Option Ident} {encName : Bytes}
    {b : Bool} (hdb : db.Guarded known) (hname : Core.Guarded known encName)
    (h : (insertProject id ownerId orgId encName).run db = .ok (b, db')) : db'.Guarded known := by
  simp only [Server.insertProject, Tx.bind_eq_ok, Tx.get_eq_ok] at h
  obtain ⟨_, db₁, hq, _, _, ⟨rfl, rfl⟩, h⟩ := h
  obtain rfl := requireProjectQuota_eq_ok hq
  split at h
  · obtain ⟨-, rfl⟩ := Tx.pure_eq_ok.1 h
    exact hdb
  · simp only [Tx.bind_eq_ok, Tx.modify_eq_ok, Tx.pure_eq_ok] at h
    obtain ⟨_, _, rfl, -, rfl⟩ := h
    exact { hdb with projects := hdb.projects.insert hname }

theorem Db.Guarded.insertEnvironment {access : ProjectAccess} {projectId userId id : Ident}
    {encName encVaultKey : Bytes} {b : Bool} (hdb : db.Guarded known)
    (hname : Core.Guarded known encName) (hkey : GuardedGrant known encVaultKey)
    (h : (insertEnvironment access projectId userId id encName encVaultKey).run db =
      .ok (b, db')) : db'.Guarded known := by
  simp only [Server.insertEnvironment, Tx.bind_eq_ok, Tx.get_eq_ok] at h
  obtain ⟨_, db₁, haccess, _, _, ⟨rfl, rfl⟩, h⟩ := h
  obtain rfl := requireManageStructureTx_eq_ok haccess
  split at h
  · obtain ⟨-, rfl⟩ := Tx.pure_eq_ok.1 h
    exact hdb
  · simp only [Tx.bind_eq_ok, Tx.modify_eq_ok, Tx.pure_eq_ok] at h
    obtain ⟨_, _, rfl, -, rfl⟩ := h
    refine { hdb with environments := hdb.environments.insert hname, grants := ?_ }
    split
    · exact hdb.grants
    · exact hdb.grants.insert hkey

theorem Db.Guarded.createGrantTx {access : ProjectAccess} {envId orgId userId : Ident}
    {encVaultKey : Bytes} {u : Unit} (hdb : db.Guarded known)
    (hkey : GuardedGrant known encVaultKey)
    (h : (createGrantTx access envId orgId userId encVaultKey).run db = .ok (u, db')) :
    db'.Guarded known := by
  simp only [Server.createGrantTx, Tx.bind_eq_ok, Tx.get_eq_ok, Tx.require_eq_ok,
    Tx.set_eq_ok] at h
  obtain ⟨_, _, haccess, _, _, ⟨rfl, rfl⟩, _, _, ⟨-, rfl⟩, _, _, ⟨-, rfl⟩, rfl⟩ := h
  obtain rfl := requireManageStructureTx_eq_ok haccess
  exact { hdb with grants := hdb.grants.insert hkey }

/-! ### Statements -/

namespace Stmt

/-- What a statement carries is guarded. -/
def Guarded (known : Set Bytes) : Stmt → Prop
  | updateAccount _ account => account.Guarded known
  | insertProject _ _ _ encName => Core.Guarded known encName
  | insertEnvironment _ _ _ _ encName encVaultKey =>
      Core.Guarded known encName ∧ GuardedGrant known encVaultKey
  | writeSecrets _ _ req => req.Guarded known
  | rotate _ _ _ req => req.Guarded known
  | resetAccount _ account => account.Guarded known
  | createGrant _ _ _ _ encVaultKey => GuardedGrant known encVaultKey
  | _ => True

/-- What a statement returns is guarded. -/
def GuardedReply (known : Set Bytes) : (s : Stmt) → s.Reply → Prop
  | selectOrgs _, rows => ∀ o ∈ rows, Core.Guarded known o.2.1.encName ∧
      ∀ key ∈ o.2.2.encOrgKey, GuardedGrant known key
  | selectSecrets _, rows => ∀ s ∈ rows, GuardedSecret known s.2.encName s.2.encValue s.2.encDataKey
  | selectHistory _, rows => ∀ v ∈ rows, GuardedSecret known v.2.encName v.2.encValue v.2.encDataKey
  | selectGrant _ _, grant => ∀ key ∈ grant, GuardedGrant known key
  | selectMembers _, rows => ∀ m ∈ rows, ∀ key ∈ m.2, GuardedKey known key
  | selectTokens _, rows => ∀ t ∈ rows, t.2.Guarded known
  | selectAccount _, account => ∀ a ∈ account, a.Guarded known
  | selectEnvironments _ _, rows => ∀ e ∈ rows, Core.Guarded known e.2.1.encName ∧
      ∀ key ∈ e.2.2, GuardedGrant known key
  | _, _ => True

theorem guarded_commit {α : Type} {tx : Tx α} (hdb : db.Guarded known)
    (h : ∀ a db', tx.run db = .ok (a, db') → db'.Guarded known) :
    (commit tx db).2.Guarded known := by
  unfold commit
  cases hr : tx.run db with
  | ok r => exact h r.1 r.2 hr
  | error e => exact hdb

theorem guarded_exec {stmt : Stmt} (hdb : db.Guarded known) (h : stmt.Guarded known) :
    (stmt.exec db).2.Guarded known := by
  cases stmt with
  | updateAccount => exact guarded_commit hdb fun _ _ => hdb.updateAccount h
  | insertProject => exact guarded_commit hdb fun _ _ => hdb.insertProject h
  | insertEnvironment => exact guarded_commit hdb fun _ _ => hdb.insertEnvironment h.1 h.2
  | writeSecrets => exact guarded_commit hdb fun _ _ => hdb.writeSecretsTx h
  | rotate => exact guarded_commit hdb fun _ _ => hdb.rotateTx h
  | resetAccount => exact guarded_commit hdb fun _ _ => hdb.resetAccountTx h
  | createGrant => exact guarded_commit hdb fun _ _ => hdb.createGrantTx h
  | _ => exact hdb

theorem guardedReply_exec {stmt : Stmt} (hdb : db.Guarded known) {a : stmt.Reply}
    (h : (stmt.exec db).1 = .ok a) : stmt.GuardedReply known a := by
  cases stmt with
  | selectOrgs userId =>
      obtain rfl := Except.ok.inj h
      intro o ho
      obtain ⟨⟨orgId, org⟩, horg, heq⟩ := List.mem_filterMap.1 ho
      dsimp only at heq
      split at heq
      · next m hm =>
          split at heq
          · cases heq
          · cases heq
            exact ⟨hdb.organizations.of_mem_rows horg, hdb.memberships _ _ hm⟩
      · cases heq
  | selectSecrets envId =>
      obtain rfl := Except.ok.inj h
      exact fun s hs => hdb.secrets.of_mem_rows (List.mem_filter.1 hs).1
  | selectHistory envId =>
      obtain rfl := Except.ok.inj h
      exact fun v hv => hdb.secretVersions.of_mem_rows (List.mem_filter.1 hv).1
  | selectGrant envId userId =>
      obtain rfl := Except.ok.inj h
      exact fun key hkey => hdb.grants _ key hkey
  | selectMembers orgId =>
      obtain rfl := Except.ok.inj h
      intro m hm key hkey
      obtain ⟨row, -, rfl⟩ := List.mem_map.1 hm
      obtain ⟨account, haccount, rfl⟩ := Option.map_eq_some_iff.1 hkey
      obtain ⟨user, huser, haccount⟩ := Option.bind_eq_some_iff.1 haccount
      exact (hdb.users _ user huser account haccount).publicKey
  | selectTokens envId =>
      obtain rfl := Except.ok.inj h
      exact fun t ht => hdb.machineTokens.of_mem_rows (List.mem_filter.1 ht).1
  | selectAccount userId =>
      obtain rfl := Except.ok.inj h
      intro account haccount
      obtain ⟨user, huser, haccount⟩ := Option.bind_eq_some_iff.1 haccount
      exact hdb.users _ user huser account haccount
  | selectEnvironments projectId userId =>
      obtain rfl := Except.ok.inj h
      intro e he
      obtain ⟨row, hrow, rfl⟩ := List.mem_map.1 he
      exact ⟨hdb.environments.of_mem_rows (List.mem_filter.1 hrow).1,
        fun key hkey => hdb.grants _ key hkey⟩
  | _ => trivial

end Stmt

end Server

end Sotto
