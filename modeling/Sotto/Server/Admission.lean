import Sotto.Server.Effects

/-!
# Which batches an environment admits

A batch is applied change by change, so whether a change is accepted depends on those before it.
It comes down to conditions on the batch and on the database before it: every change is well
formed, a `set` names no secret of another environment and no retained version, and no two of them
write the same version of a secret. The effect is a fold of the changes.
-/

namespace Sotto

namespace Server

open Core Api

/-- The blobs of a change decode to a version of a secret. -/
structure Decodes (change : SecretChange) (enc : SecretVersion) : Prop where
  encName : decodeRequired change.encName "enc_name" maxEncName = .ok enc.encName
  encValue : decodeRequired change.encValue "enc_value" maxEncValue = .ok enc.encValue
  encDataKey : decodeRequired change.encDataKey "enc_data_key" maxEncKey = .ok enc.encDataKey

/-- The fields of a change pass their checks. -/
structure WellFormed (change : SecretChange) : Prop where
  id : validateId change.id "change id" = .ok ()
  set : change.op = .set → 1 ≤ change.version ∧ ∃ enc, Decodes change enc

/-- The version of a secret that a change carries. -/
def payload (change : SecretChange) : SecretVersion :=
  ⟨(decodeRequired change.encName "enc_name" maxEncName).toOption.getD (.raw .empty),
    (decodeRequired change.encValue "enc_value" maxEncValue).toOption.getD (.raw .empty),
    (decodeRequired change.encDataKey "enc_data_key" maxEncKey).toOption.getD (.raw .empty)⟩

/-- What an accepted change does to the database. -/
def effect (envId : Ident) (db : Db) (change : SecretChange) : Db :=
  match change.op with
  | .set => { db with
      secrets := AList.insert change.id (setRow envId change (payload change).encName
        (payload change).encValue (payload change).encDataKey) db.secrets
      secretVersions := AList.insert (change.id, change.version) (payload change)
        db.secretVersions }
  | .delete => { db with secrets := db.secrets.modify change.id (deleteRow envId) }

/-- The secrets and versions that a batch sets. -/
def written (changes : List SecretChange) : List (Ident × Int) :=
  (changes.filter fun c => c.op = .set).map fun c => (c.id, c.version)

/-- A batch that an environment admits. -/
structure Admissible (envId : Ident) (changes : List SecretChange) (db : Db) : Prop where
  wellFormed : ∀ c ∈ changes, WellFormed c
  sameEnv : ∀ c ∈ changes, c.op = .set → ∀ secret ∈ db.secrets.lookup c.id, secret.envId = envId
  fresh : ∀ c ∈ changes, c.op = .set → db.secretVersions.lookup (c.id, c.version) = none
  distinct : (written changes).Nodup

section Effects

variable {envId : Ident} {c change : SecretChange} {changes : List SecretChange} {db db' : Db}
  {u : Unit}

theorem Decodes.payload_eq {enc : SecretVersion} (h : Decodes change enc) :
    payload change = enc := by
  simp [payload, h.encName, h.encValue, h.encDataKey, Except.toOption]

theorem applySet_eq_ok_iff :
    (applySet envId change).run db = .ok ((), db') ↔
      1 ≤ change.version ∧ (∃ enc, Decodes change enc) ∧
      (∀ secret ∈ db.secrets.lookup change.id, secret.envId = envId) ∧
      db.secretVersions.lookup (change.id, change.version) = none ∧
      db' = { db with
        secrets := AList.insert change.id (setRow envId change (payload change).encName
          (payload change).encValue (payload change).encDataKey) db.secrets
        secretVersions := AList.insert (change.id, change.version) (payload change)
          db.secretVersions } := by
  simp only [applySet, Tx.bind_eq_ok, Tx.require_eq_ok, Tx.lift_eq_ok, Tx.get_eq_ok,
    Tx.set_eq_ok]
  constructor
  · rintro ⟨_, _, ⟨hv, rfl⟩, n, _, ⟨hn, rfl⟩, v, _, ⟨hval, rfl⟩, k, _, ⟨hk, rfl⟩, _, _, ⟨rfl, rfl⟩,
      _, _, ⟨hsame, rfl⟩, _, _, ⟨hfresh, rfl⟩, rfl⟩
    have hdecodes : Decodes change ⟨n, v, k⟩ := ⟨hn, hval, hk⟩
    refine ⟨hv, ⟨_, hdecodes⟩, hsame, hfresh, ?_⟩
    rw [hdecodes.payload_eq]
    rfl
  · rintro ⟨hv, ⟨enc, henc⟩, hsame, hfresh, rfl⟩
    refine ⟨(), db, ⟨hv, rfl⟩, _, db, ⟨henc.encName, rfl⟩, _, db, ⟨henc.encValue, rfl⟩, _, db,
      ⟨henc.encDataKey, rfl⟩, db, db, ⟨rfl, rfl⟩, (), db, ⟨hsame, rfl⟩, (), db, ⟨hfresh, rfl⟩, ?_⟩
    rw [henc.payload_eq]
    rfl

/-- What one change requires of the database. -/
structure Admits (envId : Ident) (change : SecretChange) (db : Db) : Prop where
  wellFormed : WellFormed change
  sameEnv : change.op = .set → ∀ secret ∈ db.secrets.lookup change.id, secret.envId = envId
  fresh : change.op = .set → db.secretVersions.lookup (change.id, change.version) = none

theorem applyChange_eq_ok_iff :
    (applyChange envId change).run db = .ok ((), db') ↔
      Admits envId change db ∧ db' = effect envId db change := by
  simp only [applyChange, Tx.bind_eq_ok, Tx.lift_eq_ok]
  cases hop : change.op with
  | set =>
      simp only [applySet_eq_ok_iff, effect, hop]
      constructor
      · rintro ⟨_, _, ⟨hid, rfl⟩, hv, henc, hsame, hfresh, rfl⟩
        exact ⟨⟨⟨hid, fun _ => ⟨hv, henc⟩⟩, fun _ => hsame, fun _ => hfresh⟩, rfl⟩
      · rintro ⟨h, rfl⟩
        obtain ⟨hv, henc⟩ := h.wellFormed.set hop
        exact ⟨(), db, ⟨h.wellFormed.id, rfl⟩, hv, henc, h.sameEnv hop, h.fresh hop, rfl⟩
  | delete =>
      simp only [applyDelete, Tx.modify_eq_ok, effect, hop]
      constructor
      · rintro ⟨_, _, ⟨hid, rfl⟩, rfl⟩
        refine ⟨⟨⟨hid, ?_⟩, ?_, ?_⟩, rfl⟩
        · simp [hop]
        · simp [hop]
        · simp [hop]
      · rintro ⟨h, rfl⟩
        exact ⟨(), db, ⟨h.wellFormed.id, rfl⟩, rfl⟩

theorem lookup_effect_secrets (id : Ident) :
    (effect envId db c).secrets.lookup id =
      if c.id = id then match c.op with
        | .set => some (setRow envId c (payload c).encName (payload c).encValue
            (payload c).encDataKey)
        | .delete => (db.secrets.lookup id).map (deleteRow envId)
      else db.secrets.lookup id := by
  unfold effect
  cases c.op with
  | set =>
      dsimp only
      rw [Table.lookup_insert]
      simp only [eq_comm]
  | delete =>
      dsimp only
      rw [Table.lookup_modify]
      split
      · next h => rw [if_pos h.symm]
      · next h => rw [if_neg (fun h' => h h'.symm)]

theorem lookup_effect_secretVersions (key : Ident × Int) :
    (effect envId db c).secretVersions.lookup key =
      if c.op = .set ∧ key = (c.id, c.version) then some (payload c)
      else db.secretVersions.lookup key := by
  unfold effect
  cases hop : c.op with
  | set =>
      dsimp only
      rw [Table.lookup_insert]
      simp
  | delete => simp

theorem deleteRow_envId {secret : Secret} : (deleteRow envId secret).envId = secret.envId := by
  unfold deleteRow
  split <;> rfl

/-- An accepted change does not move a secret to another environment or from one. -/
theorem sameEnv_effect (h : Admits envId c db) (id : Ident) :
    (∀ secret ∈ (effect envId db c).secrets.lookup id, secret.envId = envId) ↔
      (∀ secret ∈ db.secrets.lookup id, secret.envId = envId) := by
  rw [lookup_effect_secrets]
  split
  · next hid =>
      subst hid
      cases hop : c.op with
      | set => simpa [setRow] using h.sameEnv hop
      | delete => simp [deleteRow_envId]
  · rfl

theorem written_cons :
    written (c :: changes) =
      if c.op = .set then (c.id, c.version) :: written changes else written changes := by
  unfold written
  rw [List.filter_cons]
  by_cases hop : c.op = .set
  · simp [hop]
  · simp [hop]

theorem mem_written {key : Ident × Int} :
    key ∈ written changes ↔ ∃ c ∈ changes, c.op = .set ∧ (c.id, c.version) = key := by
  simp [written, and_assoc]

/-- A batch is admitted if its first change is, and the rest after it. -/
theorem admissible_cons :
    Admissible envId (c :: changes) db ↔
      Admits envId c db ∧ Admissible envId changes (effect envId db c) := by
  have hnew : ∀ key, (effect envId db c).secretVersions.lookup key = none ↔
      db.secretVersions.lookup key = none ∧ ¬ (c.op = .set ∧ key = (c.id, c.version)) := by
    intro key
    rw [lookup_effect_secretVersions]
    split
    · next h => simp [h]
    · next h => simp [h]
  constructor
  · intro h
    have hc : Admits envId c db := ⟨h.wellFormed c List.mem_cons_self,
      h.sameEnv c List.mem_cons_self, h.fresh c List.mem_cons_self⟩
    have hdistinct := h.distinct
    rw [written_cons] at hdistinct
    refine ⟨hc, ?_, ?_, ?_, ?_⟩
    · exact fun c' hc' => h.wellFormed c' (List.mem_cons_of_mem c hc')
    · intro c' hc' hop
      exact (sameEnv_effect hc c'.id).2 (h.sameEnv c' (List.mem_cons_of_mem c hc') hop)
    · intro c' hc' hop
      refine (hnew _).2 ⟨h.fresh c' (List.mem_cons_of_mem c hc') hop, ?_⟩
      rintro ⟨hset, hkey⟩
      rw [if_pos hset, List.nodup_cons] at hdistinct
      exact hdistinct.1 (mem_written.2 ⟨c', hc', hop, hkey⟩)
    · split at hdistinct
      · exact (List.nodup_cons.1 hdistinct).2
      · exact hdistinct
  · rintro ⟨hc, h⟩
    refine ⟨?_, ?_, ?_, ?_⟩
    · intro c' hc'
      rcases List.mem_cons.1 hc' with rfl | hc'
      · exact hc.wellFormed
      · exact h.wellFormed c' hc'
    · intro c' hc' hop
      rcases List.mem_cons.1 hc' with rfl | hc'
      · exact hc.sameEnv hop
      · exact (sameEnv_effect hc c'.id).1 (h.sameEnv c' hc' hop)
    · intro c' hc' hop
      rcases List.mem_cons.1 hc' with rfl | hc'
      · exact hc.fresh hop
      · exact ((hnew _).1 (h.fresh c' hc' hop)).1
    · rw [written_cons]
      split
      · next hset =>
          refine List.nodup_cons.2 ⟨?_, h.distinct⟩
          intro hmem
          obtain ⟨c', hc', hop, hkey⟩ := mem_written.1 hmem
          exact ((hnew _).1 (h.fresh c' hc' hop)).2 ⟨hset, hkey⟩
      · exact h.distinct

/-- A batch of changes is applied if and only if it is admitted, and its effect is that of its
changes in order. -/
theorem forM_applyChange_eq_ok_iff :
    (changes.forM (applyChange envId)).run db = .ok (u, db') ↔
      Admissible envId changes db ∧ db' = changes.foldl (effect envId) db := by
  induction changes generalizing db with
  | nil =>
      have hrun : (([] : List SecretChange).forM (applyChange envId)).run db = .ok ((), db') ↔
          db = db' := by
        change (pure () : Tx PUnit).run db = .ok ((), db') ↔ _
        rw [Tx.pure_eq_ok]
        simp
      rw [hrun]
      constructor
      · rintro rfl
        exact ⟨⟨by simp, by simp, by simp, List.nodup_nil⟩, rfl⟩
      · rintro ⟨-, rfl⟩
        rfl
  | cons c changes ih =>
      have hrun : ((c :: changes).forM (applyChange envId)).run db =
          (applyChange envId c >>= fun _ => changes.forM (applyChange envId)).run db := rfl
      rw [hrun, Tx.bind_eq_ok, admissible_cons]
      constructor
      · rintro ⟨_, db₁, h₁, h⟩
        obtain ⟨hc, rfl⟩ := applyChange_eq_ok_iff.1 h₁
        obtain ⟨hrest, rfl⟩ := ih.1 h
        exact ⟨⟨hc, hrest⟩, rfl⟩
      · rintro ⟨⟨hc, hrest⟩, rfl⟩
        exact ⟨(), _, applyChange_eq_ok_iff.2 ⟨hc, rfl⟩, ih.2 ⟨hrest, rfl⟩⟩

end Effects

/-! ### Transactions -/

/-- The caller may write in the organisation of the environment now. -/
def MayWrite (access : ProjectAccess) (db : Db) : Prop :=
  ∀ orgId ∈ access.orgId, ∃ a, orgAccess orgId access.userId db = .ok a ∧ a.lifecycle = .active

/-- The caller may change the structure of the project now. -/
def MayManage (access : ProjectAccess) (db : Db) : Prop :=
  (∀ orgId ∈ access.orgId, ∃ a, orgAccess orgId access.userId db = .ok a ∧
    a.lifecycle = .active ∧ a.role.isAtLeast .admin) ∧
  (access.orgId = none → access.canManageStructure)

/-- The revision of an environment. -/
def Db.revisionOf (db : Db) (envId : Ident) : Option Int :=
  (db.environments.lookup envId).map Environment.revision

/-- The database with another revision of an environment. -/
def Db.withRevision (db : Db) (envId : Ident) (revision : Int) : Db :=
  { db with environments := db.environments.modify envId fun env => { env with revision } }

section Transactions

variable {access : ProjectAccess} {envId orgId : Ident} {db db' : Db} {v : Int} {u : Unit}

theorem mapProjectAccessError_eq_ok {α : Type} {result : Except Error α} {a : α} :
    mapProjectAccessError result = .ok a ↔ result = .ok a := by
  unfold mapProjectAccessError
  split
  · simp
  · rfl

theorem requireWrite_eq_ok {lifecycle : LifecycleState} :
    lifecycle.requireWrite = .ok u ↔ lifecycle = .active := by
  cases lifecycle <;> simp [LifecycleState.requireWrite]

theorem forM_requireWrite_eq_ok {orgs : List (Ident × Organization)} {u : PUnit} :
    (orgs.forM fun o => (liftM o.2.lifecycle.requireWrite : Tx Unit)).run db = .ok (u, db') ↔
      (∀ o ∈ orgs, o.2.lifecycle = .active) ∧ db' = db := by
  induction orgs with
  | nil =>
      show (pure u : Tx PUnit).run db = .ok (u, db') ↔ _
      rw [Tx.pure_eq_ok]
      simp [eq_comm]
  | cons o orgs ih =>
      have hcons : ((o :: orgs).forM fun o => (liftM o.2.lifecycle.requireWrite : Tx Unit)) =
        liftM o.2.lifecycle.requireWrite >>= fun _ =>
          orgs.forM fun o => (liftM o.2.lifecycle.requireWrite : Tx Unit) := rfl
      rw [hcons, Tx.bind_eq_ok]
      simp only [Tx.lift_eq_ok, requireWrite_eq_ok, List.mem_cons, forall_eq_or_imp]
      constructor
      · rintro ⟨_, _, ⟨ho, rfl⟩, h⟩
        have hrest := ih.1 h
        exact ⟨⟨ho, hrest.1⟩, hrest.2⟩
      · rintro ⟨⟨ho, hrest⟩, rfl⟩
        exact ⟨(), _, ⟨ho, rfl⟩, ih.2 ⟨hrest, rfl⟩⟩

theorem requireWriteTx_eq_ok_iff :
    access.requireWriteTx.run db = .ok (u, db') ↔ MayWrite access db ∧ db' = db := by
  unfold ProjectAccess.requireWriteTx MayWrite
  cases access.orgId with
  | none =>
      rw [Tx.pure_eq_ok]
      constructor
      · rintro ⟨-, rfl⟩
        exact ⟨by simp, rfl⟩
      · rintro ⟨-, rfl⟩
        exact ⟨rfl, rfl⟩
  | some orgId =>
      simp only [Tx.bind_eq_ok, Tx.get_eq_ok, Tx.lift_eq_ok, mapProjectAccessError_eq_ok,
        requireWrite_eq_ok]
      constructor
      · rintro ⟨_, _, ⟨rfl, rfl⟩, a, _, ⟨ha, rfl⟩, hactive, rfl⟩
        refine ⟨?_, rfl⟩
        rintro _ ⟨⟩
        exact ⟨a, ha, hactive⟩
      · rintro ⟨h, rfl⟩
        obtain ⟨a, ha, hactive⟩ := h orgId rfl
        exact ⟨db', db', ⟨rfl, rfl⟩, a, db', ⟨ha, rfl⟩, hactive, rfl⟩

theorem requireManageStructureTx_eq_ok_iff {message : String} :
    (access.requireManageStructureTx message).run db = .ok (u, db') ↔
      MayManage access db ∧ db' = db := by
  unfold ProjectAccess.requireManageStructureTx MayManage
  cases access.orgId with
  | none =>
      rw [Tx.require_eq_ok]
      constructor
      · rintro ⟨h, rfl⟩
        exact ⟨⟨by simp, fun _ => h⟩, rfl⟩
      · rintro ⟨⟨-, h⟩, rfl⟩
        exact ⟨h rfl, rfl⟩
  | some orgId =>
      simp only [Tx.bind_eq_ok, Tx.get_eq_ok, Tx.lift_eq_ok, mapProjectAccessError_eq_ok,
        requireWrite_eq_ok, Tx.require_eq_ok]
      constructor
      · rintro ⟨_, _, ⟨rfl, rfl⟩, a, _, ⟨ha, rfl⟩, _, _, ⟨hactive, rfl⟩, hrole, rfl⟩
        refine ⟨⟨?_, by simp⟩, rfl⟩
        rintro _ ⟨⟩
        exact ⟨a, ha, hactive, hrole⟩
      · rintro ⟨⟨h, -⟩, rfl⟩
        obtain ⟨a, ha, hactive, hrole⟩ := h orgId rfl
        exact ⟨db', db', ⟨rfl, rfl⟩, a, db', ⟨ha, rfl⟩, (), db', ⟨hactive, rfl⟩, hrole, rfl⟩

theorem lockRevision_eq_ok_iff :
    (lockRevision envId).run db = .ok (v, db') ↔ db.revisionOf envId = some v ∧ db = db' := by
  rw [lockRevision_eq_ok, Db.revisionOf, Option.map_eq_some_iff]

theorem revisionOf_withRevision (h : db.revisionOf envId ≠ none) (revision : Int) :
    (db.withRevision envId revision).revisionOf envId = some revision := by
  unfold Db.revisionOf Db.withRevision at *
  cases he : db.environments.lookup envId with
  | none => simp [he] at h
  | some env => simp [he]

/-- A batch is committed if and only if its base revision is the environment's, the caller may
write, and the environment admits it. -/
theorem writeSecretsTx_eq_ok_iff {req : BatchRequest} :
    (writeSecretsTx access envId req).run db = .ok (v, db') ↔
      (MayWrite access db ∧ db.revisionOf envId = some req.baseRevision ∧
        Admissible envId req.changes db) ∧ v = req.baseRevision + 1 ∧
      db' = (req.changes.foldl (effect envId) db).withRevision envId v := by
  simp only [writeSecretsTx, Tx.bind_eq_ok, Tx.require_eq_ok, Tx.pure_eq_ok,
    lockRevision_eq_ok_iff, setRevision, Tx.modify_eq_ok, requireWriteTx_eq_ok_iff,
    forM_applyChange_eq_ok_iff]
  constructor
  · rintro ⟨_, _, ⟨haccess, rfl⟩, current, _, ⟨hcurrent, rfl⟩, _, _, ⟨rfl, rfl⟩, _, _,
      ⟨hadmits, rfl⟩, _, _, rfl, rfl, rfl⟩
    exact ⟨⟨haccess, hcurrent, hadmits⟩, rfl, rfl⟩
  · rintro ⟨⟨haccess, hcurrent, hadmits⟩, rfl, rfl⟩
    exact ⟨(), db, ⟨haccess, rfl⟩, _, db, ⟨hcurrent, rfl⟩, (), db, ⟨rfl, rfl⟩, (), _,
      ⟨hadmits, rfl⟩, (), _, rfl, rfl, rfl⟩

/-- A rotation that an environment admits. -/
structure RotationAdmissible (envId orgId : Ident) (req : Rotation) (db : Db) : Prop where
  members : req.grants.all fun g => (db.memberships.lookup (orgId, g.1)).isSome
  users : req.grants.all fun g => (db.users.lookup g.1).isSome
  secrets : sameKeys (req.dataKeys.map (·.1)) ((db.secretsOf envId).map (·.1))
  history : sameKeys (req.historyKeys.map (·.1)) ((db.historyOf envId).map (·.1))
  tokens : sameKeys (req.machineGrants.map (·.1)) ((db.activeTokensOf envId).map (·.1))

/-- The database under the keys of a rotation. -/
def Db.rekeyed (db : Db) (envId : Ident) (req : Rotation) : Db :=
  { db with
    secretVersions := rewrapHistory req.historyKeys db.secretVersions
    machineTokens := resealTokens envId req.machineGrants db.machineTokens
    secrets := rewrapSecrets envId req.dataKeys db.secrets
    grants := replaceGrants envId req.grants db.grants }

/-- A rotation is committed if and only if its base revision is the environment's, the caller may
manage the project, and the environment admits it. -/
theorem rotateTx_eq_ok_iff {req : Rotation} :
    (rotateTx access envId orgId req).run db = .ok (v, db') ↔
      (MayManage access db ∧ db.revisionOf envId = some req.baseRevision ∧
        RotationAdmissible envId orgId req db) ∧ v = req.baseRevision + 1 ∧
      db' = (db.rekeyed envId req).withRevision envId v := by
  simp only [rotateTx, Tx.bind_eq_ok, Tx.require_eq_ok, Tx.pure_eq_ok, Tx.get_eq_ok, Tx.set_eq_ok,
    lockRevision_eq_ok_iff, setRevision, Tx.modify_eq_ok, requireManageStructureTx_eq_ok_iff]
  constructor
  · rintro ⟨_, _, ⟨haccess, rfl⟩, _, _, ⟨rfl, rfl⟩, _, _, ⟨hmembers, rfl⟩, _, _, ⟨hcurrent, rfl⟩,
      _, _, ⟨rfl, rfl⟩, _, _, ⟨hsecrets, rfl⟩, _, _, ⟨hhistory, rfl⟩, _, _, ⟨htokens, rfl⟩, _, _,
      rfl, _, _, ⟨husers, rfl⟩, _, _, rfl, rfl, rfl⟩
    exact ⟨⟨haccess, hcurrent, hmembers, husers, hsecrets, hhistory, htokens⟩, rfl, rfl⟩
  · rintro ⟨⟨haccess, hcurrent, hmembers, husers, hsecrets, hhistory, htokens⟩, rfl, rfl⟩
    exact ⟨(), db, ⟨haccess, rfl⟩, db, db, ⟨rfl, rfl⟩, (), db, ⟨hmembers, rfl⟩, _, db,
      ⟨hcurrent, rfl⟩, (), db, ⟨rfl, rfl⟩, (), db, ⟨hsecrets, rfl⟩, (), db, ⟨hhistory, rfl⟩, (), db,
      ⟨htokens, rfl⟩, (), _, rfl, (), _, ⟨husers, rfl⟩, (), _, rfl, rfl, rfl⟩

end Transactions

end Server

end Sotto
