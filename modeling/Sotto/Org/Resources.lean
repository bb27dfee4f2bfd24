import Sotto.Org.Members

/-!
# Projects, environments, grants and machine tokens

The writes below an organisation, or below a personal project. Creating, sharing and re-keying an
environment and its machine tokens are structural changes, and secrets are written by any member.
-/

namespace Sotto

namespace Org

open Core (Ident Bytes keyLen)
open Api (NewProject NewEnvironment CreateGrant RotateRequest SecretChange BatchRequest)
open Server (ProjectAccess Error Secret SecretVersion decode validateId decodeRequired
  decodeRotation sameKeys maxEncName maxEncValue maxEncKey freeMaxOrgProjects)
open Sessions (check require statement transaction commit draw)

/-! ### Projects and environments -/

/-- Insert a project unless its id is taken; returns whether it was inserted. -/
def insertProject (id ownerId : Ident) (orgId : Option Ident) (encName : Bytes) : Session Bool :=
  statement (fun db => if (db.projects.lookup id).isSome then [] else [.project id]) fun db =>
    if (db.projects.lookup id).isSome then .ok (false, [])
    else if (db.users.lookup ownerId).isNone ∨
        (∃ o ∈ orgId, (db.organizations.lookup o).isNone) then .error .internal
    else .ok (true, [.projects (.put id ⟨ownerId, orgId, encName⟩)])

/-- How many projects an organisation has. -/
def Db.projectCount (db : Db) (orgId : Ident) : Nat :=
  (db.projects.rows.filter fun p => p.2.orgId = some orgId).length

/-- Whether the id of a project is in use, which is remembered. -/
def projectExists (id : Ident) : Session Bool :=
  statement (fun db => if (db.projects.lookup id).isSome then [.named id] else []) fun db =>
    .ok ((db.projects.lookup id).isSome, [])

/-- Quota gate for creating a project of an organisation. -/
def checkCanCreateOrgProject (orgId projectId : Ident) : Session Unit := do
  if ← effectiveTierLocked orgId then
    return ()
  else
    if ← projectExists projectId then
      return ()
    else
      let projects ← read fun db => db.projectCount orgId
      require (projects < freeMaxOrgProjects) (.quota
        s!"the free tier allows {freeMaxOrgProjects} project per organisation; upgrade to add more")

/-- The checks of a project created in an organisation, before the transaction. -/
def requireOrgAdmin (userId : Ident) : Option Ident → Session Unit
  | none => return ()
  | some orgId => do
      let access ← access orgId userId
      check (Server.requireOrgAdmin access)

/-- The same inside the transaction, with the quota. -/
def requireOrgAdminTx (userId projectId : Ident) : Option Ident → Session Unit
  | none => return ()
  | some orgId => do
      let access ← accessForUpdate orgId userId
      check (Server.requireOrgAdmin access)
      checkCanCreateOrgProject orgId projectId

/-- `POST /projects` -/
def createProject (userId : Ident) (body : NewProject) : Session Status := do
  check (validateId body.id "id")
  let encName ← check (decode body.encName "enc_name" maxEncName)
  requireOrgAdmin userId body.orgId
  let created ← transaction do
    requireOrgAdminTx userId body.id body.orgId
    let created ← insertProject body.id userId body.orgId encName
    commit
    return created
  if created then
    return .created
  else
    -- idempotent on a project of the same shape that the caller can reach
    let existing ← read fun db => db.projects.lookup body.id
    require (∃ p ∈ existing, p.orgId = body.orgId) (.conflict "project id already in use")
    let reached ← Sessions.attempt (projectAccess body.id userId)
    require (reached.toBool) (.conflict "project id already in use")
    return .ok

/-- Insert an environment unless its id is taken; returns whether it was inserted. -/
def insertEnvironment (id projectId : Ident) (encName : Bytes) : Session Bool :=
  statement (fun db => if (db.environments.lookup id).isSome then [] else [.environment id])
    fun db =>
      if (db.environments.lookup id).isSome then .ok (false, [])
      else if (db.projects.lookup projectId).isNone then .error .internal
      else .ok (true, [.environments (.put id ⟨projectId, encName, 0⟩)])

/-- Insert a grant, with what is done on one that exists. -/
def insertGrant (envId userId : Ident) (encVaultKey : Bytes) (conflict : Except Error (List Change))
    (noUser : Error) : Session Unit :=
  writeLocking (fun _ => [.environmentKey envId]) fun db =>
    if (db.grants.lookup (envId, userId)).isSome then conflict
    else if (db.users.lookup userId).isNone then .error noUser
    else if (db.environments.lookup envId).isNone then .error .internal
    else .ok [.grants (.put (envId, userId) encVaultKey)]

/-- `POST /projects/{project_id}/environments` -/
def createEnvironment (userId projectId : Ident) (body : NewEnvironment) : Session Status := do
  check (validateId body.id "id")
  let encName ← check (decode body.encName "enc_name" maxEncName)
  let encVaultKey ← check (decode body.encVaultKey "enc_vault_key" maxEncKey)
  let access ← projectAccess projectId userId
  check (access.requireManageStructure "must be an admin or owner to create an environment")
  let created ← transaction do
    requireManageStructureTx access "must be an admin or owner to create an environment"
    let created ← insertEnvironment body.id projectId encName
    if created then
      insertGrant body.id userId encVaultKey (.ok []) .internal
      commit
    return created
  if created then
    return .created
  else
    -- idempotent only if the environment already sits under this project
    let existing ← read fun db => db.environments.lookup body.id
    require (∃ e ∈ existing, e.projectId = projectId) (.conflict "environment id already in use")
    return .ok

/-! ### Grants -/

/-- The owning organisation of an environment, whose row must be there. -/
def selectOrgId (envId : Ident) : Session (Option Ident) :=
  Sessions.query fun db =>
    match (db.environments.lookup envId).bind fun env => db.projects.lookup env.projectId with
    | none => .error .internal
    | some project => .ok project.orgId

/-- `POST /environments/{env_id}/grants` -/
def createGrant (userId envId : Ident) (body : CreateGrant) : Session Status := do
  let encVaultKey ← check (decode body.encVaultKey "enc_vault_key" maxEncKey)
  let (_, access) ← envAccess envId userId
  check (access.requireManageStructure "must be an admin or owner to share an environment")
  match ← selectOrgId envId with
  | none => throw (.badRequest "environment is not in an organisation; nothing to share")
  | some orgId =>
      transaction do
        requireManageStructureTx access "must be an admin or owner to share an environment"
        let target ← read fun db => db.roleOf orgId body.userId
        require target.isSome (.badRequest "target user is not a member of this organisation")
        insertGrant envId body.userId encVaultKey
          (.ok [.grants (.put (envId, body.userId) encVaultKey)]) .internal
        record ⟨orgId, userId, "env.shared", some body.userId, some envId, none⟩
        commit
        return .ok

/-! ### Rotations -/

/-- Lock the row of an environment and read its revision. -/
def lockRevision (envId : Ident) : Session Int := do
  let current ← statement
    (fun db => if (db.environments.lookup envId).isSome then [.environment envId] else [])
    fun db => .ok (db.environments.lookup envId, [])
  match current with
  | some env => return env.revision
  | none => throw (.notFound "environment not found")

def updateRevision (envId : Ident) (revision : Int) : Session Unit :=
  write fun _ => .ok [.environments (.update envId fun env => { env with revision })]

/-- Rewrap the data key of a retained version. -/
def rewrapVersion (h : (Ident × Int) × Bytes) : Session PUnit :=
  write fun _ => .ok [.secretVersions (.update h.1 fun v => { v with encDataKey := h.2 })]

/-- Re-seal the vault key to a machine token of the environment. -/
def resealToken (envId : Ident) (m : Ident × Bytes) : Session PUnit :=
  write fun _ => .ok [.machineTokens (.update m.1 fun token =>
    if token.envId = envId then { token with encVaultKey := m.2 } else token)]

/-- Rewrap the data key of a secret of the environment. -/
def rewrapSecret (envId : Ident) (d : Ident × Bytes) : Session PUnit :=
  write fun _ => .ok [.secrets (.update d.1 fun secret =>
    if secret.envId = envId then { secret with encDataKey := d.2 } else secret)]

/-- The grants of an environment. -/
def Db.grantsOf (db : Db) (envId : Ident) : List (Ident × Ident) :=
  (db.grants.rows.map Prod.fst).filter fun k => k.1 = envId

def deleteGrants (envId : Ident) : Session Unit :=
  write fun db => .ok ((db.grantsOf envId).map fun k => .grants (.delete k))

/-- `POST /environments/{env_id}/rotate` -/
def rotate (userId envId : Ident) (req : RotateRequest) : Session Int := do
  let (_, access) ← envAccess envId userId
  check (access.requireManageStructure "must be an admin or owner to rotate an environment")
  match ← selectOrgId envId with
  | none => throw (.badRequest "environment is not in an organisation")
  | some orgId =>
      let rotation ← check (decodeRotation userId req)
      transaction do
        requireManageStructureTx access "must be an admin or owner to rotate an environment"
        let members ← read fun db =>
          (db.memberships.rows.filter fun m => m.1.1 = orgId).map fun m => m.1.2
        require (∀ g ∈ rotation.grants, g.1 ∈ members)
          (.badRequest "a grant recipient is not a member of this organisation")
        let current ← lockRevision envId
        require (current = rotation.baseRevision)
          (.precondition "base_revision is stale; re-pull and re-rotate")
        let secrets ← read fun db => (db.secretsOf envId).map (·.1)
        require (sameKeys (rotation.dataKeys.map (·.1)) secrets)
          (.badRequest "rotation must rewrap exactly the environment's current secrets")
        let versions ← read fun db => (db.historyOf envId).map (·.1)
        require (sameKeys (rotation.historyKeys.map (·.1)) versions) (.badRequest
          "rotation must rewrap exactly the environment's retained history versions")
        rotation.historyKeys.forM rewrapVersion
        let tokens ← read fun db => (db.activeTokensOf envId).map (·.1)
        require (sameKeys (rotation.machineGrants.map (·.1)) tokens)
          (.badRequest "rotation must re-grant exactly the environment's active machine tokens")
        rotation.machineGrants.forM (resealToken envId)
        rotation.dataKeys.forM (rewrapSecret envId)
        deleteGrants envId
        rotation.grants.forM fun g => insertGrant envId g.1 g.2 (.error .internal)
          (.badRequest "a grant recipient is not a known user")
        updateRevision envId (current + 1)
        record ⟨orgId, userId, "env.rotated", none, some envId,
          some (s!"{rotation.grants.length} member grant(s), " ++
            s!"{rotation.machineGrants.length} machine grant(s), " ++
            s!"{rotation.historyKeys.length} history version(s)")⟩
        commit
        return current + 1

/-! ### Machine tokens -/

structure CreateToken where
  name : String
  publicKey : Base64
  encVaultKey : Base64

/-- The id of a new token with the token itself. -/
structure CreatedToken where
  tokenId : Ident
  token : Bytes

/-- Cap on a token's label. -/
def maxName : Nat := 128

/-- Record an event of an environment, if that is of an organisation. -/
def recordIfOrg (orgId : Option Ident) (event : Ident → AuditEvent) : Session Unit :=
  match orgId with
  | some orgId => record (event orgId)
  | none => return ()

/-- `POST /environments/{env_id}/tokens` -/
def createToken (userId envId : Ident) (body : CreateToken) : Session CreatedToken := do
  require (¬ (body.name.isEmpty ∨ maxName < body.name.utf8ByteSize))
    (.badRequest s!"name must be between 1 and {maxName} characters")
  let publicKey ← check (decode body.publicKey "public_key" maxEncKey)
  require (publicKey.len = keyLen) (.badRequest s!"public_key must decode to {keyLen} bytes")
  let encVaultKey ← check (decode body.encVaultKey "enc_vault_key" maxEncKey)
  let (_, access) ← envAccess envId userId
  check (access.requireManageStructure "must be an admin or owner to create a machine token")
  let tokenId ← draw Ident
  let token ← draw Bytes
  transaction do
    requireManageStructureTx access "must be an admin or owner to create a machine token"
    writeLocking (fun _ => [.machineToken tokenId, .environmentKey envId]) fun db =>
      if (db.machineTokens.lookup tokenId).isSome ∨ (db.environments.lookup envId).isNone ∨
          (db.users.lookup userId).isNone then .error .internal
      else .ok [.tokenOrigins (.put tokenId ⟨body.name, userId⟩),
        .machineTokens (.put tokenId ⟨envId, publicKey, encVaultKey, false⟩)]
    recordIfOrg access.orgId fun orgId =>
      ⟨orgId, userId, "token.created", some tokenId, some envId, some body.name⟩
    commit
    return ⟨tokenId, token⟩

/-- `DELETE /environments/{env_id}/tokens/{token_id}` -/
def revokeToken (userId envId tokenId : Ident) : Session Status := do
  check (validateId tokenId "token_id")
  let (_, access) ← envAccess envId userId
  check (access.requireManageStructure "must be an admin or owner to revoke a machine token")
  transaction do
    requireManageStructureTx access "must be an admin or owner to revoke a machine token"
    let revoked ← statement (fun _ => []) fun db =>
      match db.machineTokens.lookup tokenId with
      | some token =>
          if token.envId = envId ∧ ¬ token.revoked then
            .ok (true, [.machineTokens (.update tokenId fun t =>
              if t.envId = envId then { t with revoked := true } else t)])
          else .ok (false, [])
      | none => .ok (false, [])
    require revoked (.notFound "machine token not found")
    recordIfOrg access.orgId fun orgId =>
      ⟨orgId, userId, "token.revoked", some tokenId, some envId, none⟩
    commit
    return .noContent

/-! ### Secrets -/

/-- Upsert a secret, resurrecting a tombstone, and append a history row. -/
def applySet (envId : Ident) (change : SecretChange) : Session PUnit := do
  require (1 ≤ change.version) (.badRequest "set requires version >= 1")
  let encName ← check (decodeRequired change.encName "enc_name" maxEncName)
  let encValue ← check (decodeRequired change.encValue "enc_value" maxEncValue)
  let encDataKey ← check (decodeRequired change.encDataKey "enc_data_key" maxEncKey)
  -- an id that exists under another environment matches no row
  writeLocking (fun _ => [.secret change.id]) fun db =>
    if (∃ secret ∈ db.secrets.lookup change.id, secret.envId ≠ envId) then
      .error (.conflict s!"secret id {change.id} belongs to another environment")
    else .ok [.secrets (.put change.id
      ⟨envId, encName, encValue, encDataKey, change.version, false⟩)]
  write fun db =>
    if (db.secretVersions.lookup (change.id, change.version)).isSome then
      .error (.conflict "secret version already exists")
    else .ok [.secretVersions (.put (change.id, change.version) ⟨encName, encValue, encDataKey⟩)]

/-- Soft-delete a secret; a no-op on an id that is not a secret of this environment. -/
def applyDelete (envId : Ident) (change : SecretChange) : Session PUnit :=
  write fun _ => .ok [.secrets (.update change.id fun secret =>
    if secret.envId = envId then { secret with deleted := true } else secret)]

def applyChange (envId : Ident) (change : SecretChange) : Session PUnit := do
  check (validateId change.id "change id")
  match change.op with
  | .set => applySet envId change
  | .delete => applyDelete envId change

/-- `POST /environments/{env_id}/secrets` -/
def writeSecrets (userId envId : Ident) (req : BatchRequest) : Session Int := do
  require (req.changes ≠ []) (.badRequest "batch must contain at least one change")
  let (_, access) ← envAccess envId userId
  check access.requireWrite
  transaction do
    requireWriteTx access
    let current ← lockRevision envId
    require (current = req.baseRevision)
      (.precondition "base_revision is stale; re-pull the snapshot")
    req.changes.forM (applyChange envId)
    updateRevision envId (current + 1)
    recordIfOrg access.orgId fun orgId => ⟨orgId, userId, "secrets.written", none, some envId,
      some s!"{req.changes.length} change(s), revision {current + 1}"⟩
    commit
    return current + 1

end Org

end Sotto
