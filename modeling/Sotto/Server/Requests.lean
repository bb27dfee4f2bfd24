import Sotto.Server.Sync

/-!
# The requests of the sync API

Each request handler issues its database statements one after another; a
transaction is one statement. Other requests run between two statements of a
handler. The handlers are written over any monad that can issue a statement and
fail, so that a client's program contains the statements its requests cause.

Record order (`ORDER BY id`) and the audit log are left out.
-/

namespace Sotto

namespace Server

open Core Api

/-- One statement or transaction of the database. -/
inductive Stmt
  | orgAccess (orgId userId : Ident)
  | projectAccess (projectId userId : Ident)
  | envAccess (envId userId : Ident)
  | updateAccount (userId : Ident) (account : Account)
  | selectOrgs (userId : Ident)
  | insertProject (id ownerId : Ident) (orgId : Option Ident) (encName : Bytes)
  | selectProject (id : Ident)
  | insertEnvironment (access : ProjectAccess) (projectId userId id : Ident)
      (encName encVaultKey : Bytes)
  | selectEnvironment (id : Ident)
  | selectSecrets (envId : Ident)
  | selectHistory (envId : Ident)
  | writeSecrets (access : ProjectAccess) (envId : Ident) (req : BatchRequest)
  | selectOrgId (envId : Ident)
  | selectGrant (envId userId : Ident)
  | selectGrantHolders (envId : Ident)
  | selectMembers (orgId : Ident)
  | selectTokens (envId : Ident)
  | rotate (access : ProjectAccess) (envId orgId : Ident) (req : Rotation)
  | selectAccount (userId : Ident)
  | resetAccount (userId : Ident) (account : Account)
  | selectEnvironments (projectId userId : Ident)
  | createGrant (access : ProjectAccess) (envId orgId userId : Ident) (encVaultKey : Bytes)

namespace Stmt

/-- What a statement returns. -/
abbrev Reply : Stmt → Type
  | orgAccess .. => OrgAccess
  | projectAccess .. => ProjectAccess
  | envAccess .. => Ident × ProjectAccess
  | updateAccount .. => Unit
  | selectOrgs .. => List (Ident × Organization × Membership)
  | insertProject .. => Bool
  | selectProject .. => Option Project
  | insertEnvironment .. => Bool
  | selectEnvironment .. => Option Environment
  | selectSecrets .. => List (Ident × Secret)
  | selectHistory .. => List ((Ident × Int) × SecretVersion)
  | writeSecrets .. => Int
  | selectOrgId .. => Option Ident
  | selectGrant .. => Option Bytes
  | selectGrantHolders .. => List Ident
  | selectMembers .. => List (Ident × Option Bytes)
  | selectTokens .. => List (Ident × MachineToken)
  | rotate .. => Int
  | selectAccount .. => Option Account
  | resetAccount .. => Unit
  | selectEnvironments .. => List (Ident × Environment × Option Bytes)
  | createGrant .. => Unit

/-- What a statement does. -/
def exec : (s : Stmt) → Db → Except Error s.Reply × Db
  | orgAccess orgId userId => query (Server.orgAccess orgId userId)
  | projectAccess projectId userId => query (Server.projectAccess projectId userId)
  | envAccess envId userId => query (Server.envAccess envId userId)
  | updateAccount userId account => commit (Server.updateAccount userId account)
  | selectOrgs userId => query fun db => .ok <|
      db.organizations.rows.filterMap fun o =>
        match db.memberships.lookup (o.1, userId) with
        | some m => if o.2.lifecycle = .deleted then none else some (o.1, o.2, m)
        | none => none
  | insertProject id ownerId orgId encName =>
      commit (Server.insertProject id ownerId orgId encName)
  | selectProject id => query fun db => .ok (db.projects.lookup id)
  | insertEnvironment access projectId userId id encName encVaultKey =>
      commit (Server.insertEnvironment access projectId userId id encName encVaultKey)
  | selectEnvironment id => query fun db => .ok (db.environments.lookup id)
  | selectSecrets envId => query fun db => .ok (db.secretsOf envId)
  | selectHistory envId => query fun db => .ok (db.historyOf envId)
  | writeSecrets access envId req => commit (writeSecretsTx access envId req)
  | selectOrgId envId => query fun db =>
      match db.environments.lookup envId with
      | none => .error .internal
      | some env =>
          match db.projects.lookup env.projectId with
          | none => .error .internal
          | some project => .ok project.orgId
  | selectGrant envId userId => query fun db => .ok (db.grants.lookup (envId, userId))
  | selectGrantHolders envId => query fun db => .ok <|
      (db.grants.rows.filter fun g => g.1.1 = envId).map fun g => g.1.2
  | selectMembers orgId => query fun db => .ok <|
      (db.memberships.rows.filter fun m => m.1.1 = orgId).map fun m =>
        (m.1.2, ((db.users.lookup m.1.2).bind id).map Account.publicKey)
  | selectTokens envId => query fun db => .ok (db.activeTokensOf envId)
  | rotate access envId orgId req => commit (rotateTx access envId orgId req)
  | selectAccount userId => query fun db => .ok ((db.users.lookup userId).bind id)
  | resetAccount userId account => commit (resetAccountTx userId account)
  | selectEnvironments projectId userId => query fun db => .ok <|
      (db.environments.rows.filter fun e => e.2.projectId = projectId).map fun e =>
        (e.1, e.2, db.grants.lookup (e.1, userId))
  | createGrant access envId orgId userId encVaultKey =>
      commit (createGrantTx access envId orgId userId encVaultKey)

end Stmt

/-- A monad in which a handler can issue statements. -/
class Database (m : Type → Type) where
  perform : (s : Stmt) → m s.Reply

section Handlers

variable {m : Type → Type} [Monad m] [MonadExcept Error m] [Database m]

/-- Fail the request where a check fails. -/
def check {α : Type} (result : Except Error α) : m α :=
  match result with
  | .ok a => pure a
  | .error e => throw e

/-- Cap on an account blob. -/
def maxBlob : Nat := 16 * 1024

/-- `PUT /account` -/
def putAccount (userId : Ident) (bundle : AccountBundle) : m Unit := do
  let publicKey ← check (decode bundle.publicKey "public_key" maxBlob)
  require (publicKey.len = keyLen)
    (.badRequest s!"public_key must decode to {keyLen} bytes")
  let encPrivateKeys ← check (decode bundle.encPrivateKeys "enc_private_keys" maxBlob)
  let kdfParams ← check (decode bundle.kdfParams "kdf_params" maxBlob)
  let recoveryBlob ← check (decode bundle.recoveryBlob "recovery_blob" maxBlob)
  Database.perform (.updateAccount userId ⟨publicKey, encPrivateKeys, kdfParams, recoveryBlob⟩)

/-- `POST /account/reset` -/
def resetAccount (userId : Ident) (bundle : AccountBundle) : m Unit := do
  let publicKey ← check (decode bundle.publicKey "public_key" maxBlob)
  require (publicKey.len = keyLen)
    (.badRequest s!"public_key must decode to {keyLen} bytes")
  let encPrivateKeys ← check (decode bundle.encPrivateKeys "enc_private_keys" maxBlob)
  let kdfParams ← check (decode bundle.kdfParams "kdf_params" maxBlob)
  let recoveryBlob ← check (decode bundle.recoveryBlob "recovery_blob" maxBlob)
  Database.perform (.resetAccount userId ⟨publicKey, encPrivateKeys, kdfParams, recoveryBlob⟩)

/-- `GET /account` -/
def getAccount (userId : Ident) : m AccountBundle := do
  match ← Database.perform (.selectAccount userId) with
  | some account => return ⟨encode account.publicKey, encode account.encPrivateKeys,
      encode account.kdfParams, encode account.recoveryBlob⟩
  | none => throw (.notFound "account is not initialised")

/-- `GET /orgs` -/
def listOrgs (userId : Ident) : m (List OrgInfo) := do
  let rows ← Database.perform (.selectOrgs userId)
  return rows.map fun o => ⟨o.1, encode o.2.1.encName, o.2.2.encOrgKey.map encode⟩

/-- Creating a project inside an organisation is a structural change. -/
def requireOrgAdminOf (userId : Ident) : Option Ident → m Unit
  | none => return ()
  | some orgId => do
      let access ← Database.perform (.orgAccess orgId userId)
      check (requireOrgAdmin access)

/-- `POST /projects` -/
def createProject (userId : Ident) (body : NewProject) : m Unit := do
  check (validateId body.id "id")
  let encName ← check (decode body.encName "enc_name" maxEncName)
  requireOrgAdminOf userId body.orgId
  let created ← Database.perform (.insertProject body.id userId body.orgId encName)
  if created then
    return ()
  else
    -- idempotent on a project of the same shape that the caller can reach
    let existing ← Database.perform (.selectProject body.id)
    require (∃ p ∈ existing, p.orgId = body.orgId) (.conflict "project id already in use")
    let _ ← tryCatch (Database.perform (.projectAccess body.id userId))
      fun _ => throw (.conflict "project id already in use")

/-- `POST /projects/{project_id}/environments` -/
def createEnvironment (userId projectId : Ident) (body : NewEnvironment) : m Unit := do
  check (validateId body.id "id")
  let encName ← check (decode body.encName "enc_name" maxEncName)
  let encVaultKey ← check (decode body.encVaultKey "enc_vault_key" maxEncKey)
  let access ← Database.perform (.projectAccess projectId userId)
  check (access.requireManageStructure "must be an admin or owner to create an environment")
  let created ← Database.perform
    (.insertEnvironment access projectId userId body.id encName encVaultKey)
  if created then
    return ()
  else
    -- idempotent only if the environment already sits under this project
    let existing ← Database.perform (.selectEnvironment body.id)
    require (∃ e ∈ existing, e.projectId = projectId)
      (.conflict "environment id already in use")

/-- `GET /projects/{project_id}/environments` -/
def listEnvironments (userId projectId : Ident) : m (List EnvironmentInfo) := do
  let _ ← Database.perform (.projectAccess projectId userId)
  let rows ← Database.perform (.selectEnvironments projectId userId)
  return rows.map fun e => ⟨e.1, encode e.2.1.encName, e.2.2.map encode, e.2.1.revision⟩

/-- The environment's current revision. -/
def envRevision (envId : Ident) : m Int := do
  match ← Database.perform (.selectEnvironment envId) with
  | some env => return env.revision
  | none => throw (.notFound "environment not found")

/-- A secret as the snapshot shows it. -/
def secretView (s : Ident × Secret) : SecretEntry :=
  ⟨s.1, encode s.2.encName, encode s.2.encValue, encode s.2.encDataKey, s.2.version, s.2.deleted⟩

/-- `GET /environments/{env_id}/secrets`: the full snapshot, or nothing when the
caller already has the current revision. -/
def snapshot (userId envId : Ident) (ifNoneMatch : Option Int) : m (Option Snapshot) := do
  let _ ← Database.perform (.envAccess envId userId)
  let revision ← envRevision envId
  if ifNoneMatch = some revision then
    return none
  let rows ← Database.perform (.selectSecrets envId)
  return some ⟨revision, rows.map secretView⟩

/-- `GET /environments/{env_id}/history` -/
def history (userId envId : Ident) : m (List HistoryRow) := do
  let _ ← Database.perform (.envAccess envId userId)
  let rows ← Database.perform (.selectHistory envId)
  return rows.map fun v =>
    ⟨v.1.1, v.1.2, encode v.2.encName, encode v.2.encValue, encode v.2.encDataKey⟩

/-- `POST /environments/{env_id}/secrets` -/
def writeSecrets (userId envId : Ident) (req : BatchRequest) : m Int := do
  require (req.changes ≠ []) (.badRequest "batch must contain at least one change")
  let (_, access) ← Database.perform (.envAccess envId userId)
  check access.requireWrite
  Database.perform (.writeSecrets access envId req)

/-- `POST /environments/{env_id}/grants` -/
def createGrant (userId envId : Ident) (body : CreateGrant) : m Unit := do
  let encVaultKey ← check (decode body.encVaultKey "enc_vault_key" maxEncKey)
  let (_, access) ← Database.perform (.envAccess envId userId)
  check (access.requireManageStructure "must be an admin or owner to share an environment")
  match ← Database.perform (.selectOrgId envId) with
  | none => throw (.badRequest "environment is not in an organisation; nothing to share")
  | some orgId => Database.perform (.createGrant access envId orgId body.userId encVaultKey)

/-- `GET /environments/{env_id}/grants` -/
def listGrantHolders (userId envId : Ident) : m (List Ident) := do
  let (_, access) ← Database.perform (.envAccess envId userId)
  require (access.canManageStructure)
    (.forbidden "must be an admin or owner to list grant holders")
  Database.perform (.selectGrantHolders envId)

/-- `GET /environments/{env_id}/grant` -/
def getGrant (userId envId : Ident) : m Base64 := do
  let _ ← Database.perform (.envAccess envId userId)
  match ← Database.perform (.selectGrant envId userId) with
  | some encVaultKey => return encode encVaultKey
  | none => throw (.notFound "no grant for this environment")

/-- `GET /orgs/{org_id}/members` -/
def listMembers (userId orgId : Ident) : m (List MemberInfo) := do
  let _ ← Database.perform (.orgAccess orgId userId)
  let rows ← Database.perform (.selectMembers orgId)
  return rows.map fun r => ⟨r.1, r.2.map encode⟩

/-- `GET /environments/{env_id}/tokens` -/
def listTokens (userId envId : Ident) : m (List MachineTokenInfo) := do
  let (_, access) ← Database.perform (.envAccess envId userId)
  require (access.canManageStructure)
    (.forbidden "must be an admin or owner to list machine tokens")
  let rows ← Database.perform (.selectTokens envId)
  return rows.map fun t => ⟨t.1, encode t.2.publicKey⟩

/-- Decode the blobs of a list of entries, bounds-checked. -/
def decodeEntries {K : Type} (field : String) :
    List (K × Base64) → Except Error (List (K × Bytes))
  | [] => .ok []
  | (k, value) :: rest => do
      let bytes ← decode value field maxEncKey
      return (k, bytes) :: (← decodeEntries field rest)

/-- Decode the blobs of a list of entries, rejecting a repeated key on the way. -/
def decodeDistinct {K : Type} [DecidableEq K] (duplicate field : String) (seen : List K) :
    List (K × Base64) → Except Error (List (K × Bytes))
  | [] => .ok []
  | (k, value) :: rest => do
      require (k ∉ seen) (.badRequest duplicate)
      let bytes ← decode value field maxEncKey
      return (k, bytes) :: (← decodeDistinct duplicate field (k :: seen) rest)

/-- The checks of a rotation that do not read the database. -/
def decodeRotation (userId : Ident) (req : RotateRequest) : Except Error Rotation := do
  require ((req.grants.map (·.userId)).Nodup)
    (.badRequest "duplicate user_id in the rotation grant set")
  let grants ← decodeEntries "enc_vault_key" (req.grants.map fun g => (g.userId, g.encVaultKey))
  let dataKeys ← decodeEntries "enc_data_key"
    (req.dataKeys.map fun d => (d.secretId, d.encDataKey))
  let machineGrants ← decodeDistinct "duplicate token_id in the rotation machine-grant set"
    "enc_vault_key" [] (req.machineGrants.map fun t => (t.tokenId, t.encVaultKey))
  let historyKeys ← decodeDistinct "duplicate (secret_id, version) in the rotation history set"
    "enc_data_key" [] (req.historyKeys.map fun h => ((h.secretId, h.version), h.encDataKey))
  require (grants.any fun g => g.1 = userId)
    (.badRequest "you must include your own grant in the rotation")
  return ⟨req.baseRevision, grants, dataKeys, machineGrants, historyKeys⟩

/-- `POST /environments/{env_id}/rotate` -/
def rotate (userId envId : Ident) (req : RotateRequest) : m Int := do
  let (_, access) ← Database.perform (.envAccess envId userId)
  check (access.requireManageStructure "must be an admin or owner to rotate an environment")
  let orgId ← Database.perform (.selectOrgId envId)
  match orgId with
  | none => throw (.badRequest "environment is not in an organisation")
  | some orgId =>
      let rotation ← check (decodeRotation userId req)
      Database.perform (.rotate access envId orgId rotation)

end Handlers

end Server

end Sotto
