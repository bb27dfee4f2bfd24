import Sotto.Server.Db

/-!
# The transactions of the sync API

What the write requests do inside their transactions: batches of secret changes,
key rotations, and the idempotent creation of accounts, projects and
environments. Each transaction locks the row it serialises on, so it is one step
of the database.
-/

namespace Sotto

namespace Server

open Core Api

/-! ### Accounts, projects and environments -/

/-- Initialise the account's crypto material; create-only. -/
def updateAccount (userId : Ident) (account : Account) : Tx Unit := do
  match (← get).users.lookup userId with
  | some none => modify fun db => { db with users := AList.insert userId (some account) db.users }
  | _ => throw (.conflict "account already initialised")

/-- The free tier's bound on projects of an organisation. -/
def freeMaxOrgProjects : Nat := 1

/-- Quota gate for a genuinely new project of an organisation. -/
def checkCanCreateOrgProject (orgId projectId : Ident) : Tx Unit := do
  let db ← get
  match db.organizations.lookup orgId with
  | none => throw (.notFound "organisation not found")
  | some org =>
      org.lifecycle.requireWrite
      if org.tier = .team ∨ (db.projects.lookup projectId).isSome then
        return ()
      else
        let projects := db.projects.rows.filter fun p => p.2.orgId = some orgId
        require (projects.length < freeMaxOrgProjects) (.quota
          s!"the free tier allows {freeMaxOrgProjects} project per organisation; upgrade to add more")

/-- The admin check of a project created in an organisation. -/
def requireOrgAdmin (access : OrgAccess) : Except Error Unit := do
  access.lifecycle.requireWrite
  require (access.role.isAtLeast .admin)
    (.forbidden "must be an admin or owner to create a project in this organisation")

/-- The checks of a project created in an organisation, its row being locked. -/
def requireProjectQuota (id ownerId : Ident) : Option Ident → Tx Unit
  | none => return ()
  | some orgId => do
      let access ← orgAccess orgId ownerId (← get)
      requireOrgAdmin access
      checkCanCreateOrgProject orgId id

/-- Insert a project unless its id is taken; returns whether it was created. -/
def insertProject (id ownerId : Ident) (orgId : Option Ident) (encName : Bytes) : Tx Bool := do
  requireProjectQuota id ownerId orgId
  match (← get).projects.lookup id with
  | some _ => return false
  | none =>
      modify fun db => { db with projects := AList.insert id ⟨ownerId, orgId, encName⟩ db.projects }
      return true

/-- Insert an environment and the creator's grant unless its id is taken; returns
whether it was created. -/
def insertEnvironment (access : ProjectAccess) (projectId userId id : Ident)
    (encName encVaultKey : Bytes) : Tx Bool := do
  access.requireManageStructureTx "must be an admin or owner to create an environment"
  match (← get).environments.lookup id with
  | some _ => return false
  | none =>
      modify fun db =>
        { db with
          environments := AList.insert id ⟨projectId, encName, 0⟩ db.environments
          grants := match db.grants.lookup (id, userId) with
            | some _ => db.grants
            | none => AList.insert (id, userId) encVaultKey db.grants }
      return true

/-- Replace an initialised account's crypto material. Everything sealed to the old keys is dead,
so the user's grants and organisation keys go with it. -/
def resetAccountTx (userId : Ident) (account : Account) : Tx Unit := do
  let db ← get
  let orgs := db.organizations.rows.filter fun o => (db.memberships.lookup (o.1, userId)).isSome
  orgs.forM fun o => o.2.lifecycle.requireWrite
  match db.users.lookup userId with
  | some (some _) =>
      set { db with
        users := AList.insert userId (some account) db.users
        grants := db.grants.filterRows fun k _ => k.2 ≠ userId
        memberships := db.memberships.mapRows fun k m =>
          if k.2 = userId then { m with encOrgKey := none } else m }
  | _ => throw (.notFound "account is not initialised; use PUT /account")

/-- Store a grant for a member of the environment's organisation, replacing any before. -/
def createGrantTx (access : ProjectAccess) (envId orgId userId : Ident) (encVaultKey : Bytes) :
    Tx Unit := do
  access.requireManageStructureTx "must be an admin or owner to share an environment"
  let db ← get
  require (db.memberships.lookup (orgId, userId)).isSome
    (.badRequest "target user is not a member of this organisation")
  require (db.environments.lookup envId).isSome .internal
  set { db with grants := AList.insert (envId, userId) encVaultKey db.grants }

/-! ### Batches -/

def decodeRequired (value : Option Base64) (field : String) (max : Nat) : Except Error Bytes :=
  match value with
  | none => .error (.badRequest s!"set requires {field}")
  | some value => decode value field max

/-- Upsert a secret, resurrecting a tombstone, and append a history row. -/
def applySet (envId : Ident) (change : SecretChange) : Tx Unit := do
  require (1 ≤ change.version) (.badRequest "set requires version >= 1")
  let encName ← decodeRequired change.encName "enc_name" maxEncName
  let encValue ← decodeRequired change.encValue "enc_value" maxEncValue
  let encDataKey ← decodeRequired change.encDataKey "enc_data_key" maxEncKey
  -- an id that exists under another environment matches no row
  let db ← get
  require (∀ secret ∈ db.secrets.lookup change.id, secret.envId = envId)
    (.conflict s!"secret id {change.id} belongs to another environment")
  require (db.secretVersions.lookup (change.id, change.version) = none)
    (.conflict "secret version already exists")
  set
    { db with
      secrets := AList.insert change.id
        ⟨envId, encName, encValue, encDataKey, change.version, false⟩ db.secrets
      secretVersions := AList.insert (change.id, change.version)
        ⟨encName, encValue, encDataKey⟩ db.secretVersions }

/-- Soft-delete a secret, leaving version and ciphertext; a no-op on an id that is
not a secret of this environment. -/
def applyDelete (envId : Ident) (change : SecretChange) : Tx Unit :=
  modify fun db =>
    { db with
      secrets := db.secrets.modify change.id fun secret =>
        if secret.envId = envId then { secret with deleted := true } else secret }

def applyChange (envId : Ident) (change : SecretChange) : Tx Unit := do
  validateId change.id "change id"
  match change.op with
  | .set => applySet envId change
  | .delete => applyDelete envId change

/-- The environment's revision, its row being locked. -/
def lockRevision (envId : Ident) : Tx Int := do
  match (← get).environments.lookup envId with
  | some env => return env.revision
  | none => throw (.notFound "environment not found")

def setRevision (envId : Ident) (revision : Int) : Tx Unit :=
  modify fun db =>
    { db with environments := db.environments.modify envId fun env => { env with revision } }

/-- Apply a batch of changes atomically at its base revision. -/
def writeSecretsTx (access : ProjectAccess) (envId : Ident) (req : BatchRequest) : Tx Int := do
  access.requireWriteTx
  let current ← lockRevision envId
  require (current = req.baseRevision)
    (.precondition "base_revision is stale; re-pull the snapshot")
  req.changes.forM (applyChange envId)
  setRevision envId (current + 1)
  return current + 1

/-! ### Rotations -/

/-- A rotation with its blobs decoded. -/
structure Rotation where
  baseRevision : Int
  grants : List (Ident × Bytes)
  dataKeys : List (Ident × Bytes)
  machineGrants : List (Ident × Bytes)
  historyKeys : List ((Ident × Int) × Bytes)

/-- The environment's retained history versions. -/
def Db.historyOf (db : Db) (envId : Ident) : List ((Ident × Int) × SecretVersion) :=
  db.secretVersions.rows.filter fun v => (db.secrets.lookup v.1.1).any fun s => s.envId = envId

/-- The environment's secrets, live and tombstoned. -/
def Db.secretsOf (db : Db) (envId : Ident) : List (Ident × Secret) :=
  db.secrets.rows.filter fun s => s.2.envId = envId

/-- The environment's active machine tokens. -/
def Db.activeTokensOf (db : Db) (envId : Ident) : List (Ident × MachineToken) :=
  db.machineTokens.rows.filter fun t => t.2.envId = envId ∧ ¬ t.2.revoked

/-- Whether two lists name the same keys. -/
def sameKeys {K : Type} [DecidableEq K] (provided existing : List K) : Bool :=
  provided.all (· ∈ existing) && existing.all (· ∈ provided)

/-- Replace the data keys of secrets by a list of entries, in order. -/
def rewrapSecrets (envId : Ident) (dataKeys : List (Ident × Bytes)) (secrets : Table Ident Secret) :
    Table Ident Secret :=
  dataKeys.foldl (fun t d => t.modify d.1 fun s =>
    if s.envId = envId then { s with encDataKey := d.2 } else s) secrets

/-- Replace the data keys of history rows by a list of entries, in order. -/
def rewrapHistory (historyKeys : List ((Ident × Int) × Bytes))
    (versions : Table (Ident × Int) SecretVersion) : Table (Ident × Int) SecretVersion :=
  historyKeys.foldl (fun t h => t.modify h.1 fun v => { v with encDataKey := h.2 }) versions

/-- Re-seal machine tokens by a list of entries, in order. -/
def resealTokens (envId : Ident) (machineGrants : List (Ident × Bytes))
    (tokens : Table Ident MachineToken) : Table Ident MachineToken :=
  machineGrants.foldl (fun t m => t.modify m.1 fun k =>
    if k.envId = envId then { k with encVaultKey := m.2 } else k) tokens

/-- Replace the environment's grants by a list of entries. -/
def replaceGrants (envId : Ident) (grants : List (Ident × Bytes))
    (table : Table (Ident × Ident) Bytes) : Table (Ident × Ident) Bytes :=
  grants.foldl (fun t g => AList.insert (envId, g.1) g.2 t)
    (table.filterRows fun k _ => k.1 ≠ envId)

/-- Re-key an environment at a base revision: rewrap every data key, current and
history, re-seal its tokens, replace its grants, and advance the revision. -/
def rotateTx (access : ProjectAccess) (envId orgId : Ident) (req : Rotation) : Tx Int := do
  access.requireManageStructureTx "must be an admin or owner to rotate an environment"
  let db ← get
  require (req.grants.all fun g => (db.memberships.lookup (orgId, g.1)).isSome)
    (.badRequest "a grant recipient is not a member of this organisation")
  let current ← lockRevision envId
  require (current = req.baseRevision)
    (.precondition "base_revision is stale; re-pull and re-rotate")
  require (sameKeys (req.dataKeys.map (·.1)) ((db.secretsOf envId).map (·.1)))
    (.badRequest "rotation must rewrap exactly the environment's current secrets")
  require (sameKeys (req.historyKeys.map (·.1)) ((db.historyOf envId).map (·.1)))
    (.badRequest "rotation must rewrap exactly the environment's retained history versions")
  require (sameKeys (req.machineGrants.map (·.1)) ((db.activeTokensOf envId).map (·.1)))
    (.badRequest "rotation must re-grant exactly the environment's active machine tokens")
  set { db with
    secretVersions := rewrapHistory req.historyKeys db.secretVersions
    machineTokens := resealTokens envId req.machineGrants db.machineTokens
    secrets := rewrapSecrets envId req.dataKeys db.secrets
    grants := replaceGrants envId req.grants db.grants }
  require (req.grants.all fun g => (db.users.lookup g.1).isSome)
    (.badRequest "a grant recipient is not a known user")
  setRevision envId (current + 1)
  return current + 1

end Server

end Sotto
