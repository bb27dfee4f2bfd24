import Sotto.Org.Db

/-!
# Access to organisations and projects

How a request resolves what its caller may do: first without a transaction, and once more inside
the transaction of a write, under the lock of the organisation.
-/

namespace Sotto

namespace Org

open Core (Ident Bytes)
open Server (Membership Organization Role LifecycleState OrgAccess ProjectAccess Error
  mapProjectAccessError)
open Sessions (check require statement)

/-- The program of a request. -/
abbrev Session : Type → Type 1 := Sessions.Session Db Change Lock Error

/-- A statement that reads. -/
def read {α : Type} (f : Db → α) : Session α := Sessions.query fun db => .ok (f db)

/-- A statement that writes rows and takes locks; it fails where a constraint is violated. -/
def writeLocking (locks : Db → List Lock) (f : Db → Except Error (List Change)) : Session Unit :=
  statement locks fun db => (f db).map fun changes => ((), changes)

def write (f : Db → Except Error (List Change)) : Session Unit := writeLocking (fun _ => []) f

/-- What a membership and a lifecycle state give. -/
def accessFromRow (row : Option (Role × LifecycleState)) : Except Error OrgAccess :=
  match row with
  | none => .error (.notFound "organisation not found")
  | some (role, lifecycle) =>
      if lifecycle = .deleted then .error (.notFound "organisation not found")
      else .ok ⟨role, lifecycle⟩

/-- The role of a user in an organisation. -/
def Db.roleOf (db : Db) (orgId userId : Ident) : Option Role :=
  (db.memberships.lookup (orgId, userId)).map Membership.role

def Db.lifecycleOf (db : Db) (orgId : Ident) : Option LifecycleState :=
  (db.organizations.lookup orgId).map Organization.lifecycle

/-- The answer to `access`, found or not. -/
def findAccess (orgId userId : Ident) : Session (Except Error OrgAccess) :=
  read fun db => accessFromRow <|
    (db.lifecycleOf orgId).bind fun lifecycle =>
      (db.roleOf orgId userId).map fun role => (role, lifecycle)

/-- Resolve a caller's membership and lifecycle state. -/
def access (orgId userId : Ident) : Session OrgAccess := do
  check (← findAccess orgId userId)

/-- `SELECT ... FROM organizations ... FOR UPDATE`: a row that is missing is not locked. -/
def lockOrganization (orgId : Ident) : Session (Option LifecycleState) :=
  statement (fun db => if (db.lifecycleOf orgId).isSome then [.organization orgId] else [])
    fun db => .ok (db.lifecycleOf orgId, [])

/-- The answer to `accessForUpdate`, found or not. -/
def findAccessForUpdate (orgId userId : Ident) : Session (Except Error OrgAccess) := do
  match ← lockOrganization orgId with
  | none => return .error (.notFound "organisation not found")
  | some lifecycle =>
      let role ← read fun db => db.roleOf orgId userId
      return accessFromRow (role.map fun role => (role, lifecycle))

/-- Resolve and lock an organisation before a user-scoped write. -/
def accessForUpdate (orgId userId : Ident) : Session OrgAccess := do
  check (← findAccessForUpdate orgId userId)

def canManageMembers (role : Role) : Bool := role.isAtLeast .admin

/-- Recheck membership and lifecycle while holding the organisation lock for a write. -/
def requireWriteTx (access : ProjectAccess) : Session Unit :=
  match access.orgId with
  | some orgId => do
      let orgAccess ← check (mapProjectAccessError (← findAccessForUpdate orgId access.userId))
      check (mapProjectAccessError orgAccess.lifecycle.requireWrite)
  | none => return ()

/-- Recheck role and lifecycle while holding the organisation lock. -/
def requireManageStructureTx (access : ProjectAccess) (message : String) : Session Unit :=
  match access.orgId with
  | some orgId => do
      let orgAccess ← check (mapProjectAccessError (← findAccessForUpdate orgId access.userId))
      check (mapProjectAccessError orgAccess.lifecycle.requireWrite)
      require (orgAccess.role.isAtLeast .admin) (.forbidden message)
  | none => require access.canManageStructure (.forbidden message)

/-- Resolve the caller's access to a project. -/
def projectAccess (projectId userId : Ident) : Session ProjectAccess := do
  match ← read fun db => db.projects.lookup projectId with
  | none => throw (.notFound "project not found")
  | some project =>
      match project.orgId with
      | none =>
          if project.ownerId = userId then return ⟨true, none, none, none, userId⟩
          else throw (.notFound "project not found")
      | some orgId =>
          let orgAccess ← check (mapProjectAccessError (← findAccess orgId userId))
          return ⟨false, some orgAccess.role, some orgId, some orgAccess.lifecycle, userId⟩

/-- Resolve the caller's access to the project owning an environment. -/
def envAccess (envId userId : Ident) : Session (Ident × ProjectAccess) := do
  match ← read fun db => db.environments.lookup envId with
  | none => throw (.notFound "environment not found")
  | some env => return (env.projectId, ← projectAccess env.projectId userId)

/-- Record one event, so that it commits with the change it describes. -/
def record (event : AuditEvent) : Session Unit :=
  write fun db =>
    if (db.organizations.lookup event.orgId).isSome then .ok [.auditEvent event]
    else .error .internal

end Org

end Sotto
