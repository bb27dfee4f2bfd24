import Sotto.Api
import Sotto.Library.Table

/-!
# The server's database

The tables the sync API reads and writes, the transactions over them, and the
access checks every request starts with. A transaction that fails leaves the
database as it was. An organisation's lifecycle and plan are columns here that no
sync request changes.
-/

namespace Sotto

namespace Server

open Core

/-- The errors a request is answered with. -/
inductive Error
  | internal
  | forbidden (message : String)
  | quota (message : String)
  | badRequest (message : String)
  | notFound (message : String)
  | conflict (message : String)
  | precondition (message : String)
deriving DecidableEq

inductive Role
  | owner
  | admin
  | member
deriving DecidableEq

def Role.rank : Role → Nat
  | owner => 2
  | admin => 1
  | member => 0

def Role.isAtLeast (role other : Role) : Bool := role.rank ≥ other.rank

/-- The lifecycle state that governs ordinary organisation access. -/
inductive LifecycleState
  | active
  | deleting
  | deleted
deriving DecidableEq

inductive Tier
  | free
  | team
deriving DecidableEq

/-- The account key material of a user, all fields opaque. -/
structure Account where
  publicKey : Bytes
  encPrivateKeys : Bytes
  kdfParams : Bytes
  recoveryBlob : Bytes
deriving DecidableEq

/-- An organisation, with the tier in effect. -/
structure Organization where
  encName : Bytes
  lifecycle : LifecycleState
  tier : Tier
deriving DecidableEq

structure Membership where
  role : Role
  encOrgKey : Option Bytes
deriving DecidableEq

structure Project where
  ownerId : Ident
  orgId : Option Ident
  encName : Bytes
deriving DecidableEq

/-- An environment. Its revision grows by one with each batch or rotation, so it
stays far below the bound of its 64-bit column. -/
structure Environment where
  projectId : Ident
  encName : Bytes
  revision : Int
deriving DecidableEq

structure Secret where
  envId : Ident
  encName : Bytes
  encValue : Bytes
  encDataKey : Bytes
  version : Int
  deleted : Bool
deriving DecidableEq

structure SecretVersion where
  encName : Bytes
  encValue : Bytes
  encDataKey : Bytes
deriving DecidableEq

structure MachineToken where
  envId : Ident
  publicKey : Bytes
  encVaultKey : Bytes
  revoked : Bool
deriving DecidableEq

/-- The database: users, organisations and memberships (by organisation and user),
projects, environments, grants (by environment and user), secrets, the retained
versions of secrets (by secret and version), and machine tokens. -/
structure Db where
  users : Table Ident (Option Account)
  organizations : Table Ident Organization
  memberships : Table (Ident × Ident) Membership
  projects : Table Ident Project
  environments : Table Ident Environment
  grants : Table (Ident × Ident) Bytes
  secrets : Table Ident Secret
  secretVersions : Table (Ident × Int) SecretVersion
  machineTokens : Table Ident MachineToken

/-- Fail with `e` unless `p` holds. -/
def require {m : Type → Type} [Monad m] [MonadExcept Error m] (p : Prop) [Decidable p]
    (e : Error) : m Unit :=
  if p then pure () else throw e

/-- A transaction. -/
abbrev Tx := StateT Db (Except Error)

/-- Commit a transaction that succeeds; roll back one that fails. -/
def commit {α : Type} (tx : Tx α) (db : Db) : Except Error α × Db :=
  match tx.run db with
  | .ok (a, db') => (.ok a, db')
  | .error e => (.error e, db)

/-- A read-only statement. -/
def query {α : Type} (read : Db → Except Error α) (db : Db) : Except Error α × Db :=
  (read db, db)

/-! ### Access -/

/-- Require an organisation to accept a user-scoped write. -/
def LifecycleState.requireWrite : LifecycleState → Except Error Unit
  | active => .ok ()
  | deleting => .error (.conflict "organisation deletion is in progress")
  | deleted => .error (.notFound "organisation not found")

/-- A caller's role together with the lifecycle of the organisation they reached. -/
structure OrgAccess where
  role : Role
  lifecycle : LifecycleState

/-- Resolve a caller's membership and lifecycle state. A missing membership, a
missing organisation and a deleted one give the same answer. -/
def orgAccess (orgId userId : Ident) (db : Db) : Except Error OrgAccess :=
  match db.organizations.lookup orgId, db.memberships.lookup (orgId, userId) with
  | some org, some membership =>
      if org.lifecycle = .deleted then .error (.notFound "organisation not found")
      else .ok ⟨membership.role, org.lifecycle⟩
  | _, _ => .error (.notFound "organisation not found")

/-- A resolved grant of access to a project. -/
structure ProjectAccess where
  isOwner : Bool
  orgRole : Option Role
  orgId : Option Ident
  orgLifecycle : Option LifecycleState
  userId : Ident

namespace ProjectAccess

def canManageStructure (access : ProjectAccess) : Bool :=
  access.isOwner || access.orgRole.any fun role => role.isAtLeast .admin

/-- Reject a write while the organisation is being deleted. -/
def requireWrite (access : ProjectAccess) : Except Error Unit :=
  match access.orgLifecycle with
  | some lifecycle => lifecycle.requireWrite
  | none => .ok ()

/-- Require a live organisation and the admin or owner role. -/
def requireManageStructure (access : ProjectAccess) (message : String) : Except Error Unit := do
  access.requireWrite
  require access.canManageStructure (.forbidden message)

end ProjectAccess

def mapProjectAccessError {α : Type} : Except Error α → Except Error α
  | .error (.notFound _) => .error (.notFound "project not found")
  | other => other

namespace ProjectAccess

/-- Recheck membership and lifecycle inside a write's transaction. -/
def requireWriteTx (access : ProjectAccess) : Tx Unit := do
  match access.orgId with
  | some orgId =>
      let orgAccess ← mapProjectAccessError (orgAccess orgId access.userId (← get))
      mapProjectAccessError orgAccess.lifecycle.requireWrite
  | none => return ()

/-- Recheck role and lifecycle inside a structural write's transaction. -/
def requireManageStructureTx (access : ProjectAccess) (message : String) : Tx Unit := do
  match access.orgId with
  | some orgId =>
      let orgAccess ← mapProjectAccessError (orgAccess orgId access.userId (← get))
      mapProjectAccessError orgAccess.lifecycle.requireWrite
      require (orgAccess.role.isAtLeast .admin) (.forbidden message)
  | none => require access.canManageStructure (.forbidden message)

end ProjectAccess

/-- Resolve the caller's access to a project. -/
def projectAccess (projectId userId : Ident) (db : Db) : Except Error ProjectAccess :=
  match db.projects.lookup projectId with
  | none => .error (.notFound "project not found")
  | some project =>
      match project.orgId with
      | none =>
          if project.ownerId = userId then .ok ⟨true, none, none, none, userId⟩
          else .error (.notFound "project not found")
      | some orgId => do
          let orgAccess ← mapProjectAccessError (orgAccess orgId userId db)
          return ⟨false, some orgAccess.role, some orgId, some orgAccess.lifecycle, userId⟩

/-- Resolve the caller's access to the project owning an environment. -/
def envAccess (envId userId : Ident) (db : Db) : Except Error (Ident × ProjectAccess) :=
  match db.environments.lookup envId with
  | none => .error (.notFound "environment not found")
  | some env => do return (env.projectId, ← projectAccess env.projectId userId db)

/-! ### Field checks -/

/-- Max length of a client-supplied id. -/
def maxId : Nat := 128

/-- Cap on an encrypted name blob. -/
def maxEncName : Nat := 4 * 1024

/-- Cap on an encrypted secret value blob. -/
def maxEncValue : Nat := 64 * 1024

/-- Cap on a wrapped key blob. -/
def maxEncKey : Nat := 1024

/-- Reject empty, oversize, or unsafely-charactered ids. -/
def validateId (id : Ident) (field : String) : Except Error Unit :=
  match id with
  | .uuid _ => .ok ()
  | .text s =>
      if s.isEmpty ∨ s.utf8ByteSize > maxId then
        .error (.badRequest s!"{field} must be between 1 and {maxId} characters")
      else if s.toList.all fun c => c.isAlphanum || c = '-' || c = '_' then .ok ()
      else .error (.badRequest s!"{field} may contain only letters, digits, '-', and '_'")

/-- Decode a base64 field, rejecting what would exceed `max` bytes before decoding. -/
def decode (value : Base64) (field : String) (max : Nat) : Except Error Bytes :=
  match value with
  | .valid bytes =>
      if bytes.len ≤ max then .ok bytes
      else .error (.badRequest s!"{field} exceeds {max} bytes")
  | .malformed text =>
      if text.utf8ByteSize > (max + 2) / 3 * 4 then
        .error (.badRequest s!"{field} exceeds {max} bytes")
      else .error (.badRequest s!"{field} is not valid base64")

/-- Encode bytes as base64. -/
def encode (bytes : Bytes) : Base64 := .valid bytes

end Server

end Sotto
