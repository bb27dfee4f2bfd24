import Sotto.Org.Access

/-!
# Organisations and their members

Creating an organisation, and adding, changing and removing its members. Every write rechecks its
caller inside its transaction, under the lock of the organisation.
-/

namespace Sotto

namespace Org

open Core (Ident Bytes)
open Server (Membership Role Error decode validateId maxEncName)
open Sessions (check require statement transaction commit draw)

inductive Status
  | ok
  | created
  | accepted
  | noContent
deriving DecidableEq

structure CreateOrg where
  id : Ident
  encName : Base64
  encOrgKey : Base64

structure AddMember where
  userId : Ident
  role : Role

/-- The resolved user, with their public key if they have set up their account. -/
structure InviteResult where
  userId : Ident
  publicKey : Option Base64

structure RevokedTokenRef where
  tokenId : Ident
  name : String
  envId : Ident

/-- What a member removal revoked. -/
structure RemovalReceipt where
  revokedTokens : List RevokedTokenRef
  grantsDeleted : Nat

/-- The text of a stored role. -/
def asStr : Role → String
  | .owner => "owner"
  | .admin => "admin"
  | .member => "member"

/-- The length of a trial: 14 days. -/
def trialLength : Int := 14 * 24 * 60 * 60

/-- Insert an organisation unless its id is taken; returns whether it was inserted. -/
def insertOrganization (id userId : Ident) (encName : Bytes) (now : Int) : Session Bool :=
  statement (fun db => if (db.lifecycleOf id).isSome then [] else [.organization id]) fun db =>
    if (db.lifecycleOf id).isSome then .ok (false, [])
    else if (db.users.lookup userId).isNone then .error .internal
    else .ok (true, [.organizations (.put id ⟨encName, .active, .free⟩),
      .plans (.put id ⟨some (now + trialLength), none⟩)])

/-- Insert a membership unless the pair exists; returns whether it was inserted. A user without a
row violates the foreign key, which is answered with `noUser`. -/
def insertMembership (orgId userId : Ident) (membership : Membership) (noUser : Error) :
    Session Bool :=
  statement (fun _ => []) fun db =>
    if (db.memberships.lookup (orgId, userId)).isSome then .ok (false, [])
    else if (db.users.lookup userId).isNone then .error noUser
    else if (db.organizations.lookup orgId).isNone then .error .internal
    else .ok (true, [.memberships (.put (orgId, userId) membership)])

/-- `POST /orgs` -/
def createOrg (userId : Ident) (body : CreateOrg) : Session Status := do
  check (validateId body.id "id")
  let encName ← check (decode body.encName "enc_name" maxEncName)
  let encOrgKey ← check (decode body.encOrgKey "enc_org_key" maxEncName)
  let created ← transaction do
    let now ← draw Int
    let created ← insertOrganization body.id userId encName now
    if created then
      let inserted ← insertMembership body.id userId ⟨.owner, some encOrgKey⟩ .internal
      require inserted .internal
      record ⟨body.id, userId, "org.created", none, none, none⟩
      commit
    return created
  if created then
    return .created
  else
    -- idempotent only if the caller already owns that organisation
    let existing ← read fun db => db.roleOf body.id userId
    require (existing = some .owner) (.conflict "organisation id already in use")
    return .ok

/-- `POST /orgs/{org_id}/members/{user_id}/org-key` -/
def grantOrgKey (userId orgId target : Ident) (encOrgKey : Base64) : Session Status := do
  transaction do
    let caller ← accessForUpdate orgId userId
    check caller.lifecycle.requireWrite
    require (canManageMembers caller.role)
      (.forbidden "must be an admin or owner to grant the org key")
    let encOrgKey ← check (decode encOrgKey "enc_org_key" maxEncName)
    let updated ← statement (fun _ => []) fun db =>
      if (db.memberships.lookup (orgId, target)).isSome then
        .ok (true, [.memberships (.update (orgId, target) fun m =>
          { m with encOrgKey := some encOrgKey })])
      else .ok (false, [])
    require updated (.notFound "member not found")
    record ⟨orgId, userId, "member.org_key_granted", some target, none, none⟩
    commit
    return .ok

/-- The grants of a user on the environments of an organisation. -/
def Db.orgGrantsOf (db : Db) (orgId userId : Ident) : List (Ident × Ident) :=
  (db.grants.rows.map Prod.fst).filter fun k => k.2 = userId ∧ db.orgOf k.1 = some orgId

/-- Delete a user's grants across an organisation's environments; returns how many. -/
def deleteOrgGrants (orgId userId : Ident) : Session Nat :=
  statement (fun _ => []) fun db =>
    .ok ((db.orgGrantsOf orgId userId).length,
      (db.orgGrantsOf orgId userId).map fun k => .grants (.delete k))

/-- Free-tier quota: members per organisation. -/
def freeMaxMembers : Nat := 3

/-- Whether an organisation is on the team tier, assigned or by a running trial. -/
def Db.isTeam (db : Db) (now : Int) (orgId : Ident) : Bool :=
  (db.organizations.lookup orgId).any fun org => org.tier = .team ||
    ((db.plans.lookup orgId).bind Plan.trialEndsAt).any fun t => now < t

/-- Read the tier in effect, of which is remembered when it was judged. -/
def judgeTier (orgId : Ident) (now : Int) : Session Bool :=
  statement (fun _ => [.judged orgId now]) fun db => .ok (db.isTeam now orgId, [])

/-- The tier in effect, the row of the organisation being locked. -/
def effectiveTierLocked (orgId : Ident) : Session Bool := do
  let now ← draw Int
  match ← lockOrganization orgId with
  | none => throw (.notFound "organisation not found")
  | some lifecycle =>
      check lifecycle.requireWrite
      judgeTier orgId now

/-- How many members an organisation has. -/
def Db.memberCount (db : Db) (orgId : Ident) : Nat :=
  (db.memberships.rows.filter fun m => m.1.1 = orgId).length

/-- Quota gate for adding a member. -/
def checkCanAddMember (orgId : Ident) : Session Unit := do
  if ← effectiveTierLocked orgId then
    return ()
  else
    let members ← read fun db => db.memberCount orgId
    require (members < freeMaxMembers) (.quota
      s!"the free tier allows {freeMaxMembers} members per organisation; upgrade to add more")

/-- `POST /orgs/{org_id}/members` -/
def addMember (userId orgId : Ident) (body : AddMember) : Session Status := do
  let caller ← access orgId userId
  check caller.lifecycle.requireWrite
  require (canManageMembers caller.role) (.forbidden "must be an admin or owner to add members")
  require (body.role = .owner → caller.role = .owner)
    (.forbidden "only an owner can grant the owner role")
  transaction do
    let locked ← accessForUpdate orgId userId
    check locked.lifecycle.requireWrite
    require (canManageMembers locked.role) (.forbidden "must be an admin or owner to add members")
    require (body.role = .owner → locked.role = .owner)
      (.forbidden "only an owner can grant the owner role")
    checkCanAddMember orgId
    let inserted ← insertMembership orgId body.userId ⟨body.role, none⟩
      (.notFound "user not found")
    require inserted (.conflict "user is already a member; use update to change their role")
    -- a rejoin starts without grants
    let _ ← deleteOrgGrants orgId body.userId
    record ⟨orgId, userId, "member.added", some body.userId, none, some (asStr body.role)⟩
    commit
    return .created

/-- `POST /orgs/{org_id}/invites` -/
def inviteMember (userId orgId : Ident) (email : String) : Session InviteResult := do
  let caller ← access orgId userId
  check caller.lifecycle.requireWrite
  require (canManageMembers caller.role) (.forbidden "must be an admin or owner to invite members")
  let found ← read fun db => (db.emails.rows.filter fun e => e.2 = email).map fun e =>
    (e.1, ((db.users.lookup e.1).bind id).map Server.Account.publicKey)
  match found with
  | [] => throw (.notFound "no Sotto user with that email")
  | [(targetId, publicKey)] =>
      transaction do
        let locked ← accessForUpdate orgId userId
        check locked.lifecycle.requireWrite
        require (canManageMembers locked.role)
          (.forbidden "must be an admin or owner to invite members")
        checkCanAddMember orgId
        let inserted ← insertMembership orgId targetId ⟨.member, none⟩ .internal
        require inserted (.conflict "user is already a member")
        let _ ← deleteOrgGrants orgId targetId
        record ⟨orgId, userId, "member.invited", some targetId, none, none⟩
        commit
        return ⟨targetId, publicKey.map Server.encode⟩
  | _ => throw (.conflict "multiple users share that email")

/-- The owners of an organisation. -/
def Db.ownersOf (db : Db) (orgId : Ident) : List Ident :=
  (db.memberships.rows.filter fun m => m.1.1 = orgId ∧ m.2.role = .owner).map fun m => m.1.2

/-- Count the owners of an organisation, locking their rows. -/
def lockOwnerCount (orgId : Ident) : Session Nat :=
  read fun db => (db.ownersOf orgId).length

/-- The current role of a member. -/
def memberRole (orgId target : Ident) : Session Role := do
  match ← read fun db => db.roleOf orgId target with
  | some role => return role
  | none => throw (.notFound "member not found")

/-- `POST /orgs/{org_id}/members/{user_id}` -/
def updateMember (userId orgId target : Ident) (role : Role) : Session Status := do
  let caller ← access orgId userId
  check caller.lifecycle.requireWrite
  require (canManageMembers caller.role) (.forbidden "must be an admin or owner to change roles")
  transaction do
    let locked ← accessForUpdate orgId userId
    check locked.lifecycle.requireWrite
    require (canManageMembers locked.role) (.forbidden "must be an admin or owner to change roles")
    let owners ← lockOwnerCount orgId
    let current ← memberRole orgId target
    require (role = .owner ∨ current = .owner → locked.role = .owner)
      (.forbidden "only an owner can change the owner role")
    require (¬ (current = .owner ∧ role ≠ .owner ∧ owners = 1))
      (.conflict "cannot demote the last owner")
    write fun _ => .ok [.memberships (.update (orgId, target) fun m => { m with role := role })]
    record ⟨orgId, userId, "member.role_changed", some target, none, some (asStr role)⟩
    commit
    return .ok

/-- The environments of an organisation that a user holds a grant to. -/
def Db.grantedEnvs (db : Db) (orgId userId : Ident) : List Ident :=
  (db.orgGrantsOf orgId userId).map Prod.fst

/-- Those of them that another current member holds a grant to. -/
def Db.sharedEnvs (db : Db) (orgId target : Ident) : List Ident :=
  (db.grantedEnvs orgId target).filter fun envId => db.grants.rows.any fun g =>
    g.1.1 = envId ∧ g.1.2 ≠ target ∧ (db.memberships.lookup (orgId, g.1.2)).isSome

/-- The unrevoked machine tokens that a user created in an organisation's environments. -/
def Db.orgTokensOf (db : Db) (orgId userId : Ident) : List RevokedTokenRef :=
  db.machineTokens.rows.filterMap fun t =>
    match db.tokenOrigins.lookup t.1 with
    | some origin =>
        if ¬ t.2.revoked ∧ db.orgOf t.2.envId = some orgId ∧ origin.createdBy = userId then
          some ⟨t.1, origin.name, t.2.envId⟩
        else none
    | none => none

/-- Revoke these tokens; returns them. -/
def revokeOrgTokens (orgId userId : Ident) : Session (List RevokedTokenRef) :=
  statement (fun _ => []) fun db =>
    .ok (db.orgTokensOf orgId userId, (db.orgTokensOf orgId userId).map fun t =>
      .machineTokens (.update t.tokenId fun token => { token with revoked := true }))

/-- The caller must hold a grant on every environment that is to be re-keyed. -/
def requireHeld (orgId userId : Ident) (targetEnvs : List Ident) : Session Unit :=
  if targetEnvs = [] then return ()
  else do
    let callerEnvs ← read fun db => db.grantedEnvs orgId userId
    let missing := targetEnvs.filter fun envId => envId ∉ callerEnvs
    let named := ", ".intercalate (missing.map toString)
    require (missing = []) (.conflict
      (s!"cannot complete removal: you hold no grant to environment(s) {named}; " ++
        "ask a member who holds them to share each environment with you and retry, " ++
        "or to perform the removal themselves"))

/-- `DELETE /orgs/{org_id}/members/{user_id}` -/
def removeMember (userId orgId target : Ident) : Session RemovalReceipt := do
  let caller ← access orgId userId
  check caller.lifecycle.requireWrite
  require (canManageMembers caller.role) (.forbidden "must be an admin or owner to remove members")
  transaction do
    let locked ← accessForUpdate orgId userId
    check locked.lifecycle.requireWrite
    require (canManageMembers locked.role)
      (.forbidden "must be an admin or owner to remove members")
    let owners ← lockOwnerCount orgId
    let current ← memberRole orgId target
    require (current = .owner → locked.role = .owner)
      (.forbidden "only an owner can remove an owner")
    require (¬ (current = .owner ∧ owners = 1)) (.conflict "cannot remove the last owner")
    let targetEnvs ← read fun db => db.sharedEnvs orgId target
    requireHeld orgId userId targetEnvs
    let grantsDeleted ← deleteOrgGrants orgId target
    let revoked ← revokeOrgTokens orgId target
    write fun _ => .ok [.memberships (.delete (orgId, target))]
    revoked.forM fun t =>
      record ⟨orgId, userId, "token.revoked", some t.tokenId, some t.envId, some t.name⟩
    record ⟨orgId, userId, "member.removed", some target, none,
      some s!"removed {grantsDeleted} grant(s), revoked {revoked.length} token(s)"⟩
    commit
    return ⟨revoked, grantsDeleted⟩

end Org

end Sotto
