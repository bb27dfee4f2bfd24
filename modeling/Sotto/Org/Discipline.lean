import Sotto.Org.Chains

/-!
# The discipline of the requests

What a transaction commits for a request: changes that fit one after another, on terms that say
which organisations it records an event of. A request to change members commits only for a caller
who may manage them, and changes who is an owner only for an owner. What a request adds to an
organisation is within its quota.
-/

namespace Sotto

namespace Org

open Core (Ident)
open Server (Role LifecycleState Error)

/-- Whether a request is the final purge of an organisation, which deletes environments. -/
def Call.Purges : Call → Prop
  | purge .. => True
  | _ => False

/-- Whose holdings a request changes without recording it: those of the organisation that an
environment is created in, those that a reset reaches without their lock, those of an environment
whose id had been free before, and those that a purge ends. -/
def Call.Unrecorded (op : Call) (locks : List Lock) (db : Db) (o : Ident) : Prop :=
  match op with
  | createEnvironment _ projectId _ =>
      ∃ project, db.projects.lookup projectId = some project ∧ project.orgId = some o
  | resetAccount _ _ => .organization o ∉ locks
  | createGrant _ envId _ | rotate _ envId _ | createToken _ envId _ | revokeToken _ envId _
  | writeSecrets _ envId _ => db.orgOf envId = some o ∧ envId ∈ db.retired
  | purge _ _ orgId _ => o = orgId
  | _ => False

/-- The caller and the organisation of a request that changes members. -/
def Call.membership? : Call → Option (Ident × Ident)
  | addMember userId orgId _ | inviteMember userId orgId _ | updateMember userId orgId _ _
  | removeMember userId orgId _ => some (userId, orgId)
  | _ => none

/-- The organisation that a request adds a member to, which must have room for another. -/
def Call.joins? : Call → Option Ident
  | addMember _ orgId _ | inviteMember _ orgId _ => some orgId
  | _ => none

/-- The organisation that a request creates a project in, and the id of the project. -/
def Call.houses? : Call → Option (Ident × Ident)
  | createProject _ body => body.orgId.map fun orgId => (orgId, body.id)
  | _ => none

/-- A request creates an organisation, together with its first member. -/
def Call.Founds : Call → Ident → Prop
  | createOrg _ body, o => o = body.id
  | _, _ => False

/-- Who may manage the members of an organisation: its admins and owners, while it is active. -/
structure Manages (db : Db) (orgId userId : Ident) : Prop where
  active : db.lifecycleOf orgId = some .active
  admin : ∃ role, db.roleOf orgId userId = some role ∧ canManageMembers role

/-- A transaction records an event of an organisation that names who makes the request. -/
def Records (actor : Ident) (changes : List Change) (o : Ident) : Prop :=
  ∃ e, .auditEvent e ∈ changes ∧ e.orgId = o ∧ e.actor = actor

/-- The terms of a transaction that commits changes to a database. -/
def terms (op : Call) (locks : List Lock) (db : Db) (changes : List Change) : Terms where
  locks := locks
  base := db
  gone o := (db.after changes).lifecycleOf o = some .deleted
  owned o := ∃ u, (db.after changes).roleOf o u = some .owner
  touched o := Records op.actor changes o ∨ op.Unrecorded locks db o
  joined o := op.joins? = some o ∨ op.Founds o
  housed o p := op.houses? = some (o, p)
  purging := op.Purges

/-- What a request adds to an organisation that it has not judged to be on the team tier leaves it
within its quota, unless the id of the project was in use. -/
structure WithinQuota (op : Call) (locks : List Lock) (db : Db) (changes : List Change) :
    Prop where
  members : ∀ o, op.joins? = some o → ∃ now, .judged o now ∈ locks ∧
    (db.isTeam now o = true ∨ (db.after changes).memberCount o ≤ freeMaxMembers)
  projects : ∀ o p, op.houses? = some (o, p) → changes ≠ [] → ∃ now, .judged o now ∈ locks ∧
    (db.isTeam now o = true ∨ .named p ∈ locks ∨
      (db.after changes).projectCount o ≤ Server.freeMaxOrgProjects)

/-- What a transaction may commit. -/
structure Commits (op : Call) (locks : List Lock) (db : Db) (changes : List Change) : Prop where
  chain : Chain (terms op locks db changes) db changes
  manages : ∀ userId orgId, op.membership? = some (userId, orgId) → Manages db orgId userId
  owners : ∀ userId orgId, op.membership? = some (userId, orgId) → ∀ o u,
    ¬ (db.roleOf o u = some .owner ↔ (db.after changes).roleOf o u = some .owner) →
    db.roleOf orgId userId = some .owner
  quota : WithinQuota op locks db changes

namespace Commits

variable {op : Call} {locks : List Lock} {db : Db} {changes : List Change}

theorem sound (h : Commits op locks db changes) (hs : db.Consistent ∧ db.Owned) :
    (db.after changes).Consistent ∧ (db.after changes).Owned := by
  refine ⟨h.chain.consistent hs.1, ?_⟩
  intro o l hl hne
  rcases h.chain.ownedBut (fun o l hl hne => .inl (hs.2 o l hl hne)) o l hl hne with
    howner | hgone | howned
  · exact howner
  · cases hl.symm.trans hgone
    exact absurd rfl hne
  · exact howned

theorem later (h : Commits op locks db changes) : Later db (db.after changes) :=
  h.chain.laterBut.later fun _ hgone => hgone

end Commits

/-- The discipline of the requests. -/
def discipline : Sessions.Discipline Db Change Lock Call where
  apply := Change.apply
  Conflicts := Lock.Conflicts
  Sound db := db.Consistent ∧ db.Owned
  Later := Later
  Guarded := Guarded
  Commits := Commits
  conflicts_symm := Lock.Conflicts.symm
  later_refl := LaterBut.refl _
  later_trans := LaterBut.trans
  guarded_refl := Guarded.refl
  guarded_trans := Guarded.trans
  sound hs h := h.sound hs
  later _ h := h.later
  guarded hs h hk := h.chain.guarded hs.1 hk

end Org

end Sotto
