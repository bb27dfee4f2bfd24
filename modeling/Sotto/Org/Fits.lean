import Sotto.Org.Requests

/-!
# Changes that fit

What is consistent about the database, what a lock guards, what an organisation holds, and when a
change fits into a transaction: which locks it needs, and what must hold of the rows it is about.
-/

namespace Sotto

namespace Org

open Core (Ident Bytes)
open Server (Membership Project Environment Organization Account Secret SecretVersion MachineToken
  Role LifecycleState)

/-- The references between rows, and that only members hold grants and unrevoked tokens on
environments whose ids have not become free before. -/
structure Db.Consistent (db : Db) : Prop where
  projectOf : ∀ {e env}, db.environments.lookup e = some env →
    (db.projects.lookup env.projectId).isSome
  envOfGrant : ∀ {e u}, (db.grants.lookup (e, u)).isSome → (db.environments.lookup e).isSome
  envOfSecret : ∀ {s secret}, db.secrets.lookup s = some secret →
    (db.environments.lookup secret.envId).isSome
  envOfToken : ∀ {t token}, db.machineTokens.lookup t = some token →
    (db.environments.lookup token.envId).isSome
  originOf : ∀ {t}, (db.machineTokens.lookup t).isSome → (db.tokenOrigins.lookup t).isSome
  grants : ∀ {e u o}, e ∉ db.retired → (db.grants.lookup (e, u)).isSome → db.orgOf e = some o →
    (db.roleOf o u).isSome
  tokens : ∀ {t token origin o}, token.envId ∉ db.retired →
    db.machineTokens.lookup t = some token → token.revoked = false →
    db.tokenOrigins.lookup t = some origin → db.orgOf token.envId = some o →
    (db.roleOf o origin.createdBy).isSome

/-- An organisation that is not deleted, unless it is excepted, has an owner. -/
def Db.OwnedBut (excepted : Ident → Prop) (db : Db) : Prop :=
  ∀ o l, db.lifecycleOf o = some l → l ≠ .deleted →
    (∃ u, db.roleOf o u = some .owner) ∨ excepted o

/-- Every organisation that is not deleted has an owner. -/
def Db.Owned (db : Db) : Prop :=
  ∀ o l, db.lifecycleOf o = some l → l ≠ .deleted → ∃ u, db.roleOf o u = some .owner

/-! ### What stays -/

/-- How the database evolves: organisations stay, and so do their projects until they are deleted,
and environments until their ids are free again; `gone` are the organisations that are being
deleted. -/
structure LaterBut (gone : Ident → Prop) (d db : Db) : Prop where
  users : ∀ u, (d.users.lookup u).isSome → (db.users.lookup u).isSome
  organizations : ∀ o, (d.lifecycleOf o).isSome → (db.lifecycleOf o).isSome
  deleted : ∀ o, d.lifecycleOf o = some .deleted → db.lifecycleOf o = some .deleted
  projects : ∀ p project, d.projects.lookup p = some project →
    db.projects.lookup p = some project ∨
      ∃ o, project.orgId = some o ∧ (gone o ∨ db.lifecycleOf o = some .deleted)
  retired : ∀ e ∈ d.retired, e ∈ db.retired
  environments : ∀ e env project, d.environments.lookup e = some env →
    d.projects.lookup env.projectId = some project →
    (db.projects.lookup env.projectId = some project ∧
      ∃ env', db.environments.lookup e = some env' ∧ env'.projectId = env.projectId) ∨
      e ∈ db.retired

abbrev Later : Db → Db → Prop := LaterBut fun _ => False

/-- What the lock of an organisation guards. -/
structure GuardedOrg (o : Ident) (d db : Db) : Prop where
  retired : ∀ e ∈ d.retired, e ∈ db.retired
  organization : db.organizations.lookup o = d.organizations.lookup o
  plan : db.plans.lookup o = d.plans.lookup o
  roles : ∀ u, db.roleOf o u = d.roleOf o u
  projects : ∀ p project, project.orgId = some o →
    (db.projects.lookup p = some project ↔ d.projects.lookup p = some project)
  orgOf : ∀ e, db.orgOf e = some o ↔ d.orgOf e = some o
  grants : ∀ e u, e ∉ db.retired → db.orgOf e = some o → (db.grants.lookup (e, u)).isSome →
    (d.grants.lookup (e, u)).isSome
  tokens : ∀ t token, token.envId ∉ db.retired → d.orgOf token.envId = some o →
    (db.machineTokens.lookup t = some token ↔ d.machineTokens.lookup t = some token)
  tokenEnvs : ∀ t token, d.orgOf token.envId = some o → d.machineTokens.lookup t = some token →
    ∃ token', db.machineTokens.lookup t = some token' ∧ token'.envId = token.envId
  origins : ∀ t token, d.orgOf token.envId = some o → d.machineTokens.lookup t = some token →
    db.tokenOrigins.lookup t = d.tokenOrigins.lookup t

/-- What the lock of an environment guards: its row, which secrets are there, and that nothing new
refers to it. -/
structure GuardedEnv (e : Ident) (d db : Db) : Prop where
  environment : db.environments.lookup e = d.environments.lookup e
  secrets : ∀ s secret, d.secrets.lookup s = some secret → secret.envId = e →
    ∃ secret', db.secrets.lookup s = some secret' ∧ secret'.envId = e
  noGrant : ∀ u, (db.grants.lookup (e, u)).isSome → (d.grants.lookup (e, u)).isSome
  noSecret : ∀ s secret, db.secrets.lookup s = some secret → secret.envId = e →
    ∃ secret', d.secrets.lookup s = some secret' ∧ secret'.envId = e
  noToken : ∀ k token, db.machineTokens.lookup k = some token → token.envId = e →
    ∃ token', d.machineTokens.lookup k = some token' ∧ token'.envId = e

/-- What a lock guards. The lock of an id that is inserted guards that nobody else inserts it. -/
def Guarded : Lock → Db → Db → Prop
  | .user u, d, db => d.users.lookup u = none → db.users.lookup u = none
  | .organization o, d, db => GuardedOrg o d db
  | .project p, d, db => db.projects.lookup p = d.projects.lookup p
  | .environment e, d, db => GuardedEnv e d db
  | .environmentKey e, d, db => (d.environments.lookup e).isSome →
      (db.environments.lookup e).isSome
  | .secret s, d, db => ∀ secret, db.secrets.lookup s = some secret →
      ∃ old, d.secrets.lookup s = some old ∧ old.envId = secret.envId
  | .machineToken t, d, db => d.machineTokens.lookup t = none → db.machineTokens.lookup t = none
  | .deletion id, d, db => d.deletions.lookup id = none → db.deletions.lookup id = none
  | .judged .., _, _ => True
  | .named _, _, _ => True

/-! ### What an organisation holds -/

/-- The memberships of an organisation, and the grants, machine tokens and secrets of its
environments. -/
@[ext]
structure Holdings where
  memberships : Ident → Option Membership
  grants : Ident → Ident → Option Bytes
  tokens : Ident → Option MachineToken
  origins : Ident → Option TokenOrigin
  secrets : Ident → Option Secret
  versions : Ident → Int → Option SecretVersion

/-- A machine token of an organisation. -/
def Db.tokenIn (db : Db) (o t : Ident) : Option MachineToken :=
  (db.machineTokens.lookup t).filter fun token => db.orgOf token.envId = some o

/-- A secret of an organisation. -/
def Db.secretIn (db : Db) (o s : Ident) : Option Secret :=
  (db.secrets.lookup s).filter fun secret => db.orgOf secret.envId = some o

def Db.holdings (db : Db) (o : Ident) : Holdings where
  memberships u := db.memberships.lookup (o, u)
  grants e u := if db.orgOf e = some o then db.grants.lookup (e, u) else none
  tokens t := db.tokenIn o t
  origins t := (db.tokenIn o t).bind fun _ => db.tokenOrigins.lookup t
  secrets s := db.secretIn o s
  versions s v := (db.secretIn o s).bind fun _ => db.secretVersions.lookup (s, v)

/-! ### When a change fits -/

/-- What a change must fit: the locks of its transaction, the database it commits to, and which
organisations it deletes, which have an owner after it, whose holdings it may change, to which it
adds members or a project, and whether it is a purge. -/
structure Terms where
  locks : List Lock
  base : Db
  gone : Ident → Prop
  owned : Ident → Prop
  touched : Ident → Prop
  joined : Ident → Prop
  housed : Ident → Ident → Prop
  purging : Prop

/-- A change that fits a database, under the terms of its transaction. -/
inductive Fits (t : Terms) (db : Db) : Change → Prop
  | putUser {u a} : (db.users.lookup u = none → .user u ∈ t.locks) → Fits t db (.users (.put u a))
  | email {c} : Fits t db (.emails c)
  | putOrg {o org} : .organization o ∈ t.locks → db.organizations.lookup o = none →
      org.lifecycle = .active → t.owned o →
      Fits t db (.organizations (.put o org))
  | updateOrg {o f} : .organization o ∈ t.locks →
      (∀ org, db.organizations.lookup o = some org →
        (org.lifecycle = .deleted ↔ (f org).lifecycle = .deleted) ∨
          org.lifecycle ≠ .deleted ∧ t.gone o) →
      Fits t db (.organizations (.update o f))
  | plan {c : Table.Change Ident Plan} : .organization c.key ∈ t.locks → Fits t db (.plans c)
  | putMember {o u m} : .organization o ∈ t.locks → db.memberships.lookup (o, u) = none →
      t.touched o → t.joined o → Fits t db (.memberships (.put (o, u) m))
  | keepMember {o u f} : (∀ m, (f m).role = m.role) →
      (∀ m, db.memberships.lookup (o, u) = some m → f m ≠ m → t.touched o) →
      Fits t db (.memberships (.update (o, u) f))
  | updateMember {o u f} : .organization o ∈ t.locks →
      (db.roleOf o u = some .owner → (∀ m, (f m).role = .owner) ∨
        ∃ u', u' ≠ u ∧ db.roleOf o u' = some .owner) →
      t.touched o → Fits t db (.memberships (.update (o, u) f))
  | deleteMember {o u} : .organization o ∈ t.locks →
      (db.roleOf o u = some .owner → t.gone o ∨ ∃ u', u' ≠ u ∧ db.roleOf o u' = some .owner) →
      (∀ e, e ∉ db.retired → db.orgOf e = some o → db.grants.lookup (e, u) = none) →
      (∀ t token origin, token.envId ∉ db.retired → db.machineTokens.lookup t = some token →
        token.revoked = false → db.tokenOrigins.lookup t = some origin → origin.createdBy = u →
        db.orgOf token.envId ≠ some o) →
      t.touched o → Fits t db (.memberships (.delete (o, u)))
  | putProject {p project} : .project p ∈ t.locks → db.projects.lookup p = none →
      (∀ o, project.orgId = some o → .organization o ∈ t.locks ∧ t.housed o p) →
      Fits t db (.projects (.put p project))
  | deleteProject {p project o} : .project p ∈ t.locks → db.projects.lookup p = some project →
      project.orgId = some o → .organization o ∈ t.locks → t.gone o →
      (∀ e env, db.environments.lookup e = some env → env.projectId ≠ p) →
      Fits t db (.projects (.delete p))
  | putEnv {e env project} : .environment e ∈ t.locks → db.environments.lookup e = none →
      db.projects.lookup env.projectId = some project →
      (∀ o, project.orgId = some o → .organization o ∈ t.locks) →
      Fits t db (.environments (.put e env))
  | updateEnv {e f} : .environment e ∈ t.locks →
      (∀ env, (f env).projectId = env.projectId) → Fits t db (.environments (.update e f))
  | deleteEnv {e env project o} : .environment e ∈ t.locks →
      db.environments.lookup e = some env → db.projects.lookup env.projectId = some project →
      project.orgId = some o → .organization o ∈ t.locks → t.purging →
      (∀ u, db.grants.lookup (e, u) = none) →
      (∀ s secret, db.secrets.lookup s = some secret → secret.envId ≠ e) →
      (∀ t token, db.machineTokens.lookup t = some token → token.envId ≠ e) →
      Fits t db (.environments (.delete e))
  | putGrant {e u v} : .environmentKey e ∈ t.locks → (db.environments.lookup e).isSome →
      (e ∉ db.retired → ∀ o, db.orgOf e = some o → .organization o ∈ t.locks ∧
        (db.roleOf o u).isSome ∧ (t.base.roleOf o u).isSome) →
      (∀ o, db.orgOf e = some o → t.touched o) → Fits t db (.grants (.put (e, u) v))
  | deleteGrant {e u} :
      (∀ o, db.orgOf e = some o → (db.grants.lookup (e, u)).isSome → t.touched o) →
      Fits t db (.grants (.delete (e, u)))
  | putSecret {s secret} : .secret s ∈ t.locks → .environment secret.envId ∈ t.locks →
      (db.environments.lookup secret.envId).isSome →
      (∀ old, db.secrets.lookup s = some old → old.envId = secret.envId) →
      (∀ o, db.orgOf secret.envId = some o → t.touched o) →
      Fits t db (.secrets (.put s secret))
  | updateSecret {s f} : (∀ secret : Secret, (f secret).envId = secret.envId) →
      (∀ secret, db.secrets.lookup s = some secret → f secret ≠ secret →
        ∀ o, db.orgOf secret.envId = some o → t.touched o) →
      Fits t db (.secrets (.update s f))
  | deleteSecret {s} : (∀ secret, db.secrets.lookup s = some secret →
        .environment secret.envId ∈ t.locks ∧
          ∀ o, db.orgOf secret.envId = some o → t.touched o) →
      Fits t db (.secrets (.delete s))
  | version {c : Table.Change (Ident × Int) SecretVersion} :
      (∀ secret, db.secrets.lookup c.key.1 = some secret →
        ∀ o, db.orgOf secret.envId = some o → t.touched o) →
      Fits t db (.secretVersions c)
  | putToken {k token origin} : .machineToken k ∈ t.locks →
      .environmentKey token.envId ∈ t.locks → db.machineTokens.lookup k = none →
      (db.environments.lookup token.envId).isSome → db.tokenOrigins.lookup k = some origin →
      (token.envId ∉ db.retired → ∀ o, db.orgOf token.envId = some o →
        .organization o ∈ t.locks ∧ (db.roleOf o origin.createdBy).isSome) →
      (∀ o, db.orgOf token.envId = some o → t.touched o) →
      Fits t db (.machineTokens (.put k token))
  | updateToken {k f} :
      (∀ token : MachineToken, (f token).envId = token.envId ∧
        (token.revoked = true → (f token).revoked = true)) →
      (∀ token, db.machineTokens.lookup k = some token → f token ≠ token →
        ∀ o, db.orgOf token.envId = some o →
          (token.envId ∉ db.retired → .organization o ∈ t.locks) ∧ t.touched o) →
      Fits t db (.machineTokens (.update k f))
  | deleteToken {k} : (∀ token, db.machineTokens.lookup k = some token →
        ∀ o, db.orgOf token.envId = some o → .organization o ∈ t.locks ∧ t.touched o) →
      Fits t db (.machineTokens (.delete k))
  | origin {c : Table.Change Ident TokenOrigin} : db.machineTokens.lookup c.key = none →
      Fits t db (.tokenOrigins c)
  | putDeletion {id d} : .deletion id ∈ t.locks → Fits t db (.deletions (.put id d))
  | updateDeletion {id f} : Fits t db (.deletions (.update id f))
  | auditEvent {e} : Fits t db (.auditEvent e)

/-- Changes that fit one after another. -/
inductive Chain (t : Terms) : Db → List Change → Prop
  | nil {db} : Chain t db []
  | cons {db c changes} : Fits t db c → Chain t (c.apply db) changes → Chain t db (c :: changes)

end Org

end Sotto
