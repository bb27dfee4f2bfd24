import Sotto.Billing.Deletion
import Sotto.Library.Changes
import Sotto.Library.Sessions
import Sotto.Server.Service

/-!
# The database of the organisation endpoints

The tables of the server with those that only the organisation endpoints use, the changes that the
statements make to their rows, and the row locks that statements take. Locks of rows that are not
named here would only forbid some of the interleavings.
-/

namespace Sotto

namespace Org

open Core (Ident Bytes)
open Server (Account Organization Membership Project Environment Secret SecretVersion MachineToken
  Error Role LifecycleState OrgAccess ProjectAccess)
open Billing (Deletion)

/-- The further columns of an organisation. -/
structure Plan where
  trialEndsAt : Option Int
  stripeSubscriptionId : Option Ident
deriving DecidableEq

/-- The further columns of a machine token. No request deletes a user, so its creator is known. -/
structure TokenOrigin where
  name : String
  createdBy : Ident
deriving DecidableEq

structure AuditEvent where
  orgId : Ident
  actor : Ident
  action : String
  target : Option Ident
  envId : Option Ident
  detail : Option String
deriving DecidableEq

/-- The database. The tier of an organisation is the assigned one, and the events are listed
newest first. That an environment has been deleted, so that its id is free again, is remembered, but
no statement reads it. -/
structure Db extends Server.Db where
  emails : Table Ident String
  plans : Table Ident Plan
  tokenOrigins : Table Ident TokenOrigin
  deletions : Table Ident Deletion
  auditEvents : List AuditEvent
  retired : List Ident

/-- A change to one row, or a new audit event. -/
inductive Change
  | users (c : Table.Change Ident (Option Account))
  | emails (c : Table.Change Ident String)
  | organizations (c : Table.Change Ident Organization)
  | plans (c : Table.Change Ident Plan)
  | memberships (c : Table.Change (Ident × Ident) Membership)
  | projects (c : Table.Change Ident Project)
  | environments (c : Table.Change Ident Environment)
  | grants (c : Table.Change (Ident × Ident) Bytes)
  | secrets (c : Table.Change Ident Secret)
  | secretVersions (c : Table.Change (Ident × Int) SecretVersion)
  | machineTokens (c : Table.Change Ident MachineToken)
  | tokenOrigins (c : Table.Change Ident TokenOrigin)
  | deletions (c : Table.Change Ident Deletion)
  | auditEvent (e : AuditEvent)

def Change.apply : Change → Db → Db
  | users c, db => { db with users := c.apply db.users }
  | emails c, db => { db with emails := c.apply db.emails }
  | organizations c, db => { db with organizations := c.apply db.organizations }
  | plans c, db => { db with plans := c.apply db.plans }
  | memberships c, db => { db with memberships := c.apply db.memberships }
  | projects c, db => { db with projects := c.apply db.projects }
  | environments c, db =>
      { db with environments := c.apply db.environments, retired := c.deleted ++ db.retired }
  | grants c, db => { db with grants := c.apply db.grants }
  | secrets c, db => { db with secrets := c.apply db.secrets }
  | secretVersions c, db => { db with secretVersions := c.apply db.secretVersions }
  | machineTokens c, db => { db with machineTokens := c.apply db.machineTokens }
  | tokenOrigins c, db => { db with tokenOrigins := c.apply db.tokenOrigins }
  | deletions c, db => { db with deletions := c.apply db.deletions }
  | auditEvent e, db => { db with auditEvents := e :: db.auditEvents }

/-- The rows that statements lock. An insert locks the id it inserts, and the key of the environment
that it refers to. As history variables there are two marks of what a transaction has found out: when
it judged the tier of an organisation, and that the id of a project was in use. -/
inductive Lock
  | user (id : Ident)
  | organization (id : Ident)
  | project (id : Ident)
  | environment (id : Ident)
  | environmentKey (id : Ident)
  | secret (id : Ident)
  | machineToken (id : Ident)
  | deletion (id : Ident)
  | judged (orgId : Ident) (now : Int)
  | named (id : Ident)
deriving DecidableEq

/-- Any number of rows may refer to an environment, whose row cannot be locked then, and a mark
locks nothing; other than that, a lock conflicts with itself. -/
def Lock.Conflicts : Lock → Lock → Prop
  | environment e, environmentKey e' => e = e'
  | environmentKey e, environment e' => e = e'
  | environmentKey _, environmentKey _ => False
  | judged _ _, _ => False
  | named _, _ => False
  | k, k' => k = k'

theorem Lock.Conflicts.symm {k k' : Lock} (h : k.Conflicts k') : k'.Conflicts k := by
  cases k <;> cases k' <;> simp_all [Lock.Conflicts]

/-! ### What changes do to each table -/

section Tables

/-- The changes of one table. -/
def Change.user? : Change → Option (Table.Change Ident (Option Account))
  | users c => some c
  | _ => none

def Change.organization? : Change → Option (Table.Change Ident Organization)
  | organizations c => some c
  | _ => none

def Change.membership? : Change → Option (Table.Change (Ident × Ident) Membership)
  | memberships c => some c
  | _ => none

def Change.project? : Change → Option (Table.Change Ident Project)
  | projects c => some c
  | _ => none

def Change.environment? : Change → Option (Table.Change Ident Environment)
  | environments c => some c
  | _ => none

def Change.grant? : Change → Option (Table.Change (Ident × Ident) Bytes)
  | grants c => some c
  | _ => none

def Change.secret? : Change → Option (Table.Change Ident Secret)
  | secrets c => some c
  | _ => none

def Change.machineToken? : Change → Option (Table.Change Ident MachineToken)
  | machineTokens c => some c
  | _ => none

def Change.tokenOrigin? : Change → Option (Table.Change Ident TokenOrigin)
  | tokenOrigins c => some c
  | _ => none

/-- Apply changes, in order. -/
abbrev Db.after (db : Db) (changes : List Change) : Db :=
  Sessions.applyAll Change.apply changes db

theorem after_append (changes changes' : List Change) (db : Db) :
    db.after (changes ++ changes') = (db.after changes).after changes' :=
  Sessions.applyAll_append _ _ _ _

theorem after_cons (c : Change) (changes : List Change) (db : Db) :
    db.after (c :: changes) = (c.apply db).after changes := rfl

/-- A table that changes are applied to one after another is that of the changes of the table. -/
theorem after_table {K V : Type} [DecidableEq K] (table : Db → Table K V)
    (proj : Change → Option (Table.Change K V))
    (h : ∀ c db, table (Change.apply c db) = match proj c with
      | some c => c.apply (table db)
      | none => table db) (changes : List Change) (db : Db) :
    table (db.after changes) = Table.applyAll (changes.filterMap proj) (table db) := by
  induction changes generalizing db with
  | nil => rfl
  | cons c changes ih =>
      show table ((Change.apply c db).after changes) = _
      rw [ih, h, List.filterMap_cons]
      cases proj c <;> rfl

variable (changes : List Change) (db : Db)

theorem after_users : (db.after changes).users =
    Table.applyAll (changes.filterMap Change.user?) db.users :=
  after_table (fun db => db.users) Change.user? (fun c _ => by cases c <;> rfl) changes db

theorem after_organizations : (db.after changes).organizations =
    Table.applyAll (changes.filterMap Change.organization?) db.organizations :=
  after_table (fun db => db.organizations) _ (fun c _ => by cases c <;> rfl) changes db

theorem after_memberships : (db.after changes).memberships =
    Table.applyAll (changes.filterMap Change.membership?) db.memberships :=
  after_table (fun db => db.memberships) _ (fun c _ => by cases c <;> rfl) changes db

theorem after_projects : (db.after changes).projects =
    Table.applyAll (changes.filterMap Change.project?) db.projects :=
  after_table (fun db => db.projects) _ (fun c _ => by cases c <;> rfl) changes db

theorem after_environments : (db.after changes).environments =
    Table.applyAll (changes.filterMap Change.environment?) db.environments :=
  after_table (fun db => db.environments) _ (fun c _ => by cases c <;> rfl) changes db

theorem after_grants : (db.after changes).grants =
    Table.applyAll (changes.filterMap Change.grant?) db.grants :=
  after_table (fun db => db.grants) _ (fun c _ => by cases c <;> rfl) changes db

theorem after_secrets : (db.after changes).secrets =
    Table.applyAll (changes.filterMap Change.secret?) db.secrets :=
  after_table (fun db => db.secrets) _ (fun c _ => by cases c <;> rfl) changes db

theorem after_machineTokens : (db.after changes).machineTokens =
    Table.applyAll (changes.filterMap Change.machineToken?) db.machineTokens :=
  after_table (fun db => db.machineTokens) _ (fun c _ => by cases c <;> rfl) changes db

theorem after_tokenOrigins : (db.after changes).tokenOrigins =
    Table.applyAll (changes.filterMap Change.tokenOrigin?) db.tokenOrigins :=
  after_table (fun db => db.tokenOrigins) _ (fun c _ => by cases c <;> rfl) changes db

end Tables

end Org

end Sotto
