import Sotto.Org.Accounts

/-!
# Deletion and plans of organisations

The requests of owners, and the writes of the deletion worker and of the billing webhooks to an
organisation. When the worker and the webhooks write, and what, is left open here.
-/

namespace Sotto

namespace Org

open Core (Ident Bytes)
open Server (Error Role LifecycleState Tier)
open Billing (Deletion DeletionState)
open Sessions (check require statement transaction commit draw)

/-- The latest operation that satisfies a condition. -/
def Db.latestDeletion (db : Db) (condition : Deletion → Bool) : Option (Ident × Deletion) :=
  ((db.deletions.rows.filter fun e => condition e.2).mergeSort
    fun e e' => e'.2.requestedAt ≤ e.2.requestedAt).head?

/-- The operation of an organisation that is not over. -/
def Db.openDeletion (db : Db) (orgId : Ident) : Option (Ident × Deletion) :=
  db.latestDeletion fun d => d.orgId = orgId ∧ ¬ d.state.isTerminal

/-- Whether a caller requested a deletion of the organisation that is completed. -/
def Db.requestedCompleted (db : Db) (orgId actor : Ident) : Bool :=
  db.deletions.rows.any fun e =>
    e.2.orgId = orgId ∧ e.2.requestedBy = actor ∧ e.2.state = .completed

structure DeletionView where
  id : Ident
  state : DeletionState

def requireOwner (orgId actor : Ident) : Session Unit := do
  match ← read fun db => db.roleOf orgId actor with
  | none => throw (.notFound "organisation not found")
  | some role =>
      require (role = .owner) (.forbidden "only an organisation owner may manage deletion")

/-- Lock an organisation for one of its owners; only who had it deleted learns that it was. -/
def lockForOwner (orgId actor : Ident) (deleted : Error) : Session LifecycleState := do
  match ← lockOrganization orgId with
  | none => throw (.notFound "organisation not found")
  | some lifecycle =>
      if lifecycle = .deleted then
        if ← read fun db => db.requestedCompleted orgId actor then throw deleted
        else throw (.notFound "organisation not found")
      else
        requireOwner orgId actor
        return lifecycle

/-- A repeated request: it resumes an operation that has failed. -/
def resumeDeletion (now : Int) (orgId actor : Ident) : Session DeletionView := do
  match ← read fun db => db.openDeletion orgId with
  | none => throw .internal
  | some (id, d) =>
      if d.state = .failed then
        match d.resumeState with
        | none => throw .internal
        | some resumeState =>
            write fun _ => .ok [.deletions (.update id fun d => (d.resumed now).released)]
            record ⟨orgId, actor, "org.deletion.retry_requested", some id, none, none⟩
            commit
            return ⟨id, resumeState⟩
      else
        commit
        return ⟨id, d.state⟩

/-- The first request of a deletion: it freezes the organisation. -/
def startDeletion (now : Int) (orgId actor : Ident) (retentionDays : Int) :
    Session DeletionView := do
  let id ← draw Ident
  writeLocking (fun _ => [.deletion id]) fun db =>
    if (db.deletions.lookup id).isSome ∨ (db.openDeletion orgId).isSome then .error .internal
    else .ok [.deletions (.put id (.requested now orgId actor retentionDays
      ((db.plans.lookup orgId).bind Plan.stripeSubscriptionId)))]
  write fun _ => .ok [.organizations (.update orgId fun org => { org with lifecycle := .deleting })]
  record ⟨orgId, actor, "org.deletion.requested", some id, none, none⟩
  commit
  return ⟨id, .requested⟩

/-- Accept one confirmed owner request. -/
def requestWithRetention (orgId actor confirmationOrgId : Ident) (retentionDays : Int) :
    Session DeletionView := do
  require (0 < retentionDays) .internal
  require (confirmationOrgId = orgId)
    (.badRequest "deletion confirmation does not match the organisation")
  transaction do
    let now ← draw Int
    let lifecycle ← lockForOwner orgId actor (.conflict "organisation has already been deleted")
    if lifecycle = .deleting then resumeDeletion now orgId actor
    else startDeletion now orgId actor retentionDays

/-- Begin recovery for an owner, leaving access frozen until billing has been reconciled. -/
def cancel (orgId actor : Ident) : Session DeletionView := do
  transaction do
    let now ← draw Int
    let _ ← lockForOwner orgId actor
      (.conflict "organisation deletion cannot be cancelled after purge has started")
    let found ← read fun db => db.openDeletion orgId <|>
      db.latestDeletion fun d => d.orgId = orgId ∧ d.state = .cancelled
    match found with
    | none => throw (.notFound "deletion not found")
    | some (id, d) =>
        if d.state.canCancel then
          write fun _ => .ok [.deletions (.update id fun d => (d.recovering now).released)]
          record ⟨orgId, actor, "org.deletion.cancel_requested", some id, none, none⟩
          commit
          return ⟨id, .recovering⟩
        else
          require (d.state ≠ .purging) (.conflict
            "organisation deletion cannot be cancelled after purge has started")
          commit
          return ⟨id, d.state⟩

/-- The state of a deletion and its window, as an owner sees them. -/
structure DeletionStatus where
  state : DeletionState
  requestedAt : Int
  recoverableUntil : Int
  managedBackupExpiryBy : Option Int
  nextRetryAt : Option Int
  lastErrorCode : Option String

/-- The status of an operation of the organisation. -/
def statusForOperation (orgId id : Ident) : Session DeletionStatus := do
  match ← read fun db => (db.deletions.lookup id).filter fun d => d.orgId = orgId with
  | none => throw (.notFound "deletion not found")
  | some d => return ⟨d.state, d.requestedAt, d.purgeAfter, d.managedBackupExpiryBy,
      d.nextAttemptAt, d.lastErrorCode⟩

/-- The body of a deletion request; one that is malformed has none. -/
structure RequestDeletion where
  confirmOrgId : Option Ident
  acknowledgeSubscriptionCancellation : Option Bool

/-- `POST /orgs/{org_id}/deletion` -/
def requestDeletion (userId orgId : Ident) (body : Option RequestDeletion) (retentionDays : Int) :
    Session DeletionStatus := do
  let body ← check (body.elim (.error (.badRequest "invalid deletion request")) .ok)
  let confirmation ← check
    (body.confirmOrgId.elim (.error (.badRequest "deletion confirmation is required")) .ok)
  require (body.acknowledgeSubscriptionCancellation = some true)
    (.badRequest "subscription cancellation acknowledgement is required")
  let operation ← requestWithRetention orgId userId confirmation retentionDays
  statusForOperation orgId operation.id

/-- `POST /orgs/{org_id}/deletion/cancel` -/
def cancelDeletion (userId orgId : Ident) : Session DeletionStatus := do
  let operation ← cancel orgId userId
  statusForOperation orgId operation.id

/-! ### The worker and the webhooks -/

/-- A write of the worker to an operation, with the event it records. -/
def advanceDeletion (workerId id : Ident) (change : Deletion → Deletion)
    (event : Option (Ident × String × Option String)) : Session Unit := do
  transaction do
    write fun _ => .ok [.deletions (.update id change)]
    match event with
    | some (orgId, action, detail) => record ⟨orgId, workerId, action, some id, none, detail⟩
    | none => pure ()
    commit

/-- The end of a recovery: the organisation is active again. -/
def finishRecovery (workerId id orgId : Ident) (tier : Tier) (change : Deletion → Deletion) :
    Session Unit := do
  transaction do
    write fun _ => .ok [.deletions (.update id change)]
    let lifecycle ← lockOrganization orgId
    if lifecycle = some .deleting then
      write fun _ => .ok [.organizations (.update orgId fun org =>
        { org with lifecycle := .active, tier := tier })]
    record ⟨orgId, workerId, "org.deletion.recovery_completed", some id, none, none⟩
    commit

/-- The environments of an organisation. -/
def Db.envsOf (db : Db) (orgId : Ident) : List Ident :=
  (db.environments.rows.map Prod.fst).filter fun envId => db.orgOf envId = some orgId

/-- The projects of an organisation. -/
def Db.projectsOf (db : Db) (orgId : Ident) : List Ident :=
  (db.projects.rows.filter fun p => p.2.orgId = some orgId).map Prod.fst

/-- The ids of the rows below some environments. -/
def Db.secretsIn (db : Db) (envs : List Ident) : List Ident :=
  (db.secrets.rows.filter fun s => s.2.envId ∈ envs).map Prod.fst

def Db.versionsIn (db : Db) (envs : List Ident) : List (Ident × Int) :=
  (db.secretVersions.rows.map Prod.fst).filter fun k => k.1 ∈ db.secretsIn envs

def Db.tokensIn (db : Db) (envs : List Ident) : List Ident :=
  (db.machineTokens.rows.filter fun t => t.2.envId ∈ envs).map Prod.fst

def Db.grantsIn (db : Db) (envs : List Ident) : List (Ident × Ident) :=
  (db.grants.rows.map Prod.fst).filter fun k => k.1 ∈ envs

def Db.membersOf (db : Db) (orgId : Ident) : List (Ident × Ident) :=
  (db.memberships.rows.map Prod.fst).filter fun k => k.1 = orgId

/-- What the deletion of the projects of an organisation locks. -/
def Db.cascadeLocks (db : Db) (orgId : Ident) : List Lock :=
  (db.projectsOf orgId).map .project ++ (db.envsOf orgId).map .environment

/-- What is deleted with the projects of an organisation. -/
def Db.cascade (db : Db) (orgId : Ident) : List Change :=
  (db.versionsIn (db.envsOf orgId)).map (fun k => .secretVersions (.delete k)) ++
    (db.secretsIn (db.envsOf orgId)).map (fun id => .secrets (.delete id)) ++
    (db.tokensIn (db.envsOf orgId)).map (fun id => .machineTokens (.delete id)) ++
    (db.tokensIn (db.envsOf orgId)).map (fun id => .tokenOrigins (.delete id)) ++
    (db.grantsIn (db.envsOf orgId)).map (fun k => .grants (.delete k)) ++
    (db.envsOf orgId).map (fun id => .environments (.delete id)) ++
    (db.projectsOf orgId).map (fun id => .projects (.delete id))

/-- The final purge of an organisation. Nothing reads the name of a deleted one, which is cleared. -/
def purge (workerId id orgId : Ident) (change : Deletion → Deletion) : Session Unit := do
  transaction do
    let lifecycle ← lockOrganization orgId
    if lifecycle = some .deleting then
      writeLocking (fun db => db.cascadeLocks orgId) fun db => .ok (db.cascade orgId)
      write fun db => .ok ((db.membersOf orgId).map fun k => .memberships (.delete k))
      write fun _ => .ok [.organizations (.update orgId fun org =>
          { org with encName := .raw .empty, lifecycle := .deleted, tier := .free }),
        .plans (.put orgId ⟨none, none⟩)]
      record ⟨orgId, workerId, "org.deletion.completed", some id, none, none⟩
    write fun _ => .ok [.deletions (.update id change)]
    commit

/-- A webhook that changes the plan of an active organisation. -/
def changePlan (orgId : Ident) (tier : Tier) (subscription : Option Ident) (action detail : String) :
    Session Unit := do
  transaction do
    let lifecycle ← lockOrganization orgId
    if lifecycle = some .active then
      write fun _ => .ok [.organizations (.update orgId fun org => { org with tier := tier }),
        .plans (.update orgId fun plan => { plan with stripeSubscriptionId := subscription })]
      record ⟨orgId, .text "stripe", action, none, none, some detail⟩
    commit

end Org

end Sotto
