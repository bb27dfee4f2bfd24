import Sotto.Billing.Db

/-!
# The deletion of organisations

The transactions that write deletion operations: the requests of owners and operators, the claim of
a due operation by a worker, and the transitions under a worker's lease. An update of an operation
fails when the row would violate a CHECK constraint of the table. The audit log and the metrics are
left out.
-/

namespace Sotto

namespace Billing

open Core
open Server (Tier LifecycleState Role)

/-! ### The table -/

/-- The CHECK constraints of the operations. -/
structure Deletion.Checks (d : Deletion) : Prop where
  resumeState : ∀ s ∈ d.resumeState,
    s ∈ [.requested, .cancellingBilling, .retention, .purging, .recovering]
  attemptCount : 0 ≤ d.attemptCount
  stateVersion : 0 ≤ d.stateVersion
  purgeAfter : d.requestedAt ≤ d.purgeAfter
  failedResumeState : d.state = .failed ↔ d.resumeState ≠ none
  billingResultPair : d.lastBillingState = none ↔ d.billingCheckedAt = none
  billingCheckedAt : ∀ t ∈ d.billingCheckedAt, d.requestedAt ≤ t
  leasePair : d.leaseOwner = none ↔ d.leaseExpiresAt = none
  leaseExpiresAt : ∀ t ∈ d.leaseExpiresAt, d.requestedAt ≤ t
  nextAttemptAt : ∀ t ∈ d.nextAttemptAt, d.requestedAt ≤ t
  backupExpiry : ∀ t ∈ d.managedBackupExpiryBy, d.purgeAfter ≤ t
  terminalTimestamp : d.state = .cancelled ↔ d.cancelledAt ≠ none
  cancelledAt : ∀ t ∈ d.cancelledAt, d.requestedAt ≤ t
  completedTimestamp : d.state = .completed ↔ d.completedAt ≠ none
  completedAt : ∀ t ∈ d.completedAt, d.requestedAt ≤ t
  observationActor :
    (d.billingObservationSource ≠ some .operator ∧ d.billingObservedBy = none ∧
      d.billingObservationReason = none ∧ d.billingObservationEvidence = none) ∨
    (d.billingObservationSource = some .operator ∧ d.billingObservedBy ≠ none ∧
      d.billingObservationReason ≠ none ∧ d.billingObservationEvidence ≠ none)
  observationResult :
    (d.billingObservationSource = none ∧ d.lastBillingState = none ∧ d.billingCheckedAt = none) ∨
    (d.billingObservationSource ≠ none ∧ d.lastBillingState ≠ none ∧ d.billingCheckedAt ≠ none)
  purgeStartedAt : ∀ t ∈ d.purgeStartedAt, d.requestedAt ≤ t

instance : DecidablePred Deletion.Checks := fun d =>
  decidable_of_iff
    ((∀ s ∈ d.resumeState, s ∈ [.requested, .cancellingBilling, .retention, .purging, .recovering])
      ∧ (0 ≤ d.attemptCount ∧ 0 ≤ d.stateVersion ∧ d.requestedAt ≤ d.purgeAfter)
      ∧ (d.state = .failed ↔ d.resumeState ≠ none)
      ∧ (d.lastBillingState = none ↔ d.billingCheckedAt = none)
      ∧ (∀ t ∈ d.billingCheckedAt, d.requestedAt ≤ t)
      ∧ (d.leaseOwner = none ↔ d.leaseExpiresAt = none)
      ∧ (∀ t ∈ d.leaseExpiresAt, d.requestedAt ≤ t)
      ∧ (∀ t ∈ d.nextAttemptAt, d.requestedAt ≤ t)
      ∧ (∀ t ∈ d.managedBackupExpiryBy, d.purgeAfter ≤ t)
      ∧ (d.state = .cancelled ↔ d.cancelledAt ≠ none)
      ∧ (∀ t ∈ d.cancelledAt, d.requestedAt ≤ t)
      ∧ (d.state = .completed ↔ d.completedAt ≠ none)
      ∧ (∀ t ∈ d.completedAt, d.requestedAt ≤ t)
      ∧ ((d.billingObservationSource ≠ some .operator ∧ d.billingObservedBy = none ∧
          d.billingObservationReason = none ∧ d.billingObservationEvidence = none) ∨
        (d.billingObservationSource = some .operator ∧ d.billingObservedBy ≠ none ∧
          d.billingObservationReason ≠ none ∧ d.billingObservationEvidence ≠ none))
      ∧ ((d.billingObservationSource = none ∧ d.lastBillingState = none ∧
          d.billingCheckedAt = none) ∨
        (d.billingObservationSource ≠ none ∧ d.lastBillingState ≠ none ∧
          d.billingCheckedAt ≠ none))
      ∧ ∀ t ∈ d.purgeStartedAt, d.requestedAt ≤ t)
    ⟨fun ⟨h₁, ⟨h₂, h₃, h₄⟩, h₅, h₆, h₇, h₈, h₉, h₁₀, h₁₁, h₁₂, h₁₃, h₁₄, h₁₅, h₁₆, h₁₇, h₁₈⟩ =>
        ⟨h₁, h₂, h₃, h₄, h₅, h₆, h₇, h₈, h₉, h₁₀, h₁₁, h₁₂, h₁₃, h₁₄, h₁₅, h₁₆, h₁₇, h₁₈⟩,
      fun ⟨h₁, h₂, h₃, h₄, h₅, h₆, h₇, h₈, h₉, h₁₀, h₁₁, h₁₂, h₁₃, h₁₄, h₁₅, h₁₆, h₁₇, h₁₈⟩ =>
        ⟨h₁, ⟨h₂, h₃, h₄⟩, h₅, h₆, h₇, h₈, h₉, h₁₀, h₁₁, h₁₂, h₁₃, h₁₄, h₁₅, h₁₆, h₁₇, h₁₈⟩⟩

/-- Replace the row of an operation. -/
def Db.writeDeletion (db : Db) (id : Ident) (d : Deletion) : Db :=
  { db with deletions := db.deletions.modify id fun _ => d }

/-- `UPDATE organization_deletions`: change the operation that satisfies a condition. Returns the
row as it was written. -/
def updateDeletion (id : Ident) (condition : Deletion → Bool) (change : Deletion → Deletion) :
    Tx (Option Deletion) := do
  let db ← get
  match (db.deletions.lookup id).filter condition with
  | none => pure none
  | some d =>
      require (change d).Checks .check
      set (db.writeDeletion id (change d))
      pure (some (change d))

namespace DeletionState

def canCancel : DeletionState → Bool
  | requested | cancellingBilling | retention | failed => true
  | _ => false

/-- Whether an operation in this state is over. -/
def isTerminal : DeletionState → Bool
  | cancelled | completed => true
  | _ => false

end DeletionState

/-- The latest operation that satisfies a condition. -/
def Db.latestDeletion (db : Db) (condition : Deletion → Bool) : Option (Ident × Deletion) :=
  ((db.deletions.rows.filter fun e => condition e.2).mergeSort
    fun e e' => e'.2.requestedAt ≤ e.2.requestedAt).head?

structure DeletionView where
  id : Ident
  orgId : Ident
  state : DeletionState
deriving DecidableEq

/-- Work claimed by one worker. -/
structure DeletionLease where
  id : Ident
  orgId : Ident
  state : DeletionState
  subscriptionId : Option Ident
  workerId : String
  stateVersion : Int
  attemptCount : Int
deriving DecidableEq

def viewFromRow (id : Ident) (d : Deletion) : DeletionView := ⟨id, d.orgId, d.state⟩

/-! ### Rows

The columns that each transaction sets. -/

namespace Deletion

section Rows

variable (now : Int)

/-- The row of a new request. -/
def requested (orgId actor : Ident) (retentionDays : Int) (subscriptionId : Option Ident) :
    Deletion where
  orgId := orgId
  state := .requested
  resumeState := none
  requestedBy := actor
  requestedAt := now
  purgeAfter := now + retentionDays * 86400
  subscriptionId := subscriptionId
  lastBillingState := none
  billingCheckedAt := none
  billingObservationSource := none
  billingObservedBy := none
  billingObservationReason := none
  billingObservationEvidence := none
  attemptCount := 0
  nextAttemptAt := none
  lastErrorCode := none
  stateVersion := 0
  leaseOwner := none
  leaseExpiresAt := none
  cancelledAt := none
  completedAt := none
  managedBackupExpiryBy := none
  purgeStartedAt := none

/-- Every update ends the lease, and counts. -/
def released (d : Deletion) : Deletion :=
  { d with
    leaseOwner := none
    leaseExpiresAt := none
    stateVersion := d.stateVersion + 1 }

/-- A failed operation goes on where it failed. -/
def resumed (d : Deletion) : Deletion :=
  { d with
    state := d.resumeState.getD d.state
    resumeState := none
    nextAttemptAt := some now
    attemptCount := 0
    lastErrorCode := none }

def recovering (d : Deletion) : Deletion :=
  { d with
    state := .recovering
    resumeState := none
    attemptCount := 0
    nextAttemptAt := some now
    lastErrorCode := none }

/-- Whether a claim counts as an attempt at the provider. -/
def countsAttempt (d : Deletion) : Bool :=
  d.state = .cancellingBilling ∨ d.state = .recovering ∨
    (d.state = .retention ∧ d.subscriptionId ≠ none)

def claimed (workerId : String) (d : Deletion) : Deletion :=
  { d with
    leaseOwner := some workerId
    leaseExpiresAt := some (now + 5 * 60)
    stateVersion := d.stateVersion + 1
    attemptCount := d.attemptCount + if d.countsAttempt then 1 else 0 }

def transitioned (next : DeletionState) (d : Deletion) : Deletion :=
  { d with
    state := next
    nextAttemptAt := some now }

/-- The columns of a provider's observation. The actor columns stay as they are. -/
def observed (gate : PurgeGate) (d : Deletion) : Deletion :=
  { d with
    lastBillingState := some gate
    attemptCount := 0
    billingCheckedAt := some now
    billingObservationSource := some .provider }

def billingFinished (gate : PurgeGate) (d : Deletion) : Deletion :=
  { d.observed now gate with
    state := .retention
    nextAttemptAt := none }

def reconciled (gate : PurgeGate) (d : Deletion) : Deletion :=
  let purge := gate = .terminal ∨ gate = .missing
  { d.observed now gate with
    state := if purge then .purging else .cancellingBilling
    purgeStartedAt := if purge then some (d.purgeStartedAt.getD now) else d.purgeStartedAt
    nextAttemptAt := if purge then none else some now }

def purging (d : Deletion) : Deletion :=
  { d with
    state := .purging
    attemptCount := 0
    purgeStartedAt := some (d.purgeStartedAt.getD now)
    billingCheckedAt := if d.subscriptionId = none then some now else d.billingCheckedAt
    nextAttemptAt := none }

def recovered (gate : PurgeGate) (d : Deletion) : Deletion :=
  { d.observed now gate with
    state := .cancelled
    cancelledAt := some now
    nextAttemptAt := none }

def retried (code : Option String) (delay : Int) (d : Deletion) : Deletion :=
  { d with
    nextAttemptAt := some (now + delay)
    lastErrorCode := code }

def failed (resumeState : DeletionState) (code : String) (d : Deletion) : Deletion :=
  { d with
    state := .failed
    resumeState := some resumeState
    nextAttemptAt := none
    lastErrorCode := some code }

def completed (d : Deletion) : Deletion :=
  { d with
    state := .completed
    completedAt := some now }

end Rows

end Deletion

/-! ### Requests of owners -/

def requireOwner (orgId actor : Ident) : Tx Unit := do
  let db ← get
  match db.holdings.memberships.lookup (orgId, actor) with
  | none => throw (.notFound "organisation not found")
  | some m => require (m.role = .owner) (.forbidden "only an organisation owner may manage deletion")

/-- Whether a caller requested a deletion of the organisation that is completed. -/
def Db.requestedCompleted (db : Db) (orgId actor : Ident) : Bool :=
  db.deletions.rows.any fun e =>
    e.2.orgId = orgId ∧ e.2.requestedBy = actor ∧ e.2.state = .completed

/-- Accept one confirmed owner request; a repeated one resumes a failed operation. -/
def requestWithRetention (now : Int) (id orgId actor confirmationOrgId : Ident)
    (retentionDays : Int) : Tx DeletionView := do
  require (0 < retentionDays) .internal
  require (confirmationOrgId = orgId)
    (.badRequest "deletion confirmation does not match the organisation")
  let db ← get
  match db.organizations.lookup orgId with
  | none => throw (.notFound "organisation not found")
  | some org =>
      if org.lifecycle = .deleted then
        if db.requestedCompleted orgId actor then
          throw (.conflict "organisation has already been deleted")
        else throw (.notFound "organisation not found")
      else
        requireOwner orgId actor
        if org.lifecycle = .deleting then
          match db.latestDeletion fun d => d.orgId = orgId ∧ ¬ d.state.isTerminal with
          | none => throw .internal
          | some (id, d) =>
              if d.state = .failed then
                match d.resumeState with
                | none => throw .internal
                | some resumeState =>
                    let _ ← updateDeletion id (fun _ => true) fun d => (d.resumed now).released
                    pure ⟨id, orgId, resumeState⟩
              else pure ⟨id, orgId, d.state⟩
        else
          let d := Deletion.requested now orgId actor retentionDays org.stripeSubscriptionId
          require d.Checks .check
          require (db.deletions.lookup id = none ∧
            ¬ db.deletions.rows.any fun e => e.2.orgId = orgId ∧ ¬ e.2.state.isTerminal) .db
          set { db with
            deletions := AList.insert id d db.deletions
            organizations := db.organizations.modify orgId fun org =>
              { org with lifecycle := .deleting } }
          pure ⟨id, orgId, .requested⟩

/-- Begin recovery for an owner, leaving access frozen until billing has been reconciled. -/
def cancel (now : Int) (orgId actor : Ident) : Tx DeletionView := do
  let db ← get
  match db.organizations.lookup orgId with
  | none => throw (.notFound "organisation not found")
  | some org =>
      if org.lifecycle = .deleted then
        if db.requestedCompleted orgId actor then
          throw (.conflict
            "organisation deletion cannot be cancelled after purge has started")
        else throw (.notFound "organisation not found")
      else
        requireOwner orgId actor
        match (db.latestDeletion fun d => d.orgId = orgId ∧ ¬ d.state.isTerminal) <|>
            db.latestDeletion fun d => d.orgId = orgId ∧ d.state = .cancelled with
        | none => throw (.notFound "deletion not found")
        | some (id, d) =>
            if d.state.canCancel then
              let _ ← updateDeletion id (fun _ => true) fun d => (d.recovering now).released
              pure ⟨id, orgId, .recovering⟩
            else if d.state = .purging then
              throw (.conflict
                "organisation deletion cannot be cancelled after purge has started")
            else pure ⟨id, orgId, d.state⟩

/-! ### Claims -/

/-- A time that has come, where one is set. -/
def due (now : Int) (t : Option Int) : Bool := t.all (· ≤ now)

def Deletion.isDue (now : Int) (d : Deletion) : Bool :=
  due now d.leaseExpiresAt &&
    match d.state with
    | .purging => d.purgeAfter ≤ now
    | .retention => d.purgeAfter ≤ now && due now d.nextAttemptAt
    | .requested | .cancellingBilling | .recovering => due now d.nextAttemptAt
    | .failed | .cancelled | .completed => false

def Deletion.dueAt (d : Deletion) : Int :=
  if d.state = .retention then d.purgeAfter else d.nextAttemptAt.getD d.requestedAt

/-- Claim one due attempt, other than the rows that another transaction has locked. -/
def claimDue (now : Int) (workerId : String) (locked : List Ident) : Tx (Option DeletionLease) := do
  require (workerId ≠ "") .internal
  let db ← get
  match ((db.deletions.rows.filter fun e => e.2.isDue now && !locked.contains e.1).mergeSort
      fun e e' => e.2.dueAt ≤ e'.2.dueAt).head? with
  | none => pure none
  | some (id, _) =>
      let row ← updateDeletion id (fun _ => true) (Deletion.claimed now workerId)
      pure (row.map fun d =>
        ⟨id, d.orgId, d.state, d.subscriptionId, workerId, d.stateVersion, d.attemptCount⟩)

/-! ### Transitions under a lease -/

section Transitions

variable (now : Int) (lease : DeletionLease)

/-- Whether the lease is still the operation's. -/
def Deletion.heldBy (d : Deletion) : Bool :=
  d.stateVersion = lease.stateVersion ∧ d.leaseOwner = some lease.workerId

/-- An update by a worker whose lease is still the operation's. -/
def updateLeased (condition : Deletion → Bool) (change : Deletion → Deletion) :
    Tx (Option Deletion) :=
  updateDeletion lease.id (fun d => d.heldBy lease && condition d) fun d => (change d).released

def transitionState (next : DeletionState) : Tx (Option DeletionView) := do
  let row ← updateLeased lease (fun _ => true) (Deletion.transitioned now next)
  pure (row.map (viewFromRow lease.id))

/-- Billing has ended: the operation is retained until its purge. -/
def finishBilling (gate : PurgeGate) : Tx (Option DeletionView) := do
  let row ← updateLeased lease (fun _ => true) (Deletion.billingFinished now gate)
  pure (row.map (viewFromRow lease.id))

/-- The fresh lookup at the end of the retention. -/
def finishRetentionReconciliation (gate : PurgeGate) : Tx (Option DeletionView) := do
  let row ← updateLeased lease
    (fun d => ¬ (gate = .terminal ∨ gate = .missing) ∨ d.purgeAfter ≤ now)
    (Deletion.reconciled now gate)
  pure (row.map (viewFromRow lease.id))

def enterPurging : Tx (Option DeletionView) := do
  let row ← updateLeased lease (fun d => d.state = .retention ∧ d.purgeAfter ≤ now)
    (Deletion.purging now)
  pure (row.map (viewFromRow lease.id))

def Organization.reactivated (tier : Tier) (org : Organization) : Organization :=
  if org.lifecycle = .deleting then { org with lifecycle := .active, tier := tier } else org

/-- The recovery ends with the organisation active on the tier of its subscription. -/
def finishRecovery (gate : PurgeGate) (tier : Tier) : Tx (Option DeletionView) := do
  let row ← updateLeased lease (fun _ => true) (Deletion.recovered now gate)
  if row ≠ none then
    modify fun db => { db with
      organizations := db.organizations.modify lease.orgId (Organization.reactivated tier) }
  pure (row.map (viewFromRow lease.id))

def scheduleRetry (code : Option String) (delay : Int) : Tx (Option DeletionView) := do
  let row ← updateLeased lease (fun _ => true) (Deletion.retried now code delay)
  pure (row.map (viewFromRow lease.id))

def failAttempt (code : String) : Tx (Option DeletionView) := do
  let row ← updateLeased lease (fun _ => true) (Deletion.failed lease.state code)
  pure (row.map (viewFromRow lease.id))

/-- The maximum age of a billing observation. -/
def billingObservationMaxAge : Int := 15 * 60

/-- The conjunction of two truth values of which each may be unknown. -/
def sqlAnd : Option Bool → Option Bool → Option Bool
  | some false, _ | _, some false => some false
  | some true, some true => some true
  | _, _ => none

/-- Whether the observation is fresh: unknown where there is none. -/
def Deletion.isFresh (d : Deletion) : Option Bool :=
  sqlAnd (d.billingCheckedAt.map fun t => t ≥ now - billingObservationMaxAge)
    (d.billingObservationSource.map fun _ => true)

/-- A read of an operation for which only an operator's observation can be fresh. -/
def operatorObservationIsFresh : Tx Bool := do
  let db ← get
  match (db.deletions.lookup lease.id).filter (Deletion.heldBy lease) with
  | none => pure false
  | some d =>
      match sqlAnd (sqlAnd (d.billingObservationSource.map (· = .operator))
          (d.lastBillingState.map fun s => s = .terminal ∨ s = .missing))
          (d.billingCheckedAt.map fun t => t ≥ now - billingObservationMaxAge) with
      | none => throw .db
      | some fresh => pure fresh

/-! ### The purge -/

/-- What is left when an organisation's projects and memberships are deleted: environments, grants,
secrets and machine tokens go with their project. -/
def Holdings.without (h : Holdings) (orgId : Ident) : Holdings :=
  let ofProject (projectId : Ident) : Bool :=
    (h.projects.lookup projectId).any fun p => p.orgId = some orgId
  let ofEnv (envId : Ident) : Bool :=
    (h.environments.lookup envId).any fun e => ofProject e.projectId
  let ofSecret (secretId : Ident) : Bool := (h.secrets.lookup secretId).any fun s => ofEnv s.envId
  { memberships := h.memberships.filterRows fun k _ => k.1 ≠ orgId
    projects := h.projects.filterRows fun _ p => p.orgId ≠ some orgId
    environments := h.environments.filterRows fun _ e => !ofProject e.projectId
    grants := h.grants.filterRows fun k _ => !ofEnv k.1
    secrets := h.secrets.filterRows fun _ s => !ofEnv s.envId
    secretVersions := h.secretVersions.filterRows fun k _ => !ofSecret k.1
    machineTokens := h.machineTokens.filterRows fun _ t => !ofEnv t.envId }

/-- The retained row of a deleted organisation. -/
def Organization.tombstone (org : Organization) : Organization :=
  if org.lifecycle = .deleting then
    { encName := none
      createdBy := none
      tier := .free
      trialEndsAt := none
      lifecycle := .deleted
      deletedAt := some now
      stripeCustomerId := none
      stripeSubscriptionId := none }
  else org

/-- What the purge rechecks before it deletes anything. -/
def Deletion.permitsPurge (d : Deletion) (org : Organization) (fresh : Bool) : Bool :=
  d.state = .purging ∧ org.lifecycle = .deleting ∧ d.purgeAfter ≤ now ∧
    d.billingCheckedAt ≠ none ∧ fresh ∧
    (d.lastBillingState = some .terminal ∨ d.lastBillingState = some .missing) ∧
    (org.stripeSubscriptionId = none ∨ org.stripeSubscriptionId = d.subscriptionId)

/-- Apply the final purge only after rechecking every safety gate in the same transaction. The
completion is stamped with the time at its end. -/
def purge (finishedAt : Int) : Tx (Option DeletionView) := do
  let db ← get
  match (db.deletions.lookup lease.id).filter (Deletion.heldBy lease) with
  | none => pure none
  | some d =>
      match db.organizations.lookup d.orgId with
      | none => pure none
      | some org =>
          match d.isFresh now with
          | none => throw .db
          | some fresh =>
              if d.permitsPurge now org fresh then
                modify fun db => { db with
                  holdings := db.holdings.without d.orgId
                  organizations := db.organizations.modify d.orgId (Organization.tombstone now) }
                let completed ← updateLeased lease (fun _ => true)
                  (Deletion.completed finishedAt)
                pure (completed.map (viewFromRow lease.id))
              else
                let failed ← updateLeased lease (fun _ => true)
                  (Deletion.failed .purging "purge_precondition_failed")
                pure (failed.map (viewFromRow lease.id))

end Transitions

end Billing

end Sotto
