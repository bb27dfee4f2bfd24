import Sotto.Billing.Provider

/-!
# The tables of billing and deletion

The organisation rows with their billing columns, the records of webhook deliveries, the
deletion operations, and the data that an organisation owns. Times are in seconds.
-/

namespace Sotto

namespace Billing

open Core
open Server (Tier LifecycleState Role)

/-- An organisation. A deleted one is a tombstone without a name. -/
structure Organization where
  encName : Option Bytes
  createdBy : Option Ident
  tier : Tier
  trialEndsAt : Option Int
  lifecycle : LifecycleState
  deletedAt : Option Int
  stripeCustomerId : Option Ident
  stripeSubscriptionId : Option Ident
deriving DecidableEq

/-- The receipt of a webhook event; it is pending until it is processed. -/
structure WebhookEvent where
  receivedAt : Int
  processedAt : Option Int
deriving DecidableEq

/-- The newest event that was applied to a subscription. -/
structure Watermark where
  stripeCreated : Int
  eventId : String
deriving DecidableEq

/-- The persisted phases of one deletion attempt. -/
inductive DeletionState
  | requested
  | cancellingBilling
  | retention
  | purging
  | recovering
  | failed
  | cancelled
  | completed
deriving DecidableEq

/-- Who made a billing observation. -/
inductive ObservationSource
  | provider
  | operator
deriving DecidableEq

/-- A deletion operation. -/
structure Deletion where
  orgId : Ident
  state : DeletionState
  resumeState : Option DeletionState
  requestedBy : Ident
  requestedAt : Int
  purgeAfter : Int
  subscriptionId : Option Ident
  lastBillingState : Option PurgeGate
  billingCheckedAt : Option Int
  billingObservationSource : Option ObservationSource
  billingObservedBy : Option String
  billingObservationReason : Option String
  billingObservationEvidence : Option String
  attemptCount : Int
  nextAttemptAt : Option Int
  lastErrorCode : Option String
  stateVersion : Int
  leaseOwner : Option String
  leaseExpiresAt : Option Int
  cancelledAt : Option Int
  completedAt : Option Int
  managedBackupExpiryBy : Option Int
  purgeStartedAt : Option Int
deriving DecidableEq

/-- The data that organisations own: memberships (by organisation and user), and projects with
all that belongs to them. -/
structure Holdings where
  memberships : Table (Ident × Ident) Server.Membership
  projects : Table Ident Server.Project
  environments : Table Ident Server.Environment
  grants : Table (Ident × Ident) Bytes
  secrets : Table Ident Server.Secret
  secretVersions : Table (Ident × Int) Server.SecretVersion
  machineTokens : Table Ident Server.MachineToken

structure Db where
  organizations : Table Ident Organization
  webhookEvents : Table String WebhookEvent
  watermarks : Table Ident Watermark
  deletions : Table Ident Deletion
  holdings : Holdings

abbrev Tx := Transaction Error Db

/-- Fail with `e` unless `p` holds. -/
def require (p : Prop) [Decidable p] (e : Error) : Tx Unit :=
  if p then pure () else throw e

theorem require_eq_ok {p : Prop} [Decidable p] {e : Error} {db db' : Db} {u : Unit} :
    (require p e).run db = .ok (u, db') ↔ p ∧ db = db' := by
  unfold require
  split
  · next h =>
      rw [Transaction.pure_eq_ok]
      simp [h]
  · next h =>
      rw [Transaction.throw_eq_ok]
      simp [h]

/-- Whether another organisation has a customer or a subscription that an update sets. -/
def Db.linkedElsewhere (db : Db) (orgId : Ident) (org org' : Organization) : Bool :=
  db.organizations.rows.any fun e => e.1 ≠ orgId ∧
    ((org'.stripeCustomerId ≠ org.stripeCustomerId ∧ org'.stripeCustomerId ≠ none ∧
        e.2.stripeCustomerId = org'.stripeCustomerId) ∨
      (org'.stripeSubscriptionId ≠ org.stripeSubscriptionId ∧ org'.stripeSubscriptionId ≠ none ∧
        e.2.stripeSubscriptionId = org'.stripeSubscriptionId))

/-- `UPDATE organizations`: change the row that satisfies a condition, under the unique indexes
of the provider's ids. Returns whether a row was changed. -/
def updateOrganization (orgId : Ident) (condition : Organization → Bool)
    (change : Organization → Organization) : Tx Bool := do
  let db ← get
  match db.organizations.lookup orgId with
  | none => pure false
  | some org =>
      if condition org then
        require (¬ db.linkedElsewhere orgId org (change org)) .db
        set { db with organizations := db.organizations.modify orgId change }
        pure true
      else pure false

/-- The organisation that has a subscription. -/
def Db.orgOfSubscription (db : Db) (subscriptionId : Ident) : Option Ident :=
  (db.organizations.rows.find? fun e => e.2.stripeSubscriptionId = some subscriptionId).map (·.1)

end Billing

end Sotto
