import Sotto.Billing.Deletion
import Sotto.Billing.Webhook
import Sotto.Library.Threads

/-!
# The deletion worker

How a worker advances an operation that it has claimed: between its transactions it asks the
provider, and other transactions of any kind run meanwhile. Operators, customers and the provider
act on the same state.
-/

namespace Sotto

namespace Billing

open Core
open Server (Tier LifecycleState Role)

/-! ### Operators -/

/-- A timestamp in a request. -/
inductive TimestampText
  | empty
  | malformed
  | valid (t : Int)
deriving DecidableEq

/-- A billing observation that an operator records. -/
structure OperatorObservation where
  subscriptionId : Ident
  observedStatus : String
  observedAt : TimestampText
  reason : String
  evidence : String
  managedBackupExpiryBy : Option TimestampText
deriving DecidableEq

def normaliseTimestamp (value : TimestampText) (message : String) : Tx Int :=
  match value with
  | .valid t => pure t
  | _ => throw (.badRequest message)

namespace OperatorObservation

def gate (observation : OperatorObservation) : PurgeGate :=
  if observation.observedStatus = "resource_missing" then .missing
  else (SubscriptionStatus.parse observation.observedStatus).purgeGate

def backupExpiry (observation : OperatorObservation) (d : Deletion) : Tx (Option Int) := do
  match observation.managedBackupExpiryBy with
  | none => pure none
  | some expiry => do
      let expiry ← normaliseTimestamp expiry
        "managed_backup_expiry_by must be an RFC3339 timestamp with an explicit timezone"
      require (expiry > d.purgeAfter)
        (.badRequest "managed_backup_expiry_by must be after the purge deadline")
      pure (some expiry)

/-- The columns of an operator's observation. -/
def recorded (observation : OperatorObservation) (operator : String) (observedAt : Int)
    (managedBackupExpiryBy : Option Int) (d : Deletion) : Deletion :=
  { d with
    state := .retention
    resumeState := none
    attemptCount := 0
    lastBillingState := some observation.gate
    billingCheckedAt := some observedAt
    billingObservationSource := some .operator
    billingObservedBy := some operator
    billingObservationReason := some observation.reason
    billingObservationEvidence := some observation.evidence
    managedBackupExpiryBy := managedBackupExpiryBy <|> d.managedBackupExpiryBy
    nextAttemptAt := none }

end OperatorObservation

/-- Record a terminal or missing observation of an operator. -/
def recordOperatorObservation (now : Int) (orgId : Ident) (operator : String)
    (observation : OperatorObservation) : Tx DeletionView := do
  require (operator ≠ "" ∧ observation.subscriptionId ≠ .text "" ∧
      observation.observedStatus ≠ "" ∧ observation.observedAt ≠ .empty ∧
      observation.reason ≠ "" ∧ observation.evidence ≠ "")
    (.badRequest "operator, subscription, status, observed_at, reason, and evidence are required")
  require (observation.gate = .terminal ∨ observation.gate = .missing)
    (.badRequest "manual observation must be terminal or missing")
  let db ← get
  require ((db.organizations.lookup orgId).map Organization.lifecycle = some .deleting)
    (.notFound "deletion not found")
  match db.deletions.rows.find? fun e => e.2.orgId = orgId ∧ ¬ e.2.state.isTerminal with
  | none => throw (.notFound "deletion not found")
  | some (id, d) =>
      let observedAt ← normaliseTimestamp observation.observedAt
        "observed_at must be an RFC3339 timestamp with an explicit timezone"
      let managedBackupExpiryBy ← observation.backupExpiry d
      require (d.state ≠ .purging)
        (.conflict "organisation deletion cannot be observed after purge has started")
      require (d.state ≠ .recovering ∧ d.resumeState ≠ some .recovering ∧
          d.resumeState ≠ some .purging)
        (.conflict "organisation recovery is in progress")
      require (d.subscriptionId = some observation.subscriptionId)
        (.conflict "manual observation does not match the deletion subscription")
      let row ← updateDeletion id (fun d => d.requestedAt ≤ observedAt ∧ observedAt ≤ now) fun d =>
        (observation.recorded operator observedAt managedBackupExpiryBy d).released
      match row with
      | none => throw (.badRequest
          "manual observation time must be between the deletion request and now")
      | some d => pure (viewFromRow id d)

/-! ### Checkouts -/

/-- The organisation and customer of a checkout session that an administrator starts. -/
def createCheckout (orgId userId : Ident) : Tx (Option Ident) := do
  let db ← get
  match db.organizations.lookup orgId, db.holdings.memberships.lookup (orgId, userId) with
  | some org, some m =>
      match org.lifecycle with
      | .deleted => throw (.notFound "organisation not found")
      | .deleting => throw (.conflict "organisation deletion is in progress")
      | .active =>
          require (m.role.isAtLeast .admin)
            (.forbidden "managing billing requires the admin or owner role")
          pure org.stripeCustomerId
  | _, _ => throw (.notFound "organisation not found")

/-! ### Commands -/

/-- One transaction, one request to the provider, or one step of the world outside: a customer pays
a checkout session, a subscription changes its status at the provider, or time passes. -/
inductive Cmd
  | request (id orgId actor confirmationOrgId : Ident) (retentionDays : Int)
  | cancel (orgId actor : Ident)
  | claim (workerId : String) (locked : List Ident)
  | transitionState (lease : DeletionLease) (next : DeletionState)
  | finishBilling (lease : DeletionLease) (gate : PurgeGate)
  | finishRetention (lease : DeletionLease) (gate : PurgeGate)
  | finishRecovery (lease : DeletionLease) (gate : PurgeGate) (tier : Tier)
  | enterPurging (lease : DeletionLease)
  | scheduleRetry (lease : DeletionLease) (code : Option String) (delay : Int)
  | failAttempt (lease : DeletionLease) (code : String)
  | operatorObservationIsFresh (lease : DeletionLease)
  | purge (lease : DeletionLease)
  | observe (orgId : Ident) (operator : String) (observation : OperatorObservation)
  | webhook (event : Event)
  | checkout (session orgId userId : Ident)
  | getSubscription (subscriptionId : Ident)
  | cancelSubscription (subscriptionId : Ident)
  | pay (session subscriptionId : Ident) (status : SubscriptionStatus)
  | evolve (subscriptionId : Ident) (status : SubscriptionStatus)
  | tick (now : Int)

namespace Cmd

abbrev Reply : Cmd → Type
  | request .. => Except Error DeletionView
  | cancel .. => Except Error DeletionView
  | claim .. => Except Error (Option DeletionLease)
  | transitionState .. => Except Error (Option DeletionView)
  | finishBilling .. => Except Error (Option DeletionView)
  | finishRetention .. => Except Error (Option DeletionView)
  | finishRecovery .. => Except Error (Option DeletionView)
  | enterPurging .. => Except Error (Option DeletionView)
  | scheduleRetry .. => Except Error (Option DeletionView)
  | failAttempt .. => Except Error (Option DeletionView)
  | operatorObservationIsFresh .. => Except Error Bool
  | purge .. => Except Error (Option DeletionView)
  | observe .. => Except Error DeletionView
  | webhook .. => Except Error Unit
  | checkout .. => Except Error (Option Ident)
  | getSubscription .. => ProviderResult SubscriptionObservation
  | cancelSubscription .. => ProviderResult SubscriptionObservation
  | pay .. => Unit
  | evolve .. => Unit
  | tick .. => Unit

end Cmd

/-! ### The worker's program -/

/-- What advancing an operation runs. -/
abbrev Work := Prog Cmd.Reply (Except Error (Option DeletionView))

/-- Issue one command. -/
def perform (c : Cmd) : Prog Cmd.Reply c.Reply := Prog.perform c

def retryDelays : List Int := [60, 5 * 60, 30 * 60, 2 * 60 * 60, 6 * 60 * 60, 24 * 60 * 60]

def retryDelay (attemptCount : Int) : Option Int :=
  if attemptCount ≤ 0 then retryDelays.head? else retryDelays[(attemptCount - 1).toNat]?

/-- A stable offset for each operation, below half a minute. -/
def jitter (operationId : Ident) : Nat :=
  let hash := (toString operationId).toUTF8.foldl
    (fun (hash : UInt64) byte => hash * 1099511628211 + byte.toUInt64) 0
  hash.toNat % 30

def retryDelayWithJitter (operationId : Ident) (attemptCount : Int) : Option Int :=
  (retryDelay attemptCount).map (· + (jitter operationId : Int))

inductive RetryDecision
  | retry (delay : Int)
  | failed

def providerRetryDecision (kind : ProviderErrorKind) (attemptCount : Int) : RetryDecision :=
  if kind = .authentication then .failed
  else
    match retryDelay attemptCount with
    | some delay => .retry delay
    | none => .failed

/-- Where a billing observation leads: only one that ends billing leads on. -/
def billingTransition : PurgeGate → Option DeletionState
  | .terminal | .missing => some .retention
  | .blocking | .unknown => none

section Advance

variable (lease : DeletionLease)

def handleProviderError (kind : ProviderErrorKind) (code : Option String) : Work :=
  match providerRetryDecision kind lease.attemptCount with
  | .retry _ =>
      match retryDelayWithJitter lease.id lease.attemptCount with
      | none => pure (.error .internal)
      | some delay => perform (.scheduleRetry lease code delay)
  | .failed =>
      perform (.failAttempt lease (if kind = .authentication then "billing_unavailable"
        else code.getD "provider_error"))

def finishBillingWith (observation : SubscriptionObservation) : Work :=
  match billingTransition observation.purgeGate with
  | some _ => perform (.finishBilling lease observation.purgeGate)
  | none => handleProviderError lease .unknown (some
      (if observation.purgeGate = .blocking then "billing_still_blocking"
        else "billing_status_unknown"))

def finishRecoveryWith (observation : SubscriptionObservation) : Work :=
  match observation with
  | .missing => perform (.finishRecovery lease .missing .free)
  | .current snapshot =>
      if snapshot.status.purgeGate = .unknown then
        handleProviderError lease .unknown (some "billing_status_unknown")
      else perform (.finishRecovery lease snapshot.status.purgeGate snapshot.status.entitlementTier)

def finishRetentionWith (observation : SubscriptionObservation) : Work :=
  if observation.purgeGate = .unknown then
    handleProviderError lease .unknown (some "billing_status_unknown")
  else perform (.finishRetention lease observation.purgeGate)

/-- Continue with an observation, or handle the provider's failure. -/
def withObservation (finish : SubscriptionObservation → Work)
    (observed : ProviderResult SubscriptionObservation) : Work :=
  match observed with
  | .ok observation => finish observation
  | .error e => handleProviderError lease e.kind e.code

def advanceBilling (provider recovering : Bool) : Work :=
  match lease.subscriptionId with
  | none =>
      if recovering then finishRecoveryWith lease .missing else finishBillingWith lease .missing
  | some subscriptionId =>
      if ¬ provider then perform (.failAttempt lease "billing_unavailable")
      else if recovering then
        perform (.getSubscription subscriptionId) >>=
          withObservation lease (finishRecoveryWith lease)
      else
        perform (.cancelSubscription subscriptionId) >>=
          withObservation lease (finishBillingWith lease)

def advanceRetention (provider : Bool) : Work :=
  match lease.subscriptionId with
  | none => perform (.enterPurging lease)
  | some subscriptionId =>
      if provider then
        perform (.getSubscription subscriptionId) >>=
          withObservation lease (finishRetentionWith lease)
      else do
        match ← perform (.operatorObservationIsFresh lease) with
        | .error e => pure (.error e)
        | .ok true => perform (.enterPurging lease)
        | .ok false => perform (.failAttempt lease "billing_unavailable")

/-- Advance one leased attempt. A stale lease changes nothing. -/
def advance (provider : Bool) : Work :=
  match lease.state with
  | .requested => perform (.transitionState lease .cancellingBilling)
  | .cancellingBilling => advanceBilling lease provider false
  | .recovering => advanceBilling lease provider true
  | .retention => advanceRetention lease provider
  | .purging => perform (.purge lease)
  | .failed | .cancelled | .completed => pure (.ok none)

end Advance

/-! ### The system -/

/-- The payment provider: the open checkout sessions with the organisation each is for, and the
subscriptions with the organisation each was bought for. -/
structure Provider where
  sessions : Table Ident Ident
  subscriptions : Table Ident (Ident × SubscriptionStatus)

/-- The shared state: the database, the provider, the clock, the leases that were issued, and the
events that were accepted with their times. -/
structure World where
  db : Db
  provider : Provider
  now : Int
  leases : List DeletionLease
  deliveries : List (Int × Event)

def World.withDb (s : World) (db : Db) : World := { s with db := db }

/-- Run a transaction in a shared state. -/
def World.commit {α : Type} (s : World) (tx : Tx α) : Except Error α × World :=
  ((tx.commit s.db).1, s.withDb (tx.commit s.db).2)

/-- The executions of a command. The provider's answers are arbitrary, the clock does not go back,
and a status that ends a subscription is final. -/
inductive Executes (textGt : String → String → Bool) :
    (c : Cmd) → World → c.Reply → World → Prop
  | request {s id orgId actor confirmationOrgId retentionDays r s'} :
      s.commit (requestWithRetention s.now id orgId actor confirmationOrgId retentionDays) = (r, s') →
      Executes textGt (.request id orgId actor confirmationOrgId retentionDays) s r s'
  | cancel {s orgId actor r s'} : s.commit (Billing.cancel s.now orgId actor) = (r, s') →
      Executes textGt (.cancel orgId actor) s r s'
  | claim {s workerId locked r s'} :
      s.commit (claimDue s.now workerId locked) = (r, s') →
      Executes textGt (.claim workerId locked) s r
        { s' with leases := (r.toOption.bind id).toList ++ s'.leases }
  | transitionState {s lease next r s'} :
      s.commit (Billing.transitionState s.now lease next) = (r, s') →
      Executes textGt (.transitionState lease next) s r s'
  | finishBilling {s lease gate r s'} :
      s.commit (Billing.finishBilling s.now lease gate) = (r, s') →
      Executes textGt (.finishBilling lease gate) s r s'
  | finishRetention {s lease gate r s'} :
      s.commit (finishRetentionReconciliation s.now lease gate) = (r, s') →
      Executes textGt (.finishRetention lease gate) s r s'
  | finishRecovery {s lease gate tier r s'} :
      s.commit (Billing.finishRecovery s.now lease gate tier) = (r, s') →
      Executes textGt (.finishRecovery lease gate tier) s r s'
  | enterPurging {s lease r s'} : s.commit (Billing.enterPurging s.now lease) = (r, s') →
      Executes textGt (.enterPurging lease) s r s'
  | scheduleRetry {s lease code delay r s'} :
      s.commit (Billing.scheduleRetry s.now lease code delay) = (r, s') →
      Executes textGt (.scheduleRetry lease code delay) s r s'
  | failAttempt {s lease code r s'} : s.commit (Billing.failAttempt lease code) = (r, s') →
      Executes textGt (.failAttempt lease code) s r s'
  | operatorObservationIsFresh {s lease r s'} :
      s.commit (Billing.operatorObservationIsFresh s.now lease) = (r, s') →
      Executes textGt (.operatorObservationIsFresh lease) s r s'
  | purge {s lease finishedAt r s'} : s.now ≤ finishedAt →
      s.commit (Billing.purge s.now lease finishedAt) = (r, s') →
      Executes textGt (.purge lease) s r { s' with now := finishedAt }
  | observe {s orgId operator observation r s'} :
      s.commit (recordOperatorObservation s.now orgId operator observation) = (r, s') →
      Executes textGt (.observe orgId operator observation) s r s'
  | webhook {s event stripeGet r db'} :
      Billing.webhook textGt s.now stripeGet event s.db = (r, db') →
      Executes textGt (.webhook event) s r
        { s.withDb db' with
          deliveries := if r.isOk then (s.now, event) :: s.deliveries else s.deliveries }
  | checkout {s session orgId userId customer} :
      s.commit (createCheckout orgId userId) = (.ok customer, s) →
      s.provider.sessions.lookup session = none →
      Executes textGt (.checkout session orgId userId) s (.ok customer)
        { s with provider := { s.provider with
          sessions := AList.insert session orgId s.provider.sessions } }
  | notCheckedOut {s session orgId userId e} :
      Executes textGt (.checkout session orgId userId) s (.error e) s
  | getSubscription {s subscriptionId r} :
      Executes textGt (.getSubscription subscriptionId) s r s
  | cancelSubscription {s subscriptionId r} :
      Executes textGt (.cancelSubscription subscriptionId) s r s
  | canceled {s subscriptionId r orgId status} :
      s.provider.subscriptions.lookup subscriptionId = some (orgId, status) →
      status.purgeGate ≠ .terminal →
      Executes textGt (.cancelSubscription subscriptionId) s r
        { s with provider := { s.provider with
          subscriptions := AList.insert subscriptionId (orgId, .canceled)
            s.provider.subscriptions } }
  | pay {s session subscriptionId status orgId} :
      s.provider.sessions.lookup session = some orgId →
      s.provider.subscriptions.lookup subscriptionId = none →
      Executes textGt (.pay session subscriptionId status) s ()
        { s with provider := {
          sessions := s.provider.sessions.erase session
          subscriptions := AList.insert subscriptionId (orgId, status)
            s.provider.subscriptions } }
  | evolve {s subscriptionId status orgId status'} :
      s.provider.subscriptions.lookup subscriptionId = some (orgId, status) →
      status.purgeGate ≠ .terminal →
      Executes textGt (.evolve subscriptionId status') s ()
        { s with provider := { s.provider with
          subscriptions := AList.insert subscriptionId (orgId, status') s.provider.subscriptions } }
  | tick {s now} : s.now ≤ now → Executes textGt (.tick now) s () { s with now := now }

/-- What a thread of the system does: a request of a client, a worker's claim or a step of the
world outside, or the advance of a claimed operation. -/
inductive Op
  | issue (c : Cmd)
  | advance (lease : DeletionLease) (provider : Bool)

namespace Op

/-- The commands that the transitions of an operation consist of are issued by workers alone. -/
def MayStart (s : World) : Op → Prop
  | issue c =>
      match c with
      | .request .. | .cancel .. | .claim .. | .observe .. | .webhook .. | .checkout .. | .pay ..
      | .evolve .. | .tick .. => True
      | _ => False
  | advance lease _ => lease ∈ s.leases

def prog : Op → Work
  | issue c => perform c >>= fun _ => pure (.ok none)
  | advance lease provider => Billing.advance lease provider

end Op

/-- Clients, operators, workers and the world outside, in any interleaving. A lease is used by any
number of workers at any time after it was issued. -/
def deletionSystem (textGt : String → String → Bool) :
    System Nat Cmd.Reply World Unit Op (Except Error (Option DeletionView)) where
  prog _ op := op.prog
  start _ op s _ _ := op.MayStart s
  exec _ c s _ r s' _ := Executes textGt c s r s'
  finish _ _ _ _ _ _ := True

/-- A configuration of the system. -/
abbrev Situation := Config Nat Cmd.Reply World Unit Op (Except Error (Option DeletionView))

/-- Nothing is running. -/
def Situation.Idle (w : Situation) : Prop := ∀ i, (w.threads i).running = none

end Billing

end Sotto
