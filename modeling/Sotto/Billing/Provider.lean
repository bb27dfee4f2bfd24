import Sotto.Server.Db
import Sotto.Library.Transaction

/-!
# The payment provider

What billing and deletion read from the provider: a subscription's state, and how a lookup or a
cancellation can fail.
-/

namespace Sotto

namespace Billing

open Core
open Server (Tier LifecycleState Role)

/-- The errors a billing or deletion request is answered with. A database error is a violated CHECK
constraint, or another one. -/
inductive Error
  | internal
  | db
  | check
  | config (message : String)
  | upstream (detail : String)
  | badRequest (message : String)
  | notFound (message : String)
  | forbidden (message : String)
  | conflict (message : String)
deriving DecidableEq

/-- The classification of a provider failure that retry and deletion policy needs. -/
inductive ProviderErrorKind
  | authentication
  | resourceMissing
  | retryable
  | unknown
deriving DecidableEq

structure ProviderError where
  code : Option String
  kind : ProviderErrorKind
deriving DecidableEq

namespace ProviderError

def malformedResponse : ProviderError := ⟨some "malformed_response", .unknown⟩

def intoError (e : ProviderError) : Error :=
  let code := e.code.getD "unknown_error"
  .upstream s!"stripe provider error: {code}"

end ProviderError

abbrev ProviderResult (α : Type) := Except ProviderError α

/-- The provider's states of a subscription. A status that is free for the product can still be
resumable at the provider. -/
inductive SubscriptionStatus
  | active
  | trialing
  | pastDue
  | incomplete
  | paused
  | unpaid
  | canceled
  | incompleteExpired
  | unknown (value : String)
deriving DecidableEq

inductive PurgeGate
  | blocking
  | terminal
  | missing
  | unknown
deriving DecidableEq

namespace SubscriptionStatus

def parse (value : String) : SubscriptionStatus :=
  if value = "active" then .active
  else if value = "trialing" then .trialing
  else if value = "past_due" then .pastDue
  else if value = "incomplete" then .incomplete
  else if value = "paused" then .paused
  else if value = "unpaid" then .unpaid
  else if value = "canceled" then .canceled
  else if value = "incomplete_expired" then .incompleteExpired
  else .unknown value

def purgeGate : SubscriptionStatus → PurgeGate
  | canceled | incompleteExpired => .terminal
  | unknown _ => .unknown
  | _ => .blocking

def entitlementTier : SubscriptionStatus → Tier
  | active | trialing | pastDue => .team
  | _ => .free

end SubscriptionStatus

structure SubscriptionSnapshot where
  id : Ident
  status : SubscriptionStatus
deriving DecidableEq

inductive SubscriptionObservation
  | current (snapshot : SubscriptionSnapshot)
  | missing
deriving DecidableEq

def SubscriptionObservation.purgeGate : SubscriptionObservation → PurgeGate
  | current snapshot => snapshot.status.purgeGate
  | missing => .missing

/-- The fields that are read of a subscription that the provider returns. -/
structure Resource where
  id : Option Ident
  status : Option String
deriving DecidableEq

/-- What the provider answers a lookup of a subscription. -/
abbrev StripeGet := Ident → ProviderResult Resource

/-- A snapshot of another subscription than the requested one is malformed. -/
def subscriptionSnapshot (object : Resource) (requestedId : Ident) :
    ProviderResult SubscriptionSnapshot :=
  match object.id.filter (· = requestedId), object.status with
  | some id, some status => .ok ⟨id, .parse status⟩
  | _, _ => .error .malformedResponse

def getSubscription (stripeGet : StripeGet) (subscriptionId : Ident) :
    ProviderResult SubscriptionObservation :=
  match stripeGet subscriptionId with
  | .ok subscription =>
      match subscriptionSnapshot subscription subscriptionId with
      | .ok snapshot => .ok (.current snapshot)
      | .error e => .error e
  | .error e => if e.kind = .resourceMissing then .ok .missing else .error e

/-- A fresh observation that blocks a purge keeps the failure of the cancellation. -/
def cancellationOutcome (cancellation : ProviderResult Unit)
    (fresh : ProviderResult SubscriptionObservation) : ProviderResult SubscriptionObservation :=
  match fresh with
  | .ok observation =>
      if observation.purgeGate = .terminal ∨ observation.purgeGate = .missing then .ok observation
      else
        match cancellation with
        | .ok _ => .ok observation
        | .error e => .error e
  | .error e =>
      match cancellation with
      | .ok _ => .error e
      | .error e' => .error e'

/-- Cancel a subscription that blocks a purge, with the provider's answers to the lookup before,
the cancellation and the lookup after. -/
def cancelSubscription (before : StripeGet) (cancellation : ProviderResult Unit)
    (after : StripeGet) (subscriptionId : Ident) : ProviderResult SubscriptionObservation :=
  match getSubscription before subscriptionId with
  | .error e => .error e
  | .ok .missing => .ok .missing
  | .ok (.current snapshot) =>
      if snapshot.status.purgeGate = .blocking then
        cancellationOutcome cancellation (getSubscription after subscriptionId)
      else .ok (.current snapshot)

/-- An observation of a subscription names that subscription. -/
theorem id_of_getSubscription {stripeGet : StripeGet} {subscriptionId : Ident}
    {snapshot : SubscriptionSnapshot}
    (h : getSubscription stripeGet subscriptionId = .ok (.current snapshot)) :
    snapshot.id = subscriptionId := by
  unfold getSubscription at h
  split at h
  · next object _ =>
      unfold subscriptionSnapshot at h
      split at h
      · next snapshot' hsnapshot =>
          cases h
          split at hsnapshot
          · next id status hid hstatus =>
              cases hsnapshot
              rw [Option.filter_eq_some_iff] at hid
              simpa using hid.2
          · cases hsnapshot
      · cases h
  · split at h <;> cases h

end Billing

end Sotto
