import Sotto.Billing.Db
import Mathlib.Data.String.Basic

/-!
# Webhooks

The handler of the provider's events. Events are delivered at least once and in any order: the
receipt of an event recognises its redelivery, and a watermark of each subscription is the newest
event that was applied to it. A request is one transaction; the audit log and the metrics are left
out.
-/

namespace Sotto

namespace Billing

open Core
open Server (Tier LifecycleState)

/-- The API versions of events that are accepted. -/
def acceptedWebhookApiVersions : List String :=
  ["2026-06-24.dahlia", "2026-07-29.dahlia", "2026-08-26.dahlia"]

def webhookVersionAccepted (version : Option String) : Bool :=
  version.any fun v => acceptedWebhookApiVersions.contains v

inductive EventKind
  | checkoutCompleted
  | subscriptionUpdated
  | subscriptionDeleted
  | other (kind : String)
deriving DecidableEq

/-- The fields of an event's object that are read, each where it is a text. -/
structure EventObject where
  id : Option Ident
  clientReferenceId : Option Ident
  customer : Option Ident
  subscription : Option Ident
  status : Option String
  metadataOrgId : Option Ident
deriving DecidableEq

structure Event where
  id : String
  created : Int
  apiVersion : Option String
  kind : EventKind
  object : EventObject
deriving DecidableEq

namespace Event

def subscriptionId (event : Event) : Option Ident :=
  match event.kind with
  | .checkoutCompleted => event.object.subscription
  | .subscriptionUpdated | .subscriptionDeleted => event.object.id
  | .other _ => none

def orgHint (event : Event) : Option Ident :=
  match event.kind with
  | .checkoutCompleted => event.object.clientReferenceId
  | .subscriptionUpdated | .subscriptionDeleted => event.object.metadataOrgId
  | .other _ => none

end Event

inductive EventDisposition
  | apply
  | reconcile
  | ignore
deriving DecidableEq

/-! ### The handler

The order of texts in the database is that of its collation. -/

section Handler

variable (textGt : String → String → Bool)

def WebhookEvent.isExpired (now : Int) (e : WebhookEvent) : Bool :=
  match e.processedAt with
  | some processedAt => processedAt < now - 30 * 86400
  | none => e.receivedAt < now - 86400

/-- The receipts that may be removed, at most so many in one request. -/
def pruneCandidates (now : Int) (db : Db) : List String :=
  let expired := db.webhookEvents.rows.filter fun e =>
    e.2.isExpired now && !(db.watermarks.rows.any fun w => w.2.eventId = e.1)
  ((expired.mergeSort fun e e' => e.2.receivedAt ≤ e'.2.receivedAt).take 500).map (·.1)

def Db.pruned (now : Int) (db : Db) : Db :=
  { db with webhookEvents := db.webhookEvents.filterRows fun id _ => id ∉ pruneCandidates now db }

def pruneWebhookEvents (now : Int) : Tx Unit := modify (Db.pruned now)

/-- Record the receipt of an event. Returns whether it is the first one. -/
def recordWebhookReceipt (now : Int) (event : Event) : Tx Bool := do
  require (0 ≤ event.created) .db
  let db ← get
  match db.webhookEvents.lookup event.id with
  | some _ => pure false
  | none =>
      set { db with webhookEvents := AList.insert event.id ⟨now, none⟩ db.webhookEvents }
      pure true

def markWebhookEventProcessed (now : Int) (eventId : String) : Tx Unit :=
  modify fun db => { db with
    webhookEvents := db.webhookEvents.modify eventId fun e => { e with processedAt := some now } }

def recordWebhookEvent (now : Int) (event : Event) : Tx EventDisposition := do
  let inserted ← recordWebhookReceipt now event
  let db ← get
  let processed := (db.webhookEvents.lookup event.id).any fun e => e.processedAt.isSome
  if ¬ inserted ∧ processed then pure .ignore
  else
    match event.subscriptionId with
    | none => pure .apply
    | some subscriptionId =>
        match db.watermarks.lookup subscriptionId with
        | none => pure .apply
        | some w =>
            if event.created < w.stripeCreated ∨
                (event.created = w.stripeCreated ∧ event.id ≤ w.eventId) then do
              markWebhookEventProcessed now event.id
              pure .ignore
            else if event.created = w.stripeCreated then pure .reconcile
            else pure .apply

/-- The watermark of a subscription moves to a newer event. -/
def advanced (event : Event) (subscriptionId : Ident) (watermarks : Table Ident Watermark) :
    Table Ident Watermark :=
  match watermarks.lookup subscriptionId with
  | none => AList.insert subscriptionId ⟨event.created, event.id⟩ watermarks
  | some w =>
      if event.created > w.stripeCreated ∨
          (event.created = w.stripeCreated ∧ textGt event.id w.eventId) then
        watermarks.modify subscriptionId fun _ => ⟨event.created, event.id⟩
      else watermarks

def updateSubscriptionWatermark (event : Event) (subscriptionId : Ident) : Tx Unit :=
  modify fun db => { db with watermarks := advanced textGt event subscriptionId db.watermarks }

/-- A paid checkout: record the provider's ids and grant the Team tier. -/
def checkoutCompleted (object : EventObject) : Tx Unit := do
  match object.clientReferenceId with
  | none => pure ()
  | some orgId =>
      let _ ← updateOrganization orgId
        (fun org => org.lifecycle = .active ∧ (org.tier ≠ .team ∨
          org.stripeCustomerId ≠ object.customer ∨
          org.stripeSubscriptionId ≠ object.subscription))
        fun org => { org with
          tier := .team
          stripeCustomerId := object.customer
          stripeSubscriptionId := object.subscription }

/-- The organisation of a subscription event. -/
def orgForSubscription (object : EventObject) : Tx (Option Ident) := do
  match object.metadataOrgId with
  | some orgId => pure (some orgId)
  | none =>
      match object.id with
      | none => pure none
      | some subscriptionId => do
          let db ← get
          pure (db.orgOfSubscription subscriptionId)

/-- A subscription lifecycle change: the status decides the tier. -/
def subscriptionUpdated (object : EventObject) : Tx Unit := do
  match ← orgForSubscription object with
  | none => pure ()
  | some orgId =>
      match object.status.map SubscriptionStatus.parse with
      | none => pure ()
      | some (.unknown _) => pure ()
      | some status => do
          let _ ← updateOrganization orgId
            (fun org => org.lifecycle = .active ∧ org.tier ≠ status.entitlementTier)
            fun org => { org with tier := status.entitlementTier }

/-- The subscription ended: back to the free tier. -/
def subscriptionDeleted (object : EventObject) : Tx Unit := do
  match ← orgForSubscription object with
  | none => pure ()
  | some orgId =>
      let _ ← updateOrganization orgId
        (fun org => org.lifecycle = .active ∧
          (org.tier ≠ .free ∨ org.stripeSubscriptionId ≠ none))
        fun org => { org with tier := .free, stripeSubscriptionId := none }

/-- What an observation makes of an organisation's tier and subscription. -/
def SubscriptionObservation.entitlement : SubscriptionObservation → Tier × Option Ident
  | current snapshot => (snapshot.status.entitlementTier, some snapshot.id)
  | missing => (.free, none)

/-- Events of one time are reconciled against the provider's current object. -/
def reconcileSubscription (observation : SubscriptionObservation) (subscriptionId : Ident)
    (orgHint : Option Ident) : Tx Unit := do
  let db ← get
  match orgHint <|> db.orgOfSubscription subscriptionId with
  | none => pure ()
  | some orgId =>
      let (tier, linkedSubscription) := observation.entitlement
      let _ ← updateOrganization orgId
        (fun org => org.lifecycle = .active ∧
          (org.tier ≠ tier ∨ org.stripeSubscriptionId ≠ linkedSubscription))
        fun org => { org with tier := tier, stripeSubscriptionId := linkedSubscription }

/-- Apply the payload of an event that is newer than the watermark. -/
def applyEvent (event : Event) : Tx Unit :=
  match event.kind with
  | .checkoutCompleted => checkoutCompleted event.object
  | .subscriptionUpdated => subscriptionUpdated event.object
  | .subscriptionDeleted => subscriptionDeleted event.object
  | .other _ => pure ()

/-- Reconcile or apply an event, and record that it was processed. -/
def disposeEvent (now : Int) (stripeGet : StripeGet) (event : Event) : EventDisposition → Tx Unit
  | .ignore => pure ()
  | .reconcile =>
      match event.subscriptionId with
      | none => throw (.config "stripe reconciliation event has no subscription id")
      | some subscriptionId =>
          match getSubscription stripeGet subscriptionId with
          | .error e => throw e.intoError
          | .ok observation => do
              reconcileSubscription observation subscriptionId event.orgHint
              updateSubscriptionWatermark textGt event subscriptionId
              markWebhookEventProcessed now event.id
  | .apply => do
      applyEvent event
      match event.subscriptionId with
      | none => pure ()
      | some subscriptionId => updateSubscriptionWatermark textGt event subscriptionId
      markWebhookEventProcessed now event.id

/-- Process an accepted event. -/
def processEvent (now : Int) (stripeGet : StripeGet) (event : Event) : Tx Unit := do
  pruneWebhookEvents now
  let disposition ← recordWebhookEvent now event
  disposeEvent textGt now stripeGet event disposition

/-- `POST /billing/webhook`, once the signature is verified. An event of another API version is
recorded but left pending, and the request fails, so that it is delivered again. -/
def webhook (now : Int) (stripeGet : StripeGet) (event : Event) (db : Db) :
    Except Error Unit × Db :=
  if webhookVersionAccepted event.apiVersion then
    Transaction.commit (processEvent textGt now stripeGet event) db
  else
    let refused : Tx Bool := do
      pruneWebhookEvents now
      recordWebhookReceipt now event
    match refused.commit db with
    | (.ok _, db') => (.error .internal, db')
    | (.error e, db') => (.error e, db')

end Handler

end Billing

end Sotto
