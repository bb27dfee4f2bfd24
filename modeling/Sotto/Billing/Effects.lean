import Sotto.Billing.Webhook

/-!
# What an event does

A processed event sets some of the billing columns of one organisation, which it names or which is
linked to its subscription. Which columns it sets is a patch that depends on the event alone. What
is done with an event depends on its receipt and on the watermark of its subscription.
-/

namespace Sotto

namespace Billing

open Core
open Server (Tier LifecycleState)

/-- The billing columns that an event sets. -/
structure Patch where
  tier : Option Tier
  customer : Option (Option Ident)
  subscription : Option (Option Ident)

def Patch.set (p : Patch) (org : Organization) : Organization :=
  { org with
    tier := p.tier.getD org.tier
    stripeCustomerId := p.customer.getD org.stripeCustomerId
    stripeSubscriptionId := p.subscription.getD org.stripeSubscriptionId }

theorem Patch.set_eq_iff {p : Patch} {org : Organization} : p.set org = org ↔
    p.tier.getD org.tier = org.tier ∧
      p.customer.getD org.stripeCustomerId = org.stripeCustomerId ∧
      p.subscription.getD org.stripeSubscriptionId = org.stripeSubscriptionId := by
  cases org
  simp [Patch.set]

/-- The database with the columns of an active organisation set. -/
def Db.patched (db : Db) (orgId : Ident) (p : Patch) : Except Error Db :=
  match db.organizations.lookup orgId with
  | none => .ok db
  | some org =>
      if org.lifecycle = .active ∧ p.set org ≠ org then
        if db.linkedElsewhere orgId org (p.set org) then .error .db
        else .ok { db with organizations := db.organizations.modify orgId p.set }
      else .ok db

section Patched

variable {db db' : Db} {orgId : Ident} {p : Patch}

theorem lookup_patched (h : db.patched orgId p = .ok db') (orgId' : Ident) :
    db'.organizations.lookup orgId' = (db.organizations.lookup orgId').map fun org =>
      if orgId' = orgId ∧ org.lifecycle = .active then p.set org else org := by
  have hkeep : ∀ {org}, db.organizations.lookup orgId = some org →
      ¬ (org.lifecycle = .active ∧ p.set org ≠ org) →
      db.organizations.lookup orgId' = (db.organizations.lookup orgId').map fun org =>
        if orgId' = orgId ∧ org.lifecycle = .active then p.set org else org := by
    intro org horg hnot
    cases horg' : db.organizations.lookup orgId' with
    | none => rfl
    | some org' =>
        rw [Option.map_some]
        split
        · next hset =>
            obtain ⟨rfl, hactive⟩ := hset
            rw [horg] at horg'
            cases horg'
            rw [not_and, not_not] at hnot
            rw [hnot hactive]
        · rfl
  unfold Db.patched at h
  split at h
  · next hnone =>
      cases h
      cases horg' : db.organizations.lookup orgId' with
      | none => rfl
      | some org' =>
          have hne : orgId' ≠ orgId := by
            rintro rfl
            rw [hnone] at horg'
            cases horg'
          simp [hne]
  · next org horg =>
      split at h
      · next hcondition =>
          split at h
          · cases h
          · cases h
            rw [Table.lookup_modify]
            split
            · next heq =>
                subst heq
                rw [horg, Option.map_some, Option.map_some, if_pos ⟨rfl, hcondition.1⟩]
            · next hne => simp [hne]
      · next hcondition =>
          cases h
          exact hkeep horg hcondition

theorem patched_eq (h : db.patched orgId p = .ok db') :
    db' = { db with organizations := db'.organizations } := by
  unfold Db.patched at h
  split at h
  · cases h
    rfl
  · split at h
    · split at h
      · cases h
      · cases h
        rfl
    · cases h
      rfl

/-- Setting columns fails only on the unique indexes. -/
theorem patched_eq_error {e : Error} (h : db.patched orgId p = .error e) :
    ∃ org, db.organizations.lookup orgId = some org ∧ org.lifecycle = .active ∧
      db.linkedElsewhere orgId org (p.set org) := by
  unfold Db.patched at h
  split at h
  · cases h
  · next org horg =>
      split at h
      · next hcondition =>
          split at h
          · next hlinked => exact ⟨org, horg, hcondition.1, hlinked⟩
          · cases h
      · cases h

/-- An update whose condition is that an active row changes. -/
theorem updateOrganization_run {condition : Organization → Bool}
    {change : Organization → Organization}
    (hcondition : ∀ org, condition org ↔ org.lifecycle = .active ∧ p.set org ≠ org)
    (hchange : change = p.set) :
    ((updateOrganization orgId condition change >>= fun _ => pure ()) : Tx Unit).run db =
      (db.patched orgId p).map fun db' => ((), db') := by
  subst hchange
  unfold updateOrganization
  rw [bind_assoc, Transaction.run_get_bind]
  unfold Db.patched
  cases horg : db.organizations.lookup orgId with
  | none => rfl
  | some org =>
      dsimp only
      by_cases hset : org.lifecycle = .active ∧ p.set org ≠ org
      · rw [if_pos ((hcondition org).2 hset), if_pos hset]
        by_cases hlinked : db.linkedElsewhere orgId org (p.set org)
        · rw [if_pos hlinked, require, if_neg (by simp [hlinked])]
          rfl
        · rw [if_neg hlinked, require, if_pos hlinked]
          rfl
      · rw [if_neg (fun h => hset ((hcondition org).1 h)), if_neg hset]
        rfl

end Patched

/-! ### Events -/

/-- What an event sets when it is applied. An update without a known status sets nothing. -/
def Event.patch (event : Event) : Option Patch :=
  match event.kind with
  | .checkoutCompleted =>
      some ⟨some .team, some event.object.customer, some event.object.subscription⟩
  | .subscriptionUpdated =>
      match event.object.status.map SubscriptionStatus.parse with
      | none | some (.unknown _) => none
      | some status => some ⟨some status.entitlementTier, none, none⟩
  | .subscriptionDeleted => some ⟨some .free, none, some none⟩
  | .other _ => none

def SubscriptionObservation.patch (observation : SubscriptionObservation) : Patch :=
  ⟨some observation.entitlement.1, none, some observation.entitlement.2⟩

/-- The organisation that an applied event is about. -/
def Event.target (event : Event) (db : Db) : Option Ident :=
  match event.kind with
  | .checkoutCompleted => event.object.clientReferenceId
  | .subscriptionUpdated | .subscriptionDeleted =>
      event.object.metadataOrgId <|> event.object.id.bind db.orgOfSubscription
  | .other _ => none

/-- The database with a patch, where there is one and an organisation for it. -/
def Db.patchedAt (db : Db) (orgId : Option Ident) (p : Option Patch) : Except Error Db :=
  match orgId, p with
  | some orgId, some p => db.patched orgId p
  | _, _ => .ok db

section Apply

variable {db db' : Db}

theorem run_map_ok {x : Except Error Db} :
    (x.map fun db' => ((), db')) = .ok ((), db') ↔ x = .ok db' := by
  cases x <;> simp [Except.map]

theorem orgForSubscription_run (object : EventObject) :
    (orgForSubscription object).run db =
      .ok ((object.metadataOrgId <|> object.id.bind db.orgOfSubscription), db) := by
  unfold orgForSubscription
  cases object.metadataOrgId with
  | some orgId => rfl
  | none => cases object.id <;> rfl

theorem applyEvent_run (db : Db) (event : Event) :
    (applyEvent event).run db =
      (db.patchedAt (event.target db) event.patch).map fun db' => ((), db') := by
  cases hkind : event.kind with
  | checkoutCompleted =>
      simp only [applyEvent, Event.target, Event.patch, hkind, checkoutCompleted]
      cases event.object.clientReferenceId with
      | none => rfl
      | some orgId =>
          refine updateOrganization_run ?_ rfl
          intro org
          simp only [decide_eq_true_eq, ne_eq, Patch.set_eq_iff, Option.getD_some]
          grind
  | subscriptionUpdated =>
      simp only [applyEvent, Event.target, Event.patch, hkind, subscriptionUpdated]
      rw [Transaction.run_bind_of_ok (orgForSubscription_run event.object)]
      cases event.object.metadataOrgId <|> event.object.id.bind db.orgOfSubscription with
      | none => rfl
      | some orgId =>
          dsimp only
          cases event.object.status.map SubscriptionStatus.parse with
          | none => rfl
          | some status =>
              cases status with
              | unknown value => rfl
              | _ =>
                  refine updateOrganization_run ?_ rfl
                  intro org
                  simp only [decide_eq_true_eq, ne_eq, Patch.set_eq_iff, Option.getD_some,
                    Option.getD_none]
                  grind
  | subscriptionDeleted =>
      simp only [applyEvent, Event.target, Event.patch, hkind, subscriptionDeleted]
      rw [Transaction.run_bind_of_ok (orgForSubscription_run event.object)]
      cases event.object.metadataOrgId <|> event.object.id.bind db.orgOfSubscription with
      | none => rfl
      | some orgId =>
          refine updateOrganization_run ?_ rfl
          intro org
          simp only [decide_eq_true_eq, ne_eq, Patch.set_eq_iff, Option.getD_some, Option.getD_none]
          grind
  | other kind =>
      simp only [applyEvent, Event.target, Event.patch, hkind]
      rfl

theorem reconcileSubscription_run (db : Db) (observation : SubscriptionObservation)
    (subscriptionId : Ident) (orgHint : Option Ident) :
    (reconcileSubscription observation subscriptionId orgHint).run db =
      (db.patchedAt (orgHint <|> db.orgOfSubscription subscriptionId) observation.patch).map
        fun db' => ((), db') := by
  unfold reconcileSubscription
  rw [Transaction.run_get_bind]
  cases orgHint <|> db.orgOfSubscription subscriptionId with
  | none => rfl
  | some orgId =>
      refine updateOrganization_run ?_ rfl
      intro org
      cases observation <;>
        simp only [decide_eq_true_eq, ne_eq, Patch.set_eq_iff, SubscriptionObservation.patch,
          SubscriptionObservation.entitlement, Option.getD_some, Option.getD_none] <;>
        grind

end Apply

/-! ### Dispositions -/

/-- Whether an event was processed already. -/
def Db.Processed (db : Db) (eventId : String) : Prop :=
  ∃ e, db.webhookEvents.lookup eventId = some e ∧ e.processedAt ≠ none

/-- Whether an event is newer than the newest one that was applied to its subscription. -/
def Event.Newer (event : Event) (w : Watermark) : Prop :=
  w.stripeCreated < event.created ∨ (w.stripeCreated = event.created ∧ w.eventId < event.id)

/-- An event that is neither known as processed nor older than the watermark. -/
def Event.IsNew (event : Event) (subscriptionId : Ident) (db : Db) : Prop :=
  ¬ db.Processed event.id ∧
    ∀ w, db.watermarks.lookup subscriptionId = some w → event.Newer w

/-- An event of the same time as the watermark. -/
def Event.Ties (event : Event) (subscriptionId : Ident) (db : Db) : Prop :=
  ∃ w, db.watermarks.lookup subscriptionId = some w ∧ w.stripeCreated = event.created

/-- The disposition of an event. -/
inductive Event.Disposed (event : Event) (subscriptionId : Ident) (db : Db) :
    EventDisposition → Prop
  | ignore : ¬ event.IsNew subscriptionId db → event.Disposed subscriptionId db .ignore
  | reconcile : event.IsNew subscriptionId db → event.Ties subscriptionId db →
      event.Disposed subscriptionId db .reconcile
  | apply : event.IsNew subscriptionId db → ¬ event.Ties subscriptionId db →
      event.Disposed subscriptionId db .apply

/-- The receipts after a request that was about an event. -/
def Receipts (event : Event) (db : Db) (events : Table String WebhookEvent) : Prop :=
  ∀ id, Db.Processed { db with webhookEvents := events } id → db.Processed id ∨ id = event.id

section Dispositions

variable {db db' : Db} {now : Int} {event : Event} {subscriptionId : Ident}

theorem processed_iff (db : Db) (event : Event) :
    ((db.webhookEvents.lookup event.id).any fun e => e.processedAt.isSome) ↔
    db.Processed event.id := by
  unfold Db.Processed
  cases db.webhookEvents.lookup event.id with
  | none => simp
  | some e => cases he : e.processedAt <;> simp [he]

theorem recordWebhookReceipt_run (now : Int) (db : Db) (hcreated : 0 ≤ event.created) :
    ∃ inserted events, (recordWebhookReceipt now event).run db =
        .ok (inserted, { db with webhookEvents := events }) ∧
      (∀ id, Db.Processed { db with webhookEvents := events } id ↔ db.Processed id) ∧
      (inserted → ¬ db.Processed event.id) := by
  unfold recordWebhookReceipt
  have hrequire : (require (0 ≤ event.created) .db).run db = .ok ((), db) :=
    require_eq_ok.2 ⟨hcreated, rfl⟩
  rw [Transaction.run_bind_of_ok hrequire, Transaction.run_get_bind]
  cases hevent : db.webhookEvents.lookup event.id with
  | some e => exact ⟨false, db.webhookEvents, rfl, fun _ => Iff.rfl, by simp⟩
  | none =>
      refine ⟨true, AList.insert event.id ⟨now, none⟩ db.webhookEvents, rfl, ?_, ?_⟩
      · intro id
        unfold Db.Processed
        rw [Table.lookup_insert]
        split
        · next h =>
            rw [h, hevent]
            simp
        · exact Iff.rfl
      · rintro - ⟨e, he, -⟩
        rw [hevent] at he
        cases he

theorem recordWebhookReceipt_error (hcreated : ¬ 0 ≤ event.created) :
    (recordWebhookReceipt now event).run db = .error .db := by
  unfold recordWebhookReceipt
  have hrequire : (require (0 ≤ event.created) .db).run db = .error .db := by
    rw [require, if_neg hcreated]
    rfl
  exact Transaction.run_bind_of_error hrequire

theorem receipts_processed {events : Table String WebhookEvent} (h : Receipts event db events) :
    Receipts event db (events.modify event.id fun e => { e with processedAt := some now }) := by
  rintro id ⟨e, he, hprocessed⟩
  dsimp only at he
  rw [Table.lookup_modify] at he
  split at he
  · next hid => exact Or.inr hid
  · exact h id ⟨e, he, hprocessed⟩

/-- What is done with an event about a subscription. -/
theorem recordWebhookEvent_run (now : Int) (db : Db)
    (hsubscription : event.subscriptionId = some subscriptionId) (hcreated : 0 ≤ event.created) :
    ∃ disposition events,
      (recordWebhookEvent now event).run db =
        .ok (disposition, { db with webhookEvents := events }) ∧
      Receipts event db events ∧ event.Disposed subscriptionId db disposition := by
  obtain ⟨inserted, events, hrun, hsame, hinserted⟩ :=
    recordWebhookReceipt_run now db hcreated
  have hreceipts : Receipts event db events := fun id h => Or.inl ((hsame id).1 h)
  unfold recordWebhookEvent
  rw [Transaction.run_bind_of_ok hrun, Transaction.run_get_bind]
  have hprocessed : (¬ inserted = true ∧ (events.lookup event.id).any
      (fun e => e.processedAt.isSome) = true) ↔ db.Processed event.id := by
    rw [← hsame event.id]
    constructor
    · rintro ⟨-, h⟩
      exact (processed_iff { db with webhookEvents := events } event).1 h
    · intro h
      exact ⟨fun hi => hinserted hi ((hsame event.id).1 h),
        (processed_iff { db with webhookEvents := events } event).2 h⟩
  by_cases hknown : db.Processed event.id
  · rw [if_pos (hprocessed.2 hknown)]
    exact ⟨.ignore, events, rfl, hreceipts, .ignore fun h => h.1 hknown⟩
  · rw [if_neg fun h => hknown (hprocessed.1 h), hsubscription]
    dsimp only
    cases hw : db.watermarks.lookup subscriptionId with
    | none =>
        refine ⟨.apply, events, rfl, hreceipts, .apply ⟨hknown, ?_⟩ ?_⟩
        · intro w h
          rw [hw] at h
          cases h
        · rintro ⟨w, h, -⟩
          rw [hw] at h
          cases h
    | some w =>
        have hnewer : (event.created < w.stripeCreated ∨
            (event.created = w.stripeCreated ∧ event.id ≤ w.eventId)) ↔ ¬ event.Newer w := by
          unfold Event.Newer
          rw [← not_lt]
          grind
        dsimp only
        by_cases holder : event.Newer w
        · have hnew : event.IsNew subscriptionId db := by
            refine ⟨hknown, ?_⟩
            intro w' h
            rw [hw] at h
            cases h
            exact holder
          rw [if_neg fun h => hnewer.1 h holder]
          by_cases hties : event.created = w.stripeCreated
          · rw [if_pos hties]
            exact ⟨.reconcile, events, rfl, hreceipts, .reconcile hnew ⟨w, hw, hties.symm⟩⟩
          · rw [if_neg hties]
            refine ⟨.apply, events, rfl, hreceipts, .apply hnew ?_⟩
            rintro ⟨w', h, htie⟩
            rw [hw] at h
            cases h
            exact hties htie.symm
        · rw [if_pos (hnewer.2 holder)]
          refine ⟨.ignore, _, rfl, receipts_processed hreceipts, .ignore ?_⟩
          exact fun h => holder (h.2 w hw)

end Dispositions

/-! ### Requests -/

/-- What a request about an accepted event of a subscription does to the database. -/
inductive Event.Handled (textGt : String → String → Bool) (now : Int) (stripeGet : StripeGet)
    (event : Event) (subscriptionId : Ident) (db : Db) : Db → Prop
  | malformed : event.created < 0 → event.Handled textGt now stripeGet subscriptionId db db
  | ignored {events} : 0 ≤ event.created → ¬ event.IsNew subscriptionId (db.pruned now) →
      Receipts event db events →
      event.Handled textGt now stripeGet subscriptionId db { db with webhookEvents := events }
  | applied {events db₁} : 0 ≤ event.created → event.IsNew subscriptionId (db.pruned now) →
      ¬ event.Ties subscriptionId db → db.patchedAt (event.target db) event.patch = .ok db₁ →
      Receipts event db events →
      event.Handled textGt now stripeGet subscriptionId db
        { db₁ with
          watermarks := advanced textGt event subscriptionId db.watermarks
          webhookEvents := events }
  | notApplied {e} : event.IsNew subscriptionId (db.pruned now) → ¬ event.Ties subscriptionId db →
      db.patchedAt (event.target db) event.patch = .error e →
      event.Handled textGt now stripeGet subscriptionId db db
  | reconciled {observation events db₁} : 0 ≤ event.created →
      event.IsNew subscriptionId (db.pruned now) → event.Ties subscriptionId db →
      getSubscription stripeGet subscriptionId = .ok observation →
      db.patchedAt (event.orgHint <|> db.orgOfSubscription subscriptionId)
        (some observation.patch) = .ok db₁ →
      Receipts event db events →
      event.Handled textGt now stripeGet subscriptionId db
        { db₁ with
          watermarks := advanced textGt event subscriptionId db.watermarks
          webhookEvents := events }
  | notObserved {e} : event.IsNew subscriptionId (db.pruned now) → event.Ties subscriptionId db →
      getSubscription stripeGet subscriptionId = .error e →
      event.Handled textGt now stripeGet subscriptionId db db
  | notReconciled {observation e} : event.IsNew subscriptionId (db.pruned now) →
      event.Ties subscriptionId db →
      getSubscription stripeGet subscriptionId = .ok observation →
      db.patchedAt (event.orgHint <|> db.orgOfSubscription subscriptionId)
        (some observation.patch) = .error e →
      event.Handled textGt now stripeGet subscriptionId db db

section Requests

variable {textGt : String → String → Bool} {db : Db} {now : Int} {stripeGet : StripeGet}
  {event : Event} {subscriptionId : Ident} {events : Table String WebhookEvent}

theorem patchedAt_webhookEvents {orgId : Option Ident} {p : Option Patch} :
    Db.patchedAt { db with webhookEvents := events } orgId p =
      (db.patchedAt orgId p).map fun db' => { db' with webhookEvents := events } := by
  unfold Db.patchedAt
  cases orgId with
  | none => rfl
  | some orgId =>
      cases p with
      | none => rfl
      | some p =>
          simp only [Db.patched]
          split
          · rfl
          · split
            · split
              · next h =>
                  have h : db.linkedElsewhere _ _ _ = true := h
                  rw [if_pos h]
                  rfl
              · next h =>
                  have h : ¬ db.linkedElsewhere _ _ _ = true := h
                  rw [if_neg h]
                  rfl
            · rfl

theorem patchedAt_eq {orgId : Option Ident} {p : Option Patch} {db' : Db}
    (h : db.patchedAt orgId p = .ok db') :
    db' = { db with organizations := db'.organizations } := by
  unfold Db.patchedAt at h
  split at h
  · exact patched_eq h
  · cases h
    rfl

theorem processed_of_pruned {id : String} (h : (db.pruned now).Processed id) : db.Processed id := by
  obtain ⟨e, he, hprocessed⟩ := h
  refine ⟨e, ?_, hprocessed⟩
  simp only [Db.pruned, Table.lookup_filterRows, Option.filter_eq_some_iff] at he
  exact he.1

theorem receipts_of_pruned (h : Receipts event (db.pruned now) events) :
    Receipts event db events :=
  fun id hid => (h id hid).imp_left processed_of_pruned

theorem webhook_of_accepted (haccepted : webhookVersionAccepted event.apiVersion) :
    webhook textGt now stripeGet event db =
      (processEvent textGt now stripeGet event).commit db := by
  rw [webhook, if_pos haccepted]

theorem processEvent_error (hcreated : ¬ 0 ≤ event.created) :
    (processEvent textGt now stripeGet event).run db = .error .db := by
  have hrecord : (recordWebhookEvent now event).run (db.pruned now) = .error .db :=
    Transaction.run_bind_of_error (recordWebhookReceipt_error hcreated)
  have hrun : (processEvent textGt now stripeGet event).run db =
      (recordWebhookEvent now event >>= disposeEvent textGt now stripeGet event).run
        (db.pruned now) := rfl
  rw [hrun]
  exact Transaction.run_bind_of_error hrecord

/-- Recording that an event was processed, once its effect is there. -/
theorem recordProcessed_run (db₁ : Db) :
    (do updateSubscriptionWatermark textGt event subscriptionId
        markWebhookEventProcessed now event.id : Tx Unit).run
      { db₁ with webhookEvents := events } = .ok ((), { db₁ with
        watermarks := advanced textGt event subscriptionId db₁.watermarks
        webhookEvents := events.modify event.id fun e => { e with processedAt := some now } }) :=
  rfl

/-- What a request about an accepted event of a subscription does. -/
theorem webhook_handled (textGt : String → String → Bool) (now : Int) (stripeGet : StripeGet)
    (db : Db) (haccepted : webhookVersionAccepted event.apiVersion)
    (hsubscription : event.subscriptionId = some subscriptionId) :
    event.Handled textGt now stripeGet subscriptionId db
      (webhook textGt now stripeGet event db).2 := by
  rw [webhook_of_accepted haccepted]
  by_cases hcreated : 0 ≤ event.created
  · obtain ⟨disposition, events, hrecord, hreceipts, hdisposed⟩ :=
      recordWebhookEvent_run now (db.pruned now) hsubscription hcreated
    replace hreceipts := receipts_of_pruned hreceipts
    have hrun : (processEvent textGt now stripeGet event).run db =
        (disposeEvent textGt now stripeGet event disposition).run
          { db with webhookEvents := events } :=
      Transaction.run_bind_of_ok hrecord
    cases hdisposed with
    | ignore hold =>
        rw [Transaction.commit_of_ok (hrun.trans rfl)]
        exact .ignored hcreated hold hreceipts
    | reconcile hnew hties =>
        simp only [disposeEvent, hsubscription] at hrun
        cases hobservation : getSubscription stripeGet subscriptionId with
        | error e =>
            rw [hobservation] at hrun
            rw [Transaction.commit_of_error (hrun.trans rfl)]
            exact .notObserved hnew hties hobservation
        | ok observation =>
            rw [hobservation] at hrun
            dsimp only at hrun
            have hpatch := reconcileSubscription_run { db with webhookEvents := events }
              observation subscriptionId event.orgHint
            rw [patchedAt_webhookEvents] at hpatch
            cases hpatched : db.patchedAt (event.orgHint <|> db.orgOfSubscription subscriptionId)
                (some observation.patch) with
            | error e =>
                have hpatch : (reconcileSubscription observation subscriptionId event.orgHint).run
                    { db with webhookEvents := events } = .error e := by
                  refine hpatch.trans ?_
                  change Except.map _ (Except.map _ (db.patchedAt
                    (event.orgHint <|> db.orgOfSubscription subscriptionId) _)) = _
                  rw [hpatched]
                  rfl
                rw [Transaction.commit_of_error
                  (hrun.trans (Transaction.run_bind_of_error hpatch))]
                exact .notReconciled hnew hties hobservation hpatched
            | ok db₁ =>
                have hpatch : (reconcileSubscription observation subscriptionId event.orgHint).run
                    { db with webhookEvents := events } =
                      .ok ((), { db₁ with webhookEvents := events }) := by
                  refine hpatch.trans ?_
                  change Except.map _ (Except.map _ (db.patchedAt
                    (event.orgHint <|> db.orgOfSubscription subscriptionId) _)) = _
                  rw [hpatched]
                  rfl
                have hwatermarks : db₁.watermarks = db.watermarks := by
                  rw [patchedAt_eq hpatched]
                rw [Transaction.commit_of_ok (hrun.trans ((Transaction.run_bind_of_ok hpatch).trans
                  (recordProcessed_run db₁))), hwatermarks]
                exact .reconciled hcreated hnew hties hobservation hpatched
                  (receipts_processed hreceipts)
    | apply hnew hties =>
        have hpatch := applyEvent_run { db with webhookEvents := events } event
        rw [patchedAt_webhookEvents] at hpatch
        simp only [disposeEvent, hsubscription] at hrun
        cases hpatched : db.patchedAt (event.target db) event.patch with
        | error e =>
            have hpatch : (applyEvent event).run { db with webhookEvents := events } =
                .error e := by
              refine hpatch.trans ?_
              change Except.map _ (Except.map _ (db.patchedAt (event.target db) _)) = _
              rw [hpatched]
              rfl
            rw [Transaction.commit_of_error (hrun.trans (Transaction.run_bind_of_error hpatch))]
            exact .notApplied hnew hties hpatched
        | ok db₁ =>
            have hpatch : (applyEvent event).run { db with webhookEvents := events } =
                .ok ((), { db₁ with webhookEvents := events }) := by
              refine hpatch.trans ?_
              change Except.map _ (Except.map _ (db.patchedAt (event.target db) _)) = _
              rw [hpatched]
              rfl
            have hwatermarks : db₁.watermarks = db.watermarks := by
              rw [patchedAt_eq hpatched]
            rw [Transaction.commit_of_ok (hrun.trans ((Transaction.run_bind_of_ok hpatch).trans
              (recordProcessed_run db₁))), hwatermarks]
            exact .applied hcreated hnew hties hpatched (receipts_processed hreceipts)
  · rw [Transaction.commit_of_error (processEvent_error hcreated)]
    exact .malformed (by omega)

end Requests

end Billing

end Sotto
