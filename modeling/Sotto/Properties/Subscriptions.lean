import Sotto.Billing.Effects

/-!
# Events of one subscription and organisations with another

An event names its organisation by the id that the checkout stamped on its subscription, and no
handler checks that the organisation is still linked to that subscription. So an event of an old
subscription changes an organisation that has another one, and this is the only way it does.
-/

namespace Sotto

namespace Billing

open Core
open Server (Tier LifecycleState)

/-- A delivery of an event, with what the provider answers meanwhile. -/
structure Delivery where
  now : Int
  stripeGet : StripeGet
  event : Event

section Deliveries

variable (textGt : String → String → Bool)

/-- The database after a delivery. -/
def Delivery.after (d : Delivery) (db : Db) : Db :=
  (webhook textGt d.now d.stripeGet d.event db).2

/-- The database after deliveries. -/
def delivered (ds : List Delivery) (db : Db) : Db :=
  ds.foldl (fun db d => d.after textGt db) db

end Deliveries

/-- A subscription that an event updates, deletes or reconciles. -/
def Event.IsAbout (event : Event) (subscriptionId : Ident) (db : Db) : Prop :=
  event.subscriptionId = some subscriptionId ∧
    (event.kind = .checkoutCompleted → event.Ties subscriptionId db)

/-- Organisations that are linked to another subscription keep their billing columns. -/
def KeepsOthers (subscriptionId : Ident) (db db' : Db) : Prop :=
  ∀ orgId org other, db.organizations.lookup orgId = some org →
    org.stripeSubscriptionId = some other → other ≠ subscriptionId →
    ∃ org', db'.organizations.lookup orgId = some org' ∧ org'.tier = org.tier ∧
      org'.stripeCustomerId = org.stripeCustomerId ∧
      org'.stripeSubscriptionId = org.stripeSubscriptionId

/-- An event sets columns of an organisation, by its payload or by the provider's state. -/
def Delivery.Sets (d : Delivery) (subscriptionId orgId : Ident) (org : Organization) (db : Db) :
    Prop :=
  (¬ d.event.Ties subscriptionId db ∧ ∃ p, d.event.patch = some p ∧ p.set org ≠ org) ∨
    (d.event.Ties subscriptionId db ∧
      ∃ observation, getSubscription d.stripeGet subscriptionId = .ok observation ∧
        ¬ db.linkedElsewhere orgId org (observation.patch.set org))

/-- A delivery crosses over: its event is new, names an active organisation that is linked to
another subscription, and sets its columns. -/
structure Delivery.Crosses (d : Delivery) (subscriptionId : Ident) (db : Db) : Prop where
  accepted : webhookVersionAccepted d.event.apiVersion
  created : 0 ≤ d.event.created
  isNew : d.event.IsNew subscriptionId (db.pruned d.now)
  names : ∃ orgId org other, d.event.orgHint = some orgId ∧
    db.organizations.lookup orgId = some org ∧ org.lifecycle = .active ∧
    org.stripeSubscriptionId = some other ∧ other ≠ subscriptionId ∧
    d.Sets subscriptionId orgId org db

section Step

variable {textGt : String → String → Bool} {db db' : Db} {d : Delivery}
  {subscriptionId : Ident} {event : Event}

/-- An event of another API version leaves a receipt at most. -/
theorem after_of_refused (textGt : String → String → Bool) (db : Db)
    (h : ¬ webhookVersionAccepted d.event.apiVersion) :
    ∃ events, d.after textGt db = { db with webhookEvents := events } ∧
      ∀ id, (d.after textGt db).Processed id → db.Processed id := by
  unfold Delivery.after webhook
  rw [if_neg h]
  by_cases hcreated : 0 ≤ d.event.created
  · obtain ⟨inserted, events, hrun, hsame, -⟩ :=
      recordWebhookReceipt_run d.now (db.pruned d.now) hcreated
    have hcommit : (do pruneWebhookEvents d.now; recordWebhookReceipt d.now d.event : Tx Bool).commit
        db = (.ok inserted, { db with webhookEvents := events }) :=
      Transaction.commit_of_ok hrun
    dsimp only
    rw [hcommit]
    exact ⟨events, rfl, fun id hid => processed_of_pruned ((hsame id).1 hid)⟩
  · have hrun : (do pruneWebhookEvents d.now; recordWebhookReceipt d.now d.event : Tx Bool).run
        db = .error .db := recordWebhookReceipt_error hcreated
    dsimp only
    rw [Transaction.commit_of_error hrun]
    exact ⟨db.webhookEvents, rfl, fun _ => id⟩

theorem organizations_of_refused (h : ¬ webhookVersionAccepted d.event.apiVersion) :
    (d.after textGt db).organizations = db.organizations := by
  obtain ⟨events, hafter, -⟩ := after_of_refused textGt db h
  rw [hafter]

theorem keepsOthers_of_organizations (h : db'.organizations = db.organizations) :
    KeepsOthers subscriptionId db db' :=
  fun _ org _ horg _ _ => ⟨org, by rw [h, horg], rfl, rfl, rfl⟩

theorem subscription_of_orgOfSubscription {orgId : Ident}
    (h : db.orgOfSubscription subscriptionId = some orgId) :
    ∃ org, db.organizations.lookup orgId = some org ∧
      org.stripeSubscriptionId = some subscriptionId := by
  unfold Db.orgOfSubscription at h
  rw [Option.map_eq_some_iff] at h
  obtain ⟨⟨_, org⟩, hfind, rfl⟩ := h
  have hlinked := List.find?_some hfind
  exact ⟨org, Table.mem_rows.1 (List.mem_of_find?_eq_some hfind), by simpa using hlinked⟩

/-- An event of a subscription without a hint finds only the organisation that has it. -/
theorem linked_of_target {orgId other : Ident} {org : Organization} {hint : Option Ident}
    (h : (hint <|> db.orgOfSubscription subscriptionId) = some orgId)
    (horg : db.organizations.lookup orgId = some org)
    (hother : org.stripeSubscriptionId = some other) (hne : other ≠ subscriptionId) :
    hint = some orgId := by
  cases hint with
  | some hinted => simpa using h
  | none =>
      obtain ⟨org', horg', hlinked⟩ := subscription_of_orgOfSubscription h
      rw [horg] at horg'
      cases horg'
      rw [hother] at hlinked
      cases hlinked
      exact absurd rfl hne

theorem target_eq (h : event.IsAbout subscriptionId db) (hties : ¬ event.Ties subscriptionId db) :
    event.target db = (event.orgHint <|> db.orgOfSubscription subscriptionId) ∨
      event.patch = none := by
  obtain ⟨hsubscription, hcheckout⟩ := h
  unfold Event.subscriptionId at hsubscription
  unfold Event.target Event.orgHint Event.patch
  cases hkind : event.kind with
  | checkoutCompleted => exact absurd (hcheckout hkind) hties
  | subscriptionUpdated =>
      simp only [hkind] at hsubscription
      simp only [hsubscription, Option.bind_some, true_or]
  | subscriptionDeleted =>
      simp only [hkind] at hsubscription
      simp only [hsubscription, Option.bind_some, true_or]
  | other kind => simp

/-- Events other than a checkout link nothing. -/
theorem not_linkedElsewhere {orgId : Ident} {org : Organization} {p : Patch}
    (hkind : event.kind ≠ .checkoutCompleted) (hp : event.patch = some p) :
    ¬ db.linkedElsewhere orgId org (p.set org) := by
  unfold Event.patch at hp
  have hids : (p.set org).stripeCustomerId = org.stripeCustomerId ∧
      ((p.set org).stripeSubscriptionId = org.stripeSubscriptionId ∨
        (p.set org).stripeSubscriptionId = none) := by
    cases hk : event.kind with
    | checkoutCompleted => exact absurd hk hkind
    | subscriptionUpdated =>
        simp only [hk] at hp
        split at hp
        · cases hp
        · cases hp
        · cases hp
          exact ⟨rfl, Or.inl rfl⟩
    | subscriptionDeleted =>
        simp only [hk] at hp
        cases hp
        exact ⟨rfl, Or.inr rfl⟩
    | other kind =>
        simp only [hk] at hp
        cases hp
  simp only [Db.linkedElsewhere, List.any_eq_true, not_exists, decide_eq_true_eq]
  grind

/-- Setting the columns of an organisation that is linked to another subscription either leaves
them, or the organisation is named and its columns differ. -/
theorem keepsOthers_of_patchedAt {hint : Option Ident} {p : Option Patch} {db₁ : Db}
    (hpatched : db.patchedAt (hint <|> db.orgOfSubscription subscriptionId) p = .ok db₁)
    (horganizations : db'.organizations = db₁.organizations)
    (hkeep : ∀ orgId org other p', hint = some orgId → p = some p' →
      db.organizations.lookup orgId = some org → org.lifecycle = .active →
      org.stripeSubscriptionId = some other → other ≠ subscriptionId →
      p'.set org = org) : KeepsOthers subscriptionId db db' := by
  unfold Db.patchedAt at hpatched
  split at hpatched
  · next orgId p' htarget =>
      intro orgId' org other horg hother hne
      rw [horganizations, lookup_patched hpatched, horg, Option.map_some]
      split
      · next hset =>
          obtain ⟨rfl, hactive⟩ := hset
          have hhint := linked_of_target htarget horg hother hne
          rw [hkeep _ org other p' hhint rfl horg hactive hother hne]
          exact ⟨org, rfl, rfl, rfl, rfl⟩
      · exact ⟨org, rfl, rfl, rfl, rfl⟩
  · cases hpatched
    exact keepsOthers_of_organizations horganizations

/-- A named organisation whose columns a patch changes does not keep them. -/
theorem not_keepsOthers {orgId other : Ident} {org : Organization} {p : Patch} {db₁ : Db}
    {target : Option Ident} (htarget : target = some orgId)
    (hpatched : db.patchedAt target (some p) = .ok db₁)
    (horganizations : db'.organizations = db₁.organizations)
    (horg : db.organizations.lookup orgId = some org) (hactive : org.lifecycle = .active)
    (hother : org.stripeSubscriptionId = some other) (hne : other ≠ subscriptionId)
    (hset : p.set org ≠ org) : ¬ KeepsOthers subscriptionId db db' := by
  subst htarget
  intro hkeeps
  obtain ⟨org', horg', htier, hcustomer, hsubscription⟩ := hkeeps orgId org other horg hother hne
  rw [horganizations, lookup_patched hpatched, horg, Option.map_some,
    if_pos ⟨rfl, hactive⟩] at horg'
  cases horg'
  exact hset (Patch.set_eq_iff.2 ⟨htier, hcustomer, hsubscription⟩)

/-- An observation of one subscription changes an organisation that has another. -/
theorem observation_set_ne {observation : SubscriptionObservation} {org : Organization}
    {other : Ident} (hobservation : getSubscription d.stripeGet subscriptionId = .ok observation)
    (hother : org.stripeSubscriptionId = some other) (hne : other ≠ subscriptionId) :
    observation.patch.set org ≠ org := by
  intro hset
  have hsubscription := (Patch.set_eq_iff.1 hset).2.2
  rw [hother] at hsubscription
  cases observation with
  | missing => simp [SubscriptionObservation.patch, SubscriptionObservation.entitlement]
      at hsubscription
  | current snapshot =>
      have hid := id_of_getSubscription hobservation
      simp only [SubscriptionObservation.patch, SubscriptionObservation.entitlement,
        Option.getD_some, Option.some.injEq] at hsubscription
      exact hne (hsubscription.symm.trans hid)

theorem keepsOthers_of_not_crosses (habout : d.event.IsAbout subscriptionId db)
    (h : ¬ d.Crosses subscriptionId db) : KeepsOthers subscriptionId db (d.after textGt db) := by
  by_cases haccepted : webhookVersionAccepted d.event.apiVersion
  · have hhandled := webhook_handled textGt d.now d.stripeGet db haccepted habout.1
    unfold Delivery.after
    generalize (webhook textGt d.now d.stripeGet d.event db).2 = db' at hhandled
    cases hhandled with
    | malformed => exact keepsOthers_of_organizations rfl
    | ignored => exact keepsOthers_of_organizations rfl
    | notApplied => exact keepsOthers_of_organizations rfl
    | notObserved => exact keepsOthers_of_organizations rfl
    | notReconciled => exact keepsOthers_of_organizations rfl
    | applied hcreated hnew hties hpatched =>
        rcases target_eq habout hties with htarget | hnone
        · rw [htarget] at hpatched
          refine keepsOthers_of_patchedAt hpatched rfl ?_
          intro orgId org other p hhint hp horg hactive hother hne
          by_contra hset
          exact h ⟨haccepted, hcreated, hnew, orgId, org, other, hhint, horg, hactive, hother, hne,
            Or.inl ⟨hties, p, hp, hset⟩⟩
        · rw [hnone] at hpatched
          have hsame : db.patchedAt (d.event.target db) none = .ok db := by
            unfold Db.patchedAt
            split <;> simp_all
          rw [hsame] at hpatched
          cases hpatched
          exact keepsOthers_of_organizations rfl
    | reconciled hcreated hnew hties hobservation hpatched =>
        refine keepsOthers_of_patchedAt hpatched rfl ?_
        intro orgId org other p hhint hp horg hactive hother hne
        cases hp
        by_contra hset
        refine h ⟨haccepted, hcreated, hnew, orgId, org, other, hhint, horg, hactive, hother, hne,
          Or.inr ⟨hties, _, hobservation, ?_⟩⟩
        intro hlinked
        rw [hhint] at hpatched
        simp [Db.patchedAt, Db.patched, horg, hactive, hset, hlinked] at hpatched
  · exact keepsOthers_of_organizations (organizations_of_refused haccepted)

theorem not_keepsOthers_of_crosses (textGt : String → String → Bool)
    (habout : d.event.IsAbout subscriptionId db)
    (h : d.Crosses subscriptionId db) : ¬ KeepsOthers subscriptionId db (d.after textGt db) := by
  obtain ⟨haccepted, hcreated, hnew, orgId, org, other, hhint, horg, hactive, hother, hne, hsets⟩ :=
    h
  have hhandled := webhook_handled textGt d.now d.stripeGet db haccepted habout.1
  unfold Delivery.after
  generalize (webhook textGt d.now d.stripeGet d.event db).2 = db' at hhandled
  have hnamed : (d.event.orgHint <|> db.orgOfSubscription subscriptionId) = some orgId := by
    rw [hhint]
    rfl
  rcases hsets with ⟨hnot, p, hp, hset⟩ | ⟨hties, observation, hobservation, hunlinked⟩
  · have htarget : d.event.target db = some orgId := by
      rcases target_eq habout hnot with htarget | hnone
      · exact htarget.trans hnamed
      · rw [hp] at hnone
        cases hnone
    have hkind : d.event.kind ≠ .checkoutCompleted := fun hk => hnot (habout.2 hk)
    cases hhandled with
    | malformed hnegative => omega
    | ignored _ hold => exact absurd hnew hold
    | notObserved _ hties => exact absurd hties hnot
    | notReconciled _ hties => exact absurd hties hnot
    | reconciled _ _ hties => exact absurd hties hnot
    | notApplied _ _ herror =>
        rw [htarget, hp] at herror
        obtain ⟨org', horg', -, hlinked⟩ := patched_eq_error herror
        exact absurd hlinked (not_linkedElsewhere hkind hp)
    | applied _ _ _ hpatched =>
        rw [hp] at hpatched
        exact not_keepsOthers htarget hpatched rfl horg hactive hother hne hset
  · cases hhandled with
    | malformed hnegative => omega
    | ignored _ hold => exact absurd hnew hold
    | notApplied _ hnot => exact absurd hties hnot
    | applied _ _ hnot => exact absurd hties hnot
    | notObserved _ _ herror =>
        rw [hobservation] at herror
        cases herror
    | notReconciled _ _ hobservation' herror =>
        rw [hobservation] at hobservation'
        cases hobservation'
        rw [hnamed] at herror
        obtain ⟨org', horg', -, hlinked⟩ := patched_eq_error herror
        rw [horg] at horg'
        cases horg'
        exact absurd hlinked hunlinked
    | reconciled _ _ _ hobservation' hpatched =>
        rw [hobservation] at hobservation'
        cases hobservation'
        exact not_keepsOthers hnamed hpatched rfl horg hactive hother hne
          (observation_set_ne hobservation hother hne)

end Step

/-- In a sequence of deliveries, each event leaves the organisations that are linked to another
subscription as they are if and only if none crosses over. -/
theorem subscriptions_separate (textGt : String → String → Bool) (db : Db) (ds : List Delivery) :
    (∀ us d vs subscriptionId, ds = us ++ d :: vs →
      d.event.IsAbout subscriptionId (delivered textGt us db) →
      KeepsOthers subscriptionId (delivered textGt us db) (delivered textGt (us ++ [d]) db)) ↔
    ∀ us d vs subscriptionId, ds = us ++ d :: vs →
      d.event.IsAbout subscriptionId (delivered textGt us db) →
      ¬ d.Crosses subscriptionId (delivered textGt us db) := by
  have hstep : ∀ us d, delivered textGt (us ++ [d]) db =
      d.after textGt (delivered textGt us db) := by
    intro us d
    rw [delivered, List.foldl_append]
    rfl
  constructor
  · intro hkeeps us d vs subscriptionId hds habout hcrosses
    refine not_keepsOthers_of_crosses textGt habout hcrosses ?_
    rw [← hstep]
    exact hkeeps us d vs subscriptionId hds habout
  · intro hnot us d vs subscriptionId hds habout
    rw [hstep]
    exact keepsOthers_of_not_crosses habout (hnot us d vs subscriptionId hds habout)

/-! ### A late event of an old subscription -/

/-- An organisation that subscribed again. -/
def resubscribed : Organization where
  encName := some (.raw .empty)
  createdBy := some (.text "alice")
  tier := .team
  trialEndsAt := none
  lifecycle := .active
  deletedAt := none
  stripeCustomerId := some (.text "cus")
  stripeSubscriptionId := some (.text "sub-2")

def noHoldings : Holdings := ⟨∅, ∅, ∅, ∅, ∅, ∅, ∅⟩

/-- A database with one organisation and no deliveries yet. -/
def ofOrganization (org : Organization) : Db :=
  ⟨AList.insert (.text "org") org ∅, ∅, ∅, ∅, noHoldings⟩

/-- An event that names the organisation. -/
def subscriptionEvent (kind : EventKind) (id : String) (created : Int) (subscription : Ident)
    (status : Option String) : Event where
  id := id
  created := created
  apiVersion := some "2026-07-29.dahlia"
  kind := kind
  object := ⟨some subscription, none, none, none, status, some (.text "org")⟩

/-- The first subscription ends after the second one was linked. -/
def endedLate : Delivery where
  now := 100
  stripeGet _ := .error .malformedResponse
  event := subscriptionEvent .subscriptionDeleted "evt" 50 (.text "sub-1") none

/-- The organisation loses the plan that its second subscription pays for. -/
theorem subscriptions_cross : ¬ ∀ textGt db (d : Delivery) subscriptionId,
    d.event.IsAbout subscriptionId db → KeepsOthers subscriptionId db (d.after textGt db) := by
  intro h
  obtain ⟨org, horg, htier, -⟩ := h (fun _ _ => false) (ofOrganization resubscribed) endedLate
    (.text "sub-1") ⟨rfl, by simp [endedLate, subscriptionEvent]⟩ (.text "org") resubscribed
    (.text "sub-2") (by decide +kernel) rfl (by decide)
  have hfree : ((endedLate.after (fun _ _ => false) (ofOrganization
      resubscribed)).organizations.lookup (.text "org")).map Organization.tier = some .free := by
    decide +kernel
  rw [horg, Option.map_some, htier] at hfree
  cases hfree

end Billing

end Sotto
