import Sotto.Properties.Subscriptions

/-!
# The order of delivery

The events about one subscription of one organisation set different columns, while the watermark of
the subscription discards an older event as a whole. So the order of delivery is immaterial exactly
when the newest event sets whatever the older ones set, other than to what the organisation had
before, and the provider's state agrees where events have the same time.
-/

namespace Sotto

namespace Billing

open Core
open Server (Tier LifecycleState)

/-! ### Patches over one another -/

/-- What an event sets, which may be nothing. -/
def Event.sets (event : Event) : Patch := event.patch.getD ⟨none, none, none⟩

section Overlay

variable {p q : Patch} {org org' : Organization}

theorem Patch.set_nothing : Patch.set ⟨none, none, none⟩ org = org := rfl

/-- Two organisations that differ at most in the columns that a patch sets. -/
theorem Patch.set_set_of_set (h : p.set org = p.set org') (hq : p.set (q.set org') = p.set org') :
    p.set (q.set org) = p.set org' := by
  obtain ⟨ptier, pcustomer, psubscription⟩ := p
  obtain ⟨qtier, qcustomer, qsubscription⟩ := q
  cases org
  cases org'
  simp only [Patch.set, Organization.mk.injEq] at h hq ⊢
  obtain ⟨h₁, h₂, h₃, h₄, h₅, h₆, h₇, h₈⟩ := h
  obtain ⟨-, -, hq₃, -, -, -, hq₇, hq₈⟩ := hq
  refine ⟨h₁, h₂, ?_, h₄, h₅, h₆, ?_, ?_⟩
  · cases ptier <;> cases qtier <;> simp_all
  · cases pcustomer <;> cases qcustomer <;> simp_all
  · cases psubscription <;> cases qsubscription <;> simp_all

theorem Patch.set_self : p.set (p.set org) = p.set org := by
  obtain ⟨ptier, pcustomer, psubscription⟩ := p
  cases ptier <;> cases pcustomer <;> cases psubscription <;> rfl

end Overlay

/-! ### One purchase -/

/-- The events about one subscription of one organisation, none of which was delivered yet. -/
structure Purchase (orgId subscriptionId : Ident) (events : List Event) (org : Organization)
    (db : Db) : Prop where
  accepted : ∀ e ∈ events, webhookVersionAccepted e.apiVersion
  created : ∀ e ∈ events, 0 ≤ e.created
  about : ∀ e ∈ events, e.subscriptionId = some subscriptionId
  names : ∀ e ∈ events, e.orgHint = some orgId
  ids : ∀ e ∈ events, ∀ e' ∈ events, e.id = e'.id → e = e'
  checkout : ∃ e ∈ events, e.kind = .checkoutCompleted ∧
    ∀ e' ∈ events, e'.kind = .checkoutCompleted → e' = e
  deleted : ∀ e ∈ events, ∀ e' ∈ events, e.kind = .subscriptionDeleted →
    e'.kind = .subscriptionDeleted → e = e'
  organization : db.organizations.lookup orgId = some org
  active : org.lifecycle = .active
  unlinked : ∀ orgId' org', orgId' ≠ orgId → db.organizations.lookup orgId' = some org' →
    org'.stripeSubscriptionId ≠ some subscriptionId ∧ ∀ e ∈ events, e.kind = .checkoutCompleted →
      org'.stripeCustomerId = none ∨ org'.stripeCustomerId ≠ e.object.customer
  watermark : db.watermarks.lookup subscriptionId = none
  pending : ∀ e ∈ events, ¬ db.Processed e.id

/-- Deliveries of all events of a list and no others, while the provider has one observation of
their subscription. -/
structure Delivers (subscriptionId : Ident) (observation : SubscriptionObservation)
    (events : List Event) (ds : List Delivery) : Prop where
  only : ∀ d ∈ ds, d.event ∈ events
  all : ∀ e ∈ events, ∃ d ∈ ds, d.event = e
  observed : ∀ d ∈ ds, getSubscription d.stripeGet subscriptionId = .ok observation

/-- The order of events by time and id. -/
def Event.Before (e e' : Event) : Prop :=
  e.created < e'.created ∨ (e.created = e'.created ∧ e.id < e'.id)

/-- The newest event of a list. -/
def Newest (newest : Event) (events : List Event) : Prop :=
  newest ∈ events ∧ ∀ e ∈ events, e = newest ∨ e.Before newest

/-- The tier of an organisation and the provider's ids. -/
def Organization.plan (org : Organization) : Tier × Option Ident × Option Ident :=
  (org.tier, org.stripeCustomerId, org.stripeSubscriptionId)

def Db.plan (db : Db) (orgId : Ident) : Option (Tier × Option Ident × Option Ident) :=
  (db.organizations.lookup orgId).map Organization.plan

/-- The newest event settles what the older ones set. -/
structure Settles (newest : Event) (events : List Event) (observation : SubscriptionObservation)
    (org : Organization) : Prop where
  older : ∀ e ∈ events, e.created < newest.created →
    newest.sets.set (e.sets.set org) = newest.sets.set org
  olderTies : ∀ e ∈ events, ∀ e' ∈ events, e.created = e'.created → e.id < e'.id →
    e'.created < newest.created →
    newest.sets.set (observation.patch.set (e.sets.set org)) = newest.sets.set org
  ties : ∀ e ∈ events, e.created = newest.created → e.id < newest.id →
    observation.patch.set (e.sets.set org) = newest.sets.set org

/-! ### One delivery -/

/-- What a delivery makes of an organisation and of the last event that was applied. -/
inductive Turn (observation : SubscriptionObservation) (e : Event) (seen : List Event)
    (org : Organization) (last : Option Event) : Organization → Option Event → Prop
  | stale : (e ∈ seen ∨ ∃ l, last = some l ∧ ¬ l.Before e) →
      Turn observation e seen org last org last
  | applied : (∀ l, last = some l → l.created < e.created) →
      Turn observation e seen org last (e.sets.set org) (some e)
  | reconciled {l last'} : last = some l → l.created = e.created → l.id < e.id →
      (last' = some e ∨ last' = some l) →
      Turn observation e seen org last (observation.patch.set org) last'

/-- Where the deliveries have led. -/
structure Progress (orgId subscriptionId : Ident) (events : List Event) (db₀ : Db)
    (seen : List Event) (org : Organization) (last : Option Event) (db : Db) : Prop where
  organization : db.organizations.lookup orgId = some org
  active : org.lifecycle = .active
  others : ∀ orgId', orgId' ≠ orgId →
    db.organizations.lookup orgId' = db₀.organizations.lookup orgId'
  processed : ∀ e ∈ events, db.Processed e.id → e ∈ seen
  watermark : db.watermarks.lookup subscriptionId = last.map fun e => ⟨e.created, e.id⟩
  lastSeen : ∀ l, last = some l → l ∈ seen

section Steps

variable {textGt : String → String → Bool} {orgId subscriptionId : Ident} {events : List Event}
  {org₀ org : Organization} {db₀ db : Db} {observation : SubscriptionObservation}
  {seen : List Event} {last : Option Event} {d : Delivery}

theorem Purchase.progress (h : Purchase orgId subscriptionId events org₀ db₀) :
    Progress orgId subscriptionId events db₀ [] org₀ none db₀ where
  organization := h.organization
  active := h.active
  others _ _ := rfl
  processed e he hprocessed := absurd hprocessed (h.pending e he)
  watermark := h.watermark
  lastSeen := by simp

theorem set_lifecycle {p : Patch} : (p.set org).lifecycle = org.lifecycle := rfl

/-- No other organisation has the ids that an event of the purchase sets. -/
theorem Progress.not_linkedElsewhere (h : Progress orgId subscriptionId events db₀ seen org last db)
    (hp : Purchase orgId subscriptionId events org₀ db₀) {p : Patch}
    (hsubscription : ∀ id, p.subscription = some (some id) → id = subscriptionId)
    (hcustomer : ∀ c, p.customer = some c → ∃ e ∈ events, e.kind = .checkoutCompleted ∧
      e.object.customer = c) :
    ¬ db.linkedElsewhere orgId org (p.set org) := by
  simp only [Db.linkedElsewhere, List.any_eq_true, not_exists, decide_eq_true_eq, not_and]
  rintro ⟨orgId', org'⟩ hmem hne hlinked
  rw [Table.mem_rows] at hmem
  have hmem₀ : db₀.organizations.lookup orgId' = some org' := (h.others orgId' hne).symm.trans hmem
  obtain ⟨hfree, hcustomers⟩ := hp.unlinked orgId' org' hne hmem₀
  rcases hlinked with ⟨hchanged, hsome, hsame⟩ | ⟨hchanged, hsome, hsame⟩
  · cases hc : p.customer with
    | none => exact hchanged (by simp [Patch.set, hc])
    | some c =>
        obtain ⟨e, he, hkind, hobject⟩ := hcustomer c hc
        simp only [Patch.set, hc, Option.getD_some] at hsome hsame
        rcases hcustomers e he hkind with hnone | hother
        · exact hsome (hsame.symm.trans hnone)
        · exact hother (hsame.trans hobject.symm)
  · cases hs : p.subscription with
    | none => exact hchanged (by simp [Patch.set, hs])
    | some s =>
        simp only [Patch.set, hs, Option.getD_some] at hsome hsame
        cases s with
        | none => exact hsome rfl
        | some id =>
            obtain rfl := hsubscription id hs
            exact hfree hsame

theorem Progress.patchedAt (h : Progress orgId subscriptionId events db₀ seen org last db)
    {p : Patch} (hlinked : ¬ db.linkedElsewhere orgId org (p.set org)) :
    ∃ db₁, db.patchedAt (some orgId) (some p) = .ok db₁ ∧
      db₁.organizations.lookup orgId = some (p.set org) ∧
      ∀ orgId', orgId' ≠ orgId →
        db₁.organizations.lookup orgId' = db.organizations.lookup orgId' := by
  cases hpatched : db.patched orgId p with
  | error e =>
      obtain ⟨org', horg', -, hlinked'⟩ := patched_eq_error hpatched
      rw [h.organization] at horg'
      cases horg'
      exact absurd hlinked' hlinked
  | ok db₁ =>
      refine ⟨db₁, hpatched, ?_, ?_⟩
      · rw [lookup_patched hpatched, h.organization, Option.map_some, if_pos ⟨rfl, h.active⟩]
      · intro orgId' hne
        rw [lookup_patched hpatched]
        cases db.organizations.lookup orgId' <;> simp [hne]

theorem Progress.ties_iff (h : Progress orgId subscriptionId events db₀ seen org last db)
    {e : Event} : e.Ties subscriptionId db ↔ ∃ l, last = some l ∧ l.created = e.created := by
  unfold Event.Ties
  rw [h.watermark]
  cases last <;> simp

/-- The receipts of further deliveries. -/
theorem Progress.receipts (h : Progress orgId subscriptionId events db₀ seen org last db)
    (hp : Purchase orgId subscriptionId events org₀ db₀) {e : Event} (he : e ∈ events)
    {receipts : Table String WebhookEvent} (hreceipts : Receipts e db receipts) :
    ∀ e' ∈ events, Db.Processed { db with webhookEvents := receipts } e'.id → e' ∈ e :: seen := by
  intro e' he' hprocessed
  rcases hreceipts e'.id hprocessed with hbefore | hid
  · exact List.mem_cons_of_mem _ (h.processed e' he' hbefore)
  · rw [hp.ids e' he' e he hid]
    exact List.mem_cons_self

/-- The watermark after an event that is not older. -/
theorem Progress.advanced (h : Progress orgId subscriptionId events db₀ seen org last db)
    (textGt : String → String → Bool) (e : Event) : ∃ last', (advanced textGt e subscriptionId db.watermarks).lookup subscriptionId =
        last'.map (fun e => ⟨e.created, e.id⟩) ∧ (last' = some e ∨ last' = last) ∧
      ((∀ l, last = some l → l.created < e.created) → last' = some e) := by
  unfold Billing.advanced
  cases last with
  | none =>
      rw [h.watermark]
      exact ⟨some e, AList.lookup_insert _, Or.inl rfl, fun _ => rfl⟩
  | some l =>
      rw [h.watermark]
      dsimp only [Option.map_some]
      split
      · refine ⟨some e, ?_, Or.inl rfl, fun _ => rfl⟩
        rw [Table.lookup_modify_self, h.watermark]
        rfl
      · next hnot =>
          refine ⟨some l, h.watermark, Or.inr rfl, fun hlater => ?_⟩
          exact absurd (Or.inl (hlater l rfl)) hnot

theorem Progress.notBefore (h : Progress orgId subscriptionId events db₀ seen org last db)
    {e : Event} {now : Int} (he : e ∈ events) (hold : ¬ e.IsNew subscriptionId (db.pruned now)) :
    e ∈ seen ∨ ∃ l, last = some l ∧ ¬ l.Before e := by
  by_cases hprocessed : (db.pruned now).Processed e.id
  · exact Or.inl (h.processed e he (processed_of_pruned hprocessed))
  · right
    have hexists : ∃ w, db.watermarks.lookup subscriptionId = some w ∧ ¬ e.Newer w := by
      by_contra hnone
      push Not at hnone
      exact hold ⟨hprocessed, hnone⟩
    obtain ⟨w, hw, hnot⟩ := hexists
    rw [h.watermark, Option.map_eq_some_iff] at hw
    obtain ⟨l, hl, rfl⟩ := hw
    exact ⟨l, hl, hnot⟩

theorem Progress.before (h : Progress orgId subscriptionId events db₀ seen org last db)
    {e : Event} {now : Int} (hnew : e.IsNew subscriptionId (db.pruned now)) {l : Event}
    (hl : last = some l) : l.Before e := by
  have hw : (db.pruned now).watermarks.lookup subscriptionId = some ⟨l.created, l.id⟩ := by
    subst hl
    exact h.watermark
  exact hnew.2 _ hw

/-- The ids that an event of the purchase sets. -/
theorem Purchase.patch_ids (hp : Purchase orgId subscriptionId events org₀ db₀) {e : Event}
    (he : e ∈ events) {p : Patch} (hpatch : e.patch = some p) :
    (∀ id, p.subscription = some (some id) → id = subscriptionId) ∧
      ∀ c, p.customer = some c → ∃ e ∈ events, e.kind = .checkoutCompleted ∧
        e.object.customer = c := by
  have habout := hp.about e he
  unfold Event.subscriptionId at habout
  unfold Event.patch at hpatch
  cases hkind : e.kind with
  | checkoutCompleted =>
      simp only [hkind] at habout hpatch
      cases hpatch
      rw [habout]
      refine ⟨?_, ?_⟩
      · rintro id ⟨⟩
        rfl
      · rintro c ⟨⟩
        exact ⟨e, he, hkind, rfl⟩
  | subscriptionUpdated =>
      simp only [hkind] at hpatch
      split at hpatch
      · cases hpatch
      · cases hpatch
      · cases hpatch
        exact ⟨by simp, by simp⟩
  | subscriptionDeleted =>
      simp only [hkind] at hpatch
      cases hpatch
      exact ⟨by simp, by simp⟩
  | other kind =>
      simp only [hkind] at habout
      cases habout

theorem observation_ids (events : List Event)
    (hobserved : getSubscription d.stripeGet subscriptionId = .ok observation) :
    (∀ id, observation.patch.subscription = some (some id) → id = subscriptionId) ∧
      ∀ c, observation.patch.customer = some c → ∃ e ∈ events, e.kind = .checkoutCompleted ∧
        e.object.customer = c := by
  refine ⟨?_, by simp [SubscriptionObservation.patch]⟩
  cases observation with
  | missing => simp [SubscriptionObservation.patch, SubscriptionObservation.entitlement]
  | current snapshot =>
      have hid := id_of_getSubscription hobserved
      rintro id ⟨⟩
      exact hid

theorem Purchase.target_eq (hp : Purchase orgId subscriptionId events org₀ db₀) (db : Db)
    {e : Event} (he : e ∈ events) : e.target db = some orgId ∧
      (e.orgHint <|> db.orgOfSubscription subscriptionId) = some orgId := by
  have hnames := hp.names e he
  have habout := hp.about e he
  refine ⟨?_, by rw [hnames]; rfl⟩
  unfold Event.orgHint at hnames
  unfold Event.subscriptionId at habout
  unfold Event.target
  cases hkind : e.kind <;> simp only [hkind] at hnames habout ⊢
  · exact hnames
  · rw [hnames]
    rfl
  · rw [hnames]
    rfl
  · cases habout

/-- What a delivery of an event of the purchase does. -/
theorem Progress.step (h : Progress orgId subscriptionId events db₀ seen org last db)
    (textGt : String → String → Bool) (hp : Purchase orgId subscriptionId events org₀ db₀) (he : d.event ∈ events)
    (hobserved : getSubscription d.stripeGet subscriptionId = .ok observation) :
    ∃ org' last', Turn observation d.event seen org last org' last' ∧
      Progress orgId subscriptionId events db₀ (d.event :: seen) org' last' (d.after textGt db) := by
  have hhandled := webhook_handled textGt d.now d.stripeGet db (hp.accepted _ he) (hp.about _ he)
  unfold Delivery.after
  generalize (webhook textGt d.now d.stripeGet d.event db).2 = db' at hhandled
  obtain ⟨htarget, hhinted⟩ := hp.target_eq db he
  have hseen : ∀ l, last = some l → l ∈ d.event :: seen :=
    fun l hl => List.mem_cons_of_mem _ (h.lastSeen l hl)
  cases hhandled with
  | malformed hnegative =>
      have := hp.created _ he
      omega
  | ignored _ hold hreceipts =>
      exact ⟨org, last, .stale (h.notBefore he hold), h.organization, h.active, h.others,
        h.receipts hp he hreceipts, h.watermark, hseen⟩
  | notApplied _ _ herror =>
      rw [htarget] at herror
      cases hpatch : d.event.patch with
      | none =>
          rw [hpatch] at herror
          cases herror
      | some p =>
          obtain ⟨hsubscription, hcustomer⟩ := hp.patch_ids he hpatch
          obtain ⟨db₁, hok, -⟩ := h.patchedAt (h.not_linkedElsewhere hp hsubscription hcustomer)
          rw [hpatch, hok] at herror
          cases herror
  | notObserved _ _ herror =>
      rw [hobserved] at herror
      cases herror
  | notReconciled _ _ hobserved' herror =>
      rw [hobserved] at hobserved'
      cases hobserved'
      obtain ⟨hsubscription, hcustomer⟩ := observation_ids events hobserved
      obtain ⟨db₁, hok, -⟩ := h.patchedAt (h.not_linkedElsewhere hp hsubscription hcustomer)
      rw [hhinted, hok] at herror
      cases herror
  | @applied events' db₁ _ hnew hties hpatched hreceipts =>
      have hlater : ∀ l, last = some l → l.created < d.event.created := by
        intro l hl
        rcases h.before hnew hl with hlt | ⟨heq, -⟩
        · exact hlt
        · exact absurd (h.ties_iff.2 ⟨l, hl, heq⟩) hties
      obtain ⟨last', hwatermark, -, hadvances⟩ := h.advanced textGt d.event
      obtain rfl := hadvances hlater
      have hset : db₁.organizations.lookup orgId = some (d.event.sets.set org) ∧
          ∀ orgId', orgId' ≠ orgId →
            db₁.organizations.lookup orgId' = db.organizations.lookup orgId' := by
        rw [htarget] at hpatched
        unfold Event.sets
        cases hpatch : d.event.patch with
        | none =>
            rw [hpatch] at hpatched
            cases hpatched
            exact ⟨h.organization, fun _ _ => rfl⟩
        | some p =>
            obtain ⟨hsubscription, hcustomer⟩ := hp.patch_ids he hpatch
            obtain ⟨db₂, hok, hset, hothers⟩ :=
              h.patchedAt (h.not_linkedElsewhere hp hsubscription hcustomer)
            rw [hpatch, hok] at hpatched
            cases hpatched
            exact ⟨hset, hothers⟩
      refine ⟨d.event.sets.set org, some d.event, .applied hlater, hset.1, h.active, ?_,
        h.receipts hp he hreceipts, hwatermark, ?_⟩
      · intro orgId' hne
        exact (hset.2 orgId' hne).trans (h.others orgId' hne)
      · rintro l ⟨⟩
        exact List.mem_cons_self
  | @reconciled observation' events' db₁ _ hnew hties hobserved' hpatched hreceipts =>
      rw [hobserved] at hobserved'
      cases hobserved'
      obtain ⟨l, hl, heq⟩ := h.ties_iff.1 hties
      have hid : l.id < d.event.id := by
        rcases h.before hnew hl with hlt | ⟨-, hid⟩
        · omega
        · exact hid
      obtain ⟨last', hwatermark, hlast', -⟩ := h.advanced textGt d.event
      obtain ⟨hsubscription, hcustomer⟩ := observation_ids events hobserved
      obtain ⟨db₂, hok, hset, hothers⟩ :=
        h.patchedAt (h.not_linkedElsewhere hp hsubscription hcustomer)
      rw [hhinted, hok] at hpatched
      cases hpatched
      refine ⟨observation.patch.set org, last', .reconciled hl heq hid ?_, hset, h.active, ?_,
        h.receipts hp he hreceipts, hwatermark, ?_⟩
      · rcases hlast' with hlast' | hlast'
        · exact Or.inl hlast'
        · exact Or.inr (hlast'.trans hl)
      · intro orgId' hne
        exact (hothers orgId' hne).trans (h.others orgId' hne)
      · intro l' hl'
        rcases hlast' with hlast' | hlast'
        · rw [hlast'] at hl'
          cases hl'
          exact List.mem_cons_self
        · exact hseen l' (hlast'.symm.trans hl')

end Steps

/-! ### Sequences of deliveries -/

/-- What deliveries make of an organisation and of the last event that was applied. -/
inductive Turns (observation : SubscriptionObservation) :
    List Event → List Event → Organization → Option Event → Organization → Option Event → Prop
  | nil {seen org last} : Turns observation [] seen org last org last
  | cons {e es seen org last org₁ last₁ org₂ last₂} :
      Turn observation e seen org last org₁ last₁ →
      Turns observation es (e :: seen) org₁ last₁ org₂ last₂ →
      Turns observation (e :: es) seen org last org₂ last₂

section Sequences

variable {textGt : String → String → Bool} {orgId subscriptionId : Ident} {events : List Event}
  {org₀ org org' : Organization} {db₀ db : Db} {observation : SubscriptionObservation}
  {seen es : List Event} {last last' : Option Event} {newest : Event}

theorem Progress.run (h : Progress orgId subscriptionId events db₀ seen org last db)
    (textGt : String → String → Bool) (hp : Purchase orgId subscriptionId events org₀ db₀)
    {ds : List Delivery} (hds : ∀ d ∈ ds, d.event ∈ events)
    (hobserved : ∀ d ∈ ds, getSubscription d.stripeGet subscriptionId = .ok observation) :
    ∃ org' last', Turns observation (ds.map Delivery.event) seen org last org' last' ∧
      ((delivered textGt ds db).organizations.lookup orgId = some org') := by
  induction ds generalizing seen org last db with
  | nil => exact ⟨org, last, .nil, h.organization⟩
  | cons d ds ih =>
      obtain ⟨org₁, last₁, hturn, hnext⟩ := h.step textGt hp
        (hds d List.mem_cons_self) (hobserved d List.mem_cons_self)
      obtain ⟨org', last', hturns, horg'⟩ := ih hnext
        (fun d' hd' => hds d' (List.mem_cons_of_mem _ hd'))
        (fun d' hd' => hobserved d' (List.mem_cons_of_mem _ hd'))
      exact ⟨org', last', .cons hturn hturns, horg'⟩

theorem Event.before_asymm {e e' : Event} (h : e.Before e') : ¬ e'.Before e := by
  unfold Event.Before at *
  rcases h with h | ⟨h, hid⟩
  · omega
  · rintro (h' | ⟨-, hid'⟩)
    · omega
    · exact lt_asymm hid hid'

theorem Newest.created_le (h : Newest newest events) {e : Event} (he : e ∈ events) :
    e.created ≤ newest.created := by
  rcases h.2 e he with rfl | hlt | ⟨heq, -⟩ <;> omega

theorem Newest.not_before (h : Newest newest events) {e : Event} (he : e ∈ events) :
    ¬ newest.Before e := by
  rcases h.2 e he with rfl | hbefore
  · exact fun h' => Event.before_asymm h' h'
  · exact Event.before_asymm hbefore

/-- After the newest event was applied, nothing changes. -/
theorem Turns.of_newest (hnewest : Newest newest events) (hes : ∀ e ∈ es, e ∈ events)
    (h : Turns observation es seen org (some newest) org' last') : org' = org := by
  generalize hlast : some newest = last at h
  induction h with
  | nil => rfl
  | @cons e es seen org last org₁ last₁ org₂ last₂ hturn _ ih =>
      subst hlast
      have he := hes e List.mem_cons_self
      have hrest : ∀ e' ∈ es, e' ∈ events := fun e' h' => hes e' (List.mem_cons_of_mem _ h')
      have hnot := hnewest.not_before he
      cases hturn with
      | stale => exact ih hrest rfl
      | applied hlater => exact absurd (Or.inl (hlater newest rfl)) hnot
      | reconciled hl heq hid =>
          cases hl
          exact absurd (Or.inr ⟨heq, hid⟩) hnot

/-- Once an observation at the newest time is in place, nothing changes. -/
theorem Turns.of_reconciled (hnewest : Newest newest events) (hes : ∀ e ∈ es, e ∈ events)
    {l : Event} (hl : last = some l) (htime : l.created = newest.created)
    (hsame : observation.patch.set org = org)
    (h : Turns observation es seen org last org' last') : org' = org := by
  induction h generalizing l with
  | nil => rfl
  | @cons e es seen org last org₁ last₁ org₂ last₂ hturn _ ih =>
      have hle := hnewest.created_le (hes e List.mem_cons_self)
      have hrest : ∀ e' ∈ es, e' ∈ events := fun e' h' => hes e' (List.mem_cons_of_mem _ h')
      cases hturn with
      | stale => exact ih hrest hl htime hsame
      | applied hlater =>
          have := hlater l hl
          omega
      | @reconciled l' _ hl' heq hid hlast =>
          rw [hl] at hl'
          cases hl'
          rw [hsame] at ih
          rcases hlast with rfl | rfl
          · exact ih hrest rfl (heq.symm.trans htime) hsame
          · exact ih hrest rfl htime hsame

theorem customer_of_sets {e : Event} {c : Option Ident} (h : e.sets.customer = some c) :
    e.kind = .checkoutCompleted := by
  unfold Event.sets Event.patch at h
  cases hkind : e.kind with
  | checkoutCompleted => rfl
  | subscriptionUpdated =>
      simp only [hkind] at h
      split at h <;> cases h
  | subscriptionDeleted =>
      simp only [hkind] at h
      cases h
  | other kind =>
      simp only [hkind] at h
      cases h

/-! ### Settled by the newest event -/

/-- How far the deliveries have come. -/
inductive Phase (newest : Event) (observation : SubscriptionObservation) (org₀ : Organization)
    (seen : List Event) (org : Organization) (last : Option Event) : Prop
  | early : (∀ l, last = some l → l.created < newest.created) → newest ∉ seen →
      newest.sets.set org = newest.sets.set org₀ →
      (newest.kind = .checkoutCompleted → org.stripeCustomerId = org₀.stripeCustomerId) →
      Phase newest observation org₀ seen org last
  | newest : last = some newest → org = newest.sets.set org₀ →
      Phase newest observation org₀ seen org last
  | tied {l} : last = some l → l ∈ seen → l.created = newest.created →
      observation.patch.set org = newest.sets.set org₀ →
      (newest ∈ seen → org = newest.sets.set org₀) →
      Phase newest observation org₀ seen org last

/-- An event of the newest time, applied before the newest event. -/
theorem reconciled_of_settles {e : Event}
    (hsame : newest.sets.set org = newest.sets.set org₀)
    (hcustomer : newest.kind = .checkoutCompleted →
      org.stripeCustomerId = org₀.stripeCustomerId)
    (hties : observation.patch.set (e.sets.set org₀) = newest.sets.set org₀) :
    observation.patch.set (e.sets.set org) = newest.sets.set org₀ := by
  rw [← hties]
  have hcustomer : org.stripeCustomerId = org₀.stripeCustomerId := by
    cases hc : newest.sets.customer with
    | some c => exact hcustomer (customer_of_sets hc)
    | none =>
        have h := congrArg Organization.stripeCustomerId hsame
        simpa [Patch.set, hc] using h
  cases org
  cases org₀
  simp only [Patch.set, Organization.mk.injEq] at hsame hcustomer ⊢
  obtain ⟨h₁, h₂, -, h₄, h₅, h₆, -, -⟩ := hsame
  subst hcustomer h₁ h₂ h₄ h₅ h₆
  simp [SubscriptionObservation.patch]

/-- What a delivery makes of the phase. -/
theorem Phase.turn (hp : Purchase orgId subscriptionId events org₀ db₀)
    (hnewest : Newest newest events) (hsettles : Settles newest events observation org₀)
    {e : Event} (he : e ∈ events) (hseen : ∀ e ∈ seen, e ∈ events)
    (hlast : ∀ l, last = some l → l ∈ seen) (h : Phase newest observation org₀ seen org last)
    (hturn : Turn observation e seen org last org' last') :
    Phase newest observation org₀ (e :: seen) org' last' := by
  have hle := hnewest.created_le he
  cases h with
  | newest hl horg =>
      have hnot := hnewest.not_before he
      cases hturn with
      | stale => exact .newest hl horg
      | applied hlater => exact absurd (Or.inl (hlater newest hl)) hnot
      | reconciled hl' heq hid =>
          rw [hl] at hl'
          cases hl'
          exact absurd (Or.inr ⟨heq, hid⟩) hnot
  | @tied l hl hmem htime hset hdone =>
      cases hturn with
      | stale hstale =>
          refine .tied hl (List.mem_cons_of_mem _ hmem) htime hset ?_
          intro hin
          rcases List.mem_cons.1 hin with rfl | hin
          · rcases hstale with hknown | ⟨l', hl', hnot⟩
            · exact hdone hknown
            · rw [hl] at hl'
              cases hl'
              rcases hnewest.2 l (hseen l hmem) with rfl | hbefore
              · exact hdone hmem
              · exact absurd hbefore hnot
          · exact hdone hin
      | applied hlater =>
          have := hlater l hl
          omega
      | @reconciled l' last' hl' heq hid hlast' =>
          rw [hl] at hl'
          cases hl'
          have hidem : observation.patch.set (observation.patch.set org) =
              newest.sets.set org₀ := by
            rw [Patch.set_self, hset]
          rcases hlast' with rfl | rfl
          · exact .tied rfl List.mem_cons_self (heq.symm.trans htime) hidem fun _ => hset
          · exact .tied rfl (List.mem_cons_of_mem _ hmem) htime hidem fun _ => hset
  | early hearly hunseen hsame hcustomer =>
      cases hturn with
      | stale hstale =>
          refine .early hearly ?_ hsame hcustomer
          intro hin
          rcases List.mem_cons.1 hin with rfl | hin
          · rcases hstale with hknown | ⟨l, hl, hnot⟩
            · exact hunseen hknown
            · exact hnot (Or.inl (hearly l hl))
          · exact hunseen hin
      | applied hlater =>
          by_cases hbefore : e.created < newest.created
          · refine .early (by rintro l ⟨⟩; exact hbefore) ?_
              (Patch.set_set_of_set hsame (hsettles.older e he hbefore)) ?_
            · intro hin
              rcases List.mem_cons.1 hin with rfl | hin
              · omega
              · exact hunseen hin
            · intro hkind
              have hnone : e.sets.customer = none := by
                cases hc : e.sets.customer with
                | none => rfl
                | some c =>
                    obtain ⟨k, -, -, hunique⟩ := hp.checkout
                    have hek := hunique e he (customer_of_sets hc)
                    have hnk := hunique newest hnewest.1 hkind
                    rw [hek, ← hnk] at hbefore
                    omega
              simpa [Patch.set, hnone] using hcustomer hkind
          · rcases hnewest.2 e he with rfl | hlt | ⟨htime, hid⟩
            · exact .newest rfl hsame
            · exact absurd hlt hbefore
            · refine .tied rfl List.mem_cons_self htime
                (reconciled_of_settles hsame hcustomer (hsettles.ties e he htime hid)) ?_
              intro hin
              rcases List.mem_cons.1 hin with rfl | hin
              · exact absurd hid (lt_irrefl _)
              · exact absurd hin hunseen
      | @reconciled l last' hl heq hid hlast' =>
          have hl_before := hearly l hl
          have hmem := hseen l (hlast l hl)
          have hbefore : e.created < newest.created := by omega
          have hset : newest.sets.set (observation.patch.set org) = newest.sets.set org₀ := by
            have holder := hsettles.older l hmem hl_before
            rw [← holder]
            refine Patch.set_set_of_set (hsame.trans holder.symm) ?_
            rw [holder]
            exact hsettles.olderTies l hmem e he heq hid hbefore
          refine .early ?_ ?_ hset hcustomer
          · intro l' hl'
            rcases hlast' with rfl | rfl
            · cases hl'
              exact hbefore
            · cases hl'
              exact hl_before
          · intro hin
            rcases List.mem_cons.1 hin with rfl | hin
            · omega
            · exact hunseen hin

theorem Turn.last_mem {e : Event} (hlast : ∀ l, last = some l → l ∈ seen)
    (h : Turn observation e seen org last org' last') : ∀ l, last' = some l → l ∈ e :: seen := by
  intro l hl
  cases h with
  | stale => exact List.mem_cons_of_mem _ (hlast l hl)
  | applied =>
      cases hl
      exact List.mem_cons_self
  | reconciled hl' _ _ hlast' =>
      rcases hlast' with h | h
      · rw [h] at hl
        cases hl
        exact List.mem_cons_self
      · rw [h] at hl
        cases hl
        exact List.mem_cons_of_mem _ (hlast _ hl')

/-- Once the newest event was delivered, the organisation is as it sets it. -/
theorem Turns.settled (hp : Purchase orgId subscriptionId events org₀ db₀)
    (hnewest : Newest newest events) (hsettles : Settles newest events observation org₀)
    (hes : ∀ e ∈ es, e ∈ events) (hseen : ∀ e ∈ seen, e ∈ events)
    (hlast : ∀ l, last = some l → l ∈ seen) (hphase : Phase newest observation org₀ seen org last)
    (hdelivered : newest ∈ es ∨ newest ∈ seen)
    (h : Turns observation es seen org last org' last') : org' = newest.sets.set org₀ := by
  induction h with
  | nil =>
      rcases hdelivered with hin | hin
      · cases hin
      · cases hphase with
        | early _ hunseen => exact absurd hin hunseen
        | newest _ horg => exact horg
        | tied _ _ _ _ hdone => exact hdone hin
  | @cons e es seen org last org₁ last₁ org₂ last₂ hturn _ ih =>
      have he := hes e List.mem_cons_self
      refine ih (fun e' h' => hes e' (List.mem_cons_of_mem _ h')) ?_ (hturn.last_mem hlast)
        (hphase.turn hp hnewest hsettles he hseen hlast hturn) ?_
      · intro e' h'
        rcases List.mem_cons.1 h' with rfl | h'
        · exact he
        · exact hseen e' h'
      · rcases hdelivered with hin | hin
        · rcases List.mem_cons.1 hin with rfl | hin
          · exact Or.inr List.mem_cons_self
          · exact Or.inl hin
        · exact Or.inr (List.mem_cons_of_mem _ hin)

/-! ### Particular orders -/

theorem Turn.eq_applied {e : Event} (hunseen : e ∉ seen)
    (hlater : ∀ l, last = some l → l.created < e.created)
    (h : Turn observation e seen org last org' last') :
    org' = e.sets.set org ∧ last' = some e := by
  cases h with
  | stale hstale =>
      rcases hstale with hknown | ⟨l, hl, hnot⟩
      · exact absurd hknown hunseen
      · exact absurd (Or.inl (hlater l hl)) hnot
  | applied => exact ⟨rfl, rfl⟩
  | reconciled hl heq =>
      have := hlater _ hl
      omega

theorem Turn.eq_reconciled {e l : Event} (hunseen : e ∉ seen) (hl : last = some l)
    (htime : l.created = e.created) (hid : l.id < e.id)
    (h : Turn observation e seen org last org' last') :
    org' = observation.patch.set org ∧ ∃ l', last' = some l' ∧ l'.created = e.created := by
  cases h with
  | stale hstale =>
      rcases hstale with hknown | ⟨l', hl', hnot⟩
      · exact absurd hknown hunseen
      · rw [hl] at hl'
        cases hl'
        exact absurd (Or.inr ⟨htime, hid⟩) hnot
  | applied hlater =>
      have := hlater l hl
      omega
  | reconciled hl' heq _ hlast' =>
      rw [hl] at hl'
      cases hl'
      rcases hlast' with h | h
      · exact ⟨rfl, e, h, rfl⟩
      · exact ⟨rfl, l, h, htime⟩

theorem Turns.newest_first (hnewest : Newest newest events)
    (h : Turns observation (newest :: events) [] org none org' last') :
    org' = newest.sets.set org := by
  cases h with
  | cons hturn hrest =>
      obtain ⟨rfl, rfl⟩ := hturn.eq_applied (by simp) (by simp)
      exact hrest.of_newest hnewest fun _ h => h

theorem Turns.older_first (hnewest : Newest newest events) {e : Event}
    (hlt : e.created < newest.created)
    (h : Turns observation (e :: newest :: events) [] org none org' last') :
    org' = newest.sets.set (e.sets.set org) := by
  cases h with
  | cons hturn hrest =>
      obtain ⟨rfl, rfl⟩ := hturn.eq_applied (by simp) (by simp)
      cases hrest with
      | cons hturn' hrest' =>
          have hunseen : newest ∉ [e] := by
            rintro hin
            rw [List.mem_singleton] at hin
            rw [hin] at hlt
            omega
          obtain ⟨rfl, rfl⟩ := hturn'.eq_applied hunseen (by rintro l ⟨⟩; exact hlt)
          exact hrest'.of_newest hnewest fun _ h => h

theorem Turns.older_ties_first (hnewest : Newest newest events) {e e' : Event}
    (htime : e.created = e'.created) (hid : e.id < e'.id) (hlt : e'.created < newest.created)
    (h : Turns observation (e :: e' :: newest :: events) [] org none org' last') :
    org' = newest.sets.set (observation.patch.set (e.sets.set org)) := by
  cases h with
  | cons hturn hrest =>
      obtain ⟨rfl, rfl⟩ := hturn.eq_applied (by simp) (by simp)
      cases hrest with
      | cons hturn' hrest' =>
          have hunseen' : e' ∉ [e] := by
            intro hin
            rw [List.mem_singleton] at hin
            rw [hin] at hid
            exact lt_irrefl _ hid
          obtain ⟨rfl, l', rfl, hl'⟩ := hturn'.eq_reconciled hunseen' rfl htime hid
          cases hrest' with
          | cons hturn'' hrest'' =>
              have hunseen : newest ∉ [e', e] := by
                intro hin
                simp only [List.mem_cons, List.not_mem_nil, or_false] at hin
                rcases hin with rfl | rfl <;> omega
              obtain ⟨rfl, rfl⟩ := hturn''.eq_applied hunseen (by rintro l ⟨⟩; omega)
              exact hrest''.of_newest hnewest fun _ h => h

theorem Turns.tie_first (hnewest : Newest newest events) {e : Event}
    (htime : e.created = newest.created) (hid : e.id < newest.id)
    (h : Turns observation (e :: newest :: events) [] org none org' last') :
    org' = observation.patch.set (e.sets.set org) := by
  cases h with
  | cons hturn hrest =>
      obtain ⟨rfl, rfl⟩ := hturn.eq_applied (by simp) (by simp)
      cases hrest with
      | cons hturn' hrest' =>
          have hunseen : newest ∉ [e] := by
            intro hin
            rw [List.mem_singleton] at hin
            rw [hin] at hid
            exact lt_irrefl _ hid
          obtain ⟨rfl, l', hl', htime'⟩ := hturn'.eq_reconciled hunseen rfl htime hid
          exact hrest'.of_reconciled hnewest (fun _ h => h) hl' htime' Patch.set_self

end Sequences

/-- Deliveries of events, one after another. -/
def deliveries (stripeGet : StripeGet) (es : List Event) : List Delivery :=
  es.map fun e => ⟨0, stripeGet, e⟩

section Order

variable {textGt : String → String → Bool} {orgId subscriptionId : Ident} {events : List Event}
  {org : Organization} {db : Db} {stripeGet : StripeGet} {observation : SubscriptionObservation}
  {newest : Event}

theorem map_event_deliveries (es : List Event) :
    (deliveries stripeGet es).map Delivery.event = es := by
  simp [deliveries, Function.comp_def]

theorem delivers_deliveries
    (hobserved : getSubscription stripeGet subscriptionId = .ok observation)
    (first : List Event) (hfirst : ∀ e ∈ first, e ∈ events) :
    Delivers subscriptionId observation events (deliveries stripeGet (first ++ events)) where
  only := by
    intro d hd
    obtain ⟨e, he, rfl⟩ := List.mem_map.1 hd
    rcases List.mem_append.1 he with he | he
    · exact hfirst e he
    · exact he
  all e he := ⟨_, List.mem_map.2 ⟨e, List.mem_append_right _ he, rfl⟩, rfl⟩
  observed := by
    intro d hd
    obtain ⟨e, he, rfl⟩ := List.mem_map.1 hd
    exact hobserved

/-- What an organisation has beside its plan, which no patch changes. -/
def Organization.rest (org : Organization) :
    Option Bytes × Option Ident × Option Int × LifecycleState × Option Int :=
  (org.encName, org.createdBy, org.trialEndsAt, org.lifecycle, org.deletedAt)

theorem eq_of_plan {org₁ org₂ : Organization} (hrest : org₁.rest = org₂.rest)
    (hplan : org₁.plan = org₂.plan) : org₁ = org₂ := by
  cases org₁
  cases org₂
  simp only [Organization.rest, Organization.plan, Prod.mk.injEq] at hrest hplan
  simp [hrest, hplan]

/-- The order of delivery of a purchase's events is immaterial if and only if the newest event
settles what the older ones set. -/
theorem order_immaterial (hp : Purchase orgId subscriptionId events org db)
    (hnewest : Newest newest events)
    (hobserved : getSubscription stripeGet subscriptionId = .ok observation) :
    (∀ ds ds', Delivers subscriptionId observation events ds →
      Delivers subscriptionId observation events ds' →
      (delivered textGt ds db).plan orgId = (delivered textGt ds' db).plan orgId) ↔
    Settles newest events observation org := by
  have hruns : ∀ first : List Event, (∀ e ∈ first, e ∈ events) → ∃ org' last',
      Turns observation (first ++ events) [] org none org' last' ∧
      (delivered textGt (deliveries stripeGet (first ++ events)) db).plan orgId =
        some org'.plan := by
    intro first hfirst
    have hdelivers := delivers_deliveries hobserved first hfirst
    obtain ⟨org', last', hturns, horg'⟩ := hp.progress.run textGt hp hdelivers.only
      hdelivers.observed
    rw [map_event_deliveries] at hturns
    exact ⟨org', last', hturns, by rw [Db.plan, horg', Option.map_some]⟩
  constructor
  · intro hsame
    obtain ⟨org₁, last₁, hturns₁, hplan₁⟩ := hruns [newest] (by simpa using hnewest.1)
    obtain rfl := Turns.newest_first hnewest hturns₁
    have hfirst : Delivers subscriptionId observation events
        (deliveries stripeGet ([newest] ++ events)) :=
      delivers_deliveries hobserved [newest] (by simpa using hnewest.1)
    have hall : ∀ first : List Event, (∀ e ∈ first, e ∈ events) → ∃ org' last',
        Turns observation (first ++ events) [] org none org' last' ∧
        org'.plan = (newest.sets.set org).plan := by
      intro first hin
      obtain ⟨org', last', hturns, hplan⟩ := hruns first hin
      refine ⟨org', last', hturns, ?_⟩
      have heq := hsame _ _ (delivers_deliveries hobserved first hin) hfirst
      rw [hplan, hplan₁] at heq
      exact Option.some.inj heq
    refine ⟨?_, ?_, ?_⟩
    · intro e he hlt
      obtain ⟨org', last', hturns, hplan⟩ := hall [e, newest] (by simp [he, hnewest.1])
      obtain rfl := Turns.older_first hnewest hlt hturns
      exact eq_of_plan rfl hplan
    · intro e he e' he' htime hid hlt
      obtain ⟨org', last', hturns, hplan⟩ :=
        hall [e, e', newest] (by simp [he, he', hnewest.1])
      obtain rfl := Turns.older_ties_first hnewest htime hid hlt hturns
      exact eq_of_plan rfl hplan
    · intro e he htime hid
      obtain ⟨org', last', hturns, hplan⟩ := hall [e, newest] (by simp [he, hnewest.1])
      obtain rfl := Turns.tie_first hnewest htime hid hturns
      exact eq_of_plan rfl hplan
  · intro hsettles ds ds' hds hds'
    have hend : ∀ ds, Delivers subscriptionId observation events ds →
        (delivered textGt ds db).plan orgId = some (newest.sets.set org).plan := by
      intro ds hds
      obtain ⟨org', last', hturns, horg'⟩ := hp.progress.run textGt hp hds.only
        hds.observed
      have hin : newest ∈ ds.map Delivery.event := by
        obtain ⟨d, hd, heq⟩ := hds.all newest hnewest.1
        exact List.mem_map.2 ⟨d, hd, heq⟩
      have hevents : ∀ e ∈ ds.map Delivery.event, e ∈ events := by
        intro e he
        obtain ⟨d, hd, rfl⟩ := List.mem_map.1 he
        exact hds.only d hd
      have hphase : Phase newest observation org [] org none :=
        .early (by simp) (by simp) rfl fun _ => rfl
      rw [Db.plan, horg', Option.map_some,
        hturns.settled hp hnewest hsettles hevents (by simp) (by simp) hphase (Or.inl hin)]
    rw [hend ds hds, hend ds' hds']

end Order

/-! ### A first purchase -/

/-- An organisation without a plan. -/
def unsubscribed : Organization :=
  { resubscribed with tier := .free, stripeCustomerId := none, stripeSubscriptionId := none }

/-- The checkout of the organisation. -/
def checkoutEvent (id : String) (created : Int) : Event where
  id := id
  created := created
  apiVersion := some "2026-07-29.dahlia"
  kind := .checkoutCompleted
  object := ⟨none, some (.text "org"), some (.text "cus"), some (.text "sub"), none, none⟩

/-- An update of the subscription. -/
def updateEvent (id : String) (created : Int) (status : String) : Event :=
  subscriptionEvent .subscriptionUpdated id created (.text "sub") (some status)

/-- The provider's latest state of the subscription. -/
def activeSubscription : StripeGet := fun id => .ok ⟨some id, some "active"⟩

theorem lookup_ofOrganization {org org' : Organization} {orgId : Ident}
    (h : (ofOrganization org).organizations.lookup orgId = some org') :
    orgId = .text "org" ∧ org' = org := by
  simp only [ofOrganization, Table.lookup_insert] at h
  split at h
  · next heq =>
      cases h
      exact ⟨heq, rfl⟩
  · cases h

/-- A checkout and an update of its subscription. -/
theorem purchase_of_two (t t' : Int) (ht : 0 ≤ t) (ht' : 0 ≤ t') (status : String) :
    Purchase (.text "org") (.text "sub") [checkoutEvent "evt-1" t, updateEvent "evt-2" t' status]
      unsubscribed (ofOrganization unsubscribed) where
  accepted := by
    simp [checkoutEvent, updateEvent, subscriptionEvent, webhookVersionAccepted,
      acceptedWebhookApiVersions]
  created := by simp [checkoutEvent, updateEvent, subscriptionEvent, ht, ht']
  about := by simp [checkoutEvent, updateEvent, subscriptionEvent, Event.subscriptionId]
  names := by simp [checkoutEvent, updateEvent, subscriptionEvent, Event.orgHint]
  ids := by simp [checkoutEvent, updateEvent, subscriptionEvent]
  checkout := by
    refine ⟨checkoutEvent "evt-1" t, by simp, rfl, ?_⟩
    simp [checkoutEvent, updateEvent, subscriptionEvent]
  deleted := by simp [checkoutEvent, updateEvent, subscriptionEvent]
  organization := AList.lookup_insert _
  active := rfl
  unlinked orgId' org' hne horg' := absurd (lookup_ofOrganization horg').1 hne
  watermark := rfl
  pending := by
    rintro e - ⟨receipt, hreceipt, -⟩
    cases hreceipt

/-- The checkout is the newest event, and sets all that the update sets. -/
theorem order_immaterial_checkout :
    (delivered (fun _ _ => false) (deliveries activeSubscription
        [checkoutEvent "evt-1" 2, updateEvent "evt-2" 1 "incomplete"])
      (ofOrganization unsubscribed)).plan (.text "org") =
    (delivered (fun _ _ => false) (deliveries activeSubscription
        [updateEvent "evt-2" 1 "incomplete", checkoutEvent "evt-1" 2,
          updateEvent "evt-2" 1 "incomplete"])
      (ofOrganization unsubscribed)).plan (.text "org") := by
  have hnewest : Newest (checkoutEvent "evt-1" 2)
      [checkoutEvent "evt-1" 2, updateEvent "evt-2" 1 "incomplete"] := by
    refine ⟨by simp, ?_⟩
    simp [checkoutEvent, updateEvent, subscriptionEvent, Event.Before]
  have hsettles : Settles (checkoutEvent "evt-1" 2)
      [checkoutEvent "evt-1" 2, updateEvent "evt-2" 1 "incomplete"]
      (.current ⟨.text "sub", .active⟩) unsubscribed :=
    ⟨by decide +kernel, by decide +kernel, by decide +kernel⟩
  have hobserved : getSubscription activeSubscription (.text "sub") =
      .ok (.current ⟨.text "sub", .active⟩) := by decide +kernel
  have hpurchase := purchase_of_two 2 1 (by decide) (by decide) "incomplete"
  exact (order_immaterial hpurchase hnewest hobserved).2 hsettles _ _ (delivers_deliveries hobserved [] (by simp))
    (delivers_deliveries hobserved [updateEvent "evt-2" 1 "incomplete"] (by simp))

/-- An update that is newer than the checkout and delivered before it keeps the organisation from
being linked. -/
theorem order_material : ¬ ∀ textGt orgId subscriptionId events org db observation,
    Purchase orgId subscriptionId events org db → ∀ ds ds',
      Delivers subscriptionId observation events ds →
      Delivers subscriptionId observation events ds' →
      (delivered textGt ds db).plan orgId = (delivered textGt ds' db).plan orgId := by
  intro h
  have hobserved : getSubscription activeSubscription (.text "sub") =
      .ok (.current ⟨.text "sub", .active⟩) := by decide +kernel
  have heq := h (fun _ _ => false) _ _ _ _ _ (.current ⟨.text "sub", .active⟩)
    (purchase_of_two 1 2 (by decide) (by decide) "active")
    _ _ (delivers_deliveries hobserved [] (by simp))
    (delivers_deliveries hobserved [updateEvent "evt-2" 2 "active"] (by simp))
  have hinOrder : (delivered (fun _ _ => false) (deliveries activeSubscription
      [checkoutEvent "evt-1" 1, updateEvent "evt-2" 2 "active"])
      (ofOrganization unsubscribed)).plan (.text "org") =
        some (.team, some (.text "cus"), some (.text "sub")) := by decide +kernel
  have hlate : (delivered (fun _ _ => false) (deliveries activeSubscription
      [updateEvent "evt-2" 2 "active", checkoutEvent "evt-1" 1, updateEvent "evt-2" 2 "active"])
      (ofOrganization unsubscribed)).plan (.text "org") = some (.team, none, none) := by
    decide +kernel
  have hcontra := hinOrder.symm.trans (heq.trans hlate)
  exact absurd hcontra (by decide)

end Billing

end Sotto
