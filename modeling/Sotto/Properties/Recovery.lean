import Sotto.Properties.Lifecycle
import Sotto.Properties.Watermarks

/-!
# Billing after a recovery

While a deletion is in progress the organisation's events are acknowledged and change nothing, and
the recovery sets its tier alone. So a recovery restores what the same events would have made of the
organisation only if these leave the provider's ids as they are, and the tier is that of the linked
subscription.
-/

namespace Sotto

namespace Billing

open Core
open Server (Tier LifecycleState)

/-! ### Deliveries of a run -/

section Deliveries

variable (textGt : String → String → Bool)

/-- A command extends the deliveries of a run by the one that it makes. -/
def Cmd.Delivers (c : Cmd) (s s' : World) (ds ds' : List Delivery) : Prop :=
  match c with
  | .webhook event => ∃ stripeGet, ds' = ds ++ [⟨s.now, stripeGet, event⟩] ∧
      s'.db = (⟨s.now, stripeGet, event⟩ : Delivery).after textGt s.db
  | _ => ds' = ds

/-- The deletion system with the deliveries of its run. -/
def deliverySystem : System Nat Cmd.Reply (World × List Delivery) Unit Op
    (Except Error (Option DeletionView)) :=
  (deletionSystem textGt).withHistory fun c s _ s' ds ds' => c.Delivers textGt s s' ds ds'

/-- The columns that a disposition of an event sets, and whose: by the payload of the event or by
the provider's state. -/
def Delivery.setBy (d : Delivery) (db : Db) : EventDisposition → Option (Ident × Patch)
  | .apply => (d.event.target db).bind fun orgId => d.event.patch.map fun p => (orgId, p)
  | .reconcile =>
      d.event.subscriptionId.bind fun subscriptionId =>
        match getSubscription d.stripeGet subscriptionId with
        | .ok observation =>
            (d.event.orgHint <|> db.orgOfSubscription subscriptionId).map fun orgId =>
              (orgId, observation.patch)
        | .error _ => none
  | .ignore => none

/-- The columns that a delivery sets, and whose. -/
def Delivery.write (d : Delivery) (db : Db) : Option (Ident × Patch) :=
  (d.disposition db).bind (d.setBy db)

/-- The tier of an organisation after columns of an active one were set. -/
def tierAfter (orgId : Ident) (tier : Tier) : Option (Ident × Patch) → Tier
  | some (orgId', p) => if orgId' = orgId then p.tier.getD tier else tier
  | none => tier

/-- The tier of an organisation that a delivery tells, if it is committed. -/
def Delivery.tells (d : Delivery) (orgId : Ident) (db : Db) (tier : Tier) : Tier :=
  match (webhook textGt d.now d.stripeGet d.event db).1 with
  | .ok _ => tierAfter orgId tier (d.write db)
  | .error _ => tier

/-- The tier of an organisation that deliveries say, the last one that says one, or else the one it
had before them. -/
def told (orgId : Ident) (db : Db) (ds : List Delivery) : Tier :=
  (ds.foldl (fun x d => (d.after textGt x.1, d.tells textGt orgId x.1 x.2))
    (db, ((db.organizations.lookup orgId).map Organization.tier).getD .free)).2

theorem told_append (orgId : Ident) (db : Db) (ds : List Delivery) (d : Delivery) :
    told textGt orgId db (ds ++ [d]) =
      d.tells textGt orgId (delivered textGt ds db) (told textGt orgId db ds) := by
  have hdb : ∀ (ds : List Delivery) (x : Db × Tier),
      (ds.foldl (fun x d => (d.after textGt x.1, d.tells textGt orgId x.1 x.2)) x).1 =
        delivered textGt ds x.1 := by
    intro ds
    induction ds with
    | nil => exact fun _ => rfl
    | cons d ds ih => exact fun _ => ih _
  unfold told
  rw [List.foldl_append, List.foldl_cons, List.foldl_nil]
  dsimp only
  rw [hdb]

theorem delivered_append (db : Db) (ds : List Delivery) (d : Delivery) :
    delivered textGt (ds ++ [d]) db = d.after textGt (delivered textGt ds db) := by
  rw [delivered, List.foldl_append]
  rfl

end Deliveries

/-! ### Conditions -/

/-- An organisation has the billing columns that the deliveries alone would have given it. -/
def Restored (textGt : String → String → Bool) (orgId : Ident) (db₀ : Db)
    (s : World × List Delivery) : Prop :=
  ∀ org, s.1.db.organizations.lookup orgId = some org → org.lifecycle = .active →
    ∃ org', (delivered textGt s.2 db₀).organizations.lookup orgId = some org' ∧
      org.tier = org'.tier ∧ org.stripeCustomerId = org'.stripeCustomerId ∧
      org.stripeSubscriptionId = org'.stripeSubscriptionId

/-- One organisation is being deleted, the deletion cancels no subscription, and what the provider
answers to a recovery agrees with the events that were delivered. -/
def Consistent (textGt : String → String → Bool) (orgId : Ident) (db₀ : Db) (c : Cmd)
    (s : World × List Delivery) (r : c.Reply) (s' : World × List Delivery) : Prop :=
  match c with
  | .request _ orgId' _ _ _ => orgId' = orgId
  | .cancelSubscription _ => s'.1.provider = s.1.provider
  | .finishRecovery lease _ tier => lease.subscriptionId ≠ none → s'.1.db ≠ s.1.db →
      tier = told textGt orgId db₀ s.2
  | _ => True

/-- A delivery leaves the provider's ids of an organisation that is being deleted. -/
def Delivery.Spares (d : Delivery) (orgId : Ident) (db : Db) : Prop :=
  ∀ org p, db.organizations.lookup orgId = some org → org.lifecycle = .deleting →
    d.write db = some (orgId, p) →
    (p.set org).stripeCustomerId = org.stripeCustomerId ∧
      (p.set org).stripeSubscriptionId = org.stripeSubscriptionId

/-- The deliveries leave the ids of a frozen organisation, and one without a subscription is on the
free tier when it is recovered. -/
def Recoverable (textGt : String → String → Bool) (orgId : Ident) (db₀ : Db) (c : Cmd)
    (s s' : World × List Delivery) : Prop :=
  match c with
  | .webhook _ => ∀ d, s'.2 = s.2 ++ [d] → d.Spares orgId s.1.db
  | .finishRecovery lease _ _ => lease.subscriptionId = none → s'.1.db ≠ s.1.db →
      told textGt orgId db₀ s.2 = .free
  | _ => True

/-! ### Two databases in step -/

/-- An organisation that is active on a tier. -/
def Organization.thawed (tier : Tier) (org : Organization) : Organization :=
  { org with lifecycle := .active, tier := tier }

/-- The first database is the second one with an organisation active on a tier. -/
structure Mirrors (orgId : Ident) (tier : Tier) (u a : Db) : Prop where
  organizations : u.organizations = a.organizations.modify orgId (Organization.thawed tier)
  webhookEvents : u.webhookEvents = a.webhookEvents
  watermarks : u.watermarks = a.watermarks
  kept : ∀ org, a.organizations.lookup orgId = some org →
    org.lifecycle ≠ .deleted ∧ (org.lifecycle = .active → org.tier = tier)

section Mirrors

variable {orgId k : Ident} {tier : Tier} {u a db : Db} {org : Organization} {p : Patch}

theorem thawed_of_active (hactive : org.lifecycle = .active) (htier : org.tier = tier) :
    org.thawed tier = org := by
  cases org
  simp_all [Organization.thawed]

/-- While the organisation is active, all organisations are the same. -/
theorem Mirrors.same (h : Mirrors orgId tier u a)
    (hactive : ∀ org, a.organizations.lookup orgId = some org → org.lifecycle = .active) :
    u.organizations = a.organizations := by
  rw [h.organizations]
  refine Table.modify_eq_self fun org horg => ?_
  exact thawed_of_active (hactive org horg) ((h.kept org horg).2 (hactive org horg))

theorem Mirrors.rows (h : Mirrors orgId tier u a) : u.organizations.rows =
    a.organizations.rows.map fun e => if e.1 = orgId then (e.1, e.2.thawed tier) else e := by
  rw [h.organizations, Table.rows_modify]

theorem Mirrors.orgOfSubscription (h : Mirrors orgId tier u a) (subscriptionId : Ident) :
    u.orgOfSubscription subscriptionId = a.orgOfSubscription subscriptionId := by
  unfold Db.orgOfSubscription
  rw [h.rows, List.find?_map, Option.map_map]
  have hcondition : ((fun e : Ident × Organization =>
      decide (e.2.stripeSubscriptionId = some subscriptionId)) ∘
        fun e => if e.1 = orgId then (e.1, e.2.thawed tier) else e) =
      fun e => decide (e.2.stripeSubscriptionId = some subscriptionId) := by
    funext e
    simp only [Function.comp_apply]
    split <;> rfl
  rw [hcondition]
  congr 1
  funext e
  simp only [Function.comp_apply]
  split <;> rfl

theorem Mirrors.linkedElsewhere (h : Mirrors orgId tier u a) (org org' : Organization) :
    u.linkedElsewhere k org org' = a.linkedElsewhere k org org' := by
  unfold Db.linkedElsewhere
  rw [h.rows, List.any_map]
  congr 1
  funext e
  simp only [Function.comp_apply]
  split <;> rfl

/-- Ids that stay the same are linked nowhere else. -/
theorem not_linkedElsewhere_of_ids {org' : Organization}
    (hcustomer : org'.stripeCustomerId = org.stripeCustomerId)
    (hsubscription : org'.stripeSubscriptionId = org.stripeSubscriptionId) :
    ¬ db.linkedElsewhere k org org' := by
  simp [Db.linkedElsewhere, hcustomer, hsubscription]

/-- Setting columns of an active organisation that keeps its ids always succeeds. -/
theorem patched_of_ids (horg : db.organizations.lookup k = some org)
    (hactive : org.lifecycle = .active)
    (hcustomer : (p.set org).stripeCustomerId = org.stripeCustomerId)
    (hsubscription : (p.set org).stripeSubscriptionId = org.stripeSubscriptionId) :
    db.patched k p = .ok { db with organizations := db.organizations.modify k p.set } := by
  unfold Db.patched
  simp only [horg]
  rw [if_neg (not_linkedElsewhere_of_ids hcustomer hsubscription)]
  split
  · rfl
  · next hnot =>
      rw [not_and, not_not] at hnot
      have hsame : db.organizations.modify k p.set = db.organizations := by
        refine Table.modify_eq_self fun org' horg' => ?_
        cases horg.symm.trans horg'
        exact hnot hactive
      rw [hsame]

/-- Setting columns of an organisation that is not active changes nothing. -/
theorem patched_of_inactive (h : ∀ org, db.organizations.lookup k = some org →
    org.lifecycle ≠ .active) : db.patched k p = .ok db := by
  unfold Db.patched
  split
  · rfl
  · next org horg => rw [if_neg fun hset => h org horg hset.1]

/-- Setting columns depends on the organisations alone. -/
theorem patched_of_organizations {db' : Db} (h : db'.organizations = db.organizations) :
    db'.patched k p =
      (db.patched k p).map fun db₁ => { db' with organizations := db₁.organizations } := by
  unfold Db.patched Db.linkedElsewhere
  rw [h]
  split
  · simp only [Except.map, ← h]
  · split
    · split <;> rfl
    · simp only [Except.map, ← h]

/-- Without the organisation, databases mirror each other on every tier. -/
theorem Mirrors.of_none (h : Mirrors orgId tier u a) (hnone : a.organizations.lookup orgId = none)
    (tier' : Tier) : Mirrors orgId tier' u a where
  organizations := by
    rw [h.same (by simp [hnone])]
    exact (Table.modify_eq_self (by simp [hnone])).symm
  webhookEvents := h.webhookEvents
  watermarks := h.watermarks
  kept := by simp [hnone]

/-- The patch of an organisation that is not the frozen one. -/
theorem Mirrors.patched_of_ne (h : Mirrors orgId tier u a) (hne : k ≠ orgId) :
    (∃ e, a.patched k p = .error e ∧ u.patched k p = .error e) ∨
      ∃ a' u', a.patched k p = .ok a' ∧ u.patched k p = .ok u' ∧ Mirrors orgId tier u' a' := by
  have hlookup : u.organizations.lookup k = a.organizations.lookup k := by
    rw [h.organizations, Table.lookup_modify_of_ne hne]
  unfold Db.patched
  rw [hlookup]
  cases horg : a.organizations.lookup k with
  | none => exact Or.inr ⟨a, u, rfl, rfl, h⟩
  | some org =>
      dsimp only
      rw [h.linkedElsewhere]
      by_cases hset : org.lifecycle = .active ∧ p.set org ≠ org
      · rw [if_pos hset, if_pos hset]
        by_cases hlinked : a.linkedElsewhere k org (p.set org)
        · rw [if_pos hlinked, if_pos hlinked]
          exact Or.inl ⟨_, rfl, rfl⟩
        · rw [if_neg hlinked, if_neg hlinked]
          refine Or.inr ⟨_, _, rfl, rfl, ?_, h.webhookEvents, h.watermarks, ?_⟩
          · show u.organizations.modify k p.set = _
            rw [h.organizations, Table.modify_comm hne]
          · intro org' horg'
            rw [Table.lookup_modify_of_ne hne.symm] at horg'
            exact h.kept org' horg'
      · rw [if_neg hset, if_neg hset]
        exact Or.inr ⟨a, u, rfl, rfl, h⟩

/-- The patch of the organisation while it is active. -/
theorem Mirrors.patched_of_active (h : Mirrors orgId tier u a)
    (horg : a.organizations.lookup orgId = some org) (hactive : org.lifecycle = .active) :
    (∃ e, a.patched orgId p = .error e ∧ u.patched orgId p = .error e) ∨
      ∃ a' u', a.patched orgId p = .ok a' ∧ u.patched orgId p = .ok u' ∧
        Mirrors orgId (p.tier.getD tier) u' a' := by
  have hsame : u.organizations = a.organizations := by
    refine h.same fun org' horg' => ?_
    cases horg.symm.trans horg'
    exact hactive
  rw [patched_of_organizations hsame]
  cases hpatched : a.patched orgId p with
  | error e => exact Or.inl ⟨e, rfl, rfl⟩
  | ok a' =>
      have hrow : ∀ org', a'.organizations.lookup orgId = some org' →
          org'.lifecycle = .active ∧ org'.tier = p.tier.getD tier := by
        intro org' horg'
        rw [lookup_patched hpatched, horg, Option.map_some, if_pos ⟨rfl, hactive⟩] at horg'
        cases horg'
        refine ⟨hactive, ?_⟩
        show p.tier.getD org.tier = p.tier.getD tier
        rw [(h.kept org horg).2 hactive]
      have hothers := patched_eq hpatched
      refine Or.inr ⟨a', _, rfl, rfl, ?_, ?_, ?_, ?_⟩
      · refine (Table.modify_eq_self fun org' horg' => ?_).symm
        exact thawed_of_active (hrow org' horg').1 (hrow org' horg').2
      · rw [hothers]
        exact h.webhookEvents
      · rw [hothers]
        exact h.watermarks
      · intro org' horg'
        obtain ⟨hactive', htier'⟩ := hrow org' horg'
        exact ⟨by simp [hactive'], fun _ => htier'⟩

/-- The patch of the frozen organisation changes nothing there, and its tier in the other
database. -/
theorem Mirrors.patched_of_frozen (h : Mirrors orgId tier u a)
    (horg : a.organizations.lookup orgId = some org) (hfrozen : org.lifecycle ≠ .active)
    (hcustomer : (p.set org).stripeCustomerId = org.stripeCustomerId)
    (hsubscription : (p.set org).stripeSubscriptionId = org.stripeSubscriptionId) :
    ∃ u', a.patched orgId p = .ok a ∧ u.patched orgId p = .ok u' ∧
      Mirrors orgId (p.tier.getD tier) u' a := by
  have horg' : u.organizations.lookup orgId = some (org.thawed tier) := by
    rw [h.organizations, Table.lookup_modify_self, horg, Option.map_some]
  refine ⟨_, patched_of_inactive fun org' horg' => ?_,
    patched_of_ids horg' rfl hcustomer hsubscription, ?_, h.webhookEvents, h.watermarks, ?_⟩
  · cases horg.symm.trans horg'
    exact hfrozen
  · show u.organizations.modify orgId p.set = _
    rw [h.organizations, Table.modify_modify]
    refine Table.modify_congr fun org' horg' => ?_
    cases horg.symm.trans horg'
    show p.set (org.thawed tier) = org.thawed (p.tier.getD tier)
    unfold Patch.set Organization.thawed at *
    simp_all
  · intro org' horg'
    cases horg.symm.trans horg'
    exact ⟨(h.kept org horg).1, fun hactive => absurd hactive hfrozen⟩

/-- A patch in both databases. -/
theorem Mirrors.patched (h : Mirrors orgId tier u a)
    (hspares : ∀ org, a.organizations.lookup orgId = some org → org.lifecycle = .deleting →
      k = orgId → (p.set org).stripeCustomerId = org.stripeCustomerId ∧
        (p.set org).stripeSubscriptionId = org.stripeSubscriptionId) :
    (∃ e, a.patched k p = .error e ∧ u.patched k p = .error e) ∨
      ∃ a' u', a.patched k p = .ok a' ∧ u.patched k p = .ok u' ∧
        Mirrors orgId (if k = orgId then p.tier.getD tier else tier) u' a' := by
  by_cases hk : k = orgId
  · subst hk
    rw [if_pos rfl]
    cases horg : a.organizations.lookup k with
    | none =>
        have horg' : u.organizations.lookup k = none := by
          rw [h.organizations, Table.lookup_modify_self, horg, Option.map_none]
        exact Or.inr ⟨a, u, patched_of_inactive (by simp [horg]),
          patched_of_inactive (by simp [horg']), h.of_none horg _⟩
    | some org =>
        cases hlifecycle : org.lifecycle with
        | active => exact h.patched_of_active horg hlifecycle
        | deleting =>
            obtain ⟨hcustomer, hsubscription⟩ := hspares org horg hlifecycle rfl
            obtain ⟨u', ha, hu, hmirrors⟩ :=
              h.patched_of_frozen horg (by simp [hlifecycle]) hcustomer hsubscription
            exact Or.inr ⟨a, u', ha, hu, hmirrors⟩
        | deleted => exact absurd hlifecycle (h.kept org horg).1
  · rw [if_neg hk]
    exact h.patched_of_ne hk

end Mirrors

/-! ### A delivery to both databases -/

section Both

variable {textGt : String → String → Bool} {orgId : Ident} {tier : Tier} {u a : Db} {d : Delivery}
  {now : Int} {event : Event}

theorem recordWebhookReceipt_congr {s s' : Db} (hevents : s'.webhookEvents = s.webhookEvents) :
    (recordWebhookReceipt now event).run s' =
      ((recordWebhookReceipt now event).run s).map fun x =>
        (x.1, { s' with webhookEvents := x.2.webhookEvents }) := by
  unfold recordWebhookReceipt
  by_cases hcreated : 0 ≤ event.created
  · have hrequire : ∀ db, (require (0 ≤ event.created) .db).run db = .ok ((), db) :=
      fun db => require_eq_ok.2 ⟨hcreated, rfl⟩
    rw [Transaction.run_bind_of_ok (hrequire s), Transaction.run_bind_of_ok (hrequire s'),
      Transaction.run_get_bind, Transaction.run_get_bind, hevents]
    cases s.webhookEvents.lookup event.id with
    | some e =>
        change Except.ok (false, s') =
          Except.ok (false, { s' with webhookEvents := s.webhookEvents })
        rw [← hevents]
    | none => rfl
  · have hrequire : ∀ db, (require (0 ≤ event.created) .db).run db = .error .db := by
      intro db
      rw [require, if_neg hcreated]
      rfl
    rw [Transaction.run_bind_of_error (hrequire s), Transaction.run_bind_of_error (hrequire s')]
    rfl

theorem recordWebhookEvent_congr {s s' : Db} (hevents : s'.webhookEvents = s.webhookEvents)
    (hwatermarks : s'.watermarks = s.watermarks) :
    (recordWebhookEvent now event).run s' =
      ((recordWebhookEvent now event).run s).map fun x =>
        (x.1, { s' with webhookEvents := x.2.webhookEvents }) := by
  have hreceipt := @recordWebhookReceipt_congr now event s s' hevents
  have hself := @recordWebhookReceipt_congr now event s s rfl
  unfold recordWebhookEvent
  cases hrun : (recordWebhookReceipt now event).run s with
  | error e =>
      rw [hrun] at hreceipt
      rw [Transaction.run_bind_of_error hrun, Transaction.run_bind_of_error hreceipt]
      rfl
  | ok x =>
      obtain ⟨inserted, s₁⟩ := x
      rw [hrun] at hreceipt hself
      have hs₁ : s₁ = { s with webhookEvents := s₁.webhookEvents } := congrArg (fun x =>
        match x with | .ok x => x.2 | .error _ => s₁) hself
      have hw₁ : s₁.watermarks = s.watermarks := by rw [hs₁]
      rw [Transaction.run_bind_of_ok hrun, Transaction.run_bind_of_ok hreceipt,
        Transaction.run_get_bind, Transaction.run_get_bind, hw₁, hwatermarks]
      dsimp only
      split
      · rfl
      · split
        · rfl
        · split
          · rfl
          · split
            · rfl
            · split <;> rfl

theorem pruned_congr {s s' : Db} (hevents : s'.webhookEvents = s.webhookEvents)
    (hwatermarks : s'.watermarks = s.watermarks) :
    (s'.pruned now).webhookEvents = (s.pruned now).webhookEvents := by
  unfold Db.pruned pruneCandidates
  dsimp only
  rw [hevents, hwatermarks]

theorem Mirrors.disposition (h : Mirrors orgId tier u a) (d : Delivery) :
    d.disposition u = d.disposition a := by
  unfold Delivery.disposition
  rw [@recordWebhookEvent_congr d.now d.event (a.pruned d.now) (u.pruned d.now)
    (pruned_congr h.webhookEvents h.watermarks) h.watermarks]
  cases (recordWebhookEvent d.now d.event).run (a.pruned d.now) <;> rfl

theorem Mirrors.target (h : Mirrors orgId tier u a) (event : Event) :
    event.target u = event.target a := by
  unfold Event.target
  rw [funext h.orgOfSubscription]

theorem Mirrors.setBy (h : Mirrors orgId tier u a) (d : Delivery) (x : EventDisposition) :
    d.setBy u x = d.setBy a x := by
  cases x with
  | ignore => rfl
  | apply =>
      unfold Delivery.setBy
      rw [h.target]
  | reconcile =>
      unfold Delivery.setBy
      rw [funext h.orgOfSubscription]

theorem Mirrors.write (h : Mirrors orgId tier u a) (d : Delivery) : d.write u = d.write a := by
  unfold Delivery.write
  rw [h.disposition, funext (h.setBy d)]

/-- The columns that are set, where there are any and an organisation for them. -/
def Db.written (db : Db) : Option (Ident × Patch) → Except Error Db
  | some (k, p) => db.patched k p
  | none => .ok db

theorem patchedAt_eq_written (db : Db) (k : Option Ident) (p : Option Patch) :
    db.patchedAt k p = db.written (k.bind fun k => p.map fun p => (k, p)) := by
  cases k <;> cases p <;> rfl

theorem Mirrors.written (h : Mirrors orgId tier u a) {w : Option (Ident × Patch)}
    (hspares : ∀ org p, a.organizations.lookup orgId = some org → org.lifecycle = .deleting →
      w = some (orgId, p) → (p.set org).stripeCustomerId = org.stripeCustomerId ∧
        (p.set org).stripeSubscriptionId = org.stripeSubscriptionId) :
    (∃ e, a.written w = .error e ∧ u.written w = .error e) ∨
      ∃ a' u', a.written w = .ok a' ∧ u.written w = .ok u' ∧
        Mirrors orgId (tierAfter orgId tier w) u' a' := by
  cases w with
  | none => exact Or.inr ⟨a, u, rfl, rfl, h⟩
  | some x =>
      obtain ⟨k, p⟩ := x
      refine h.patched fun org horg hdeleting hk => ?_
      subst hk
      exact hspares org p horg hdeleting rfl

theorem Mirrors.receipts (h : Mirrors orgId tier u a) (events : Table String WebhookEvent) :
    Mirrors orgId tier { u with webhookEvents := events } { a with webhookEvents := events } :=
  ⟨h.organizations, rfl, h.watermarks, h.kept⟩

/-- The records of a processed event. -/
def Db.processed (textGt : String → String → Bool) (now : Int) (event : Event) (db : Db) : Db :=
  { db with
    watermarks :=
      match event.subscriptionId with
      | some subscriptionId => advanced textGt event subscriptionId db.watermarks
      | none => db.watermarks
    webhookEvents := db.webhookEvents.modify event.id fun e => { e with processedAt := some now } }

theorem Mirrors.processed (h : Mirrors orgId tier u a) :
    Mirrors orgId tier (u.processed textGt now event) (a.processed textGt now event) where
  organizations := h.organizations
  webhookEvents := by
    unfold Db.processed
    rw [h.webhookEvents]
  watermarks := by
    unfold Db.processed
    rw [h.watermarks]
  kept := h.kept

theorem apply_run (stripeGet : StripeGet) (db : Db) :
    (disposeEvent textGt now stripeGet event .apply).run db =
      (db.patchedAt (event.target db) event.patch).map fun db' =>
        ((), db'.processed textGt now event) := by
  have hpatch := applyEvent_run db event
  unfold disposeEvent
  cases hpatched : db.patchedAt (event.target db) event.patch with
  | error e =>
      rw [hpatched] at hpatch
      exact Transaction.run_bind_of_error hpatch
  | ok db' =>
      rw [hpatched] at hpatch
      rw [Transaction.run_bind_of_ok hpatch]
      unfold Db.processed
      cases event.subscriptionId <;> rfl

theorem reconcile_run {subscriptionId : Ident} {observation : SubscriptionObservation}
    (hsubscription : event.subscriptionId = some subscriptionId) {stripeGet : StripeGet}
    (hobservation : getSubscription stripeGet subscriptionId = .ok observation) (db : Db) :
    (disposeEvent textGt now stripeGet event .reconcile).run db =
      (db.patchedAt (event.orgHint <|> db.orgOfSubscription subscriptionId)
        (some observation.patch)).map fun db' => ((), db'.processed textGt now event) := by
  have hpatch := reconcileSubscription_run db observation subscriptionId event.orgHint
  unfold disposeEvent
  rw [hsubscription]
  dsimp only
  rw [hobservation]
  dsimp only
  cases hpatched : db.patchedAt (event.orgHint <|> db.orgOfSubscription subscriptionId)
      (some observation.patch) with
  | error e =>
      rw [hpatched] at hpatch
      exact Transaction.run_bind_of_error hpatch
  | ok db' =>
      rw [hpatched] at hpatch
      rw [Transaction.run_bind_of_ok hpatch]
      unfold Db.processed
      rw [hsubscription]
      rfl

/-- What two runs have in common that fail both, or succeed both with databases in step. -/
def InStep (orgId : Ident) (tier : Tier) (a u : Except Error (Unit × Db)) : Prop :=
  (∃ e e', a = .error e ∧ u = .error e') ∨
    ∃ a' u', a = .ok ((), a') ∧ u = .ok ((), u') ∧ Mirrors orgId tier u' a'

theorem Mirrors.patchedAt (h : Mirrors orgId tier u a) {k : Option Ident} {p : Option Patch}
    (hspares : ∀ org p', a.organizations.lookup orgId = some org → org.lifecycle = .deleting →
      (k.bind fun k => p.map fun p => (k, p)) = some (orgId, p') →
      (p'.set org).stripeCustomerId = org.stripeCustomerId ∧
        (p'.set org).stripeSubscriptionId = org.stripeSubscriptionId) :
    InStep orgId (tierAfter orgId tier (k.bind fun k => p.map fun p => (k, p)))
      ((a.patchedAt k p).map fun db' => ((), db'.processed textGt now event))
      ((u.patchedAt k p).map fun db' => ((), db'.processed textGt now event)) := by
  rw [patchedAt_eq_written, patchedAt_eq_written]
  rcases h.written hspares with ⟨e, ha, hu⟩ | ⟨a', u', ha, hu, hmirrors⟩
  · rw [ha, hu]
    exact Or.inl ⟨e, e, rfl, rfl⟩
  · rw [ha, hu]
    exact Or.inr ⟨_, _, rfl, rfl, hmirrors.processed⟩

/-- A disposition in both databases. -/
theorem Mirrors.disposed (h : Mirrors orgId tier u a) (d : Delivery) (x : EventDisposition)
    (hspares : ∀ org p, a.organizations.lookup orgId = some org → org.lifecycle = .deleting →
      d.setBy a x = some (orgId, p) → (p.set org).stripeCustomerId = org.stripeCustomerId ∧
        (p.set org).stripeSubscriptionId = org.stripeSubscriptionId) :
    InStep orgId (tierAfter orgId tier (d.setBy a x))
      ((disposeEvent textGt d.now d.stripeGet d.event x).run a)
      ((disposeEvent textGt d.now d.stripeGet d.event x).run u) := by
  cases x with
  | ignore => exact Or.inr ⟨a, u, rfl, rfl, h⟩
  | apply =>
      rw [apply_run, apply_run, h.target]
      exact h.patchedAt hspares
  | reconcile =>
      cases hsubscription : d.event.subscriptionId with
      | none =>
          unfold disposeEvent
          rw [hsubscription]
          exact Or.inl ⟨_, _, rfl, rfl⟩
      | some subscriptionId =>
          cases hobservation : getSubscription d.stripeGet subscriptionId with
          | error e =>
              unfold disposeEvent
              rw [hsubscription]
              dsimp only
              rw [hobservation]
              exact Or.inl ⟨_, _, rfl, rfl⟩
          | ok observation =>
              rw [reconcile_run hsubscription hobservation, reconcile_run hsubscription hobservation,
                h.orgOfSubscription]
              have hset : d.setBy a .reconcile =
                  (d.event.orgHint <|> a.orgOfSubscription subscriptionId).bind fun k =>
                    (some observation.patch).map fun p => (k, p) := by
                unfold Delivery.setBy
                rw [hsubscription, Option.bind_some, hobservation]
                cases d.event.orgHint <|> a.orgOfSubscription subscriptionId <;> rfl
              rw [hset] at hspares ⊢
              exact h.patchedAt hspares

/-- An accepted event, processed in both databases. -/
theorem Mirrors.processEvent (h : Mirrors orgId tier u a) (d : Delivery)
    (haccepted : webhookVersionAccepted d.event.apiVersion) (hspares : d.Spares orgId a) :
    InStep orgId (tierAfter orgId tier (d.write a))
      ((processEvent textGt d.now d.stripeGet d.event).run a)
      ((processEvent textGt d.now d.stripeGet d.event).run u) := by
  have hu := @recordWebhookEvent_congr d.now d.event (a.pruned d.now) (u.pruned d.now)
    (pruned_congr h.webhookEvents h.watermarks) h.watermarks
  have ha := @recordWebhookEvent_congr d.now d.event (a.pruned d.now) (a.pruned d.now) rfl rfl
  have hrun : ∀ db, (Billing.processEvent textGt d.now d.stripeGet d.event).run db =
      (recordWebhookEvent d.now d.event >>= disposeEvent textGt d.now d.stripeGet d.event).run
        (db.pruned d.now) := fun _ => rfl
  rw [hrun, hrun]
  cases hrecord : (recordWebhookEvent d.now d.event).run (a.pruned d.now) with
  | error e =>
      rw [hrecord] at hu
      exact Or.inl ⟨e, e, Transaction.run_bind_of_error hrecord, Transaction.run_bind_of_error hu⟩
  | ok y =>
      obtain ⟨x, s⟩ := y
      have hwrite : d.write a = d.setBy a x := by
        rw [Delivery.write, Delivery.disposition, if_pos haccepted, hrecord]
        rfl
      rw [hrecord] at hu ha
      rw [Transaction.run_bind_of_ok (hrecord.trans ha), Transaction.run_bind_of_ok hu, hwrite]
      refine (h.receipts s.webhookEvents).disposed d x ?_
      intro org p horg hdeleting hset
      exact hspares org p horg hdeleting (hwrite.trans hset)

/-- A delivery to both databases keeps them in step. -/
theorem Mirrors.after (textGt : String → String → Bool) (h : Mirrors orgId tier u a) (d : Delivery)
    (hspares : d.Spares orgId a) :
    Mirrors orgId (d.tells textGt orgId u tier) (d.after textGt u) (d.after textGt a) := by
  unfold Delivery.tells Delivery.after
  rw [h.write]
  by_cases haccepted : webhookVersionAccepted d.event.apiVersion
  · rw [webhook_of_accepted haccepted, webhook_of_accepted haccepted]
    rcases @Mirrors.processEvent textGt _ _ _ _ h d haccepted hspares with
      ⟨e, e', ha, hu⟩ | ⟨a', u', ha, hu, hmirrors⟩
    · rw [Transaction.commit_of_error ha, Transaction.commit_of_error hu]
      exact h
    · rw [Transaction.commit_of_ok ha, Transaction.commit_of_ok hu]
      exact hmirrors
  · have hu := @recordWebhookReceipt_congr d.now d.event (a.pruned d.now) (u.pruned d.now)
      (pruned_congr h.webhookEvents h.watermarks)
    have ha := @recordWebhookReceipt_congr d.now d.event (a.pruned d.now) (a.pruned d.now) rfl
    unfold webhook
    rw [if_neg haccepted, if_neg haccepted]
    dsimp only
    have hrun : ∀ db, (do pruneWebhookEvents d.now; recordWebhookReceipt d.now d.event : Tx Bool).run
        db = (recordWebhookReceipt d.now d.event).run (db.pruned d.now) := fun _ => rfl
    cases hrecord : (recordWebhookReceipt d.now d.event).run (a.pruned d.now) with
    | error e =>
        rw [hrecord] at hu
        rw [Transaction.commit_of_error ((hrun a).trans hrecord),
          Transaction.commit_of_error ((hrun u).trans hu)]
        exact h
    | ok y =>
        obtain ⟨x, s⟩ := y
        rw [hrecord] at hu ha
        rw [Transaction.commit_of_ok ((hrun a).trans (hrecord.trans ha)),
          Transaction.commit_of_ok ((hrun u).trans hu)]
        exact h.receipts s.webhookEvents

end Both

/-! ### The operations of the deletion -/

section Operations

variable {orgId : Ident} {tier : Tier} {u a a' : Db} {s : World} {op : Op} {c : Cmd} {id : Ident}
  {d : Deletion}

theorem Mirrors.of_same (h : Mirrors orgId tier u a) (horgs : a'.organizations = a.organizations)
    (hevents : a'.webhookEvents = a.webhookEvents) (hwatermarks : a'.watermarks = a.watermarks) :
    Mirrors orgId tier u a' where
  organizations := by rw [horgs, h.organizations]
  webhookEvents := by rw [hevents, h.webhookEvents]
  watermarks := by rw [hwatermarks, h.watermarks]
  kept := by
    rw [horgs]
    exact h.kept

/-- A change of the organisation that activation and its tier cover. -/
theorem Mirrors.of_modify (h : Mirrors orgId tier u a) {f : Organization → Organization}
    (horgs : a'.organizations = a.organizations.modify orgId f)
    (hevents : a'.webhookEvents = a.webhookEvents) (hwatermarks : a'.watermarks = a.watermarks)
    (hthawed : ∀ org, (f org).thawed tier = org.thawed tier)
    (hkept : ∀ org : Organization, org.lifecycle ≠ .deleted →
      (org.lifecycle = .active → org.tier = tier) →
      (f org).lifecycle ≠ .deleted ∧ ((f org).lifecycle = .active → (f org).tier = tier)) :
    Mirrors orgId tier u a' where
  organizations := by
    rw [horgs, h.organizations, Table.modify_modify]
    exact Table.modify_congr fun org _ => (hthawed org).symm
  webhookEvents := by rw [hevents, h.webhookEvents]
  watermarks := by rw [hwatermarks, h.watermarks]
  kept := by
    intro org' horg'
    rw [horgs, Table.lookup_modify_self, Option.map_eq_some_iff] at horg'
    obtain ⟨org, horg, rfl⟩ := horg'
    obtain ⟨hdeleted, hactive⟩ := h.kept org horg
    exact hkept org hdeleted hactive

/-- What a command of the deletion may do, for the databases to stay in step. -/
def Cmd.StaysInStep (orgId : Ident) (tier : Tier) : Cmd → Prop
  | .request _ orgId' _ _ _ => orgId' = orgId
  | .finishRecovery _ _ tier' => tier' = tier
  | _ => True

/-- The operations keep the databases in step, until the organisation is deleted. -/
theorem Mirrors.writes (h : Mirrors orgId tier u s.db) (hs : s.Sound) (hissues : op.Issues c)
    (hstart : op.MayStart s)
    (hown : ∀ id d, s.db.deletions.lookup id = some d → d.orgId = orgId)
    (hstays : c.StaysInStep orgId tier) (hwrites : Writes s.now s.db c id d a') :
    a'.lifecycleOf orgId = some .deleted ∨ Mirrors orgId tier u a' := by
  cases hwrites with
  | requested _ _ _ _ _ =>
      cases hstays
      refine Or.inr (h.of_modify (f := fun org => { org with lifecycle := .deleting })
        rfl rfl rfl (fun _ => rfl) ?_)
      intro org _ _
      simp
  | @recovered lease gate tier' d hd hheld =>
      cases hstays
      obtain ⟨-, hlease, -⟩ := state_of_held hs (mem_leases_of_issues hissues hstart rfl) hd hheld
      rw [hown _ d hd] at hlease
      refine Or.inr (h.of_modify (by rw [hlease]) rfl rfl ?_ ?_)
      · intro org
        unfold Organization.reactivated
        split <;> rfl
      · intro org hdeleted hactive
        unfold Organization.reactivated
        split
        · simp
        · exact ⟨hdeleted, hactive⟩
  | @purged lease finishedAt d org fresh hd hheld horg hfresh hpermits _ =>
      refine Or.inl ?_
      have horgId := hown _ d hd
      have hdeleting : org.lifecycle = .deleting := by
        simp only [Deletion.permitsPurge, decide_eq_true_eq] at hpermits
        exact hpermits.2.1
      have hafter := @lifecycleOf_modify s.db ((s.db.purged s.now d.orgId).writeDeletion lease.id
        (d.completed finishedAt).released) d.orgId (Organization.tombstone s.now) rfl orgId
      rw [hafter, if_pos horgId.symm, horg, Option.map_some, Organization.tombstone,
        if_pos hdeleting]
  | resumed | recovering | claimed | transitioned | billingFinished | reconciled | purging
  | retried | failed | purgeRefused | recorded => exact Or.inr (h.of_same rfl rfl rfl)

/-- A deleted organisation stays deleted. -/
theorem deleted_of_writes (hdeleted : s.db.lifecycleOf orgId = some .deleted)
    (hwrites : Writes s.now s.db c id d a') : a'.lifecycleOf orgId = some .deleted := by
  obtain ⟨org, horg, hlifecycle⟩ := lifecycleOf_eq_some.1 hdeleted
  have hmodify : ∀ {k : Ident} {f : Organization → Organization},
      a'.organizations = s.db.organizations.modify k f →
      (k = orgId → (f org).lifecycle = .deleted) → a'.lifecycleOf orgId = some .deleted := by
    intro k f horgs hf
    rw [lifecycleOf_modify horgs]
    split
    · next heq =>
        subst heq
        rw [horg, Option.map_some, hf rfl]
    · exact hdeleted
  cases hwrites with
  | @requested id orgId' _ _ _ org' _ horg' hactive =>
      refine hmodify (f := fun org => { org with lifecycle := .deleting }) rfl fun heq => ?_
      subst heq
      cases horg.symm.trans horg'
      cases hlifecycle.symm.trans hactive
  | recovered =>
      refine hmodify rfl fun _ => ?_
      rw [Organization.reactivated, if_neg (by simp [hlifecycle]), hlifecycle]
  | purged =>
      refine hmodify rfl fun _ => ?_
      rw [Organization.tombstone, if_neg (by simp [hlifecycle]), hlifecycle]
  | resumed | recovering | claimed | transitioned | billingFinished | reconciled | purging
  | retried | failed | purgeRefused | recorded => exact hdeleted

/-- Operations are those of the organisation whose deletion is requested. -/
theorem own_of_writes (hown : ∀ id d, s.db.deletions.lookup id = some d → d.orgId = orgId)
    (hstays : c.StaysInStep orgId tier) (hwrites : Writes s.now s.db c id d a') :
    ∀ id d, a'.deletions.lookup id = some d → d.orgId = orgId := by
  intro id' d' hd'
  rw [lookup_of_writes hwrites] at hd'
  split at hd'
  · cases hd'
    rcases next_of_writes hwrites with ⟨hnone, -⟩ | ⟨d₁, hd₁, hnext⟩
    · cases hwrites with
      | requested => exact hstays
      | resumed hd | recovering hd | claimed hd | transitioned hd | billingFinished hd
      | reconciled hd | recovered hd | purging hd | retried hd | failed hd | purgeRefused hd
      | recorded hd | purged hd => cases hnone.symm.trans hd
    · rw [hnext.orgId]
      exact hown _ d₁ hd₁
  · exact hown id' d' hd'

/-- Without a subscription the recovery sets the free tier. -/
def Op.FreesUnlinked : Op → Cmd → Prop
  | advance _ _, .finishRecovery lease _ tier => lease.subscriptionId = none → tier = .free
  | _, _ => True

theorem freesUnlinked_handleProviderError {lease lease' : DeletionLease} {provider : Bool}
    {kind : ProviderErrorKind} {code : Option String} :
    (handleProviderError lease kind code).Uses (Op.advance lease' provider).FreesUnlinked := by
  unfold handleProviderError
  split
  · split
    · trivial
    · exact ⟨trivial, fun _ => trivial⟩
  · exact ⟨trivial, fun _ => trivial⟩

theorem freesUnlinked_withObservation {lease lease' : DeletionLease} {provider : Bool}
    {finish : SubscriptionObservation → Work} {observed : ProviderResult SubscriptionObservation}
    (h : ∀ observation, (finish observation).Uses (Op.advance lease' provider).FreesUnlinked) :
    (withObservation lease finish observed).Uses (Op.advance lease' provider).FreesUnlinked := by
  unfold withObservation
  split
  · exact h _
  · exact freesUnlinked_handleProviderError

theorem freesUnlinked_advance {lease : DeletionLease} {provider : Bool} :
    (advance lease provider).Uses (Op.advance lease provider).FreesUnlinked := by
  have hrecovery : ∀ observation, (lease.subscriptionId = none → observation = .missing) →
      (finishRecoveryWith lease observation).Uses (Op.advance lease provider).FreesUnlinked := by
    intro observation hmissing
    unfold finishRecoveryWith
    split
    · exact ⟨fun _ => rfl, fun _ => trivial⟩
    · split
      · exact freesUnlinked_handleProviderError
      · refine ⟨fun hnone => ?_, fun _ => trivial⟩
        cases hmissing hnone
  have hbilling : ∀ observation, (finishBillingWith lease observation).Uses
      (Op.advance lease provider).FreesUnlinked := by
    intro observation
    unfold finishBillingWith
    split
    · exact ⟨trivial, fun _ => trivial⟩
    · exact freesUnlinked_handleProviderError
  have hretention : ∀ observation, (finishRetentionWith lease observation).Uses
      (Op.advance lease provider).FreesUnlinked := by
    intro observation
    unfold finishRetentionWith
    split
    · exact freesUnlinked_handleProviderError
    · exact ⟨trivial, fun _ => trivial⟩
  have hadvance : ∀ recovering, (advanceBilling lease provider recovering).Uses
      (Op.advance lease provider).FreesUnlinked := by
    intro recovering
    unfold advanceBilling
    split
    · split
      · exact hrecovery _ fun _ => rfl
      · exact hbilling _
    · next subscriptionId hsubscription =>
        have hlinked : ∀ observation, lease.subscriptionId = none → observation =
            SubscriptionObservation.missing := by
          intro observation hnone
          cases hsubscription.symm.trans hnone
        split
        · exact ⟨trivial, fun _ => trivial⟩
        · split
          · exact ⟨trivial, fun _ => freesUnlinked_withObservation
              fun observation => hrecovery observation (hlinked observation)⟩
          · exact ⟨trivial, fun _ => freesUnlinked_withObservation hbilling⟩
  unfold advance
  split
  · exact ⟨trivial, fun _ => trivial⟩
  · exact hadvance false
  · exact hadvance true
  · unfold advanceRetention
    split
    · exact ⟨trivial, fun _ => trivial⟩
    · split
      · exact ⟨trivial, fun _ => freesUnlinked_withObservation hretention⟩
      · refine ⟨trivial, fun r => ?_⟩
        cases r with
        | error e => trivial
        | ok fresh => cases fresh <;> exact ⟨trivial, fun _ => trivial⟩
  · exact ⟨trivial, fun _ => trivial⟩
  all_goals trivial

theorem freesUnlinked_prog (op : Op) : op.prog.Uses op.FreesUnlinked := by
  cases op with
  | issue c => exact ⟨trivial, fun _ => trivial⟩
  | advance lease provider => exact freesUnlinked_advance

end Operations

/-! ### Runs -/

/-- The runs with deliveries whose commands meet a condition. -/
def deliveriesIf (meets : (c : Cmd) → World × List Delivery → c.Reply → World × List Delivery →
    Prop) : System.Condition Nat Cmd.Reply (World × List Delivery) Unit Op
      (Except Error (Option DeletionView)) where
  start _ _ _ _ := True
  exec _ c s _ r s' _ := meets c s r s'
  finish _ _ _ _ _ := True

/-- What holds of every state: the operations are those of one organisation, and until it is
deleted the deliveries alone would have led to a database that is in step. -/
structure Alongside (textGt : String → String → Bool) (orgId : Ident) (db₀ : Db)
    (s : World × List Delivery) : Prop where
  own : ∀ id d, s.1.db.deletions.lookup id = some d → d.orgId = orgId
  mirrors : s.1.db.lifecycleOf orgId = some .deleted ∨
    Mirrors orgId (told textGt orgId db₀ s.2) (delivered textGt s.2 db₀) s.1.db

section Runs

variable {textGt : String → String → Bool} {orgId : Ident} {db₀ : Db}
  {w₀ w : Config Nat Cmd.Reply (World × List Delivery) Unit Op
    (Except Error (Option DeletionView))}

theorem Mirrors.start {db : Db}
    (hactive : ∀ org, db.organizations.lookup orgId = some org → org.lifecycle = .active) :
    Mirrors orgId (told textGt orgId db []) (delivered textGt [] db) db := by
  have htier : ∀ org, db.organizations.lookup orgId = some org →
      org.tier = told textGt orgId db [] := by
    intro org horg
    show _ = ((db.organizations.lookup orgId).map Organization.tier).getD .free
    rw [horg]
    rfl
  refine ⟨?_, rfl, rfl, ?_⟩
  · refine (Table.modify_eq_self fun org horg => ?_).symm
    exact thawed_of_active (hactive org horg) (htier org horg)
  · intro org horg
    exact ⟨by simp [hactive org horg], fun _ => htier org horg⟩

/-- A command that meets the conditions keeps the databases in step. -/
theorem Alongside.executes {op : Op} {c : Cmd} {s s' : World × List Delivery} {r : c.Reply}
    (h : Alongside textGt orgId db₀ s) (hs : s.1.Sound) (hissues : op.Issues c)
    (hfrees : op.FreesUnlinked c) (hstart : op.MayStart s.1)
    (he : Executes textGt c s.1 r s'.1) (hdelivers : c.Delivers textGt s.1 s'.1 s.2 s'.2)
    (hconsistent : Consistent textGt orgId db₀ c s r s')
    (hrecoverable : Recoverable textGt orgId db₀ c s s') : Alongside textGt orgId db₀ s' := by
  by_cases hwebhook : ∃ event, c = .webhook event
  · obtain ⟨event, rfl⟩ := hwebhook
    obtain ⟨stripeGet, hds, hdb⟩ := hdelivers
    have hrelinks : Relinks s.1.db s'.1.db := by
      rw [hdb]
      exact relinks_webhook
    refine ⟨?_, ?_⟩
    · rw [hrelinks.deletions]
      exact h.own
    · rcases h.mirrors with hdeleted | hmirrors
      · exact Or.inl ((lifecycleOf_relinks hrelinks orgId).trans hdeleted)
      · refine Or.inr ?_
        rw [hdb, hds, told_append, delivered_append]
        exact hmirrors.after textGt _ (hrecoverable _ hds)
  · have hds : s'.2 = s.2 := by
      cases c with
      | webhook event => exact absurd ⟨event, rfl⟩ hwebhook
      | _ => exact hdelivers
    have hsame : s'.1.db = s.1.db → Alongside textGt orgId db₀ s' := by
      intro hdb
      refine ⟨?_, ?_⟩
      · rw [hdb]
        exact h.own
      · rw [hdb, hds]
        exact h.mirrors
    by_cases hdb : s'.1.db = s.1.db
    · exact hsame hdb
    · have hstays : c.StaysInStep orgId (told textGt orgId db₀ s.2) := by
        cases c with
        | request id orgId' actor confirmationOrgId retentionDays => exact hconsistent
        | finishRecovery lease gate tier =>
            by_cases hlinked : lease.subscriptionId = none
            · cases op with
              | issue c =>
                  cases hissues
                  cases hstart
              | advance lease' provider =>
                  exact (hfrees hlinked).trans (hrecoverable hlinked hdb).symm
            · exact hconsistent hlinked hdb
        | _ => trivial
      cases ends_of_executes he with
      | kept h' _ => exact absurd h' hdb
      | relinked hc => exact absurd ⟨_, hc⟩ hwebhook
      | refused _ _ h' _ => exact absurd h' hdb
      | written hwrites _ _ =>
          refine ⟨own_of_writes h.own hstays hwrites, ?_⟩
          rw [hds]
          rcases h.mirrors with hdeleted | hmirrors
          · exact Or.inl (deleted_of_writes hdeleted hwrites)
          · exact hmirrors.writes hs hissues hstart h.own hstays hwrites

theorem alongside_of_reaches (hopening : Situation.Opening (System.forget w₀))
    (hnone : w₀.shared.2 = [])
    (hrun : ((deliverySystem textGt).restrict (deliveriesIf fun c s r s' =>
      Consistent textGt orgId w₀.shared.1.db c s r s' ∧
        Recoverable textGt orgId w₀.shared.1.db c s s')).Reaches w₀ w) :
    Alongside textGt orgId w₀.shared.1.db w.shared := by
  induction hrun with
  | refl =>
      refine ⟨?_, ?_⟩
      · intro id d hd
        have hnone : w₀.shared.1.db.deletions = ∅ := hopening.deletions
        rw [hnone] at hd
        cases hd
      · rw [hnone]
        exact Or.inr (Mirrors.start (hopening.active orgId))
  | @tail w₁ w₂ hrun hstep ih =>
      have hforget := System.Reaches.forgets (System.Reaches.of_restrict hrun)
      cases hstep with
      | start _ _ => exact ih
      | finish _ _ => exact ih
      | call hr he =>
          obtain ⟨huses, hstart⟩ := issues_of_reaches hopening.idle hforget hr
          have hfrees := (System.Reaches.running (fun _ => freesUnlinked_prog)
            (I := fun _ _ => True) (fun _ => trivial) (fun _ _ => trivial) hopening.idle hforget
            hr).1
          exact ih.executes (sound_of_reaches hopening.toFresh hforget) huses.1 hfrees.1 hstart
            he.1.1 he.1.2 he.2.1 he.2.2

/-- Whenever the organisation is active, it has the billing columns that the same deliveries would
have given it without the deletion. -/
theorem recovery_restores (hopening : Situation.Opening (System.forget w₀))
    (hnone : w₀.shared.2 = [])
    (hrun : ((deliverySystem textGt).restrict (deliveriesIf fun c s r s' =>
      Consistent textGt orgId w₀.shared.1.db c s r s' ∧
        Recoverable textGt orgId w₀.shared.1.db c s s')).Reaches w₀ w) :
    Restored textGt orgId w₀.shared.1.db w.shared := by
  intro org horg hactive
  rcases (alongside_of_reaches hopening hnone hrun).mirrors with hdeleted | hmirrors
  · rw [Db.lifecycleOf, horg, Option.map_some, hactive] at hdeleted
    cases hdeleted
  · refine ⟨org.thawed (told textGt orgId w₀.shared.1.db w.shared.2), ?_, ?_, rfl, rfl⟩
    · rw [hmirrors.organizations, Table.lookup_modify_self, horg, Option.map_some]
    · exact (hmirrors.kept org horg).2 hactive

end Runs

/-! ### Two recoveries

A deletion is requested and cancelled before a worker has begun to cancel the billing. -/

namespace Recovered

/-- The world with one organisation. -/
def worldOf (org : Organization) : World :=
  { Checkout.world with
    db := { Checkout.world.db with organizations := AList.insert (.text "org") org ∅ } }

/-- An organisation whose tier was assigned by hand. -/
def assigned : World := worldOf { Checkout.org with tier := .team }

/-- An organisation that has subscribed. -/
def subscribed : World :=
  worldOf { Checkout.org with
    tier := .team
    stripeCustomerId := some (.text "customer")
    stripeSubscriptionId := some (.text "subscription") }

def lease (subscriptionId : Option Ident) : DeletionLease :=
  { Checkout.lease .recovering 2 1 with subscriptionId := subscriptionId }

/-- The subscription goes on. -/
def renewal (now : Int) : Delivery where
  now := now
  stripeGet _ := .error .malformedResponse
  event := subscriptionEvent .subscriptionUpdated "event" 0 (.text "subscription") (some "active")

section Stages

variable (s : World)

/-- The operation recovers, and a worker has claimed it. -/
def recovering : World := Checkout.claimed (Checkout.cancelled s)

/-- The recovery ends. -/
def recovered (subscriptionId : Option Ident) (gate : PurgeGate) (tier : Tier) : World :=
  (s.commit (finishRecovery s.now (lease subscriptionId) gate tier)).2

/-- The event of the subscription is delivered. -/
def renewed : World :=
  { s.withDb ((renewal s.now).after (fun _ _ => false) s.db) with
    deliveries := (s.now, (renewal s.now).event) :: s.deliveries }

end Stages

abbrev system := deliverySystem fun _ _ => false

abbrev Case := Config Nat Cmd.Reply (World × List Delivery) Unit Op
  (Except Error (Option DeletionView))

/-- Nothing is running. -/
def calm (s : World) (ds : List Delivery) : Case := ⟨(s, ds), fun _ => ⟨(), none⟩⟩

section Runs

variable {meets : (c : Cmd) → World × List Delivery → c.Reply → World × List Delivery → Prop}
  {s s' : World} {ds ds' : List Delivery}

theorem reaches_alone (op : Op) {a : Except Error (Option DeletionView)} (hstart : op.MayStart s)
    (h : System.Alone ((system.restrict (deliveriesIf meets)).exec 0) op.prog (s, ds) () a
      (s', ds') ()) : (system.restrict (deliveriesIf meets)).Reaches (calm s ds) (calm s' ds') :=
  System.Alone.quiet 0 h ⟨hstart, trivial⟩ ⟨trivial, trivial⟩

theorem reaches_issue (c : Cmd) (r : c.Reply) (hstart : (Op.issue c).MayStart s)
    (he : Executes (fun _ _ => false) c s r s') (hd : c.Delivers (fun _ _ => false) s s' ds ds')
    (h : meets c (s, ds) r (s', ds')) :
    (system.restrict (deliveriesIf meets)).Reaches (calm s ds) (calm s' ds') := by
  have hexec : (system.restrict (deliveriesIf meets)).exec 0 c (s, ds) () r (s', ds') () :=
    ⟨⟨he, hd⟩, h⟩
  exact reaches_alone (.issue c) hstart (.call hexec .ret)

theorem reaches_requested
    (h : meets (.request (.text "operation") (.text "org") (.text "owner") (.text "org") 30)
      (s, ds) (s.commit (requestWithRetention s.now (.text "operation") (.text "org")
        (.text "owner") (.text "org") 30)).1 (Checkout.requested s, ds)) :
    (system.restrict (deliveriesIf meets)).Reaches (calm s ds) (calm (Checkout.requested s) ds) :=
  reaches_issue (.request (.text "operation") (.text "org") (.text "owner") (.text "org") 30) _
    trivial (.request rfl) rfl h

/-- The cancellation and the claim by a worker. -/
theorem reaches_recovering
    (h : meets (.cancel (.text "org") (.text "owner")) (s, ds)
      (s.commit (cancel s.now (.text "org") (.text "owner"))).1 (Checkout.cancelled s, ds))
    (h' : meets (.claim "worker" []) (Checkout.cancelled s, ds)
      ((Checkout.cancelled s).commit (claimDue (Checkout.cancelled s).now "worker" [])).1
      (recovering s, ds)) :
    (system.restrict (deliveriesIf meets)).Reaches (calm s ds) (calm (recovering s) ds) := by
  have hcancel : (system.restrict (deliveriesIf meets)).Reaches (calm s ds)
      (calm (Checkout.cancelled s) ds) :=
    reaches_issue (.cancel (.text "org") (.text "owner")) _ trivial (.cancel rfl) rfl h
  have hclaim : (system.restrict (deliveriesIf meets)).Reaches (calm (Checkout.cancelled s) ds)
      (calm (recovering s) ds) :=
    reaches_issue (.claim "worker" []) _ trivial (.claim rfl) rfl h'
  exact hcancel.trans hclaim

end Runs

/-- The recovery of the organisation whose tier was assigned by hand. -/
def claimed : World := recovering (Checkout.requested assigned)

theorem claimed_lease : lease none ∈ claimed.leases := by decide +kernel

/-- The runs of the subscriber's organisation that restore its billing. -/
abbrev restoring := system.restrict (deliveriesIf fun c s r s' =>
  Consistent (fun _ _ => false) (.text "org") subscribed.db c s r s' ∧
    Recoverable (fun _ _ => false) (.text "org") subscribed.db c s s')

/-- The runs of the other organisation. -/
abbrev assigning := system.restrict (deliveriesIf
  (Consistent (fun _ _ => false) (.text "org") assigned.db))

/-- The events are delivered while the deletion is in progress, and the owner cancels it. -/
def claimedLate : World := recovering (renewed (Checkout.requested subscribed))

theorem claimedLate_lease : lease (some (.text "subscription")) ∈ claimedLate.leases := by
  decide +kernel

theorem renewal_spares : (renewal 0).Spares (.text "org") (Checkout.requested subscribed).db := by
  have hids : ((renewal 0).write (Checkout.requested subscribed).db).map (fun x =>
      (x.2.customer, x.2.subscription)) = some (none, none) := by decide +kernel
  intro org p _ _ hwrite
  rw [hwrite, Option.map_some, Option.some.injEq, Prod.mk.injEq] at hids
  obtain ⟨hcustomer, hsubscription⟩ : p.customer = none ∧ p.subscription = none := hids
  simp [Patch.set, hcustomer, hsubscription]

theorem opening_worldOf {org : Organization} (hactive : org.lifecycle = .active) :
    Situation.Opening (System.forget (calm (worldOf org) [])) := by
  refine ⟨⟨fun _ => rfl, rfl, rfl⟩, ?_⟩
  intro orgId org' horg'
  change (AList.insert (.text "org") org ∅ : Table Ident Organization).lookup orgId = _ at horg'
  rw [Table.lookup_insert] at horg'
  split at horg'
  · cases horg'
    exact hactive
  · cases horg'

end Recovered

/-- A recovery takes away a tier that was assigned by hand. -/
theorem recovery_restores_not : ¬ ∀ (textGt : String → String → Bool) (orgId : Ident)
    (w₀ w : Recovered.Case), Situation.Opening (System.forget w₀) → w₀.shared.2 = [] →
    ((deliverySystem textGt).restrict (deliveriesIf
      (Consistent textGt orgId w₀.shared.1.db))).Reaches w₀ w →
    Restored textGt orgId w₀.shared.1.db w.shared := by
  intro h
  have hrequest : Recovered.assigning.Reaches (Recovered.calm Recovered.assigned [])
      (Recovered.calm (Checkout.requested Recovered.assigned) []) :=
    Recovered.reaches_requested rfl
  have hcancel : Recovered.assigning.Reaches
      (Recovered.calm (Checkout.requested Recovered.assigned) [])
      (Recovered.calm Recovered.claimed []) := Recovered.reaches_recovering trivial trivial
  have hrecover : Recovered.assigning.Reaches (Recovered.calm Recovered.claimed [])
      (Recovered.calm (Recovered.recovered Recovered.claimed none .missing .free) []) := by
    have hexec : Recovered.assigning.exec 0
        (.finishRecovery (Recovered.lease none) .missing .free) (Recovered.claimed, []) () _
        (Recovered.recovered Recovered.claimed none .missing .free, []) () :=
      ⟨⟨.finishRecovery rfl, rfl⟩, fun hlinked => absurd rfl hlinked⟩
    exact Recovered.reaches_alone (.advance (Recovered.lease none) true) Recovered.claimed_lease
      (.call hexec .ret)
  have hrestored := h (fun _ _ => false) (.text "org") (Recovered.calm Recovered.assigned [])
    (Recovered.calm (Recovered.recovered Recovered.claimed none .missing .free) [])
    (Recovered.opening_worldOf rfl) rfl (hrequest.trans (hcancel.trans hrecover))
  have hfree : ((Recovered.recovered Recovered.claimed none .missing
      .free).db.organizations.lookup (.text "org")).any fun org =>
        org.lifecycle = .active ∧ org.tier = .free := by decide +kernel
  rw [Option.any_eq_true] at hfree
  obtain ⟨org, horg, hfree⟩ := hfree
  obtain ⟨hactive, hfree⟩ := of_decide_eq_true hfree
  obtain ⟨org', horg', htier, -⟩ := hrestored org horg hactive
  cases horg'
  rw [hfree] at htier
  cases htier

/-- A subscriber has its plan again. -/
theorem recovery_restores_subscribed : Restored (fun _ _ => false) (.text "org")
    Recovered.subscribed.db (Recovered.recovered Recovered.claimedLate
      (some (.text "subscription")) .blocking .team, [Recovered.renewal 0]) := by
  have hrequest : Recovered.restoring.Reaches
      (Recovered.calm Recovered.subscribed [])
      (Recovered.calm (Checkout.requested Recovered.subscribed) []) :=
    Recovered.reaches_requested ⟨rfl, trivial⟩
  have hrenew : Recovered.restoring.Reaches
      (Recovered.calm (Checkout.requested Recovered.subscribed) [])
      (Recovered.calm (Recovered.renewed (Checkout.requested Recovered.subscribed))
        [Recovered.renewal 0]) := by
    have hok : (webhook (fun _ _ => false) 0 (Recovered.renewal 0).stripeGet
        (Recovered.renewal 0).event (Checkout.requested Recovered.subscribed).db).1 = .ok () := by
      decide +kernel
    refine Recovered.reaches_issue (.webhook (Recovered.renewal 0).event) (.ok ()) trivial
      (.webhook (Prod.ext hok rfl)) ⟨(Recovered.renewal 0).stripeGet, rfl, rfl⟩ ⟨trivial, ?_⟩
    intro d hd
    have hd : [Recovered.renewal 0] = [d] := hd
    cases hd
    exact Recovered.renewal_spares
  have hcancel : Recovered.restoring.Reaches
      (Recovered.calm (Recovered.renewed (Checkout.requested Recovered.subscribed))
        [Recovered.renewal 0]) (Recovered.calm Recovered.claimedLate [Recovered.renewal 0]) :=
    Recovered.reaches_recovering ⟨trivial, trivial⟩ ⟨trivial, trivial⟩
  have hrecover : Recovered.restoring.Reaches
      (Recovered.calm Recovered.claimedLate [Recovered.renewal 0])
      (Recovered.calm (Recovered.recovered Recovered.claimedLate (some (.text "subscription"))
        .blocking .team) [Recovered.renewal 0]) := by
    have hask : Recovered.restoring.exec 0
        (.getSubscription (.text "subscription"))
        (Recovered.claimedLate, [Recovered.renewal 0]) ()
        (.ok (.current ⟨.text "subscription", .active⟩))
        (Recovered.claimedLate, [Recovered.renewal 0]) () :=
      ⟨⟨.getSubscription, rfl⟩, trivial, trivial⟩
    have htold : Tier.team = told (fun _ _ => false) (.text "org") Recovered.subscribed.db
        [Recovered.renewal 0] := by decide +kernel
    have hexec : Recovered.restoring.exec 0
        (.finishRecovery (Recovered.lease (some (.text "subscription"))) .blocking .team)
        (Recovered.claimedLate, [Recovered.renewal 0]) () _
        (Recovered.recovered Recovered.claimedLate (some (.text "subscription")) .blocking .team,
          [Recovered.renewal 0]) () :=
      ⟨⟨.finishRecovery rfl, rfl⟩, fun _ _ => htold, fun hnone => by cases hnone⟩
    exact Recovered.reaches_alone (.advance (Recovered.lease (some (.text "subscription"))) true)
      Recovered.claimedLate_lease (.call hask (.call hexec .ret))
  exact @recovery_restores _ _ (Recovered.calm Recovered.subscribed []) _
    (Recovered.opening_worldOf rfl) rfl
    (hrequest.trans (hrenew.trans (hcancel.trans hrecover)))

end Billing

end Sotto
