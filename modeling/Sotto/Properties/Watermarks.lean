import Sotto.Properties.Subscriptions

/-!
# Watermarks over runs of deliveries

Events are delivered at least once, in any order, and their receipts are removed after a while. A
delivery applies the payload of its event only if the event is newer than the watermark of its
subscription, which moves to it. So the watermark stands in for the receipts that were removed.
-/

namespace Sotto

namespace Billing

open Core
open Server (Tier LifecycleState)

/-- The disposition of the event of a delivery. -/
def Delivery.disposition (d : Delivery) (db : Db) : Option EventDisposition :=
  if webhookVersionAccepted d.event.apiVersion then
    match (recordWebhookEvent d.now d.event).run (db.pruned d.now) with
    | .ok (disposition, _) => some disposition
    | .error _ => none
  else none

section Deliveries

variable (textGt : String → String → Bool)

/-- A delivery is committed with a disposition of its event. -/
def Delivery.Disposes (d : Delivery) (disposition : EventDisposition) (db : Db) : Prop :=
  d.disposition db = some disposition ∧ (webhook textGt d.now d.stripeGet d.event db).1 = .ok ()

/-- A run of deliveries, each with the database that it finds. Receipts are also removed between
deliveries, and other requests leave the receipts and the watermarks alone. -/
inductive DeliveryRun : Db → List (Delivery × Db) → Db → Prop
  | start (db : Db) : DeliveryRun db [] db
  | deliver {db db' ds} (d : Delivery) : DeliveryRun db ds db' →
      DeliveryRun db (ds ++ [(d, db')]) (d.after textGt db')
  | prune {db db' ds} (now : Int) : DeliveryRun db ds db' → DeliveryRun db ds (db'.pruned now)
  | other {db db' db'' ds} : DeliveryRun db ds db' → db''.webhookEvents = db'.webhookEvents →
      db''.watermarks = db'.watermarks → DeliveryRun db ds db''

/-- An event was processed, though its receipt may be gone. -/
def Known (ds : List (Delivery × Db)) (db : Db) (eventId : String) : Prop :=
  db.Processed eventId ∨ ∃ x ∈ ds, (x.1.after textGt x.2).Processed eventId

/-- Watermarks in the order of creation times and, at one time, of event ids. -/
def Watermark.AtMost (w w' : Watermark) : Prop :=
  w.stripeCreated < w'.stripeCreated ∨
    (w.stripeCreated = w'.stripeCreated ∧ w.eventId ≤ w'.eventId)

/-- What holds of one delivery of a run, after the earlier ones. -/
structure Delivery.Guarded (d : Delivery) (subscriptionId : Ident) (ds : List (Delivery × Db))
    (db : Db) : Prop where
  /-- An applied event is newer than the watermark and becomes it. -/
  increases : d.Disposes textGt .apply db →
    (∀ w, db.watermarks.lookup subscriptionId = some w → w.stripeCreated < d.event.created) ∧
      (d.after textGt db).watermarks.lookup subscriptionId =
        some ⟨d.event.created, d.event.id⟩
  /-- No watermark moves back. -/
  forward : ∀ sub w, db.watermarks.lookup sub = some w →
    ∃ w', (d.after textGt db).watermarks.lookup sub = some w' ∧ w.AtMost w'
  /-- Organisations change only by the payload or by the provider's state. -/
  changes : (d.after textGt db).organizations ≠ db.organizations →
    (d.Disposes textGt .apply db ∧ ∃ db', db.patchedAt (d.event.target db) d.event.patch = .ok db' ∧
        (d.after textGt db).organizations = db'.organizations) ∨
      (d.Disposes textGt .reconcile db ∧ ∃ observation db',
        getSubscription d.stripeGet subscriptionId = .ok observation ∧
        db.patchedAt (d.event.orgHint <|> db.orgOfSubscription subscriptionId)
          (some observation.patch) = .ok db' ∧
        (d.after textGt db).organizations = db'.organizations)
  /-- An event is reconciled only at the time of the watermark. -/
  ties : d.Disposes textGt .reconcile db → d.event.Ties subscriptionId db
  /-- The payload of an event that was processed is not applied. -/
  known : Known textGt ds db d.event.id → ¬ d.Disposes textGt .apply db
  /-- An event that is older than the watermark changes no organisation. -/
  older : (∃ w, db.watermarks.lookup subscriptionId = some w ∧ ¬ d.event.Newer w) →
    (d.after textGt db).organizations = db.organizations
  /-- An event that was applied changes no organisation again. -/
  once : ∀ x ∈ ds, x.1.event = d.event → x.1.Disposes textGt .apply x.2 →
    (d.after textGt db).organizations = db.organizations

end Deliveries

section Order

variable {w w' w'' : Watermark} {event : Event}

theorem Watermark.AtMost.refl (w : Watermark) : w.AtMost w := Or.inr ⟨rfl, le_refl _⟩

theorem Watermark.AtMost.trans (h : w.AtMost w') (h' : w'.AtMost w'') : w.AtMost w'' := by
  unfold Watermark.AtMost at *
  rcases h with h | ⟨h, hid⟩
  · rcases h' with h' | ⟨h', -⟩ <;> exact Or.inl (by omega)
  · rcases h' with h' | ⟨h', hid'⟩
    · exact Or.inl (by omega)
    · exact Or.inr ⟨h.trans h', le_trans hid hid'⟩

theorem Watermark.AtMost.created (h : w.AtMost w') : w.stripeCreated ≤ w'.stripeCreated := by
  rcases h with h | ⟨h, -⟩ <;> omega

/-- An event that is not newer than a watermark is not newer than a later one. -/
theorem not_newer_of_atMost (h : w.AtMost w') (hnot : ¬ event.Newer w) : ¬ event.Newer w' := by
  unfold Event.Newer at *
  rintro (hlt | ⟨heq, hid⟩)
  · exact hnot (Or.inl (lt_of_le_of_lt h.created hlt))
  · rcases h with h | ⟨h, hle⟩
    · exact hnot (Or.inl (heq ▸ h))
    · exact hnot (Or.inr ⟨h.trans heq, lt_of_le_of_lt hle hid⟩)

theorem atMost_of_newer (h : event.Newer w) : w.AtMost ⟨event.created, event.id⟩ :=
  h.imp_right fun ⟨heq, hid⟩ => ⟨heq, le_of_lt hid⟩

end Order

section Advanced

variable {textGt : String → String → Bool} {event : Event} {sub subscriptionId : Ident}
  {watermarks : Table Ident Watermark} {w : Watermark}

theorem lookup_advanced_of_ne (h : sub ≠ subscriptionId) :
    (advanced textGt event subscriptionId watermarks).lookup sub = watermarks.lookup sub := by
  unfold advanced
  split
  · rw [Table.lookup_insert, if_neg h]
  · split
    · rw [Table.lookup_modify, if_neg h]
    · rfl

/-- The watermark after a newer event. At one time the order of the database decides. -/
theorem lookup_advanced (textGt : String → String → Bool)
    (hnewer : ∀ w, watermarks.lookup subscriptionId = some w → event.Newer w) :
    ∃ w', (advanced textGt event subscriptionId watermarks).lookup subscriptionId = some w' ∧
      (∀ w, watermarks.lookup subscriptionId = some w → w.AtMost w') ∧
      w'.stripeCreated = event.created ∧
      ((∀ w, watermarks.lookup subscriptionId = some w → w.stripeCreated ≠ event.created) →
        w' = ⟨event.created, event.id⟩) := by
  unfold advanced
  cases hw : watermarks.lookup subscriptionId with
  | none =>
      refine ⟨⟨event.created, event.id⟩, ?_, by simp, rfl, fun _ => rfl⟩
      dsimp only
      rw [Table.lookup_insert, if_pos rfl]
  | some w =>
      have hn := hnewer w hw
      dsimp only
      by_cases hmoves : event.created > w.stripeCreated ∨
          (event.created = w.stripeCreated ∧ textGt event.id w.eventId = true)
      · refine ⟨⟨event.created, event.id⟩, ?_, ?_, rfl, fun _ => rfl⟩
        · rw [if_pos hmoves, Table.lookup_modify, if_pos rfl, hw, Option.map_some]
        · rintro _ ⟨⟩
          exact atMost_of_newer hn
      · rw [if_neg hmoves]
        have hcreated : w.stripeCreated = event.created := by
          rcases hn with hlt | ⟨heq, -⟩
          · exact absurd (Or.inl hlt) hmoves
          · exact heq
        refine ⟨w, hw, ?_, hcreated, fun h => absurd hcreated (h w rfl)⟩
        rintro _ ⟨⟩
        exact Watermark.AtMost.refl w

end Advanced

/-! ### One delivery -/

section Step

variable {textGt : String → String → Bool} {db : Db} {d : Delivery} {subscriptionId : Ident}
  {disposition : EventDisposition}

theorem newer_of_isNew (h : d.event.IsNew subscriptionId (db.pruned d.now)) :
    ∀ w, db.watermarks.lookup subscriptionId = some w → d.event.Newer w :=
  h.2

theorem handled_of_accepted (textGt : String → String → Bool) (db : Db)
    (haccepted : webhookVersionAccepted d.event.apiVersion)
    (hsubscription : d.event.subscriptionId = some subscriptionId) :
    d.event.Handled textGt d.now d.stripeGet subscriptionId db (d.after textGt db) :=
  webhook_handled textGt d.now d.stripeGet db haccepted hsubscription

theorem disposition_of_accepted (db : Db)
    (haccepted : webhookVersionAccepted d.event.apiVersion)
    (hsubscription : d.event.subscriptionId = some subscriptionId)
    (hcreated : 0 ≤ d.event.created) :
    ∃ disposition, d.disposition db = some disposition ∧
      d.event.Disposed subscriptionId (db.pruned d.now) disposition := by
  obtain ⟨disposition, events, hrun, -, hdisposed⟩ :=
    recordWebhookEvent_run d.now (db.pruned d.now) hsubscription hcreated
  refine ⟨disposition, ?_, hdisposed⟩
  rw [Delivery.disposition, if_pos haccepted, hrun]

theorem accepted_of_disposition (h : d.disposition db = some disposition) :
    webhookVersionAccepted d.event.apiVersion ∧ 0 ≤ d.event.created := by
  unfold Delivery.disposition at h
  split at h
  · next haccepted =>
      refine ⟨haccepted, ?_⟩
      by_contra hcreated
      have hrun : (recordWebhookEvent d.now d.event).run (db.pruned d.now) = .error .db :=
        Transaction.run_bind_of_error (recordWebhookReceipt_error hcreated)
      rw [hrun] at h
      cases h
  · cases h

theorem disposed_of_disposition (h : d.disposition db = some disposition)
    (hsubscription : d.event.subscriptionId = some subscriptionId) :
    d.event.Disposed subscriptionId (db.pruned d.now) disposition := by
  obtain ⟨haccepted, hcreated⟩ := accepted_of_disposition h
  obtain ⟨disposition', h', hdisposed⟩ :=
    disposition_of_accepted db haccepted hsubscription hcreated
  rw [h] at h'
  cases h'
  exact hdisposed

/-- A request that fails changes no organisation. -/
theorem ok_of_organizations_ne (h : (d.after textGt db).organizations ≠ db.organizations) :
    (webhook textGt d.now d.stripeGet d.event db).1 = .ok () := by
  by_cases haccepted : webhookVersionAccepted d.event.apiVersion
  · have hwebhook : webhook textGt d.now d.stripeGet d.event db =
        (processEvent textGt d.now d.stripeGet d.event).commit db := webhook_of_accepted haccepted
    rcases Transaction.commit_cases (processEvent textGt d.now d.stripeGet d.event) db with
      ⟨u, db', -, hcommit⟩ | ⟨e, -, hcommit⟩
    · rw [hwebhook, hcommit]
    · refine absurd ?_ h
      rw [Delivery.after, hwebhook, hcommit]
  · exact absurd (organizations_of_refused haccepted) h

/-- A committed request runs its parts one after another. -/
theorem disposeEvent_of_disposes (h : d.Disposes textGt disposition db)
    (hsubscription : d.event.subscriptionId = some subscriptionId) :
    ∃ events db', (disposeEvent textGt d.now d.stripeGet d.event disposition).run
      { db with webhookEvents := events } = .ok ((), db') := by
  obtain ⟨haccepted, hcreated⟩ := accepted_of_disposition h.1
  obtain ⟨disposition', events, hrecord, -⟩ :=
    recordWebhookEvent_run d.now (db.pruned d.now) hsubscription hcreated
  have hsame : disposition' = disposition := by
    have hdisposition := h.1
    rw [Delivery.disposition, if_pos haccepted, hrecord] at hdisposition
    exact Option.some.inj hdisposition
  subst hsame
  have hok := h.2
  rw [webhook_of_accepted haccepted] at hok
  rcases Transaction.commit_cases (processEvent textGt d.now d.stripeGet d.event) db with
    ⟨_, db', hrun, -⟩ | ⟨e, -, hcommit⟩
  · have hparts : (processEvent textGt d.now d.stripeGet d.event).run db =
        (disposeEvent textGt d.now d.stripeGet d.event disposition').run
          { db with webhookEvents := events } :=
      Transaction.run_bind_of_ok hrecord
    exact ⟨events, db', hparts.symm.trans hrun⟩
  · rw [hcommit] at hok
    cases hok

/-- The payload of an applied event is written. -/
theorem patchedAt_of_applies (h : d.Disposes textGt .apply db)
    (hsubscription : d.event.subscriptionId = some subscriptionId) :
    ∃ db', db.patchedAt (d.event.target db) d.event.patch = .ok db' := by
  obtain ⟨events, db', hrun⟩ := disposeEvent_of_disposes h hsubscription
  obtain ⟨_, db₁, hpatch, -⟩ := Transaction.bind_eq_ok.1 hrun
  rw [applyEvent_run, patchedAt_webhookEvents] at hpatch
  cases hpatched : db.patchedAt (d.event.target db) d.event.patch with
  | ok db₂ => exact ⟨db₂, rfl⟩
  | error e =>
      have htarget : d.event.target { db with webhookEvents := events } = d.event.target db := rfl
      rw [htarget, hpatched] at hpatch
      cases hpatch

/-- The event of a delivery is newer than the watermark, which is from another time. -/
theorem applied_of_disposes (h : d.Disposes textGt .apply db)
    (hsubscription : d.event.subscriptionId = some subscriptionId) :
    d.event.IsNew subscriptionId (db.pruned d.now) ∧ ¬ d.event.Ties subscriptionId db ∧
      (d.after textGt db).watermarks = advanced textGt d.event subscriptionId db.watermarks := by
  obtain ⟨haccepted, hcreated⟩ := accepted_of_disposition h.1
  have hdisposed := disposed_of_disposition h.1 hsubscription
  obtain ⟨db₁, hpatched⟩ := patchedAt_of_applies h hsubscription
  have hhandled := handled_of_accepted textGt db haccepted hsubscription
  generalize d.after textGt db = after at hhandled
  cases hdisposed with
  | apply hnew hties =>
      refine ⟨hnew, hties, ?_⟩
      cases hhandled with
      | malformed hnegative => omega
      | ignored _ hold => exact absurd hnew hold
      | notApplied _ _ herror =>
          rw [hpatched] at herror
          cases herror
      | reconciled _ _ htie => exact absurd htie hties
      | notObserved _ htie => exact absurd htie hties
      | notReconciled _ htie => exact absurd htie hties
      | applied _ _ _ hpatched' => rfl

theorem ties_of_reconciles (h : d.Disposes textGt .reconcile db)
    (hsubscription : d.event.subscriptionId = some subscriptionId) :
    d.event.Ties subscriptionId db := by
  cases disposed_of_disposition h.1 hsubscription with
  | reconcile _ hties => exact hties

/-- Organisations change only by the payload of an applied event, or by the provider's state. -/
theorem changes_of_after (hsubscription : d.event.subscriptionId = some subscriptionId)
    (hne : (d.after textGt db).organizations ≠ db.organizations) :
    d.event.IsNew subscriptionId (db.pruned d.now) ∧
      ((d.Disposes textGt .apply db ∧ ∃ db',
          db.patchedAt (d.event.target db) d.event.patch = .ok db' ∧
          (d.after textGt db).organizations = db'.organizations) ∨
        (d.Disposes textGt .reconcile db ∧ ∃ observation db',
          getSubscription d.stripeGet subscriptionId = .ok observation ∧
          db.patchedAt (d.event.orgHint <|> db.orgOfSubscription subscriptionId)
            (some observation.patch) = .ok db' ∧
          (d.after textGt db).organizations = db'.organizations)) := by
  have hok := ok_of_organizations_ne hne
  by_cases haccepted : webhookVersionAccepted d.event.apiVersion
  · have hhandled := handled_of_accepted textGt db haccepted hsubscription
    generalize d.after textGt db = after at hhandled hne
    cases hhandled with
    | malformed => exact absurd rfl hne
    | ignored => exact absurd rfl hne
    | notApplied => exact absurd rfl hne
    | notObserved => exact absurd rfl hne
    | notReconciled => exact absurd rfl hne
    | applied hcreated hnew hties hpatched =>
        obtain ⟨disposition, hdisposition, hdisposed⟩ :=
          disposition_of_accepted db haccepted hsubscription hcreated
        refine ⟨hnew, Or.inl ⟨?_, _, hpatched, rfl⟩⟩
        cases hdisposed with
        | ignore hold => exact absurd hnew hold
        | reconcile _ htie => exact absurd htie hties
        | apply => exact ⟨hdisposition, hok⟩
    | reconciled hcreated hnew hties hobservation hpatched =>
        obtain ⟨disposition, hdisposition, hdisposed⟩ :=
          disposition_of_accepted db haccepted hsubscription hcreated
        refine ⟨hnew, Or.inr ⟨?_, _, _, hobservation, hpatched, rfl⟩⟩
        cases hdisposed with
        | ignore hold => exact absurd hnew hold
        | apply _ hnot => exact absurd hties hnot
        | reconcile => exact ⟨hdisposition, hok⟩
  · exact absurd (organizations_of_refused haccepted) hne

/-! ### Receipts and watermarks after a delivery -/

/-- A delivery keeps the watermarks, or moves the one of its subscription to its newer event. -/
theorem watermarks_of_named (textGt : String → String → Bool) (db : Db)
    (hsubscription : d.event.subscriptionId = some subscriptionId) :
    (d.after textGt db).watermarks = db.watermarks ∨
      ((d.after textGt db).watermarks = advanced textGt d.event subscriptionId db.watermarks ∧
        ∀ w, db.watermarks.lookup subscriptionId = some w → d.event.Newer w) := by
  by_cases haccepted : webhookVersionAccepted d.event.apiVersion
  · have hhandled := handled_of_accepted textGt db haccepted hsubscription
    generalize d.after textGt db = after at hhandled
    cases hhandled with
    | malformed => exact Or.inl rfl
    | ignored => exact Or.inl rfl
    | notApplied => exact Or.inl rfl
    | notObserved => exact Or.inl rfl
    | notReconciled => exact Or.inl rfl
    | applied _ hnew => exact Or.inr ⟨rfl, newer_of_isNew hnew⟩
    | reconciled _ hnew => exact Or.inr ⟨rfl, newer_of_isNew hnew⟩
  · obtain ⟨events, hafter, -⟩ := after_of_refused textGt db haccepted
    rw [hafter]
    exact Or.inl rfl

/-- An event that names no subscription leaves the watermarks. -/
theorem after_of_unnamed (textGt : String → String → Bool) (db : Db)
    (haccepted : webhookVersionAccepted d.event.apiVersion)
    (hsubscription : d.event.subscriptionId = none) :
    (d.after textGt db).watermarks = db.watermarks ∧
      Receipts d.event db (d.after textGt db).webhookEvents := by
  have hsame : Receipts d.event db db.webhookEvents := fun _ => Or.inl
  rw [Delivery.after, webhook_of_accepted haccepted]
  by_cases hcreated : 0 ≤ d.event.created
  · obtain ⟨inserted, events, hreceipt, hprocessed, -⟩ :=
      recordWebhookReceipt_run d.now (db.pruned d.now) hcreated
    have hreceipts : Receipts d.event db events :=
      receipts_of_pruned fun id h => Or.inl ((hprocessed id).1 h)
    obtain ⟨disposition, hrecord, hdisposition⟩ : ∃ disposition,
        (recordWebhookEvent d.now d.event).run (db.pruned d.now) =
          .ok (disposition, { db with webhookEvents := events }) ∧
        (disposition = .ignore ∨ disposition = .apply) := by
      unfold recordWebhookEvent
      rw [Transaction.run_bind_of_ok hreceipt, Transaction.run_get_bind, hsubscription]
      dsimp only
      split
      · exact ⟨.ignore, rfl, Or.inl rfl⟩
      · exact ⟨.apply, rfl, Or.inr rfl⟩
    have hrun : (processEvent textGt d.now d.stripeGet d.event).run db =
        (disposeEvent textGt d.now d.stripeGet d.event disposition).run
          { db with webhookEvents := events } :=
      Transaction.run_bind_of_ok hrecord
    rcases hdisposition with rfl | rfl
    · rw [Transaction.commit_of_ok (hrun.trans rfl)]
      exact ⟨rfl, hreceipts⟩
    · simp only [disposeEvent, hsubscription] at hrun
      have hpatch := applyEvent_run { db with webhookEvents := events } d.event
      cases hpatched : Db.patchedAt { db with webhookEvents := events }
          (d.event.target { db with webhookEvents := events }) d.event.patch with
      | error e =>
          rw [hpatched] at hpatch
          rw [Transaction.commit_of_error (hrun.trans (Transaction.run_bind_of_error hpatch))]
          exact ⟨rfl, hsame⟩
      | ok db₁ =>
          rw [hpatched] at hpatch
          have hdb₁ := patchedAt_eq hpatched
          rw [Transaction.commit_of_ok (hrun.trans ((Transaction.run_bind_of_ok hpatch).trans
            (Transaction.run_modify_bind _ pure)))]
          rw [hdb₁]
          exact ⟨rfl, receipts_processed hreceipts⟩
  · rw [Transaction.commit_of_error (processEvent_error hcreated)]
    exact ⟨rfl, hsame⟩

/-- No delivery moves a watermark back. -/
theorem forward_of_after (textGt : String → String → Bool) (d : Delivery) (db : Db) (sub : Ident)
    {w : Watermark} (hw : db.watermarks.lookup sub = some w) :
    ∃ w', (d.after textGt db).watermarks.lookup sub = some w' ∧ w.AtMost w' := by
  have hkept : (d.after textGt db).watermarks = db.watermarks →
      ∃ w', (d.after textGt db).watermarks.lookup sub = some w' ∧ w.AtMost w' := by
    intro hsame
    rw [hsame]
    exact ⟨w, hw, Watermark.AtMost.refl w⟩
  cases hsubscription : d.event.subscriptionId with
  | none =>
      by_cases haccepted : webhookVersionAccepted d.event.apiVersion
      · exact hkept (after_of_unnamed textGt db haccepted hsubscription).1
      · obtain ⟨events, hafter, -⟩ := after_of_refused textGt db haccepted
        exact hkept (by rw [hafter])
  | some subscriptionId =>
      rcases watermarks_of_named textGt db hsubscription with hsame | ⟨hadvanced, hnewer⟩
      · exact hkept hsame
      · rw [hadvanced]
        by_cases hsub : sub = subscriptionId
        · subst hsub
          obtain ⟨w', hw', hmost, -⟩ := lookup_advanced textGt hnewer
          exact ⟨w', hw', hmost w hw⟩
        · rw [lookup_advanced_of_ne hsub]
          exact ⟨w, hw, Watermark.AtMost.refl w⟩

/-- An event whose watermark is at its time or later. -/
def Event.Covered (event : Event) (db : Db) : Prop :=
  ∀ sub, event.subscriptionId = some sub →
    ∃ w, db.watermarks.lookup sub = some w ∧ event.created ≤ w.stripeCreated

theorem covered_of_forward {db' : Db} {event : Event}
    (hforward : ∀ sub w, db.watermarks.lookup sub = some w →
      ∃ w', db'.watermarks.lookup sub = some w' ∧ w.AtMost w') (h : event.Covered db) :
    event.Covered db' := by
  intro sub hsub
  obtain ⟨w, hw, hle⟩ := h sub hsub
  obtain ⟨w', hw', hmost⟩ := hforward sub w hw
  exact ⟨w', hw', le_trans hle hmost.created⟩

/-- A delivery marks only its own event as processed, and then its watermark covers it. -/
theorem processed_of_after (textGt : String → String → Bool) (d : Delivery) (db : Db) (id : String)
    (h : (d.after textGt db).Processed id) :
    db.Processed id ∨ (id = d.event.id ∧ d.event.Covered (d.after textGt db)) := by
  by_cases haccepted : webhookVersionAccepted d.event.apiVersion
  · cases hsubscription : d.event.subscriptionId with
    | none =>
        refine ((after_of_unnamed textGt db haccepted hsubscription).2 id h).imp_right ?_
        intro hid
        refine ⟨hid, ?_⟩
        intro sub hsub
        rw [hsubscription] at hsub
        cases hsub
    | some subscriptionId =>
        have hcovered : ∀ w, (d.after textGt db).watermarks.lookup subscriptionId = some w →
            d.event.created ≤ w.stripeCreated → d.event.Covered (d.after textGt db) := by
          intro w hw hle sub hsub
          rw [hsubscription] at hsub
          cases hsub
          exact ⟨w, hw, hle⟩
        have hhandled := handled_of_accepted textGt db haccepted hsubscription
        generalize d.after textGt db = after at hhandled h hcovered
        cases hhandled with
        | malformed => exact Or.inl h
        | notApplied => exact Or.inl h
        | notObserved => exact Or.inl h
        | notReconciled => exact Or.inl h
        | ignored _ hold hreceipts =>
            rcases hreceipts id h with hprocessed | rfl
            · exact Or.inl hprocessed
            · by_cases hknown : (db.pruned d.now).Processed d.event.id
              · exact Or.inl (processed_of_pruned hknown)
              · have hwatermark : ¬ ∀ w, db.watermarks.lookup subscriptionId = some w →
                    d.event.Newer w := fun hnewer => hold ⟨hknown, hnewer⟩
                push Not at hwatermark
                obtain ⟨w, hw, hnot⟩ := hwatermark
                refine Or.inr ⟨rfl, hcovered w hw ?_⟩
                by_contra hlt
                exact hnot (Or.inl (by omega))
        | applied _ hnew _ hpatched hreceipts =>
            obtain ⟨w', hw', -, hcreated', -⟩ :=
              lookup_advanced textGt (newer_of_isNew hnew)
            exact (hreceipts id h).imp_right fun hid => ⟨hid, hcovered w' hw' hcreated'.ge⟩
        | reconciled _ hnew _ _ hpatched hreceipts =>
            obtain ⟨w', hw', -, hcreated', -⟩ :=
              lookup_advanced textGt (newer_of_isNew hnew)
            exact (hreceipts id h).imp_right fun hid => ⟨hid, hcovered w' hw' hcreated'.ge⟩
  · obtain ⟨events, -, hprocessed⟩ := after_of_refused textGt db haccepted
    exact Or.inl (hprocessed id h)

end Step

/-! ### Runs -/

section Runs

variable {textGt : String → String → Bool} {db db' : Db} {ds : List (Delivery × Db)}

/-- What a run keeps: the watermarks cover the processed events, and applied events are not newer
than them. -/
structure Tracked (textGt : String → String → Bool) (ds : List (Delivery × Db)) (db : Db) :
    Prop where
  known : ∀ id, Known textGt ds db id → ∃ x ∈ ds, x.1.event.id = id ∧ x.1.event.Covered db
  applied : ∀ x ∈ ds, ∀ sub, x.1.event.subscriptionId = some sub →
    x.1.Disposes textGt .apply x.2 →
    ∃ w, db.watermarks.lookup sub = some w ∧ ¬ x.1.event.Newer w

theorem Tracked.forward (h : Tracked textGt ds db)
    (hprocessed : ∀ id, db'.Processed id → db.Processed id)
    (hforward : ∀ sub w, db.watermarks.lookup sub = some w →
      ∃ w', db'.watermarks.lookup sub = some w' ∧ w.AtMost w') : Tracked textGt ds db' where
  known := by
    intro id hid
    obtain ⟨x, hx, hevent, hcovered⟩ := h.known id (hid.imp_left (hprocessed id))
    exact ⟨x, hx, hevent, covered_of_forward hforward hcovered⟩
  applied := by
    intro x hx sub hsub happlies
    obtain ⟨w, hw, hnot⟩ := h.applied x hx sub hsub happlies
    obtain ⟨w', hw', hmost⟩ := hforward sub w hw
    exact ⟨w', hw', not_newer_of_atMost hmost hnot⟩

/-- The applied event is the watermark afterwards. -/
theorem increases_of_applies {d : Delivery} {subscriptionId : Ident}
    (hsubscription : d.event.subscriptionId = some subscriptionId)
    (h : d.Disposes textGt .apply db) :
    (∀ w, db.watermarks.lookup subscriptionId = some w → w.stripeCreated < d.event.created) ∧
      (d.after textGt db).watermarks.lookup subscriptionId =
        some ⟨d.event.created, d.event.id⟩ := by
  obtain ⟨hnew, hties, hadvanced⟩ := applied_of_disposes h hsubscription
  have hne : ∀ w, db.watermarks.lookup subscriptionId = some w →
      w.stripeCreated ≠ d.event.created := fun w hw heq => hties ⟨w, hw, heq⟩
  obtain ⟨w', hw', -, -, hset⟩ := lookup_advanced textGt (newer_of_isNew hnew)
  constructor
  · intro w hw
    rcases newer_of_isNew hnew w hw with hlt | ⟨heq, -⟩
    · exact hlt
    · exact absurd heq (hne w hw)
  · rw [hadvanced, hw', hset hne]

theorem tracked_of_deliveryRun (hrun : DeliveryRun textGt db ds db')
    (hstart : ∀ id, ¬ db.Processed id) : Tracked textGt ds db' := by
  induction hrun with
  | start =>
      refine ⟨?_, by simp⟩
      rintro id (h | ⟨x, hx, -⟩)
      · exact absurd h (hstart id)
      · cases hx
  | prune now _ ih =>
      refine ih.forward (fun id => processed_of_pruned) ?_
      exact fun sub w hw => ⟨w, hw, Watermark.AtMost.refl w⟩
  | other _ hevents hwatermarks ih =>
      refine ih.forward ?_ ?_
      · intro id h
        unfold Db.Processed at h
        rwa [hevents] at h
      · intro sub w hw
        rw [hwatermarks]
        exact ⟨w, hw, Watermark.AtMost.refl w⟩
  | @deliver db₁ ds d _ htracked =>
      have hforward : ∀ sub w, db₁.watermarks.lookup sub = some w →
          ∃ w', (d.after textGt db₁).watermarks.lookup sub = some w' ∧ w.AtMost w' :=
        fun sub w hw => forward_of_after textGt d db₁ sub hw
      constructor
      · intro id hid
        have hafter : db₁.Processed id ∨ (∃ x ∈ ds, (x.1.after textGt x.2).Processed id) ∨
            (d.after textGt db₁).Processed id := by
          rcases hid with h | ⟨x, hx, h⟩
          · exact Or.inr (Or.inr h)
          · rcases List.mem_append.1 hx with hx | hx
            · exact Or.inr (Or.inl ⟨x, hx, h⟩)
            · rw [List.mem_singleton.1 hx] at h
              exact Or.inr (Or.inr h)
        have hearlier : Known textGt ds db₁ id →
            ∃ x ∈ ds ++ [(d, db₁)], x.1.event.id = id ∧
              x.1.event.Covered (d.after textGt db₁) := by
          intro hknown
          obtain ⟨x, hx, hevent, hcovered⟩ := htracked.known id hknown
          exact ⟨x, List.mem_append_left _ hx, hevent, covered_of_forward hforward hcovered⟩
        rcases hafter with h | h | h
        · exact hearlier (Or.inl h)
        · exact hearlier (Or.inr h)
        · rcases processed_of_after textGt d db₁ id h with h | ⟨rfl, hcovered⟩
          · exact hearlier (Or.inl h)
          · exact ⟨(d, db₁), by simp, rfl, hcovered⟩
      · intro x hx sub hsub happlies
        rcases List.mem_append.1 hx with hx | hx
        · obtain ⟨w, hw, hnot⟩ := htracked.applied x hx sub hsub happlies
          obtain ⟨w', hw', hmost⟩ := hforward sub w hw
          exact ⟨w', hw', not_newer_of_atMost hmost hnot⟩
        · cases List.mem_singleton.1 hx
          refine ⟨_, (increases_of_applies hsub happlies).2, ?_⟩
          simp [Event.Newer]

/-- The run up to a delivery of a run. -/
theorem deliveryRun_of_append {us vs : List (Delivery × Db)} {d : Delivery} {db₁ : Db}
    (hrun : DeliveryRun textGt db ds db') (hds : ds = us ++ (d, db₁) :: vs) :
    DeliveryRun textGt db us db₁ := by
  induction hrun generalizing vs with
  | start => simp at hds
  | prune _ _ ih => exact ih hds
  | other _ _ _ ih => exact ih hds
  | @deliver db₂ ds d' hbefore ih =>
      rcases List.eq_nil_or_concat vs with rfl | ⟨vs', x, rfl⟩
      · obtain ⟨rfl, hx⟩ := List.append_inj' hds rfl
        cases hx
        exact hbefore
      · rw [List.concat_eq_append, ← List.cons_append, ← List.append_assoc] at hds
        exact ih (List.append_inj' hds rfl).1

/-- Watermarks guard every delivery of a run, whatever receipts are removed meanwhile. An id
belongs to one event. -/
theorem watermarks_guard (hrun : DeliveryRun textGt db ds db') (hstart : ∀ id, ¬ db.Processed id)
    (hids : ∀ x ∈ ds, ∀ y ∈ ds, x.1.event.id = y.1.event.id → x.1.event = y.1.event) :
    ∀ us d db₁ vs subscriptionId, ds = us ++ (d, db₁) :: vs →
      d.event.subscriptionId = some subscriptionId →
      d.Guarded textGt subscriptionId us db₁ := by
  intro us d db₁ vs subscriptionId hds hsubscription
  have htracked := tracked_of_deliveryRun (deliveryRun_of_append hrun hds) hstart
  have hmem : (d, db₁) ∈ ds := by simp [hds]
  have hnotNew : ∀ w, db₁.watermarks.lookup subscriptionId = some w → ¬ d.event.Newer w →
      (d.after textGt db₁).organizations = db₁.organizations := by
    intro w hw hnot
    by_contra hne
    exact hnot (newer_of_isNew (changes_of_after hsubscription hne).1 w hw)
  constructor
  · exact increases_of_applies hsubscription
  · exact fun sub w hw => forward_of_after textGt d db₁ sub hw
  · exact fun hne => (changes_of_after hsubscription hne).2
  · exact fun h => ties_of_reconciles h hsubscription
  · intro hknown happlies
    obtain ⟨x, hx, hid, hcovered⟩ := htracked.known _ hknown
    have hsame := hids x (by simp [hds, hx]) (d, db₁) hmem hid
    rw [hsame] at hcovered
    obtain ⟨w, hw, hle⟩ := hcovered subscriptionId hsubscription
    have hlt := (increases_of_applies hsubscription happlies).1 w hw
    exact absurd hle (by dsimp only; omega)
  · rintro ⟨w, hw, hnot⟩
    exact hnotNew w hw hnot
  · intro x hx hsame happlies
    obtain ⟨w, hw, hnot⟩ := htracked.applied x hx subscriptionId
      (by rw [hsame, hsubscription]) happlies
    exact hnotNew w hw (hsame ▸ hnot)

end Runs

/-! ### A redelivery after its receipt was removed -/

/-- An update of the second subscription. -/
def updated (now : Int) (id : String) (created : Int) : Delivery where
  now := now
  stripeGet _ := .error .malformedResponse
  event := subscriptionEvent .subscriptionUpdated id created (.text "sub-2") (some "active")

/-- The database after the first update. -/
def updatedOnce : Db :=
  (updated 100 "evt-1" 50).after (fun _ _ => false) (ofOrganization resubscribed)

/-- The database that a redelivery of the first update finds, after a second one. -/
def updatedTwice : Db :=
  ((updated 200 "evt-2" 60).after (fun _ _ => false) updatedOnce).pruned 10000000

/-- The receipt of the first update is gone. -/
example : updatedTwice.webhookEvents.lookup "evt-1" = none := by decide +kernel

theorem watermarks_guard_redelivered :
    (updated 10000000 "evt-1" 50).Guarded (fun _ _ => false) (.text "sub-2")
      [(updated 100 "evt-1" 50, ofOrganization resubscribed), (updated 200 "evt-2" 60, updatedOnce)]
      updatedTwice := by
  have hrun : DeliveryRun (fun _ _ => false) (ofOrganization resubscribed)
      [(updated 100 "evt-1" 50, ofOrganization resubscribed), (updated 200 "evt-2" 60, updatedOnce),
        (updated 10000000 "evt-1" 50, updatedTwice)]
      ((updated 10000000 "evt-1" 50).after (fun _ _ => false) updatedTwice) :=
    .deliver _ (.prune 10000000 (.deliver _ (.deliver _ (.start _))))
  have hstart : ∀ id, ¬ (ofOrganization resubscribed).Processed id := by
    rintro id ⟨e, he, -⟩
    cases he
  exact watermarks_guard hrun hstart (by simp [updated, subscriptionEvent])
    [(updated 100 "evt-1" 50, ofOrganization resubscribed), (updated 200 "evt-2" 60, updatedOnce)]
    (updated 10000000 "evt-1" 50) updatedTwice [] (.text "sub-2") rfl rfl

end Billing

end Sotto
