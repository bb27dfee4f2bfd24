import Sotto.Billing.Effects
import Sotto.Billing.Worker

/-!
# What the commands write

Every transaction of the deletion subsystem writes at most one operation. Which row a command
writes, and what else it changes if the table accepts the row, is read off its transaction once
here.
-/

namespace Sotto

namespace Billing

open Core
open Server (Tier LifecycleState Role)

/-- A command whose transaction fails on a CHECK constraint of the operations. -/
def Cmd.Violates : (c : Cmd) → c.Reply → Prop
  | request .., r => r = .error .check
  | cancel .., r => r = .error .check
  | claim .., r => r = .error .check
  | transitionState .., r => r = .error .check
  | finishBilling .., r => r = .error .check
  | finishRetention .., r => r = .error .check
  | finishRecovery .., r => r = .error .check
  | enterPurging .., r => r = .error .check
  | scheduleRetry .., r => r = .error .check
  | failAttempt .., r => r = .error .check
  | operatorObservationIsFresh .., r => r = .error .check
  | purge .., r => r = .error .check
  | observe .., r => r = .error .check
  | _, _ => False

/-- The database after a purge has deleted what the organisation owns. -/
def Db.purged (now : Int) (db : Db) (orgId : Ident) : Db :=
  { db with
    holdings := db.holdings.without orgId
    organizations := db.organizations.modify orgId (Organization.tombstone now) }

/-- The row that a command writes, and the database it leaves if the table accepts the row. -/
inductive Writes (now : Int) (db : Db) : Cmd → Ident → Deletion → Db → Prop
  | requested {id orgId actor confirmationOrgId retentionDays org} :
      0 < retentionDays → db.organizations.lookup orgId = some org → org.lifecycle = .active →
      db.deletions.lookup id = none →
      (∀ id' d, db.deletions.lookup id' = some d → d.orgId = orgId → d.state.isTerminal) →
      Writes now db (.request id orgId actor confirmationOrgId retentionDays) id
        (.requested now orgId actor retentionDays org.stripeSubscriptionId)
        { db with
          deletions := AList.insert id
            (.requested now orgId actor retentionDays org.stripeSubscriptionId) db.deletions
          organizations := db.organizations.modify orgId fun org =>
            { org with lifecycle := .deleting } }
  | resumed {id' orgId actor confirmationOrgId retentionDays id d} :
      db.deletions.lookup id = some d → d.state = .failed → d.resumeState ≠ none →
      Writes now db (.request id' orgId actor confirmationOrgId retentionDays) id
        (d.resumed now).released (db.writeDeletion id (d.resumed now).released)
  | recovering {orgId actor id d} :
      db.deletions.lookup id = some d → d.state.canCancel →
      Writes now db (.cancel orgId actor) id (d.recovering now).released
        (db.writeDeletion id (d.recovering now).released)
  | claimed {workerId locked id d} : db.deletions.lookup id = some d → d.isDue now →
      Writes now db (.claim workerId locked) id (d.claimed now workerId)
        (db.writeDeletion id (d.claimed now workerId))
  | transitioned {lease next d} : db.deletions.lookup lease.id = some d → d.heldBy lease →
      Writes now db (.transitionState lease next) lease.id (d.transitioned now next).released
        (db.writeDeletion lease.id (d.transitioned now next).released)
  | billingFinished {lease gate d} : db.deletions.lookup lease.id = some d → d.heldBy lease →
      Writes now db (.finishBilling lease gate) lease.id (d.billingFinished now gate).released
        (db.writeDeletion lease.id (d.billingFinished now gate).released)
  | reconciled {lease gate d} : db.deletions.lookup lease.id = some d → d.heldBy lease →
      (gate = .terminal ∨ gate = .missing → d.purgeAfter ≤ now) →
      Writes now db (.finishRetention lease gate) lease.id (d.reconciled now gate).released
        (db.writeDeletion lease.id (d.reconciled now gate).released)
  | recovered {lease gate tier d} : db.deletions.lookup lease.id = some d → d.heldBy lease →
      Writes now db (.finishRecovery lease gate tier) lease.id (d.recovered now gate).released
        { db.writeDeletion lease.id (d.recovered now gate).released with
          organizations := db.organizations.modify lease.orgId (Organization.reactivated tier) }
  | purging {lease d} : db.deletions.lookup lease.id = some d → d.heldBy lease →
      d.state = .retention → d.purgeAfter ≤ now →
      Writes now db (.enterPurging lease) lease.id (d.purging now).released
        (db.writeDeletion lease.id (d.purging now).released)
  | retried {lease code delay d} : db.deletions.lookup lease.id = some d → d.heldBy lease →
      Writes now db (.scheduleRetry lease code delay) lease.id (d.retried now code delay).released
        (db.writeDeletion lease.id (d.retried now code delay).released)
  | failed {lease code d} : db.deletions.lookup lease.id = some d → d.heldBy lease →
      Writes now db (.failAttempt lease code) lease.id (d.failed lease.state code).released
        (db.writeDeletion lease.id (d.failed lease.state code).released)
  | purged {lease finishedAt d org fresh} : db.deletions.lookup lease.id = some d →
      d.heldBy lease → db.organizations.lookup d.orgId = some org → d.isFresh now = some fresh →
      d.permitsPurge now org fresh → now ≤ finishedAt →
      Writes now db (.purge lease) lease.id (d.completed finishedAt).released
        ((db.purged now d.orgId).writeDeletion lease.id (d.completed finishedAt).released)
  | purgeRefused {lease d org fresh} : db.deletions.lookup lease.id = some d → d.heldBy lease →
      db.organizations.lookup d.orgId = some org → d.isFresh now = some fresh →
      ¬ d.permitsPurge now org fresh →
      Writes now db (.purge lease) lease.id
        (d.failed .purging "purge_precondition_failed").released
        (db.writeDeletion lease.id (d.failed .purging "purge_precondition_failed").released)
  | recorded {orgId operator observation id d observedAt managedBackupExpiryBy} :
      db.deletions.lookup id = some d → ¬ d.state.isTerminal → d.orgId = orgId →
      (observation.gate = .terminal ∨ observation.gate = .missing) →
      d.subscriptionId = some observation.subscriptionId → d.requestedAt ≤ observedAt →
      observedAt ≤ now → (∀ t ∈ managedBackupExpiryBy, d.purgeAfter < t) → d.state ≠ .purging →
      (d.state ≠ .recovering ∧ d.resumeState ≠ some .recovering ∧
        d.resumeState ≠ some .purging) →
      Writes now db (.observe orgId operator observation) id
        (observation.recorded operator observedAt managedBackupExpiryBy d).released
        (db.writeDeletion id
          (observation.recorded operator observedAt managedBackupExpiryBy d).released)

/-- The result of a transaction in terms of what its command writes: it has changed nothing, or it
has written a row that the table accepts; it fails on a CHECK constraint only when the table does
not accept the row. -/
def Explained (now : Int) (db : Db) (c : Cmd) {α : Type} : Except Error (α × Db) → Prop
  | .ok (_, db') => db' = db ∨ ∃ id d, Writes now db c id d db' ∧ d.Checks
  | .error e => e = .check → ∃ id d db', Writes now db c id d db' ∧ ¬ d.Checks

/-- The row of a new request satisfies the constraints. -/
theorem checks_requested {now : Int} {orgId actor : Ident} {retentionDays : Int}
    {subscriptionId : Option Ident} (h : 0 ≤ retentionDays) :
    (Deletion.requested now orgId actor retentionDays subscriptionId).Checks := by
  constructor <;> simp [Deletion.requested]
  omega

section Explained

variable {now : Int} {db : Db} {c : Cmd} {α β : Type}

/-- A transaction that changes nothing, and does not fail on a CHECK constraint. -/
def Reads (x : Tx α) (db : Db) : Prop :=
  (∃ a, x.run db = .ok (a, db)) ∨ ∃ e, x.run db = .error e ∧ e ≠ .check

theorem reads_require {p : Prop} [Decidable p] {e : Error} (h : e ≠ .check) :
    Reads (require p e) db := by
  unfold require
  split
  · exact Or.inl ⟨(), rfl⟩
  · exact Or.inr ⟨e, rfl, h⟩

theorem reads_requireOwner {orgId actor : Ident} : Reads (requireOwner orgId actor) db := by
  unfold requireOwner Reads
  rw [Transaction.run_get_bind]
  cases db.holdings.memberships.lookup (orgId, actor) with
  | none => exact Or.inr ⟨_, rfl, by simp⟩
  | some m => exact reads_require (by simp)

theorem reads_normaliseTimestamp {value : TimestampText} {message : String} :
    Reads (normaliseTimestamp value message) db := by
  cases value with
  | valid t => exact Or.inl ⟨t, rfl⟩
  | empty => exact Or.inr ⟨_, rfl, by simp⟩
  | malformed => exact Or.inr ⟨_, rfl, by simp⟩

theorem reads_bind {x : Tx α} {f : α → Tx β} (hx : Reads x db) (hf : ∀ a, Reads (f a) db) :
    Reads (x >>= f) db := by
  rcases hx with ⟨a, h⟩ | ⟨e, h, hne⟩
  · unfold Reads
    rw [Transaction.run_bind_of_ok h]
    exact hf a
  · exact Or.inr ⟨e, Transaction.run_bind_of_error h, hne⟩

theorem reads_backupExpiry {observation : OperatorObservation} {d : Deletion} :
    Reads (observation.backupExpiry d) db := by
  unfold OperatorObservation.backupExpiry
  cases observation.managedBackupExpiryBy with
  | none => exact Or.inl ⟨none, rfl⟩
  | some expiry =>
      refine reads_bind reads_normaliseTimestamp ?_
      intro t
      refine reads_bind (reads_require (by simp)) ?_
      intro _
      exact Or.inl ⟨some t, rfl⟩

theorem explained_of_reads {x : Tx α} (h : Reads x db) : Explained now db c (x.run db) := by
  rcases h with ⟨a, h⟩ | ⟨e, h, hne⟩
  · rw [h]
    exact Or.inl rfl
  · rw [h]
    exact fun he => absurd he hne

theorem explained_bind {x : Tx α} {f : α → Tx β} (hx : Reads x db)
    (hf : ∀ a, x.run db = .ok (a, db) → Explained now db c ((f a).run db)) :
    Explained now db c ((x >>= f).run db) := by
  rcases hx with ⟨a, h⟩ | ⟨e, h, hne⟩
  · rw [Transaction.run_bind_of_ok h]
    exact hf a h
  · rw [Transaction.run_bind_of_error h]
    exact fun he => absurd he hne

theorem explained_require {p : Prop} [Decidable p] {e : Error} {f : Unit → Tx β}
    (he : e ≠ .check) (hf : p → Explained now db c ((f ()).run db)) :
    Explained now db c ((require p e >>= f).run db) := by
  refine explained_bind (reads_require he) ?_
  intro u hu
  exact hf (require_eq_ok.1 hu).1

theorem explained_get {f : Db → Tx β} (hf : Explained now db c ((f db).run db)) :
    Explained now db c ((get >>= f).run db) := by
  rw [Transaction.run_get_bind]
  exact hf

theorem explained_throw {e : Error} (he : e ≠ .check) :
    Explained now db c ((throw e : Tx β).run db) :=
  explained_of_reads (Or.inr ⟨e, rfl, he⟩)

theorem explained_pure (b : β) : Explained now db c ((pure b : Tx β).run db) :=
  explained_of_reads (Or.inl ⟨b, rfl⟩)

/-! ### Updates -/

theorem updateDeletion_run (db : Db) (id : Ident) (condition : Deletion → Bool)
    (change : Deletion → Deletion) :
    (updateDeletion id condition change).run db =
      match (db.deletions.lookup id).filter condition with
      | none => .ok (none, db)
      | some d =>
          if (change d).Checks then .ok (some (change d), db.writeDeletion id (change d))
          else .error .check := by
  unfold updateDeletion
  rw [Transaction.run_get_bind]
  cases (db.deletions.lookup id).filter condition with
  | none => rfl
  | some d =>
      dsimp only
      split
      · next h =>
          have hrequire : (require (change d).Checks .check).run db = .ok ((), db) :=
            require_eq_ok.2 ⟨h, rfl⟩
          rw [Transaction.run_bind_of_ok hrequire]
          rfl
      · next h =>
          refine Transaction.run_bind_of_error ?_
          rw [Billing.require, if_neg h]
          rfl

/-- An update changes nothing, is refused by the table, or writes its row. -/
theorem updateDeletion_cases (db : Db) (id : Ident) (condition : Deletion → Bool)
    (change : Deletion → Deletion) :
    ((db.deletions.lookup id).filter condition = none ∧
        (updateDeletion id condition change).run db = .ok (none, db)) ∨
      ∃ d, db.deletions.lookup id = some d ∧ condition d ∧
        ((change d).Checks ∧ (updateDeletion id condition change).run db =
            .ok (some (change d), db.writeDeletion id (change d)) ∨
          ¬ (change d).Checks ∧ (updateDeletion id condition change).run db = .error .check) := by
  rw [updateDeletion_run]
  cases h : (db.deletions.lookup id).filter condition with
  | none => exact Or.inl ⟨rfl, rfl⟩
  | some d =>
      rw [Option.filter_eq_some_iff] at h
      refine Or.inr ⟨d, h.1, h.2, ?_⟩
      by_cases hchecks : (change d).Checks
      · exact Or.inl ⟨hchecks, by simp only [if_pos hchecks]⟩
      · exact Or.inr ⟨hchecks, by simp only [if_neg hchecks]⟩

/-- An update whose row is the command's. -/
theorem explained_update (rest : Db → Db) {db₁ : Db} {id : Ident} {condition : Deletion → Bool}
    {change : Deletion → Deletion} {f : Option Deletion → Tx β}
    (hnone : (db₁.deletions.lookup id).filter condition = none →
      Explained now db c ((f none).run db₁))
    (hrest : ∀ d, ∃ b, (f (some (change d))).run (db₁.writeDeletion id (change d)) =
      .ok (b, rest (db₁.writeDeletion id (change d))))
    (hwrites : ∀ d, db₁.deletions.lookup id = some d → condition d →
      Writes now db c id (change d) (rest (db₁.writeDeletion id (change d)))) :
    Explained now db c ((updateDeletion id condition change >>= f).run db₁) := by
  rcases updateDeletion_cases db₁ id condition change with
    ⟨hfilter, h⟩ | ⟨d, hd, hcondition, ⟨hchecks, h⟩ | ⟨hchecks, h⟩⟩
  · rw [Transaction.run_bind_of_ok h]
    exact hnone hfilter
  · rw [Transaction.run_bind_of_ok h]
    obtain ⟨b, hb⟩ := hrest d
    rw [hb]
    exact Or.inr ⟨id, change d, hwrites d hd hcondition, hchecks⟩
  · rw [Transaction.run_bind_of_error h]
    exact fun _ => ⟨id, change d, _, hwrites d hd hcondition, hchecks⟩

/-- An update after which nothing else is changed. -/
theorem explained_update_pure {id : Ident} {condition : Deletion → Bool}
    {change : Deletion → Deletion} {f : Option Deletion → β}
    (hwrites : ∀ d, db.deletions.lookup id = some d → condition d →
      Writes now db c id (change d) (db.writeDeletion id (change d))) :
    Explained now db c ((do
      let row ← updateDeletion id condition change
      pure (f row)).run db) :=
  explained_update (fun db => db) (fun _ => explained_pure _) (fun _ => ⟨_, rfl⟩) hwrites

/-- An update under a lease. -/
theorem explained_leased {lease : DeletionLease} {condition : Deletion → Bool}
    {change : Deletion → Deletion} {f : Option Deletion → β}
    (hwrites : ∀ d, db.deletions.lookup lease.id = some d → d.heldBy lease → condition d →
      Writes now db c lease.id (change d).released
        (db.writeDeletion lease.id (change d).released)) :
    Explained now db c ((do
      let row ← updateLeased lease condition change
      pure (f row)).run db) := by
  refine explained_update_pure ?_
  intro d hd hcondition
  rw [Bool.and_eq_true] at hcondition
  exact hwrites d hd hcondition.1 hcondition.2

/-! ### The transactions -/

theorem deletion_of_latest {condition : Deletion → Bool} {id : Ident} {d : Deletion}
    (h : db.latestDeletion condition = some (id, d)) :
    db.deletions.lookup id = some d ∧ condition d := by
  unfold Db.latestDeletion at h
  have hmem := (List.mergeSort_perm _ _).mem_iff.1 (List.mem_of_head? h)
  rw [List.mem_filter] at hmem
  exact ⟨Table.mem_rows.1 hmem.1, hmem.2⟩

theorem explained_request {id orgId actor confirmationOrgId : Ident} {retentionDays : Int} :
    Explained now db (.request id orgId actor confirmationOrgId retentionDays)
      ((requestWithRetention now id orgId actor confirmationOrgId retentionDays).run db) := by
  unfold requestWithRetention
  refine explained_require (by simp) ?_
  intro hdays
  refine explained_require (by simp) ?_
  intro _
  refine explained_get ?_
  cases horg : db.organizations.lookup orgId with
  | none => exact explained_throw (by simp)
  | some org =>
      dsimp only
      split
      · split
        · exact explained_throw (by simp)
        · exact explained_throw (by simp)
      · next hdeleted =>
          refine explained_bind reads_requireOwner ?_
          intro _ _
          split
          · split
            · exact explained_throw (by simp)
            · next id' d hlatest =>
                obtain ⟨hd, -⟩ := deletion_of_latest hlatest
                split
                · next hfailed =>
                    cases hresume : d.resumeState with
                    | none => exact explained_throw (by simp)
                    | some resumeState =>
                        refine explained_update_pure (f := fun _ => _) ?_
                        intro d' hd' _
                        rw [hd] at hd'
                        cases hd'
                        exact .resumed hd hfailed (by simp [hresume])
                · exact explained_pure _
          · next hdeleting =>
              have hactive : org.lifecycle = .active := by
                cases hl : org.lifecycle <;> simp_all
              by_cases hchecks :
                  (Deletion.requested now orgId actor retentionDays
                    org.stripeSubscriptionId).Checks
              · refine explained_bind (Or.inl ⟨(), require_eq_ok.2 ⟨hchecks, rfl⟩⟩) ?_
                intro _ _
                refine explained_require (by simp) ?_
                rintro ⟨hfresh, hunique⟩
                refine Or.inr ⟨id, _, .requested hdays horg hactive hfresh ?_, hchecks⟩
                intro id' d hd horgId
                simp only [List.any_eq_true, decide_eq_true_eq, not_exists, not_and,
                  not_not] at hunique
                exact hunique (id', d) (Table.mem_rows.2 hd) horgId
              · exact absurd (checks_requested hdays.le) hchecks

theorem explained_cancel {orgId actor : Ident} :
    Explained now db (.cancel orgId actor) ((cancel now orgId actor).run db) := by
  unfold cancel
  refine explained_get ?_
  cases horg : db.organizations.lookup orgId with
  | none => exact explained_throw (by simp)
  | some org =>
      dsimp only
      split
      · split
        · exact explained_throw (by simp)
        · exact explained_throw (by simp)
      · refine explained_bind reads_requireOwner ?_
        intro _ _
        split
        · exact explained_throw (by simp)
        · next id d hlatest =>
            have hd : db.deletions.lookup id = some d := by
              rw [Option.orElse_eq_orElse, Option.orElse_eq_or, Option.or_eq_some_iff] at hlatest
              rcases hlatest with h | ⟨-, h⟩
              · exact (deletion_of_latest h).1
              · exact (deletion_of_latest h).1
            split
            · next hcancel =>
                refine explained_update_pure (f := fun _ => _) ?_
                intro d' hd' _
                rw [hd] at hd'
                cases hd'
                exact .recovering hd hcancel
            · split
              · exact explained_throw (by simp)
              · exact explained_pure _

theorem explained_claim {workerId : String} {locked : List Ident} :
    Explained now db (.claim workerId locked) ((claimDue now workerId locked).run db) := by
  unfold claimDue
  refine explained_require (by simp) ?_
  intro _
  refine explained_get ?_
  split
  · exact explained_pure _
  · next id d hhead =>
      have hmem := (List.mergeSort_perm _ _).mem_iff.1 (List.mem_of_head? hhead)
      rw [List.mem_filter, Bool.and_eq_true] at hmem
      have hd : db.deletions.lookup id = some d := Table.mem_rows.1 hmem.1
      refine explained_update_pure ?_
      intro d' hd' _
      rw [hd] at hd'
      cases hd'
      exact .claimed hd hmem.2.1

theorem explained_finishRecovery {lease : DeletionLease} {gate : PurgeGate} {tier : Tier} :
    Explained now db (.finishRecovery lease gate tier)
      ((finishRecovery now lease gate tier).run db) := by
  unfold finishRecovery updateLeased
  let rest (db : Db) : Db := { db with
    organizations := db.organizations.modify lease.orgId (Organization.reactivated tier) }
  refine explained_update rest ?_ ?_ ?_
  · exact fun _ => explained_pure none
  · exact fun d => ⟨_, rfl⟩
  · intro d hd hheld
    rw [Bool.and_true] at hheld
    exact .recovered hd hheld

theorem explained_purge {lease : DeletionLease} {finishedAt : Int} (hfinished : now ≤ finishedAt) :
    Explained now db (.purge lease) ((purge now lease finishedAt).run db) := by
  unfold purge
  refine explained_get ?_
  split
  · exact explained_pure _
  · next d hd =>
      rw [Option.filter_eq_some_iff] at hd
      obtain ⟨hd, hheld⟩ := hd
      split
      · exact explained_pure _
      · next org horg =>
          split
          · exact explained_throw (by simp)
          · next fresh hfresh =>
              split
              · next hpermits =>
                  rw [Transaction.run_modify_bind]
                  refine explained_update (fun db => db) ?_ (fun _ => ⟨_, rfl⟩) ?_
                  · intro hnone
                    have hsome : (db.deletions.lookup lease.id).filter
                        (fun d => d.heldBy lease && true) = some d := by
                      rw [Option.filter_eq_some_iff, Bool.and_true]
                      exact ⟨hd, hheld⟩
                    cases hnone.symm.trans hsome
                  · intro d' hd' _
                    cases hd.symm.trans hd'
                    exact .purged hd hheld horg hfresh hpermits hfinished
              · next hpermits =>
                  refine explained_leased fun d' hd' _ _ => ?_
                  cases hd.symm.trans hd'
                  exact .purgeRefused hd hheld horg hfresh hpermits

theorem purgeAfter_of_backupExpiry {observation : OperatorObservation} {d : Deletion}
    {expiry : Option Int} (h : (observation.backupExpiry d).run db = .ok (expiry, db)) :
    ∀ t ∈ expiry, d.purgeAfter < t := by
  unfold OperatorObservation.backupExpiry at h
  cases hexpiry : observation.managedBackupExpiryBy with
  | none =>
      rw [hexpiry] at h
      cases (Transaction.pure_eq_ok.1 h).1
      simp
  | some text =>
      rw [hexpiry] at h
      obtain ⟨t, db₁, -, h⟩ := Transaction.bind_eq_ok.1 h
      obtain ⟨_, db₂, hrequire, h⟩ := Transaction.bind_eq_ok.1 h
      cases (Transaction.pure_eq_ok.1 h).1
      simpa using (require_eq_ok.1 hrequire).1

theorem explained_observe {orgId : Ident} {operator : String}
    {observation : OperatorObservation} :
    Explained now db (.observe orgId operator observation)
      ((recordOperatorObservation now orgId operator observation).run db) := by
  unfold recordOperatorObservation
  refine explained_require (by simp) ?_
  intro _
  refine explained_require (by simp) ?_
  intro hgate
  refine explained_get ?_
  refine explained_require (by simp) ?_
  intro _
  split
  · exact explained_throw (by simp)
  · next id d hfind =>
      have hopen := List.find?_some hfind
      have hd : db.deletions.lookup id = some d :=
        Table.mem_rows.1 (List.mem_of_find?_eq_some hfind)
      rw [decide_eq_true_eq] at hopen
      refine explained_bind reads_normaliseTimestamp ?_
      intro observedAt _
      refine explained_bind reads_backupExpiry ?_
      intro expiry hexpiry
      refine explained_require (by simp) ?_
      intro hpurging
      refine explained_require (by simp) ?_
      intro hrecovering
      refine explained_require (by simp) ?_
      intro hsubscription
      refine explained_update (fun db => db) ?_ (fun d' => ⟨_, rfl⟩) ?_
      · exact fun _ => explained_throw (by simp)
      · intro d' hd' htime
        cases hd.symm.trans hd'
        rw [decide_eq_true_eq] at htime
        exact .recorded hd hopen.2 hopen.1 hgate hsubscription htime.1 htime.2
          (purgeAfter_of_backupExpiry hexpiry) hpurging hrecovering

theorem explained_operatorObservationIsFresh {lease : DeletionLease} :
    Explained now db (.operatorObservationIsFresh lease)
      ((operatorObservationIsFresh now lease).run db) := by
  unfold operatorObservationIsFresh
  refine explained_get ?_
  split
  · exact explained_pure false
  · split
    · exact explained_throw (by simp)
    · exact explained_pure _

end Explained

/-! ### Webhooks -/

/-- What a webhook can change of an organisation: the billing columns of an active one. -/
def Organization.frozen (org : Organization) : Organization :=
  if org.lifecycle = .active then
    { org with tier := .free, stripeCustomerId := none, stripeSubscriptionId := none }
  else org

/-- What a webhook leaves as it is. -/
structure Relinks (db db' : Db) : Prop where
  deletions : db'.deletions = db.deletions
  holdings : db'.holdings = db.holdings
  organizations : ∀ orgId, (db'.organizations.lookup orgId).map Organization.frozen =
    (db.organizations.lookup orgId).map Organization.frozen

theorem Relinks.refl (db : Db) : Relinks db db := ⟨rfl, rfl, fun _ => rfl⟩

theorem Relinks.trans {db db' db'' : Db} (h : Relinks db db') (h' : Relinks db' db'') :
    Relinks db db'' :=
  ⟨h'.deletions.trans h.deletions, h'.holdings.trans h.holdings,
    fun orgId => (h'.organizations orgId).trans (h.organizations orgId)⟩

section Webhooks

variable {textGt : String → String → Bool} {now : Int} {stripeGet : StripeGet} {event : Event}
  {db : Db} {α β : Type}

/-- A transaction that relinks organisations at most. -/
def RelinksOnly (x : Tx α) : Prop := ∀ db a db', x.run db = .ok (a, db') → Relinks db db'

theorem relinksOnly_pure (a : α) : RelinksOnly (pure a : Tx α) := by
  intro db b db' h
  cases (Transaction.pure_eq_ok.1 h).2
  exact Relinks.refl db

theorem relinksOnly_throw (e : Error) : RelinksOnly (throw e : Tx α) := by
  intro db b db' h
  exact absurd h Transaction.throw_eq_ok.1

theorem relinksOnly_get : RelinksOnly (get : Tx Db) := by
  intro db b db' h
  cases (Transaction.get_eq_ok.1 h).2
  exact Relinks.refl db

theorem relinksOnly_modify {f : Db → Db} (hf : ∀ db, Relinks db (f db)) :
    RelinksOnly (modify f : Tx Unit) := by
  intro db b db' h
  cases Transaction.modify_eq_ok.1 h
  exact hf db

theorem RelinksOnly.bind {x : Tx α} {f : α → Tx β} (hx : RelinksOnly x)
    (hf : ∀ a, RelinksOnly (f a)) : RelinksOnly (x >>= f) := by
  intro db b db' h
  obtain ⟨a, db₁, h₁, h₂⟩ := Transaction.bind_eq_ok.1 h
  exact (hx db a db₁ h₁).trans (hf a db₁ b db' h₂)

theorem relinksOnly_require {p : Prop} [Decidable p] {e : Error} : RelinksOnly (require p e) := by
  intro db b db' h
  cases (require_eq_ok.1 h).2
  exact Relinks.refl db

/-- An update of the billing columns of an active organisation. -/
theorem relinksOnly_updateOrganization {orgId : Ident} {condition : Organization → Bool}
    {change : Organization → Organization}
    (hactive : ∀ org, condition org → org.lifecycle = .active)
    (hchange : ∀ org, org.lifecycle = .active → (change org).frozen = org.frozen) :
    RelinksOnly (updateOrganization orgId condition change) := by
  intro db b db' h
  unfold updateOrganization at h
  rw [Transaction.run_get_bind] at h
  cases horg : db.organizations.lookup orgId with
  | none =>
      rw [horg] at h
      cases (Transaction.pure_eq_ok.1 h).2
      exact Relinks.refl db
  | some org =>
      rw [horg] at h
      dsimp only at h
      split at h
      · next hcondition =>
          obtain ⟨_, db₁, hrequire, h⟩ := Transaction.bind_eq_ok.1 h
          cases (require_eq_ok.1 hrequire).2
          rw [Transaction.run_set_bind] at h
          cases (Transaction.pure_eq_ok.1 h).2
          refine ⟨rfl, rfl, ?_⟩
          intro orgId'
          rw [Table.lookup_modify]
          split
          · next heq =>
              rw [heq, horg, Option.map_some, Option.map_some, Option.map_some,
                hchange org (hactive org hcondition)]
          · rfl
      · cases (Transaction.pure_eq_ok.1 h).2
        exact Relinks.refl db

theorem relinksOnly_orgForSubscription {object : EventObject} :
    RelinksOnly (orgForSubscription object) := by
  unfold orgForSubscription
  cases object.metadataOrgId with
  | some orgId => exact relinksOnly_pure _
  | none =>
      cases object.id with
      | none => exact relinksOnly_pure _
      | some subscriptionId => exact relinksOnly_get.bind fun _ => relinksOnly_pure _

theorem relinksOnly_applyEvent : RelinksOnly (applyEvent event) := by
  unfold applyEvent
  cases event.kind with
  | checkoutCompleted =>
      unfold checkoutCompleted
      dsimp only
      cases event.object.clientReferenceId with
      | none => exact relinksOnly_pure ()
      | some orgId =>
          refine RelinksOnly.bind (relinksOnly_updateOrganization ?_ ?_) fun _ => relinksOnly_pure ()
          · simp +contextual
          · simp +contextual [Organization.frozen]
  | subscriptionUpdated =>
      refine relinksOnly_orgForSubscription.bind ?_
      intro orgId
      cases orgId with
      | none => exact relinksOnly_pure ()
      | some orgId =>
          dsimp only
          split
          · exact relinksOnly_pure ()
          · exact relinksOnly_pure ()
          · refine RelinksOnly.bind (relinksOnly_updateOrganization ?_ ?_)
              fun _ => relinksOnly_pure ()
            · simp +contextual
            · simp +contextual [Organization.frozen]
  | subscriptionDeleted =>
      refine relinksOnly_orgForSubscription.bind ?_
      intro orgId
      cases orgId with
      | none => exact relinksOnly_pure ()
      | some orgId =>
          refine RelinksOnly.bind (relinksOnly_updateOrganization ?_ ?_) fun _ => relinksOnly_pure ()
          · simp +contextual
          · simp +contextual [Organization.frozen]
  | other kind => exact relinksOnly_pure ()

theorem relinksOnly_reconcileSubscription {observation : SubscriptionObservation}
    {subscriptionId : Ident} {orgHint : Option Ident} :
    RelinksOnly (reconcileSubscription observation subscriptionId orgHint) := by
  unfold reconcileSubscription
  refine relinksOnly_get.bind ?_
  intro db
  split
  · exact relinksOnly_pure ()
  · refine RelinksOnly.bind (relinksOnly_updateOrganization ?_ ?_) fun _ => relinksOnly_pure ()
    · simp +contextual
    · simp +contextual [Organization.frozen]

theorem relinks_webhookEvents (events : Table String WebhookEvent) :
    Relinks db { db with webhookEvents := events } := ⟨rfl, rfl, fun _ => rfl⟩

theorem relinksOnly_recordWebhookReceipt : RelinksOnly (recordWebhookReceipt now event) := by
  intro db inserted db' h
  by_cases hcreated : 0 ≤ event.created
  · obtain ⟨_, events, hrun, -⟩ := recordWebhookReceipt_run now db hcreated
    cases hrun.symm.trans h
    exact relinks_webhookEvents events
  · cases (recordWebhookReceipt_error hcreated).symm.trans h

theorem relinksOnly_markWebhookEventProcessed {eventId : String} :
    RelinksOnly (markWebhookEventProcessed now eventId) :=
  relinksOnly_modify fun _ => relinks_webhookEvents _

theorem relinksOnly_recordWebhookEvent : RelinksOnly (recordWebhookEvent now event) := by
  unfold recordWebhookEvent
  refine relinksOnly_recordWebhookReceipt.bind ?_
  intro inserted
  refine relinksOnly_get.bind ?_
  intro db
  dsimp only
  split
  · exact relinksOnly_pure _
  · split
    · exact relinksOnly_pure _
    · split
      · exact relinksOnly_pure _
      · split
        · exact relinksOnly_markWebhookEventProcessed.bind fun _ => relinksOnly_pure _
        · split
          · exact relinksOnly_pure _
          · exact relinksOnly_pure _

theorem relinksOnly_recordProcessed {subscriptionId : Ident} : RelinksOnly (do
    updateSubscriptionWatermark textGt event subscriptionId
    markWebhookEventProcessed now event.id) := by
  refine RelinksOnly.bind (relinksOnly_modify ?_) fun _ => relinksOnly_markWebhookEventProcessed
  exact fun _ => ⟨rfl, rfl, fun _ => rfl⟩

theorem relinksOnly_disposeEvent {disposition : EventDisposition} :
    RelinksOnly (disposeEvent textGt now stripeGet event disposition) := by
  cases disposition with
  | ignore => exact relinksOnly_pure ()
  | reconcile =>
      unfold disposeEvent
      dsimp only
      split
      · exact relinksOnly_throw _
      · split
        · exact relinksOnly_throw _
        · exact relinksOnly_reconcileSubscription.bind fun _ => relinksOnly_recordProcessed
  | apply =>
      unfold disposeEvent
      refine relinksOnly_applyEvent.bind ?_
      intro _
      dsimp only
      split
      · exact relinksOnly_markWebhookEventProcessed
      · exact relinksOnly_recordProcessed

theorem relinksOnly_pruneWebhookEvents : RelinksOnly (pruneWebhookEvents now) :=
  relinksOnly_modify fun _ => relinks_webhookEvents _

theorem RelinksOnly.commit {x : Tx α} (h : RelinksOnly x) (db : Db) :
    Relinks db (Transaction.commit x db).2 := by
  rcases Transaction.commit_cases x db with ⟨a, db', hrun, hcommit⟩ | ⟨e, -, hcommit⟩
  · rw [hcommit]
    exact h db a db' hrun
  · rw [hcommit]
    exact Relinks.refl db

/-- A delivery relinks organisations at most. -/
theorem relinks_webhook : Relinks db (webhook textGt now stripeGet event db).2 := by
  unfold webhook
  split
  · refine RelinksOnly.commit ?_ db
    exact relinksOnly_pruneWebhookEvents.bind fun _ =>
      relinksOnly_recordWebhookEvent.bind fun _ => relinksOnly_disposeEvent
  · have hrefused : Relinks db (Transaction.commit (do
        pruneWebhookEvents now
        recordWebhookReceipt now event) db).2 :=
      RelinksOnly.commit (relinksOnly_pruneWebhookEvents.bind fun _ =>
        relinksOnly_recordWebhookReceipt) db
    dsimp only
    generalize Transaction.commit _ db = result at hrefused ⊢
    obtain ⟨r, db'⟩ := result
    cases r with
    | ok _ => exact hrefused
    | error _ => exact hrefused

end Webhooks

/-! ### Executions -/

/-- How an execution of a command ends: it leaves the operations and the organisations' data, it
relinks organisations at most, it writes a row, or the table does not accept its row. -/
inductive Ends (c : Cmd) (s : World) (r : c.Reply) (s' : World) : Prop
  | kept : s'.db = s.db → ¬ c.Violates r → Ends c s r s'
  | relinked {event} : c = .webhook event → Relinks s.db s'.db → ¬ c.Violates r → Ends c s r s'
  | written {id d} : Writes s.now s.db c id d s'.db → d.Checks → ¬ c.Violates r → Ends c s r s'
  | refused {id d db'} : Writes s.now s.db c id d db' → ¬ d.Checks → s'.db = s.db →
      c.Violates r → Ends c s r s'

section Executions

variable {textGt : String → String → Bool} {c : Cmd} {s s' : World}

/-- The end of a committed transaction. -/
theorem ends_of_explained {α : Type} {tx : Tx α} {r : c.Reply} {s₁ : World}
    {result : Except Error α} (h : s.commit tx = (result, s₁))
    (hexplained : Explained s.now s.db c (tx.run s.db)) (hdb : s'.db = s₁.db)
    (hviolates : c.Violates r ↔ result = .error .check) : Ends c s r s' := by
  unfold World.commit at h
  rw [Prod.mk.injEq] at h
  obtain ⟨hresult, rfl⟩ := h
  rcases Transaction.commit_cases tx s.db with ⟨a, db', hrun, hcommit⟩ | ⟨e, hrun, hcommit⟩
  · rw [hcommit] at hresult hdb
    subst hresult
    have hok : ¬ c.Violates r := by
      rw [hviolates]
      simp
    rw [hrun] at hexplained
    have hdb : s'.db = db' := hdb
    rcases hexplained with h | ⟨id, d, hwrites, hchecks⟩
    · exact .kept (hdb.trans h) hok
    · exact .written (hdb ▸ hwrites) hchecks hok
  · rw [hcommit] at hresult hdb
    subst hresult
    rw [hrun] at hexplained
    by_cases he : e = .check
    · obtain ⟨id, d, db', hwrites, hchecks⟩ := hexplained he
      exact .refused hwrites hchecks hdb (hviolates.2 (by rw [he]))
    · exact .kept hdb (by simpa [hviolates] using he)

/-- Every execution of a command ends in one of these ways. -/
theorem ends_of_executes {r : c.Reply} (h : Executes textGt c s r s') : Ends c s r s' := by
  cases h with
  | request h => exact ends_of_explained h explained_request rfl Iff.rfl
  | cancel h => exact ends_of_explained h explained_cancel rfl Iff.rfl
  | claim h => exact ends_of_explained h explained_claim rfl Iff.rfl
  | transitionState h =>
      exact ends_of_explained h (explained_leased fun _ hd hheld _ => .transitioned hd hheld)
        rfl Iff.rfl
  | finishBilling h =>
      exact ends_of_explained h (explained_leased fun _ hd hheld _ => .billingFinished hd hheld)
        rfl Iff.rfl
  | finishRetention h =>
      refine ends_of_explained h (explained_leased ?_) rfl Iff.rfl
      intro d hd hheld hdue
      refine .reconciled hd hheld ?_
      rw [decide_eq_true_eq] at hdue
      exact fun hpurge => hdue.resolve_left (not_not.2 hpurge)
  | finishRecovery h => exact ends_of_explained h explained_finishRecovery rfl Iff.rfl
  | enterPurging h =>
      refine ends_of_explained h (explained_leased ?_) rfl Iff.rfl
      intro d hd hheld hretention
      rw [decide_eq_true_eq] at hretention
      exact .purging hd hheld hretention.1 hretention.2
  | scheduleRetry h =>
      exact ends_of_explained h (explained_leased fun _ hd hheld _ => .retried hd hheld)
        rfl Iff.rfl
  | failAttempt h =>
      exact ends_of_explained h (explained_leased fun _ hd hheld _ => .failed hd hheld)
        rfl Iff.rfl
  | operatorObservationIsFresh h =>
      exact ends_of_explained h explained_operatorObservationIsFresh rfl Iff.rfl
  | purge hfinished h => exact ends_of_explained h (explained_purge hfinished) rfl Iff.rfl
  | observe h => exact ends_of_explained h explained_observe rfl Iff.rfl
  | @webhook s event stripeGet r db' h =>
      refine .relinked rfl ?_ (fun h => h)
      have hrelinks := @relinks_webhook textGt s.now stripeGet event s.db
      rw [h] at hrelinks
      exact hrelinks
  | checkout h _ => exact .kept rfl (fun h => h)
  | notCheckedOut => exact .kept rfl (fun h => h)
  | getSubscription => exact .kept rfl (fun h => h)
  | cancelSubscription => exact .kept rfl (fun h => h)
  | canceled _ _ => exact .kept rfl (fun h => h)
  | pay _ _ => exact .kept rfl (fun h => h)
  | evolve _ _ => exact .kept rfl (fun h => h)
  | tick _ => exact .kept rfl (fun h => h)

theorem leases_of_executes {r : c.Reply} (h : Executes textGt c s r s') :
    s.leases ⊆ s'.leases := by
  cases h with
  | claim h =>
      cases h
      exact List.subset_append_right _ _
  | request h | cancel h | transitionState h | finishBilling h | finishRetention h
  | finishRecovery h | enterPurging h | scheduleRetry h | failAttempt h
  | operatorObservationIsFresh h | purge _ h | observe h =>
      cases h
      exact List.Subset.refl _
  | _ => exact List.Subset.refl _

theorem mayStart_of_executes {op : Op} {r : c.Reply} (h : op.MayStart s)
    (he : Executes textGt c s r s') : op.MayStart s' := by
  cases op with
  | issue c => exact h
  | advance lease provider => exact leases_of_executes he h

end Executions

/-! ### Programs -/

/-- The commands that an operation of the system issues. -/
def Op.Issues : Op → Cmd → Prop
  | issue c, c' => c' = c
  | advance lease _, c =>
      match c with
      | .transitionState lease' next => lease' = lease ∧ next = .cancellingBilling
      | .finishBilling lease' _ => lease' = lease
      | .finishRetention lease' _ => lease' = lease
      | .finishRecovery lease' _ _ => lease' = lease
      | .enterPurging lease' => lease' = lease
      | .scheduleRetry lease' _ delay => lease' = lease ∧ 0 ≤ delay
      | .failAttempt lease' _ => lease' = lease
      | .operatorObservationIsFresh lease' => lease' = lease
      | .purge lease' => lease' = lease
      | .getSubscription id => lease.subscriptionId = some id
      | .cancelSubscription id => lease.subscriptionId = some id
      | _ => False

section Programs

variable {lease : DeletionLease} {provider : Bool}

theorem nonneg_of_retryDelay {id : Ident} {attemptCount delay : Int}
    (h : retryDelayWithJitter id attemptCount = some delay) : 0 ≤ delay := by
  unfold retryDelayWithJitter at h
  rw [Option.map_eq_some_iff] at h
  obtain ⟨t, ht, rfl⟩ := h
  have hmem : t ∈ retryDelays := by
    unfold retryDelay at ht
    split at ht
    · exact List.mem_of_head? ht
    · exact List.mem_of_getElem? ht
  have hpos : ∀ t ∈ retryDelays, 0 ≤ t := by decide
  have := hpos t hmem
  omega

theorem uses_perform {c : Cmd} {P : Cmd → Prop} (h : P c) : (perform c).Uses P := ⟨h, fun _ => trivial⟩

theorem uses_handleProviderError {kind : ProviderErrorKind} {code : Option String} :
    (handleProviderError lease kind code).Uses (Op.Issues (.advance lease provider)) := by
  unfold handleProviderError
  split
  · split
    · trivial
    · next delay hdelay => exact ⟨⟨rfl, nonneg_of_retryDelay hdelay⟩, fun _ => trivial⟩
  · exact ⟨rfl, fun _ => trivial⟩

theorem uses_finishBillingWith {observation : SubscriptionObservation} :
    (finishBillingWith lease observation).Uses (Op.Issues (.advance lease provider)) := by
  unfold finishBillingWith
  split
  · exact ⟨rfl, fun _ => trivial⟩
  · exact uses_handleProviderError

theorem uses_finishRecoveryWith {observation : SubscriptionObservation} :
    (finishRecoveryWith lease observation).Uses (Op.Issues (.advance lease provider)) := by
  unfold finishRecoveryWith
  split
  · exact ⟨rfl, fun _ => trivial⟩
  · split
    · exact uses_handleProviderError
    · exact ⟨rfl, fun _ => trivial⟩

theorem uses_finishRetentionWith {observation : SubscriptionObservation} :
    (finishRetentionWith lease observation).Uses (Op.Issues (.advance lease provider)) := by
  unfold finishRetentionWith
  split
  · exact uses_handleProviderError
  · exact ⟨rfl, fun _ => trivial⟩

theorem uses_withObservation {finish : SubscriptionObservation → Work}
    {observed : ProviderResult SubscriptionObservation}
    (h : ∀ observation, (finish observation).Uses (Op.Issues (.advance lease provider))) :
    (withObservation lease finish observed).Uses (Op.Issues (.advance lease provider)) := by
  unfold withObservation
  split
  · exact h _
  · exact uses_handleProviderError

theorem uses_advanceBilling {available recovering : Bool} :
    (advanceBilling lease available recovering).Uses (Op.Issues (.advance lease provider)) := by
  unfold advanceBilling
  split
  · split
    · exact uses_finishRecoveryWith
    · exact uses_finishBillingWith
  · next id hid =>
      split
      · exact ⟨rfl, fun _ => trivial⟩
      · split
        · exact ⟨hid, fun _ => uses_withObservation fun _ => uses_finishRecoveryWith⟩
        · exact ⟨hid, fun _ => uses_withObservation fun _ => uses_finishBillingWith⟩

theorem uses_advanceRetention {available : Bool} :
    (advanceRetention lease available).Uses (Op.Issues (.advance lease provider)) := by
  unfold advanceRetention
  split
  · exact ⟨rfl, fun _ => trivial⟩
  · next id hid =>
      split
      · exact ⟨hid, fun _ => uses_withObservation fun _ => uses_finishRetentionWith⟩
      · refine ⟨rfl, ?_⟩
        intro r
        match r with
        | .error _ => trivial
        | .ok true => exact ⟨rfl, fun _ => trivial⟩
        | .ok false => exact ⟨rfl, fun _ => trivial⟩

/-- A worker acts on the operation and the subscription of its lease. -/
theorem uses_advance : (advance lease provider).Uses (Op.Issues (.advance lease provider)) := by
  unfold advance
  split
  · exact ⟨⟨rfl, rfl⟩, fun _ => trivial⟩
  · exact uses_advanceBilling
  · exact uses_advanceBilling
  · exact uses_advanceRetention
  · exact ⟨rfl, fun _ => trivial⟩
  all_goals trivial

theorem uses_prog (op : Op) : op.prog.Uses op.Issues := by
  cases op with
  | issue c => exact ⟨rfl, fun _ => trivial⟩
  | advance lease provider => exact uses_advance

end Programs

end Billing

end Sotto
