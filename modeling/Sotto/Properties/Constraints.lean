import Sotto.Billing.Operations

/-!
# Operations that the table refuses

A transition with a provider's observation leaves the columns that name an operator as they are, and
the table refuses a provider's observation that names an operator. So an operation with an
operator's observation cannot be reconciled with the provider and cannot be recovered. No other
transition is refused in any run.
-/

namespace Sotto

namespace Billing

open Core
open Server (Tier LifecycleState)

/-- A command that writes a provider's observation over an operator's. -/
def Cmd.Overwrites (s : World) : Cmd → Prop
  | finishBilling lease _ => ∃ d, s.db.deletions.lookup lease.id = some d ∧ d.heldBy lease ∧
      d.billingObservationSource = some .operator
  | finishRetention lease gate => ∃ d, s.db.deletions.lookup lease.id = some d ∧ d.heldBy lease ∧
      d.billingObservationSource = some .operator ∧
      (gate = .terminal ∨ gate = .missing → d.purgeAfter ≤ s.now)
  | finishRecovery lease _ _ => ∃ d, s.db.deletions.lookup lease.id = some d ∧ d.heldBy lease ∧
      d.billingObservationSource = some .operator
  | _ => False

section Steps

variable {textGt : String → String → Bool} {s s' : World} {c : Cmd} {op : Op} {id : Ident}
  {d : Deletion} {db' : Db}

/-- A row that the table does not accept is a provider's observation over an operator's. -/
theorem overwrites_of_writes (hs : s.Sound) (hissues : op.Issues c) (hstart : op.MayStart s)
    (h : Writes s.now s.db c id d db') (hchecks : ¬ d.Checks) : c.Overwrites s := by
  have hclaimable : ∀ {lease d}, c.lease = some lease →
      s.db.deletions.lookup lease.id = some d → d.heldBy lease → d.state.Claimable :=
    fun hc hd hheld => claimable_of_held hs (mem_leases_of_issues hissues hstart hc) hd hheld
  cases h with
  | requested hdays _ _ _ _ => exact absurd (checks_requested hdays.le) hchecks
  | resumed hd hfailed _ =>
      have h := hs.operations _ _ hd
      exact absurd (checks_released (checks_resumed h.checks h.requestedAt hfailed)) hchecks
  | recovering hd hcancel =>
      have h := hs.operations _ _ hd
      exact absurd (checks_released (checks_recovering h.checks h.requestedAt hcancel)) hchecks
  | claimed hd _ =>
      have h := hs.operations _ _ hd
      exact absurd (checks_claimed h.checks h.requestedAt) hchecks
  | transitioned hd hheld =>
      have h := hs.operations _ _ hd
      rw [next_of_issues hissues hstart] at hchecks
      exact absurd (checks_released (checks_transitioned h.checks h.requestedAt
        (hclaimable rfl hd hheld) (by simp [DeletionState.Claimable]))) hchecks
  | billingFinished hd hheld =>
      have h := hs.operations _ _ hd
      rw [checks_billingFinished h.checks h.requestedAt (hclaimable rfl hd hheld), not_not]
        at hchecks
      exact ⟨_, hd, hheld, hchecks⟩
  | reconciled hd hheld hdue =>
      have h := hs.operations _ _ hd
      rw [checks_reconciled h.checks h.requestedAt (hclaimable rfl hd hheld), not_not] at hchecks
      exact ⟨_, hd, hheld, hchecks, hdue⟩
  | recovered hd hheld =>
      have h := hs.operations _ _ hd
      rw [checks_recovered h.checks h.requestedAt (hclaimable rfl hd hheld), not_not] at hchecks
      exact ⟨_, hd, hheld, hchecks⟩
  | purging hd hheld hretention _ =>
      have h := hs.operations _ _ hd
      exact absurd (checks_released (checks_purging h.checks h.requestedAt
        (hclaimable rfl hd hheld) (h.observed (Or.inl hretention)))) hchecks
  | retried hd hheld =>
      have h := hs.operations _ _ hd
      exact absurd (checks_released (checks_retried h.checks h.requestedAt
        (delay_of_issues hissues hstart))) hchecks
  | failed hd hheld =>
      have h := hs.operations _ _ hd
      have hlease := mem_leases_of_issues hissues hstart rfl
      exact absurd (checks_released (checks_failed h.checks (hclaimable rfl hd hheld)
        (hs.leases _ hlease).claimable)) hchecks
  | purged hd hheld _ _ _ hfinished =>
      have h := hs.operations _ _ hd
      exact absurd (checks_released (checks_completed h.checks (h.requestedAt.trans hfinished)
        (hclaimable rfl hd hheld))) hchecks
  | purgeRefused hd hheld _ _ _ =>
      have h := hs.operations _ _ hd
      exact absurd (checks_released (checks_failed h.checks (hclaimable rfl hd hheld)
        (by simp [DeletionState.Claimable]))) hchecks
  | recorded hd hopen _ _ _ hobserved _ hexpiry _ _ =>
      have h := hs.operations _ _ hd
      exact absurd (checks_released (checks_recorded h.checks hopen hobserved hexpiry)) hchecks

/-- A leased update of a row that the table does not accept fails. -/
theorem updateLeased_error {lease : DeletionLease} {db : Db} {condition : Deletion → Bool}
    {change : Deletion → Deletion} (hd : db.deletions.lookup lease.id = some d)
    (hheld : d.heldBy lease) (hcondition : condition d) (hchecks : ¬ (change d).released.Checks) :
    (updateLeased lease condition change).run db = .error .check := by
  have hfilter : (db.deletions.lookup lease.id).filter
      (fun d => d.heldBy lease && condition d) = some d := by
    rw [Option.filter_eq_some_iff, Bool.and_eq_true]
    exact ⟨hd, hheld, hcondition⟩
  unfold updateLeased
  rw [updateDeletion_run, hfilter]
  exact if_neg hchecks

theorem commit_of_error {α : Type} {tx : Tx α} {e : Error} (h : tx.run s.db = .error e) :
    s.commit tx = (.error e, s) := by
  unfold World.commit
  rw [Transaction.commit_of_error h]
  rfl

/-- A provider's observation over an operator's is refused. -/
theorem violates_of_overwrites (hs : s.Sound) (hissues : op.Issues c) (hstart : op.MayStart s)
    (h : c.Overwrites s) : ∃ r s', Executes textGt c s r s' ∧ c.Violates r := by
  have hclaimable : ∀ {lease d}, c.lease = some lease →
      s.db.deletions.lookup lease.id = some d → d.heldBy lease → d.state.Claimable :=
    fun hc hd hheld => claimable_of_held hs (mem_leases_of_issues hissues hstart hc) hd hheld
  cases c with
  | finishBilling lease gate =>
      obtain ⟨d, hd, hheld, hoperator⟩ := h
      have hsound := hs.operations _ _ hd
      have hchecks : ¬ (d.billingFinished s.now gate).released.Checks := by
        rw [checks_billingFinished hsound.checks hsound.requestedAt (hclaimable rfl hd hheld)]
        exact not_not.2 hoperator
      have hrun : (finishBilling s.now lease gate).run s.db = .error .check :=
        Transaction.run_bind_of_error (updateLeased_error hd hheld rfl hchecks)
      exact ⟨_, _, .finishBilling (commit_of_error hrun), rfl⟩
  | finishRetention lease gate =>
      obtain ⟨d, hd, hheld, hoperator, hdue⟩ := h
      have hsound := hs.operations _ _ hd
      have hchecks : ¬ (d.reconciled s.now gate).released.Checks := by
        rw [checks_reconciled hsound.checks hsound.requestedAt (hclaimable rfl hd hheld)]
        exact not_not.2 hoperator
      have hcondition : decide (¬ (gate = .terminal ∨ gate = .missing) ∨ d.purgeAfter ≤ s.now) := by
        rw [decide_eq_true_eq]
        exact not_or_of_imp hdue
      have hrun : (finishRetentionReconciliation s.now lease gate).run s.db = .error .check :=
        Transaction.run_bind_of_error (updateLeased_error hd hheld hcondition hchecks)
      exact ⟨_, _, .finishRetention (commit_of_error hrun), rfl⟩
  | finishRecovery lease gate tier =>
      obtain ⟨d, hd, hheld, hoperator⟩ := h
      have hsound := hs.operations _ _ hd
      have hchecks : ¬ (d.recovered s.now gate).released.Checks := by
        rw [checks_recovered hsound.checks hsound.requestedAt (hclaimable rfl hd hheld)]
        exact not_not.2 hoperator
      have hrun : (finishRecovery s.now lease gate tier).run s.db = .error .check :=
        Transaction.run_bind_of_error (updateLeased_error hd hheld rfl hchecks)
      exact ⟨_, _, .finishRecovery (commit_of_error hrun), rfl⟩
  | _ => exact h.elim

end Steps

/-- In every run, the command that a thread is about to execute can fail on a CHECK constraint
exactly when it writes a provider's observation over an operator's. -/
theorem violates_iff {textGt : String → String → Bool} {w₀ w : Situation} (hfresh : w₀.Fresh)
    (hrun : (deletionSystem textGt).Reaches w₀ w) {i : Nat} {op : Op} {c : Cmd}
    {k : c.Reply → Work} (hr : (w.threads i).running = some (op, .call c k)) :
    (∃ r s', Executes textGt c w.shared r s' ∧ c.Violates r) ↔ c.Overwrites w.shared := by
  have hs := sound_of_reaches hfresh hrun
  obtain ⟨huses, hstart⟩ := issues_of_reaches hfresh.idle hrun hr
  constructor
  · rintro ⟨r, s', he, hviolates⟩
    cases ends_of_executes he with
    | kept _ h => exact absurd hviolates h
    | relinked _ _ h => exact absurd hviolates h
    | written _ _ h => exact absurd hviolates h
    | refused hwrites hchecks _ _ => exact overwrites_of_writes hs huses.1 hstart hwrites hchecks
  · exact violates_of_overwrites hs huses.1 hstart

/-! ### A recovery that is refused

A deletion is requested, an operator records that the subscription was cancelled, and the owner
cancels the deletion. The provider answers the lookup of the recovery. -/

namespace Recovery

def org : Organization where
  encName := some (.raw "acme".toUTF8)
  createdBy := some (.text "owner")
  tier := .team
  trialEndsAt := none
  lifecycle := .active
  deletedAt := none
  stripeCustomerId := some (.text "customer")
  stripeSubscriptionId := some (.text "subscription")

def world : World where
  db := {
    organizations := AList.insert (.text "org") org ∅
    webhookEvents := ∅
    watermarks := ∅
    deletions := ∅
    holdings := {
      memberships := AList.insert (.text "org", .text "owner") ⟨.owner, none⟩ ∅
      projects := ∅
      environments := ∅
      grants := ∅
      secrets := ∅
      secretVersions := ∅
      machineTokens := ∅ } }
  provider := ⟨∅, ∅⟩
  now := 0
  leases := []
  deliveries := []

def observation : OperatorObservation where
  subscriptionId := .text "subscription"
  observedStatus := "canceled"
  observedAt := .valid 0
  reason := "provider unavailable"
  evidence := "ticket"
  managedBackupExpiryBy := none

def requested : World :=
  (world.commit (requestWithRetention 0 (.text "operation") (.text "org") (.text "owner")
    (.text "org") 30)).2

def observed : World :=
  (requested.commit (recordOperatorObservation 0 (.text "org") "operator" observation)).2

def cancelled : World := (observed.commit (cancel 0 (.text "org") (.text "owner"))).2

def lease : DeletionLease where
  id := .text "operation"
  orgId := .text "org"
  state := .recovering
  subscriptionId := some (.text "subscription")
  workerId := "worker"
  stateVersion := 3
  attemptCount := 1

def claimed : World :=
  { (cancelled.commit (claimDue 0 "worker" [])).2 with
    leases := ((cancelled.commit (claimDue 0 "worker" [])).1.toOption.bind id).toList ++
      (cancelled.commit (claimDue 0 "worker" [])).2.leases }

/-- The worker is about to finish the recovery. -/
def finishing : Situation where
  shared := claimed
  threads := Function.update (quiet claimed).threads 0
    ⟨(), some (.advance lease true, finishRecoveryWith lease
      (.current ⟨.text "subscription", .active⟩))⟩

theorem reaches (textGt : String → String → Bool) :
    (deletionSystem textGt).Reaches (quiet world) finishing := by
  have hissue : ∀ {c : Cmd} {s s' : World} {r : c.Reply}, (Op.issue c).MayStart s →
      Executes textGt c s r s' → (deletionSystem textGt).Reaches (quiet s) (quiet s') :=
    fun hstart h =>
      (@reaches_issue _ _ _ _ (fun _ _ _ _ => True) _ hstart h trivial).of_restrict
  have hrequest : (deletionSystem textGt).Reaches (quiet world) (quiet requested) :=
    hissue (c := .request (.text "operation") (.text "org") (.text "owner") (.text "org") 30)
      trivial (.request rfl)
  have hobserve : (deletionSystem textGt).Reaches (quiet requested) (quiet observed) :=
    hissue (c := .observe (.text "org") "operator" observation) trivial (.observe rfl)
  have hcancel : (deletionSystem textGt).Reaches (quiet observed) (quiet cancelled) :=
    hissue (c := .cancel (.text "org") (.text "owner")) trivial (.cancel rfl)
  have hclaim : (deletionSystem textGt).Reaches (quiet cancelled) (quiet claimed) :=
    hissue (c := .claim "worker" []) trivial (.claim rfl)
  have hlease : lease ∈ claimed.leases := by decide +kernel
  let begun : Situation := ⟨claimed, Function.update (quiet claimed).threads 0
    ⟨(), some (.advance lease true, advance lease true)⟩⟩
  have hstart : (deletionSystem textGt).Step (quiet claimed) begun :=
    step_advance (w := quiet claimed) rfl hlease
  have hexecutes : Executes textGt (.getSubscription (.text "subscription")) begun.shared
    (.ok (.current ⟨.text "subscription", .active⟩)) claimed := .getSubscription
  have hlookup := (@step_call textGt _ _ _ (fun _ _ _ _ => True) begun 0 _ _ rfl hexecutes
    trivial).of_restrict
  have hlast : (deletionSystem textGt).Reaches (quiet claimed) finishing := by
    have hboth := (Relation.ReflTransGen.single hstart).tail hlookup
    rw [Function.update_idem] at hboth
    exact hboth
  exact hrequest.trans (hobserve.trans (hcancel.trans (hclaim.trans hlast)))

end Recovery

/-- The command of the recovery fails on a CHECK constraint. -/
theorem violates_iff_recovery :
    (∃ r s', Executes (fun _ _ => false)
      (.finishRecovery Recovery.lease .blocking .team) Recovery.claimed r s' ∧
      Cmd.Violates (.finishRecovery Recovery.lease .blocking .team) r) ∧
    (Cmd.finishRecovery Recovery.lease .blocking .team).Overwrites Recovery.claimed := by
  have hiff := violates_iff (c := .finishRecovery Recovery.lease .blocking .team)
    (⟨fun _ => rfl, rfl, rfl⟩ : (quiet Recovery.world).Fresh) (Recovery.reaches fun _ _ => false)
    (i := 0) rfl
  have hoperator : (Recovery.claimed.db.deletions.lookup Recovery.lease.id).any fun d =>
      d.heldBy Recovery.lease && d.billingObservationSource = some .operator := by
    decide +kernel
  have hoverwrites : (Cmd.finishRecovery Recovery.lease .blocking .team).Overwrites
      Recovery.claimed := by
    rw [Option.any_eq_true] at hoperator
    obtain ⟨d, hd, h⟩ := hoperator
    rw [Bool.and_eq_true, decide_eq_true_eq] at h
    exact ⟨d, hd, h⟩
  exact ⟨hiff.2 hoverwrites, hoverwrites⟩

/-- Not every row that a transition writes is accepted. -/
theorem violates_recovery : ¬ ∀ (textGt : String → String → Bool) (w₀ w : Situation),
    w₀.Fresh → (deletionSystem textGt).Reaches w₀ w →
    ∀ i op c k, (w.threads i).running = some (op, .call c k) →
    ∀ r s', Executes textGt c w.shared r s' → ¬ c.Violates r := by
  intro h
  refine h (fun _ _ => false) (quiet Recovery.world) Recovery.finishing ⟨fun _ => rfl, rfl, rfl⟩
    (Recovery.reaches _) 0 _ (.finishRecovery Recovery.lease .blocking .team) _ rfl _ _
    (.finishRecovery rfl) ?_
  change (Recovery.claimed.commit
    (finishRecovery Recovery.claimed.now Recovery.lease .blocking .team)).1 = .error .check
  decide +kernel

end Billing

end Sotto
