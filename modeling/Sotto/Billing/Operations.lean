import Sotto.Billing.Writes

/-!
# The operations and the leases of a run

What holds of every operation and of every lease that was issued, in all runs of the deletion
subsystem. Every write counts the version of its operation up, so a lease whose version is still
the operation's was issued for the very row that is there.
-/

namespace Sotto

namespace Billing

open Core
open Server (Tier LifecycleState)

/-- A state in which an operation can be claimed. -/
def DeletionState.Claimable (state : DeletionState) : Prop :=
  state ∈ [.requested, .cancellingBilling, .retention, .purging, .recovering]

/-- What holds of every operation. -/
structure Deletion.Sound (now : Int) (d : Deletion) : Prop where
  checks : d.Checks
  requestedAt : d.requestedAt ≤ now
  leased : d.leaseOwner ≠ none → d.state.Claimable
  observed : d.state = .retention ∨ d.resumeState = some .retention → d.lastBillingState ≠ none

/-- What holds of every lease: while the version of its operation is still the lease's, the
operation is the one that was claimed. -/
structure DeletionLease.Sound (db : Db) (lease : DeletionLease) : Prop where
  claimable : lease.state.Claimable
  operation : ∃ d, db.deletions.lookup lease.id = some d ∧ lease.stateVersion ≤ d.stateVersion ∧
    (d.stateVersion = lease.stateVersion → d.state = lease.state ∧ d.orgId = lease.orgId ∧
      d.subscriptionId = lease.subscriptionId)

structure World.Sound (s : World) : Prop where
  operations : ∀ id d, s.db.deletions.lookup id = some d → d.Sound s.now
  leases : ∀ lease ∈ s.leases, lease.Sound s.db

/-- What a write leaves of an operation. -/
structure Deletion.Next (d d' : Deletion) : Prop where
  stateVersion : d'.stateVersion = d.stateVersion + 1
  orgId : d'.orgId = d.orgId
  requestedAt : d'.requestedAt = d.requestedAt
  purgeAfter : d'.purgeAfter = d.purgeAfter
  subscriptionId : d'.subscriptionId = d.subscriptionId

section Writes

variable {now : Int} {db db' : Db} {c : Cmd} {id : Ident} {d : Deletion}

/-- A write inserts an operation or replaces one. -/
theorem lookup_of_writes (h : Writes now db c id d db') (id' : Ident) :
    db'.deletions.lookup id' = if id' = id then some d else db.deletions.lookup id' := by
  have hreplace : ∀ {d' : Deletion}, db.deletions.lookup id = some d' →
      (db.deletions.modify id fun _ => d).lookup id' =
        if id' = id then some d else db.deletions.lookup id' := by
    intro d' hd'
    rw [Table.lookup_modify]
    split
    · next heq => rw [heq, hd', Option.map_some]
    · rfl
  cases h with
  | requested => exact Table.lookup_insert _ _ _ _
  | resumed hd | recovering hd | claimed hd | transitioned hd | billingFinished hd | reconciled hd
  | recovered hd | purging hd | retried hd | failed hd | purgeRefused hd | recorded hd
  | purged hd => exact hreplace hd

theorem next_of_writes (h : Writes now db c id d db') :
    (db.deletions.lookup id = none ∧ d.stateVersion = 0) ∨
      ∃ d', db.deletions.lookup id = some d' ∧ d'.Next d := by
  cases h with
  | requested _ _ _ hfresh _ => exact Or.inl ⟨hfresh, rfl⟩
  | resumed hd | recovering hd | claimed hd | transitioned hd | billingFinished hd | reconciled hd
  | recovered hd | purging hd | retried hd | failed hd | purgeRefused hd | recorded hd
  | purged hd => exact Or.inr ⟨_, hd, rfl, rfl, rfl, rfl, rfl⟩

end Writes

/-! ### The constraints

What each transition has to know of a row so that the row it writes is accepted. -/

section Checks

variable {now : Int} {d : Deletion}

theorem checks_released (h : d.Checks) : d.released.Checks :=
  { h with
    stateVersion := Int.add_nonneg h.stateVersion (by decide)
    leasePair := iff_of_true rfl rfl
    leaseExpiresAt := by simp [Deletion.released] }

/-- A claimable operation has not failed, and it is not over. -/
theorem open_of_claimable (h : d.Checks) (hstate : d.state.Claimable) :
    d.resumeState = none ∧ d.cancelledAt = none ∧ d.completedAt = none := by
  unfold DeletionState.Claimable at hstate
  refine ⟨?_, ?_, ?_⟩
  · rw [← not_ne_iff, ← h.failedResumeState]
    rintro hfailed
    simp [hfailed] at hstate
  · rw [← not_ne_iff, ← h.terminalTimestamp]
    intro hcancelled
    simp [hcancelled] at hstate
  · rw [← not_ne_iff, ← h.completedTimestamp]
    intro hcompleted
    simp [hcompleted] at hstate

/-- A row that goes on in a claimable state, from one that is not over. -/
theorem checks_goesOn {state : DeletionState} {nextAttemptAt : Option Int} (h : d.Checks)
    (hcancelled : d.cancelledAt = none) (hcompleted : d.completedAt = none)
    (hstate : state.Claimable) (hnext : ∀ t ∈ nextAttemptAt, d.requestedAt ≤ t) :
    Deletion.Checks { d with
      state := state
      resumeState := none
      nextAttemptAt := nextAttemptAt } := by
  have hopen : state ≠ .failed ∧ state ≠ .cancelled ∧ state ≠ .completed := by
    unfold DeletionState.Claimable at hstate
    refine ⟨?_, ?_, ?_⟩ <;> rintro rfl <;> simp at hstate
  exact { h with
    resumeState := by simp
    failedResumeState := by simp [hopen.1]
    nextAttemptAt := hnext
    terminalTimestamp := by simp [hcancelled, hopen.2.1]
    completedTimestamp := by simp [hcompleted, hopen.2.2] }

theorem checks_attempts {attemptCount : Int} {lastErrorCode : Option String} (h : d.Checks)
    (hcount : 0 ≤ attemptCount) :
    Deletion.Checks { d with attemptCount := attemptCount, lastErrorCode := lastErrorCode } :=
  { h with attemptCount := hcount }

theorem not_over_of_state (h : d.Checks) (hcancelled : d.state ≠ .cancelled)
    (hcompleted : d.state ≠ .completed) : d.cancelledAt = none ∧ d.completedAt = none := by
  refine ⟨?_, ?_⟩
  · rw [← not_ne_iff, ← h.terminalTimestamp]
    exact hcancelled
  · rw [← not_ne_iff, ← h.completedTimestamp]
    exact hcompleted

theorem checks_resumed (h : d.Checks) (ht : d.requestedAt ≤ now) (hfailed : d.state = .failed) :
    (d.resumed now).Checks := by
  obtain ⟨state, hstate⟩ := Option.ne_none_iff_exists'.1 (h.failedResumeState.1 hfailed)
  obtain ⟨hcancelled, hcompleted⟩ :=
    not_over_of_state h (by simp [hfailed]) (by simp [hfailed])
  have hresumed : d.resumed now = { { d with attemptCount := 0, lastErrorCode := none } with
      state := state
      resumeState := none
      nextAttemptAt := some now } := by
    simp [Deletion.resumed, hstate]
  rw [hresumed]
  exact checks_goesOn (checks_attempts h (le_refl 0)) hcancelled hcompleted
    (h.resumeState state hstate) (by simpa)

theorem checks_recovering (h : d.Checks) (ht : d.requestedAt ≤ now) (hcancel : d.state.canCancel) :
    (d.recovering now).Checks := by
  have hopen : d.state ≠ .cancelled ∧ d.state ≠ .completed := by
    refine ⟨?_, ?_⟩ <;> intro hstate <;> rw [hstate] at hcancel <;> cases hcancel
  obtain ⟨hcancelled, hcompleted⟩ := not_over_of_state h hopen.1 hopen.2
  exact checks_goesOn (checks_attempts h (le_refl 0)) hcancelled hcompleted
    (by simp [DeletionState.Claimable]) (by simpa)

theorem checks_claimed {workerId : String} (h : d.Checks) (ht : d.requestedAt ≤ now) :
    (d.claimed now workerId).Checks :=
  { h with
    attemptCount := by
      have := h.attemptCount
      simp only [Deletion.claimed]
      split <;> omega
    stateVersion := Int.add_nonneg h.stateVersion (by decide)
    leasePair := by simp [Deletion.claimed]
    leaseExpiresAt := by
      simp only [Deletion.claimed, Option.mem_def, Option.some.injEq]
      rintro _ rfl
      omega }

theorem checks_transitioned {next : DeletionState} (h : d.Checks) (ht : d.requestedAt ≤ now)
    (hstate : d.state.Claimable) (hnext : next.Claimable) : (d.transitioned now next).Checks := by
  obtain ⟨hresume, hcancelled, hcompleted⟩ := open_of_claimable h hstate
  have htransitioned : d.transitioned now next = { d with
      state := next
      resumeState := none
      nextAttemptAt := some now } := by
    simp [Deletion.transitioned, hresume]
  rw [htransitioned]
  exact checks_goesOn h hcancelled hcompleted hnext (by simpa)

theorem checks_observed {gate : PurgeGate} (h : d.Checks) (ht : d.requestedAt ≤ now)
    (hsource : d.billingObservationSource ≠ some .operator) : (d.observed now gate).Checks := by
  obtain ⟨-, hactor⟩ := h.observationActor.resolve_right fun h => hsource h.1
  exact { h with
    attemptCount := le_refl 0
    billingResultPair := by simp [Deletion.observed]
    billingCheckedAt := by simpa [Deletion.observed]
    observationActor := Or.inl ⟨by simp [Deletion.observed], hactor⟩
    observationResult := by simp [Deletion.observed] }

/-- A provider's observation that is written over an operator's is not accepted. -/
theorem not_operator_of_checks {d' : Deletion} (h : d.Checks) (h' : d'.Checks)
    (hsource : d'.billingObservationSource = some .provider)
    (hobservedBy : d'.billingObservedBy = d.billingObservedBy) :
    d.billingObservationSource ≠ some .operator := by
  intro hoperator
  have hby : d.billingObservedBy ≠ none :=
    (h.observationActor.resolve_left fun h => h.1 hoperator).2.1
  rw [← hobservedBy] at hby
  have hnone : d'.billingObservedBy = none :=
    (h'.observationActor.resolve_right fun h => by simp [hsource] at h).2.1
  exact hby hnone

theorem checks_billingFinished {gate : PurgeGate} (h : d.Checks) (ht : d.requestedAt ≤ now)
    (hstate : d.state.Claimable) :
    (d.billingFinished now gate).released.Checks ↔
      d.billingObservationSource ≠ some .operator := by
  refine ⟨fun h' => not_operator_of_checks h h' rfl rfl, ?_⟩
  intro hsource
  obtain ⟨hresume, hcancelled, hcompleted⟩ := open_of_claimable h hstate
  have hfinished : d.billingFinished now gate = { d.observed now gate with
      state := .retention
      resumeState := none
      nextAttemptAt := none } := by
    simp [Deletion.billingFinished, Deletion.observed, hresume]
  rw [hfinished]
  exact checks_released (checks_goesOn (checks_observed h ht hsource) hcancelled hcompleted
    (by simp [DeletionState.Claimable]) (by simp))

theorem checks_purgeStarted {purgeStartedAt : Option Int} (h : d.Checks)
    (hstarted : ∀ t ∈ purgeStartedAt, d.requestedAt ≤ t) :
    Deletion.Checks { d with purgeStartedAt := purgeStartedAt } :=
  { h with purgeStartedAt := hstarted }

theorem requestedAt_le_started (h : d.Checks) (ht : d.requestedAt ≤ now) :
    d.requestedAt ≤ d.purgeStartedAt.getD now := by
  cases hstarted : d.purgeStartedAt with
  | none => exact ht
  | some t => exact h.purgeStartedAt t hstarted

theorem checks_reconciled {gate : PurgeGate} (h : d.Checks) (ht : d.requestedAt ≤ now)
    (hstate : d.state.Claimable) :
    (d.reconciled now gate).released.Checks ↔ d.billingObservationSource ≠ some .operator := by
  refine ⟨fun h' => not_operator_of_checks h h' rfl rfl, ?_⟩
  intro hsource
  obtain ⟨hresume, hcancelled, hcompleted⟩ := open_of_claimable h hstate
  have hobserved : (d.observed now gate).Checks := checks_observed h ht hsource
  by_cases hpurge : gate = .terminal ∨ gate = .missing
  · have hreconciled : d.reconciled now gate = { { d.observed now gate with
        purgeStartedAt := some (d.purgeStartedAt.getD now) } with
        state := .purging
        resumeState := none
        nextAttemptAt := none } := by
      simp [Deletion.reconciled, Deletion.observed, hresume, hpurge]
    rw [hreconciled]
    refine checks_released (checks_goesOn (checks_purgeStarted hobserved ?_) hcancelled hcompleted
      (by simp [DeletionState.Claimable]) (by simp))
    have hstarted := requestedAt_le_started h ht
    rintro _ ⟨⟩
    exact hstarted
  · have hreconciled : d.reconciled now gate = { d.observed now gate with
        state := .cancellingBilling
        resumeState := none
        nextAttemptAt := some now } := by
      simp [Deletion.reconciled, Deletion.observed, hresume, hpurge]
    rw [hreconciled]
    exact checks_released (checks_goesOn hobserved hcancelled hcompleted
      (by simp [DeletionState.Claimable]) (by simpa))

theorem checks_recovered {gate : PurgeGate} (h : d.Checks) (ht : d.requestedAt ≤ now)
    (hstate : d.state.Claimable) :
    (d.recovered now gate).released.Checks ↔ d.billingObservationSource ≠ some .operator := by
  refine ⟨fun h' => not_operator_of_checks h h' rfl rfl, ?_⟩
  intro hsource
  obtain ⟨hresume, -, hcompleted⟩ := open_of_claimable h hstate
  have hobserved : (d.observed now gate).Checks := checks_observed h ht hsource
  refine checks_released ?_
  exact { hobserved with
    failedResumeState := by simp [Deletion.recovered, Deletion.observed, hresume]
    nextAttemptAt := by simp [Deletion.recovered]
    terminalTimestamp := by simp [Deletion.recovered]
    cancelledAt := by simpa [Deletion.recovered]
    completedTimestamp := by simp [Deletion.recovered, Deletion.observed, hcompleted] }

theorem checks_purging (h : d.Checks) (ht : d.requestedAt ≤ now) (hstate : d.state.Claimable)
    (hobserved : d.lastBillingState ≠ none) : (d.purging now).Checks := by
  obtain ⟨hresume, hcancelled, hcompleted⟩ := open_of_claimable h hstate
  have hchecked : d.billingCheckedAt ≠ none := fun h' => hobserved (h.billingResultPair.2 h')
  have hsource : d.billingObservationSource ≠ none := by
    rcases h.observationResult with h | h
    · exact absurd h.2.1 hobserved
    · exact h.1
  have hchecks : Deletion.Checks { d with
      attemptCount := 0
      purgeStartedAt := some (d.purgeStartedAt.getD now)
      billingCheckedAt := if d.subscriptionId = none then some now else d.billingCheckedAt } :=
    { h with
      attemptCount := le_refl 0
      billingResultPair := by
        simp only [hobserved, false_iff]
        split
        · simp
        · exact hchecked
      billingCheckedAt := by
        split
        · simpa
        · exact h.billingCheckedAt
      observationResult := by
        refine Or.inr ⟨hsource, hobserved, ?_⟩
        split
        · simp
        · exact hchecked
      purgeStartedAt := by simpa using requestedAt_le_started h ht }
  have hpurging : d.purging now = { { d with
      attemptCount := 0
      purgeStartedAt := some (d.purgeStartedAt.getD now)
      billingCheckedAt := if d.subscriptionId = none then some now else d.billingCheckedAt } with
      state := .purging
      resumeState := none
      nextAttemptAt := none } := by
    simp [Deletion.purging, hresume]
  rw [hpurging]
  exact checks_goesOn hchecks hcancelled hcompleted (by simp [DeletionState.Claimable]) (by simp)

theorem checks_retried {code : Option String} {delay : Int} (h : d.Checks)
    (ht : d.requestedAt ≤ now) (hdelay : 0 ≤ delay) : (d.retried now code delay).Checks :=
  { h with
    nextAttemptAt := by
      simp only [Deletion.retried, Option.mem_def, Option.some.injEq]
      rintro _ rfl
      omega }

theorem checks_failed {resumeState : DeletionState} {code : String} (h : d.Checks)
    (hstate : d.state.Claimable) (hresume : resumeState.Claimable) :
    (d.failed resumeState code).Checks := by
  obtain ⟨-, hcancelled, hcompleted⟩ := open_of_claimable h hstate
  exact { h with
    resumeState := by
      simp only [Deletion.failed, Option.mem_def, Option.some.injEq]
      rintro _ rfl
      exact hresume
    failedResumeState := by simp [Deletion.failed]
    nextAttemptAt := by simp [Deletion.failed]
    terminalTimestamp := by simp [Deletion.failed, hcancelled]
    completedTimestamp := by simp [Deletion.failed, hcompleted] }

theorem checks_completed (h : d.Checks) (ht : d.requestedAt ≤ now) (hstate : d.state.Claimable) :
    (d.completed now).Checks := by
  obtain ⟨hresume, hcancelled, -⟩ := open_of_claimable h hstate
  exact { h with
    failedResumeState := by simp [Deletion.completed, hresume]
    terminalTimestamp := by simp [Deletion.completed, hcancelled]
    completedTimestamp := by simp [Deletion.completed]
    completedAt := by simpa [Deletion.completed] }

theorem checks_recorded {observation : OperatorObservation} {operator : String}
    {observedAt : Int} {expiry : Option Int} (h : d.Checks) (hopen : ¬ d.state.isTerminal)
    (hobserved : d.requestedAt ≤ observedAt) (hexpiry : ∀ t ∈ expiry, d.purgeAfter < t) :
    (observation.recorded operator observedAt expiry d).Checks := by
  have hstate : d.state ≠ .cancelled ∧ d.state ≠ .completed := by
    refine ⟨?_, ?_⟩ <;> intro hstate <;> simp [hstate, DeletionState.isTerminal] at hopen
  obtain ⟨hcancelled, hcompleted⟩ := not_over_of_state h hstate.1 hstate.2
  have hbackup : ∀ t ∈ (expiry <|> d.managedBackupExpiryBy), d.purgeAfter ≤ t := by
    cases expiry with
    | none => exact h.backupExpiry
    | some t =>
        rintro _ ⟨⟩
        exact (hexpiry t rfl).le
  have hchecks : Deletion.Checks { d with
      attemptCount := 0
      lastBillingState := some observation.gate
      billingCheckedAt := some observedAt
      billingObservationSource := some .operator
      billingObservedBy := some operator
      billingObservationReason := some observation.reason
      billingObservationEvidence := some observation.evidence
      managedBackupExpiryBy := expiry <|> d.managedBackupExpiryBy } :=
    { h with
      attemptCount := le_refl 0
      billingResultPair := by simp
      billingCheckedAt := by simpa
      observationActor := by simp
      observationResult := by simp
      backupExpiry := hbackup }
  exact checks_goesOn hchecks hcancelled hcompleted (by simp [DeletionState.Claimable]) (by simp)

end Checks

/-! ### Runs -/

section Runs

variable {textGt : String → String → Bool} {s s' : World} {c : Cmd} {op : Op} {id : Ident}
  {d : Deletion} {db' : Db}

theorem claimable_of_isDue {now : Int} (h : d.isDue now) : d.state.Claimable := by
  unfold Deletion.isDue at h
  rw [Bool.and_eq_true] at h
  cases hstate : d.state <;> simp [hstate] at h <;> simp [DeletionState.Claimable]

/-- The lease of a worker's command. -/
def Cmd.lease : Cmd → Option DeletionLease
  | transitionState lease _ => some lease
  | finishBilling lease _ => some lease
  | finishRetention lease _ => some lease
  | finishRecovery lease _ _ => some lease
  | enterPurging lease => some lease
  | scheduleRetry lease _ _ => some lease
  | failAttempt lease _ => some lease
  | operatorObservationIsFresh lease => some lease
  | purge lease => some lease
  | _ => none

/-- A worker's command has a lease that was issued. -/
theorem mem_leases_of_issues {lease : DeletionLease} (hissues : op.Issues c)
    (hstart : op.MayStart s) (hc : c.lease = some lease) : lease ∈ s.leases := by
  cases op with
  | issue c' =>
      cases hissues
      cases c <;> simp_all [Cmd.lease, Op.MayStart]
  | advance lease' provider =>
      have hlease : lease = lease' := by
        cases c <;> simp_all [Cmd.lease, Op.Issues]
      rw [hlease]
      exact hstart

/-- The row under a lease that is still the operation's is the one that was claimed. -/
theorem state_of_held {lease : DeletionLease} (hs : s.Sound) (hlease : lease ∈ s.leases)
    (hd : s.db.deletions.lookup lease.id = some d) (hheld : d.heldBy lease) :
    d.state = lease.state ∧ d.orgId = lease.orgId ∧ d.subscriptionId = lease.subscriptionId := by
  obtain ⟨d', hd', -, hsame⟩ := (hs.leases lease hlease).operation
  cases hd.symm.trans hd'
  simp only [Deletion.heldBy, decide_eq_true_eq] at hheld
  exact hsame hheld.1

theorem claimable_of_held {lease : DeletionLease} (hs : s.Sound) (hlease : lease ∈ s.leases)
    (hd : s.db.deletions.lookup lease.id = some d) (hheld : d.heldBy lease) :
    d.state.Claimable := by
  rw [(state_of_held hs hlease hd hheld).1]
  exact (hs.leases lease hlease).claimable

theorem next_of_issues {lease : DeletionLease} {next : DeletionState}
    (hissues : op.Issues (.transitionState lease next)) (hstart : op.MayStart s) :
    next = .cancellingBilling := by
  cases op with
  | issue c' =>
      cases hissues
      exact hstart.elim
  | advance lease' provider => exact hissues.2

theorem delay_of_issues {lease : DeletionLease} {code : Option String} {delay : Int}
    (hissues : op.Issues (.scheduleRetry lease code delay)) (hstart : op.MayStart s) :
    0 ≤ delay := by
  cases op with
  | issue c' =>
      cases hissues
      exact hstart.elim
  | advance lease' provider => exact hissues.2

theorem sound_of_released {d' : Deletion} {now : Int} (h : d.Sound now)
    (hchecks : d'.released.Checks) (hrequested : d'.requestedAt = d.requestedAt)
    (hobserved : d'.state = .retention ∨ d'.resumeState = some .retention →
      d'.lastBillingState ≠ none) : d'.released.Sound now where
  checks := hchecks
  requestedAt := hrequested.le.trans h.requestedAt
  leased := fun h => absurd rfl h
  observed := hobserved

/-- The row that a command writes is sound when the table accepts it. -/
theorem sound_of_writes (hs : s.Sound) (hissues : op.Issues c) (hstart : op.MayStart s)
    (h : Writes s.now s.db c id d db') (hchecks : d.Checks) : d.Sound s.now := by
  cases h with
  | requested =>
      exact ⟨hchecks, le_refl _, fun h => absurd rfl h, by simp [Deletion.requested]⟩
  | @resumed _ _ _ _ _ _ d hd hfailed hresume =>
      have hsound := hs.operations _ _ hd
      refine sound_of_released hsound hchecks rfl ?_
      rintro (h | h)
      · obtain ⟨state, hstate⟩ := Option.ne_none_iff_exists'.1 hresume
        simp only [Deletion.resumed, hstate, Option.getD_some] at h
        exact hsound.observed (Or.inr (by rw [hstate, h]))
      · simp [Deletion.resumed] at h
  | recovering hd _ =>
      exact sound_of_released (hs.operations _ _ hd) hchecks rfl (by simp [Deletion.recovering])
  | @claimed _ _ _ d hd hdue =>
      have hsound := hs.operations _ _ hd
      have hclaimable : d.state.Claimable := claimable_of_isDue hdue
      exact ⟨hchecks, hsound.requestedAt, fun _ => hclaimable, hsound.observed⟩
  | transitioned hd _ =>
      have hsound := hs.operations _ _ hd
      have hnext := next_of_issues hissues hstart
      refine sound_of_released hsound hchecks rfl ?_
      rintro (h | h)
      · simp [Deletion.transitioned, hnext] at h
      · exact hsound.observed (Or.inr h)
  | billingFinished hd _ =>
      exact sound_of_released (hs.operations _ _ hd) hchecks rfl
        (by simp [Deletion.billingFinished, Deletion.observed])
  | reconciled hd _ _ =>
      exact sound_of_released (hs.operations _ _ hd) hchecks rfl
        (by simp [Deletion.reconciled, Deletion.observed])
  | recovered hd _ =>
      exact sound_of_released (hs.operations _ _ hd) hchecks rfl
        (by simp [Deletion.recovered, Deletion.observed])
  | purging hd _ hretention _ =>
      have hsound := hs.operations _ _ hd
      exact sound_of_released hsound hchecks rfl fun _ => hsound.observed (Or.inl hretention)
  | retried hd _ =>
      have hsound := hs.operations _ _ hd
      exact sound_of_released hsound hchecks rfl hsound.observed
  | failed hd hheld =>
      have hsound := hs.operations _ _ hd
      have hlease := mem_leases_of_issues hissues hstart rfl
      refine sound_of_released hsound hchecks rfl ?_
      rintro (h | h)
      · simp [Deletion.failed] at h
      · refine hsound.observed (Or.inl ?_)
        rw [(state_of_held hs hlease hd hheld).1]
        simpa [Deletion.failed] using h
  | purged hd _ _ _ _ _ =>
      have hsound := hs.operations _ _ hd
      refine sound_of_released hsound hchecks rfl ?_
      rintro (h | h)
      · simp [Deletion.completed] at h
      · exact hsound.observed (Or.inr h)
  | purgeRefused hd =>
      exact sound_of_released (hs.operations _ _ hd) hchecks rfl (by simp [Deletion.failed])
  | recorded hd =>
      exact sound_of_released (hs.operations _ _ hd) hchecks rfl
        (by simp [OperatorObservation.recorded])

theorem Deletion.Sound.later {now now' : Int} (h : d.Sound now) (hnow : now ≤ now') :
    d.Sound now' :=
  { h with requestedAt := h.requestedAt.trans hnow }

theorem now_of_executes {r : c.Reply} (h : Executes textGt c s r s') : s.now ≤ s'.now := by
  cases h with
  | request h | cancel h | claim h | transitionState h | finishBilling h | finishRetention h
  | finishRecovery h | enterPurging h | scheduleRetry h | failAttempt h
  | operatorObservationIsFresh h | observe h =>
      cases h
      exact le_refl _
  | purge hfinished h => exact hfinished
  | tick hnow => exact hnow
  | _ => exact le_refl _

/-- A lease stays sound when an operation is written. -/
theorem leaseSound_of_writes {now : Int} {db : Db} {lease : DeletionLease}
    (hlease : lease.Sound db) (h : Writes now db c id d db') : lease.Sound db' := by
  refine ⟨hlease.claimable, ?_⟩
  obtain ⟨d', hd', hversion, hsame⟩ := hlease.operation
  rw [lookup_of_writes h]
  split
  · next heq =>
      refine ⟨d, rfl, ?_⟩
      rcases next_of_writes h with ⟨hfresh, -⟩ | ⟨d'', hd'', hnext⟩
      · rw [← heq, hd'] at hfresh
        cases hfresh
      · rw [← heq, hd'] at hd''
        cases hd''
        have := hnext.stateVersion
        exact ⟨by omega, fun h => by omega⟩
  · exact ⟨d', hd', hversion, hsame⟩

/-- A lease that a claim issues is of the row it has written. -/
theorem leaseSound_of_claim {now : Int} {db : Db} {workerId : String} {locked : List Ident}
    {lease : DeletionLease}
    (h : (claimDue now workerId locked).run db = .ok (some lease, db')) : lease.Sound db' := by
  unfold claimDue at h
  obtain ⟨_, db₁, hrequire, h⟩ := Transaction.bind_eq_ok.1 h
  cases (require_eq_ok.1 hrequire).2
  rw [Transaction.run_get_bind] at h
  split at h
  · cases (Transaction.pure_eq_ok.1 h).1
  · next id d hhead =>
      have hmem := (List.mergeSort_perm _ _).mem_iff.1 (List.mem_of_head? hhead)
      rw [List.mem_filter, Bool.and_eq_true] at hmem
      have hd : db.deletions.lookup id = some d := Table.mem_rows.1 hmem.1
      have hclaimable : d.state.Claimable := claimable_of_isDue hmem.2.1
      obtain ⟨row, db₂, hupdate, h⟩ := Transaction.bind_eq_ok.1 h
      obtain ⟨hrow, rfl⟩ := Transaction.pure_eq_ok.1 h
      rw [Option.map_eq_some_iff] at hrow
      obtain ⟨row, rfl, rfl⟩ := hrow
      rcases updateDeletion_cases db id (fun _ => true) (Deletion.claimed now workerId) with
        ⟨-, hrun⟩ | ⟨d', hd', -, ⟨-, hrun⟩ | ⟨-, hrun⟩⟩
      · cases hrun.symm.trans hupdate
      · cases hd.symm.trans hd'
        cases hrun.symm.trans hupdate
        refine ⟨hclaimable, _, ?_, le_refl _, fun _ => ⟨rfl, rfl, rfl⟩⟩
        exact (Table.lookup_modify_self _ _ _).trans (by rw [hd]; rfl)
      · cases hrun.symm.trans hupdate

/-- Every lease after a command was there before, or it was issued for the row that is there. -/
theorem leases_cases {r : c.Reply} (h : Executes textGt c s r s') {lease : DeletionLease}
    (hlease : lease ∈ s'.leases) : lease ∈ s.leases ∨ lease.Sound s'.db := by
  cases h with
  | @claim s workerId locked r s' h =>
      unfold World.commit at h
      rcases Transaction.commit_cases (claimDue s.now workerId locked) s.db with
        ⟨a, db', hrun, hcommit⟩ | ⟨e, -, hcommit⟩
      · rw [hcommit] at h
        cases h
        rcases List.mem_append.1 hlease with hnew | hold
        · cases a with
          | none => cases hnew
          | some lease' =>
              cases List.mem_singleton.1 hnew
              exact Or.inr (leaseSound_of_claim hrun)
        · exact Or.inl hold
      · rw [hcommit] at h
        cases h
        exact Or.inl hlease
  | request h | cancel h | transitionState h | finishBilling h | finishRetention h
  | finishRecovery h | enterPurging h | scheduleRetry h | failAttempt h
  | operatorObservationIsFresh h | purge _ h | observe h =>
      cases h
      exact Or.inl hlease
  | _ => exact Or.inl hlease

theorem leaseSound_of_deletions {db db' : Db} {lease : DeletionLease} (h : lease.Sound db)
    (hdb : db'.deletions = db.deletions) : lease.Sound db' :=
  ⟨h.claimable, by rw [hdb]; exact h.operation⟩

/-- Every command keeps the operations and the leases sound. -/
theorem sound_of_executes {r : c.Reply} (hs : s.Sound) (hissues : op.Issues c)
    (hstart : op.MayStart s) (h : Executes textGt c s r s') : s'.Sound := by
  have hnow := now_of_executes h
  have hsame : s'.db.deletions = s.db.deletions → s'.Sound := by
    intro hdb
    refine ⟨?_, ?_⟩
    · intro id d hd
      rw [hdb] at hd
      exact (hs.operations id d hd).later hnow
    · intro lease hlease
      rcases leases_cases h hlease with hold | hnew
      · exact leaseSound_of_deletions (hs.leases lease hold) hdb
      · exact hnew
  cases ends_of_executes h with
  | kept hdb _ => exact hsame (by rw [hdb])
  | relinked _ hrelinks _ => exact hsame hrelinks.deletions
  | refused _ _ hdb _ => exact hsame (by rw [hdb])
  | written hwrites hchecks _ =>
      refine ⟨?_, ?_⟩
      · intro id' d' hd'
        rw [lookup_of_writes hwrites] at hd'
        split at hd'
        · cases hd'
          exact (sound_of_writes hs hissues hstart hwrites hchecks).later hnow
        · exact (hs.operations id' d' hd').later hnow
      · intro lease hlease
        rcases leases_cases h hlease with hold | hnew
        · exact leaseSound_of_writes (hs.leases lease hold) hwrites
        · exact hnew

/-- Nothing is running, and there are neither operations nor leases. -/
structure Situation.Fresh (w : Situation) : Prop where
  idle : w.Idle
  deletions : w.shared.db.deletions = ∅
  leases : w.shared.leases = []

theorem Situation.Fresh.sound {w : Situation} (h : w.Fresh) : w.shared.Sound := by
  refine ⟨?_, ?_⟩
  · intro id d hd
    rw [h.deletions] at hd
    cases hd
  · intro lease hlease
    rw [h.leases] at hlease
    cases hlease

/-- What the running thread of a reachable configuration issues, and that it was started. -/
theorem issues_of_reaches {w w' : Situation} (hidle : w.Idle)
    (hrun : (deletionSystem textGt).Reaches w w') {i : Nat} {p : Work}
    (hr : (w'.threads i).running = some (op, p)) : p.Uses op.Issues ∧ op.MayStart w'.shared :=
  System.Reaches.running (fun _ => uses_prog) (I := fun op s => op.MayStart s) (fun h => h)
    mayStart_of_executes hidle hrun hr

/-- In every run the operations and the leases stay sound. -/
theorem sound_of_reaches {w w' : Situation} (h : w.Fresh)
    (hrun : (deletionSystem textGt).Reaches w w') : w'.shared.Sound := by
  induction hrun with
  | refl => exact h.sound
  | @tail w₁ w₂ hrun hstep ih =>
      cases hstep with
      | start _ _ => exact ih
      | finish _ _ => exact ih
      | call hr he =>
          obtain ⟨huses, hstart⟩ := issues_of_reaches h.idle hrun hr
          exact sound_of_executes ih huses.1 hstart he

/-! ### Steps and runs without overlap -/

/-- The runs whose commands meet a condition. -/
def onlyIf (meets : (c : Cmd) → World → c.Reply → World → Prop) :
    System.Condition Nat Cmd.Reply World Unit Op (Except Error (Option DeletionView)) where
  start _ _ _ _ := True
  exec _ c s _ r s' _ := meets c s r s'
  finish _ _ _ _ _ := True

/-- A worker starts to advance an operation. -/
theorem step_advance {w : Situation} {i : Nat} {lease : DeletionLease} {provider : Bool}
    (hr : (w.threads i).running = none) (hlease : lease ∈ w.shared.leases) :
    (deletionSystem textGt).Step w ⟨w.shared, Function.update w.threads i
      ⟨(), some (.advance lease provider, advance lease provider)⟩⟩ := .start hr hlease

theorem step_call {meets : (c : Cmd) → World → c.Reply → World → Prop} {w : Situation} {i : Nat}
    {k : c.Reply → Work} {r : c.Reply} (hr : (w.threads i).running = some (op, .call c k))
    (he : Executes textGt c w.shared r s') (hmeets : meets c w.shared r s') :
    ((deletionSystem textGt).restrict (onlyIf meets)).Step w
      ⟨s', Function.update w.threads i ⟨(), some (op, k r)⟩⟩ :=
  .call hr ⟨he, hmeets⟩

/-- The situation in which nothing is running. -/
def quiet (s : World) : Situation := ⟨s, fun _ => ⟨(), none⟩⟩

/-- One operation, with nothing else running. -/
theorem reaches_of_alone {meets : (c : Cmd) → World → c.Reply → World → Prop}
    {a : Except Error (Option DeletionView)} (hstart : op.MayStart s)
    (h : System.Alone (fun c s _ r s' _ => Executes textGt c s r s' ∧ meets c s r s') op.prog
      s () a s' ()) :
    ((deletionSystem textGt).restrict (onlyIf meets)).Reaches (quiet s) (quiet s') := by
  have hrun : ((deletionSystem textGt).restrict (onlyIf meets)).Reaches (quiet s)
      ⟨s', Function.update (quiet s).threads 0 ⟨(), none⟩⟩ :=
    System.Alone.completes (w := quiet s) h rfl rfl ⟨hstart, trivial⟩ ⟨trivial, trivial⟩
  have hthreads : Function.update (quiet s).threads 0 ⟨(), none⟩ = (quiet s').threads :=
    Function.update_eq_self 0 (quiet s).threads
  rw [hthreads] at hrun
  exact hrun

/-- One request, with nothing else running. -/
theorem reaches_issue {meets : (c : Cmd) → World → c.Reply → World → Prop} {r : c.Reply}
    (hstart : (Op.issue c).MayStart s) (h : Executes textGt c s r s') (hmeets : meets c s r s') :
    ((deletionSystem textGt).restrict (onlyIf meets)).Reaches (quiet s) (quiet s') :=
  reaches_of_alone hstart (.call ⟨h, hmeets⟩ .ret)

end Runs

end Billing

end Sotto
