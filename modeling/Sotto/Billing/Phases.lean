import Sotto.Billing.Operations

/-!
# The lifecycle of an operation

Which commands a worker issues depends on the state in which it claimed the operation. So every
write moves an operation along one edge of its lifecycle.
-/

namespace Sotto

namespace Billing

open Core
open Server (LifecycleState)

/-! ### The phases of a worker -/

/-- The commands that a worker issues for an operation that it claimed in a state. -/
def DeletionState.Issues (state : DeletionState) : Cmd → Prop
  | .transitionState .. => state = .requested
  | .finishBilling _ gate => state = .cancellingBilling ∧ (gate = .terminal ∨ gate = .missing)
  | .cancelSubscription _ => state = .cancellingBilling
  | .finishRetention .. => state = .retention
  | .enterPurging _ => state = .retention
  | .operatorObservationIsFresh _ => state = .retention
  | .finishRecovery .. => state = .recovering
  | .purge _ => state = .purging
  | .scheduleRetry .. => state ∈ [.cancellingBilling, .retention, .recovering]
  | .failAttempt .. => state ∈ [.cancellingBilling, .retention, .recovering]
  | _ => True

/-- A worker issues only what is issued in the state of its lease. -/
def Op.InPhase : Op → Cmd → Prop
  | issue _, _ => True
  | advance lease _, c => lease.state.Issues c

section Programs

variable {lease : DeletionLease} {provider : Bool}

theorem inPhase_handleProviderError {kind : ProviderErrorKind} {code : Option String}
    (hlease : lease.state ∈ [.cancellingBilling, .retention, .recovering]) :
    (handleProviderError lease kind code).Uses (Op.advance lease provider).InPhase := by
  unfold handleProviderError
  split
  · split
    · trivial
    · exact ⟨hlease, fun _ => trivial⟩
  · exact ⟨hlease, fun _ => trivial⟩

theorem inPhase_withObservation {finish : SubscriptionObservation → Work}
    {observed : ProviderResult SubscriptionObservation}
    (hlease : lease.state ∈ [.cancellingBilling, .retention, .recovering])
    (h : ∀ observation, (finish observation).Uses (Op.advance lease provider).InPhase) :
    (withObservation lease finish observed).Uses (Op.advance lease provider).InPhase := by
  unfold withObservation
  split
  · exact h _
  · exact inPhase_handleProviderError hlease

theorem inPhase_finishBillingWith {observation : SubscriptionObservation}
    (hlease : lease.state = .cancellingBilling) :
    (finishBillingWith lease observation).Uses (Op.advance lease provider).InPhase := by
  unfold finishBillingWith
  split
  · next next hnext =>
      refine ⟨⟨hlease, ?_⟩, fun _ => trivial⟩
      cases hgate : observation.purgeGate <;> simp_all [billingTransition]
  · exact inPhase_handleProviderError (by simp [hlease])

theorem inPhase_finishRecoveryWith {observation : SubscriptionObservation}
    (hlease : lease.state = .recovering) :
    (finishRecoveryWith lease observation).Uses (Op.advance lease provider).InPhase := by
  unfold finishRecoveryWith
  split
  · exact ⟨hlease, fun _ => trivial⟩
  · split
    · exact inPhase_handleProviderError (by simp [hlease])
    · exact ⟨hlease, fun _ => trivial⟩

theorem inPhase_finishRetentionWith {observation : SubscriptionObservation}
    (hlease : lease.state = .retention) :
    (finishRetentionWith lease observation).Uses (Op.advance lease provider).InPhase := by
  unfold finishRetentionWith
  split
  · exact inPhase_handleProviderError (by simp [hlease])
  · exact ⟨hlease, fun _ => trivial⟩

theorem inPhase_advanceBilling {available recovering : Bool}
    (hlease : lease.state = if recovering then .recovering else .cancellingBilling) :
    (advanceBilling lease available recovering).Uses (Op.advance lease provider).InPhase := by
  unfold advanceBilling
  cases recovering with
  | true =>
      have hlease : lease.state = .recovering := hlease
      split
      · rw [if_pos rfl]
        exact inPhase_finishRecoveryWith hlease
      · split
        · exact ⟨by simp [Op.InPhase, DeletionState.Issues, hlease], fun _ => trivial⟩
        · exact ⟨trivial, fun _ => inPhase_withObservation (by simp [hlease])
            fun _ => inPhase_finishRecoveryWith hlease⟩
  | false =>
      have hlease : lease.state = .cancellingBilling := hlease
      split
      · rw [if_neg (by decide)]
        exact inPhase_finishBillingWith hlease
      · split
        · exact ⟨by simp [Op.InPhase, DeletionState.Issues, hlease], fun _ => trivial⟩
        · exact ⟨hlease, fun _ => inPhase_withObservation (by simp [hlease])
            fun _ => inPhase_finishBillingWith hlease⟩

theorem inPhase_advanceRetention {available : Bool} (hlease : lease.state = .retention) :
    (advanceRetention lease available).Uses (Op.advance lease provider).InPhase := by
  unfold advanceRetention
  split
  · exact ⟨hlease, fun _ => trivial⟩
  · split
    · exact ⟨trivial, fun _ => inPhase_withObservation (by simp [hlease])
        fun _ => inPhase_finishRetentionWith hlease⟩
    · refine ⟨hlease, ?_⟩
      intro r
      match r with
      | .error _ => trivial
      | .ok true => exact ⟨hlease, fun _ => trivial⟩
      | .ok false =>
          exact ⟨by simp [Op.InPhase, DeletionState.Issues, hlease], fun _ => trivial⟩

/-- A worker acts in the state in which it claimed the operation. -/
theorem inPhase_advance : (advance lease provider).Uses (Op.advance lease provider).InPhase := by
  unfold advance
  split
  · next hlease => exact ⟨hlease, fun _ => trivial⟩
  · next hlease => exact inPhase_advanceBilling hlease
  · next hlease => exact inPhase_advanceBilling hlease
  · next hlease => exact inPhase_advanceRetention hlease
  · next hlease => exact ⟨hlease, fun _ => trivial⟩
  all_goals trivial

theorem inPhase_prog (op : Op) : op.prog.Uses op.InPhase := by
  cases op with
  | issue c => exact ⟨trivial, fun _ => trivial⟩
  | advance lease provider => exact inPhase_advance

end Programs

/-! ### Steps -/

/-- What a step of a run does to the database: it keeps it, relinks organisations at most, or
writes an operation for a thread that has started. -/
inductive DeletionProgress (w : Situation) (s' : World) : Prop
  | kept : s'.db = w.shared.db → DeletionProgress w s'
  | relinked : Relinks w.shared.db s'.db → DeletionProgress w s'
  | written {i op c k id d} : (w.threads i).running = some (op, .call c k) → op.Issues c →
      op.InPhase c → op.MayStart w.shared → Writes w.shared.now w.shared.db c id d s'.db →
      d.Checks → DeletionProgress w s'

section Steps

variable {textGt : String → String → Bool} {w₀ w w' : Situation}

theorem inPhase_of_reaches (hidle : w₀.Idle) (hrun : (deletionSystem textGt).Reaches w₀ w)
    {i : Nat} {op : Op} {p : Work} (hr : (w.threads i).running = some (op, p)) :
    p.Uses op.InPhase :=
  (System.Reaches.running (fun _ => inPhase_prog) (I := fun _ _ => True) (fun _ => trivial)
    (fun _ _ => trivial) hidle hrun hr).1

theorem progress_of_step (hidle : w₀.Idle) (hrun : (deletionSystem textGt).Reaches w₀ w)
    (hstep : (deletionSystem textGt).Step w w') : DeletionProgress w w'.shared := by
  cases hstep with
  | start _ _ => exact .kept rfl
  | finish _ _ => exact .kept rfl
  | call hr he =>
      obtain ⟨huses, hstart⟩ := issues_of_reaches hidle hrun hr
      have hphase := inPhase_of_reaches hidle hrun hr
      cases ends_of_executes he with
      | kept hdb _ => exact .kept hdb
      | relinked _ hrelinks _ => exact .relinked hrelinks
      | refused _ _ hdb _ => exact .kept hdb
      | written hwrites hchecks _ =>
          exact .written hr huses.1 hphase.1 hstart hwrites hchecks

end Steps

/-! ### Moves -/

/-- How a write moves an operation: it stays in its state, or it goes along one edge of the
lifecycle. -/
inductive Deletion.Moves (d d' : Deletion) : Prop
  | stays : d'.state = d.state → d'.resumeState = d.resumeState → Moves d d'
  | resumes : d.state = .failed → d.resumeState = some d'.state → d'.resumeState = none →
      Moves d d'
  | fails : d.state.Claimable → d'.state = .failed → d'.resumeState = some d.state → Moves d d'
  | recovers : d.state.canCancel → d'.state = .recovering → d'.resumeState = none → Moves d d'
  | cancelsBilling : d.state = .requested ∨ d.state = .retention →
      d'.state = .cancellingBilling → d'.resumeState = none → Moves d d'
  | retains : d.state = .requested ∨ d.state = .cancellingBilling ∨ d.state = .retention ∨
      d.state = .failed → d.resumeState ≠ some .recovering → d.resumeState ≠ some .purging →
      d'.state = .retention → d'.resumeState = none → Moves d d'
  | purges : d.state = .retention → d'.state = .purging → d'.resumeState = none → Moves d d'
  | cancels : d.state = .recovering → d'.state = .cancelled → d'.resumeState = none → Moves d d'
  | completes : d.state = .purging → d'.state = .completed → d'.resumeState = none → Moves d d'

section Moves

variable {s : World} {op : Op} {c : Cmd} {id : Ident} {d d' : Deletion} {db' : Db}

/-- The operation under a lease that is still its own is in a state in which the worker issues its
command. -/
theorem issues_of_held {lease : DeletionLease} (hs : s.Sound) (hissues : op.Issues c)
    (hphase : op.InPhase c) (hstart : op.MayStart s) (hlease : c.lease = some lease)
    (hd : s.db.deletions.lookup lease.id = some d) (hheld : d.heldBy lease) : d.state.Issues c := by
  have hmem := mem_leases_of_issues hissues hstart hlease
  rw [(state_of_held hs hmem hd hheld).1]
  cases op with
  | issue c' =>
      cases hissues
      cases c <;> simp_all [Cmd.lease, Op.MayStart]
  | advance lease' provider =>
      have hsame : lease = lease' := by
        cases c <;> simp_all [Cmd.lease, Op.Issues]
      rw [hsame]
      exact hphase

/-- Every write moves an operation that exists along its lifecycle. -/
theorem moves_of_writes (hs : s.Sound) (hissues : op.Issues c) (hphase : op.InPhase c)
    (hstart : op.MayStart s) (h : Writes s.now s.db c id d' db')
    (hd : s.db.deletions.lookup id = some d) : d.Moves d' := by
  cases h with
  | requested _ _ _ hfresh _ =>
      rw [hfresh] at hd
      cases hd
  | resumed hd' hfailed hresume =>
      cases hd'.symm.trans hd
      obtain ⟨state, hstate⟩ := Option.ne_none_iff_exists'.1 hresume
      refine .resumes hfailed ?_ rfl
      simp [Deletion.released, Deletion.resumed, hstate]
  | recovering hd' hcancel =>
      cases hd'.symm.trans hd
      exact .recovers hcancel rfl rfl
  | claimed hd' _ =>
      cases hd'.symm.trans hd
      exact .stays rfl rfl
  | transitioned hd' hheld =>
      cases hd'.symm.trans hd
      have hstate := issues_of_held hs hissues hphase hstart rfl hd hheld
      have hnext := next_of_issues hissues hstart
      have hopen := open_of_claimable (hs.operations _ _ hd).checks
        (claimable_of_held hs (mem_leases_of_issues hissues hstart rfl) hd hheld)
      exact .cancelsBilling (.inl hstate) hnext hopen.1
  | billingFinished hd' hheld =>
      cases hd'.symm.trans hd
      have hstate := issues_of_held hs hissues hphase hstart rfl hd hheld
      have hopen := open_of_claimable (hs.operations _ _ hd).checks
        (claimable_of_held hs (mem_leases_of_issues hissues hstart rfl) hd hheld)
      refine .retains (.inr (.inl hstate.1)) ?_ ?_ rfl hopen.1
      · simp [hopen.1]
      · simp [hopen.1]
  | reconciled hd' hheld _ =>
      cases hd'.symm.trans hd
      have hstate := issues_of_held hs hissues hphase hstart rfl hd hheld
      have hopen := open_of_claimable (hs.operations _ _ hd).checks
        (claimable_of_held hs (mem_leases_of_issues hissues hstart rfl) hd hheld)
      by_cases hpurge : ‹PurgeGate› = .terminal ∨ ‹PurgeGate› = .missing
      · refine .purges hstate ?_ hopen.1
        simp [Deletion.released, Deletion.reconciled, hpurge]
      · refine .cancelsBilling (.inr hstate) ?_ hopen.1
        simp [Deletion.released, Deletion.reconciled, hpurge]
  | recovered hd' hheld =>
      cases hd'.symm.trans hd
      have hstate := issues_of_held hs hissues hphase hstart rfl hd hheld
      have hopen := open_of_claimable (hs.operations _ _ hd).checks
        (claimable_of_held hs (mem_leases_of_issues hissues hstart rfl) hd hheld)
      exact .cancels hstate rfl hopen.1
  | purging hd' hheld hretention _ =>
      cases hd'.symm.trans hd
      have hopen := open_of_claimable (hs.operations _ _ hd).checks
        (claimable_of_held hs (mem_leases_of_issues hissues hstart rfl) hd hheld)
      exact .purges hretention rfl hopen.1
  | retried hd' _ =>
      cases hd'.symm.trans hd
      exact .stays rfl rfl
  | failed hd' hheld =>
      cases hd'.symm.trans hd
      have hmem := mem_leases_of_issues hissues hstart rfl
      have hstate := (state_of_held hs hmem hd hheld).1
      refine .fails (claimable_of_held hs hmem hd hheld) rfl ?_
      rw [hstate]
      rfl
  | purged hd' hheld _ _ hpermits _ =>
      cases hd'.symm.trans hd
      have hopen := open_of_claimable (hs.operations _ _ hd).checks
        (claimable_of_held hs (mem_leases_of_issues hissues hstart rfl) hd hheld)
      have hstate := issues_of_held hs hissues hphase hstart rfl hd hheld
      exact .completes hstate rfl hopen.1
  | purgeRefused hd' hheld _ _ _ =>
      cases hd'.symm.trans hd
      have hmem := mem_leases_of_issues hissues hstart rfl
      have hstate := issues_of_held hs hissues hphase hstart rfl hd hheld
      refine .fails (claimable_of_held hs hmem hd hheld) rfl ?_
      rw [hstate]
      rfl
  | recorded hd' hopen _ _ _ _ _ _ hpurging hrecovering =>
      cases hd'.symm.trans hd
      refine .retains ?_ hrecovering.2.1 hrecovering.2.2 rfl rfl
      cases hstate : d.state <;> simp_all [DeletionState.isTerminal]

/-- An operation that moves on from one that is over, is over. -/
theorem Deletion.Moves.terminal (h : d.Moves d') (hd : d.state.isTerminal) :
    d'.state = d.state ∧ d'.resumeState = d.resumeState := by
  cases h with
  | stays hstate hresume => exact ⟨hstate, hresume⟩
  | resumes hstate => simp [hstate, DeletionState.isTerminal] at hd
  | fails hclaimable =>
      cases hstate : d.state <;>
        simp_all [DeletionState.isTerminal, DeletionState.Claimable]
  | recovers hcancel =>
      cases hstate : d.state <;> simp_all [DeletionState.isTerminal, DeletionState.canCancel]
  | cancelsBilling hstate =>
      rcases hstate with hstate | hstate <;> simp [hstate, DeletionState.isTerminal] at hd
  | retains hstate =>
      rcases hstate with hstate | hstate | hstate | hstate <;>
        simp [hstate, DeletionState.isTerminal] at hd
  | purges hstate | cancels hstate | completes hstate =>
      simp [hstate, DeletionState.isTerminal] at hd

end Moves

end Billing

end Sotto
