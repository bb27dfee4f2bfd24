import Sotto.Properties.Sources

/-!
# Finishing again

A finish that is repeated after it was committed is answered from the stored attempt: with the
revision it published if the evidence is the same and the observations differ in their order, and
with a conflict otherwise, whatever calls came in between. No stored attempt is reported corrupt.
-/

namespace Sotto

namespace Coverage

open Checked

section Replay

variable {store store' : Store} {ticket : CollectionTicket} {attempt : Attempt}
  {evidence evidence' : String} {l l' : Observations} {json : Json}
  {projection : CoverageProjection} {revision : Int}

/-- The attempt of a ticket is completed with the canonical form of the observations. -/
structure Completed (store : Store) (ticket : CollectionTicket) (evidence : String)
    (l : Observations) (revision : Int) : Prop where
  beneficiary : ¬ isBlank ticket.beneficiaryId
  attemptId : ¬ isBlank ticket.attemptId
  attempt : ∃ attempt json projection,
    store.attempts.lookup (ticket.beneficiaryId, ticket.attemptId) = some attempt ∧
    attempt.status = .completed ∧
    collectionTicketFromRow ticket.beneficiaryId ticket.attemptId attempt =
      .ok (ticket.storedAs attempt) ∧
    canonicalCollection ticket.beneficiaryId ticket.sourceBindings l.1 evidence =
      .ok (json, projection) ∧
    attempt.aggregateEvidenceReference = some evidence ∧ attempt.canonicalResult = some json ∧
    attempt.projectionRevision = some revision

theorem Completed.later (h : Completed store ticket evidence l revision)
    (hl : Later store store') : Completed store' ticket evidence l revision := by
  obtain ⟨attempt, json, projection, hattempt, hstatus, hrest⟩ := h.attempt
  exact ⟨h.beneficiary, h.attemptId, attempt, json, projection, hl.completed hattempt hstatus,
    hstatus, hrest⟩

/-- The row of a sound attempt passes its checks. -/
theorem Store.Sound.validate {beneficiaryId attemptId : String} (h : store.Sound)
    (hattempt : store.attempts.lookup (beneficiaryId, attemptId) = some attempt)
    (hrow : collectionTicketFromRow beneficiaryId attemptId attempt = .ok ticket) :
    ∃ stored, validateStoredAttempt store ticket attempt = .ok stored ∧
      (attempt.status = .completed → ∃ evidence, ∃ l : Observations, ∃ json projection revision,
        canonicalCollection ticket.beneficiaryId ticket.sourceBindings l.1 evidence =
          .ok (json, projection) ∧ attempt.aggregateEvidenceReference = some evidence ∧
        attempt.canonicalResult = some json ∧ attempt.projectionRevision = some revision ∧
        stored = some ⟨evidence, json, revision⟩) := by
  have hsound := h.attempts hattempt
  obtain rfl := Except.ok.inj ((h.ticket hattempt).symm.trans hrow)
  obtain ⟨c, hc, hpos, hle⟩ := hsound.generation
  exact @Attempt.Receipt.validate store attempt _ hsound.receipt rfl
    (h.validateStoredBindings hc hpos hle rfl)

/-- The finish of a completed attempt is answered from its row. -/
theorem finish_of_completed (h : store.Sound) (hc : Completed store ticket evidence l revision) :
    (evidence' = evidence ∧ Rearranged l.1 l'.1 →
      finishCollection store ticket evidence' l'.1 =
        .ok (⟨ticket.attemptId, revision, .alreadyApplied⟩, store)) ∧
    (¬ (evidence' = evidence ∧ Rearranged l.1 l'.1) →
      finishCollection store ticket evidence' l'.1 = .error .operationConflict) := by
  obtain ⟨attempt, json, projection, hattempt, hstatus, hrow, hcollection, hevidence, hresult,
    hrevision⟩ := hc.attempt
  obtain ⟨c, hcoordinator, -⟩ := (h.attempts hattempt).generation
  obtain ⟨stored, hvalid, hcompleted⟩ := h.validate hattempt hrow
  obtain ⟨evidence₀, l₀, json₀, projection₀, revision₀, -, hevidence₀, hresult₀, hrevision₀, rfl⟩ :=
    hcompleted hstatus
  obtain rfl := Option.some.inj (hevidence.symm.trans hevidence₀)
  obtain rfl := Option.some.inj (hresult.symm.trans hresult₀)
  obtain rfl := Option.some.inj (hrevision.symm.trans hrevision₀)
  have hsame : ¬ ((ticket.storedAs attempt).beneficiaryId ≠ ticket.beneficiaryId ∨
      (ticket.storedAs attempt).collectionEpoch ≠ ticket.collectionEpoch ∨
      (ticket.storedAs attempt).sourceSetGeneration ≠ ticket.sourceSetGeneration ∨
      (ticket.storedAs attempt).expectedProjectionRevision ≠ ticket.expectedProjectionRevision ∨
      (ticket.storedAs attempt).sourceBindings ≠ ticket.sourceBindings) := by
    simp [CollectionTicket.storedAs]
  have hfinish : finishCollection store ticket evidence' l'.1 =
      finishAgain ticket (some ⟨evidence, json, revision⟩) evidence' l'.1 >>= fun receipt =>
        .ok (receipt, store) := by
    refine (bind_of_ok (a := ()) (require_eq_ok.mpr hc.beneficiary)).trans ?_
    refine (bind_of_ok (a := ()) (require_eq_ok.mpr hc.attemptId)).trans ?_
    refine (bind_of_ok (okOr_eq_ok.mpr hcoordinator)).trans ?_
    refine (bind_of_ok (okOr_eq_ok.mpr hattempt)).trans ?_
    refine (bind_of_ok hrow).trans ((bind_of_ok hvalid).trans ?_)
    refine (bind_of_ok (a := ()) (require_eq_ok.mpr hsame)).trans ?_
    simp only [CollectionTicket.storedAs, hstatus]
    rfl
  rw [hfinish]
  constructor
  · rintro ⟨rfl, hrearranged⟩
    obtain ⟨projection', hcollection'⟩ := (canonicalCollection_eq_iff hcollection).mpr hrearranged
    refine bind_eq_ok.mpr ⟨_, ?_, rfl⟩
    exact bind_eq_ok.mpr ⟨_, mapError_eq_ok.mpr hcollection', bind_eq_ok.mpr
      ⟨_, rfl, bind_eq_ok.mpr ⟨⟨⟩, require_eq_ok.mpr ⟨rfl, rfl⟩, rfl⟩⟩⟩
  · intro hdifferent
    refine bind_eq_error.mpr (.inl ?_)
    cases hcollection' : canonicalCollection ticket.beneficiaryId ticket.sourceBindings l'.1
      evidence' with
    | error e =>
      exact bind_eq_error.mpr (.inl (mapError_eq_error.mpr ⟨e, hcollection', rfl⟩))
    | ok result =>
      refine bind_eq_error.mpr (.inr ⟨result, mapError_eq_ok.mpr hcollection', ?_⟩)
      refine bind_eq_error.mpr (.inr ⟨_, rfl, bind_eq_error.mpr (.inl ?_)⟩)
      refine require_eq_error.mpr ⟨?_, rfl⟩
      rintro ⟨rfl, hjson⟩
      obtain rfl : json = result.1 := hjson
      exact hdifferent ⟨rfl, (canonicalCollection_eq_iff hcollection).mp ⟨_, hcollection'⟩⟩

/-- An attempt is completed once it is finished. -/
theorem completed_of_finish {receipt : ReconciliationReceipt} (h : store.Sound)
    (hfinish : finishCollection store ticket evidence l.1 = .ok (receipt, store')) :
    Completed store' ticket evidence l receipt.revision := by
  obtain ⟨⟨⟩, hbeneficiary, hrest⟩ := bind_eq_ok.mp hfinish
  obtain ⟨⟨⟩, hattemptId, -⟩ := bind_eq_ok.mp hrest
  refine ⟨require_eq_ok.mp hbeneficiary, require_eq_ok.mp hattemptId, ?_⟩
  cases finishes_of_ok hfinish with
  | @again attempt stored _ hattempt hrow hstatus hvalid hagain =>
    obtain ⟨stored', hvalid', hcompleted⟩ := h.validate hattempt hrow
    obtain rfl := Except.ok.inj (hvalid.symm.trans hvalid')
    obtain ⟨evidence₀, l₀, json, projection, revision, -, hevidence, hresult, hrevision, rfl⟩ :=
      hcompleted hstatus
    obtain ⟨⟨json', projection'⟩, hcollection, hcompare⟩ := bind_eq_ok.mp hagain
    obtain ⟨_, hstored, hcompare⟩ := bind_eq_ok.mp hcompare
    obtain rfl := Option.some.inj (okOr_eq_ok.mp hstored)
    obtain ⟨⟨⟩, hequal, hreceipt⟩ := bind_eq_ok.mp hcompare
    obtain rfl := pure_eq_ok.mp hreceipt
    obtain ⟨rfl, rfl⟩ := require_eq_ok.mp hequal
    exact ⟨attempt, _, projection', hattempt, hstatus, hrow, mapError_eq_ok.mp hcollection,
      hevidence, hresult, hrevision⟩
  | @new coordinator attempt json projection publication projections hcoordinator hattempt hrow
      hpending hcurrent hgeneration hevidence hcollection hpublish =>
    obtain ⟨bindings, hbindings, hticket⟩ := collectionTicketFromRow_eq_ok.mp hrow
    refine ⟨attempt.complete evidence json publication.revision, json, projection, ?_, rfl, ?_,
      hcollection, rfl, rfl, rfl⟩
    · simp only [finished, Table.lookup_modify, if_true, hattempt, Option.map_some]
    · refine collectionTicketFromRow_eq_ok.mpr ⟨bindings, hbindings, ?_⟩
      have hstored : ticket.storedAs (attempt.complete evidence json publication.revision) =
        (ticket.storedAs attempt).storedAs (attempt.complete evidence json publication.revision) :=
          rfl
      rw [hstored, hticket]
      rfl

end Replay

/-! ### No attempt is corrupt -/

section Uncorrupt

variable {α β : Type} {x : Except ReconciliationError α}

/-- A computation does not report a corrupt attempt. -/
def Uncorrupt (x : Except ReconciliationError α) : Prop :=
  ∀ reason, x ≠ .error (.corruptAttempt reason)

theorem uncorrupt_ok (a : α) : Uncorrupt (.ok a) :=
  nofun

theorem Uncorrupt.bind {f : α → Except ReconciliationError β} (hx : Uncorrupt x)
    (hf : ∀ a, x = .ok a → Uncorrupt (f a)) : Uncorrupt (x >>= f) := by
  intro reason h
  rcases bind_eq_error.mp h with h | ⟨a, ha, h⟩
  · exact hx reason h
  · exact hf a ha reason h

theorem uncorrupt_require {p : Prop} [Decidable p] {e : ReconciliationError}
    (he : ∀ reason, e ≠ .corruptAttempt reason) : Uncorrupt (require p e) :=
  fun reason h => he reason (require_eq_error.mp h).2

theorem uncorrupt_okOr {a : Option α} {e : ReconciliationError}
    (he : ∀ reason, e ≠ .corruptAttempt reason) : Uncorrupt (okOr a e) :=
  fun reason h => he reason (okOr_eq_error.mp h).2

theorem uncorrupt_mapError {ε : Type} {x : Except ε α} {f : ε → ReconciliationError}
    (hf : ∀ e reason, f e ≠ .corruptAttempt reason) : Uncorrupt (x.mapError f) := by
  intro reason h
  obtain ⟨e, -, he⟩ := mapError_eq_error.mp h
  exact hf e reason he

theorem ofCollection_ne_corruptAttempt (e : CollectionError) (reason : CorruptAttemptReason) :
    ReconciliationError.ofCollection e ≠ .corruptAttempt reason := by
  cases e <;> nofun

variable {store : Store} {ticket : CollectionTicket} {evidence : String}
  {observations : List SourceObservation}

theorem uncorrupt_finishAgain {stored : StoredCompletionReceipt} :
    Uncorrupt (finishAgain ticket (some stored) evidence observations) :=
  Uncorrupt.bind (uncorrupt_mapError (by nofun)) fun _ _ =>
    Uncorrupt.bind (uncorrupt_ok stored) fun _ _ =>
      Uncorrupt.bind (uncorrupt_require (by nofun)) fun _ _ => uncorrupt_ok _

theorem uncorrupt_finishPending {coordinator : Coordinator} :
    Uncorrupt (finishPending store coordinator ticket evidence observations) := by
  refine (uncorrupt_require (by nofun)).bind fun _ _ => ?_
  refine (uncorrupt_mapError ofCollection_ne_corruptAttempt).bind fun _ _ => ?_
  refine (uncorrupt_require (by nofun)).bind fun _ _ => ?_
  refine Uncorrupt.bind (uncorrupt_mapError (by nofun)) fun _ _ => ?_
  refine (uncorrupt_require (by nofun)).bind fun _ _ => ?_
  refine Uncorrupt.bind ?_ fun _ _ => ?_
  · exact (uncorrupt_mapError (by nofun)).bind fun _ _ => uncorrupt_ok _
  · exact (uncorrupt_require (by nofun)).bind fun _ _ => uncorrupt_ok _

theorem Store.Sound.uncorrupt_finishCollection (h : store.Sound) :
    Uncorrupt (finishCollection store ticket evidence observations) := by
  refine (uncorrupt_require (by nofun)).bind fun _ _ => (uncorrupt_require (by nofun)).bind fun _ _ => ?_
  refine (uncorrupt_okOr (by nofun)).bind fun coordinator hcoordinator => ?_
  refine (uncorrupt_okOr (by nofun)).bind fun attempt hattempt => ?_
  have hrow := h.ticket (okOr_eq_ok.mp hattempt)
  refine Uncorrupt.bind (by rw [hrow]; exact uncorrupt_ok _) fun storedTicket hstoredTicket => ?_
  obtain rfl := Except.ok.inj (hrow.symm.trans hstoredTicket)
  obtain ⟨stored, hvalid, hcompleted⟩ := h.validate (okOr_eq_ok.mp hattempt) hrow
  refine Uncorrupt.bind (by rw [hvalid]; exact uncorrupt_ok _) fun stored' hstored => ?_
  obtain rfl := Except.ok.inj (hvalid.symm.trans hstored)
  refine Uncorrupt.bind (uncorrupt_require (by nofun)) fun _ _ => ?_
  cases hstatus : attempt.status with
  | completed =>
    obtain ⟨_, _, _, _, _, -, -, -, -, rfl⟩ := hcompleted hstatus
    exact uncorrupt_finishAgain.bind fun _ _ => uncorrupt_ok _
  | superseded => exact fun _ => nofun
  | pending => exact uncorrupt_finishPending

end Uncorrupt

/-- A finish that is repeated after any calls is answered with the revision it published if the
content is the same and with a conflict otherwise, and no stored attempt is corrupt. -/
theorem finish_replay (calls : List Call) (ticket : CollectionTicket) (evidence : String)
    (l : Observations) :
    (∀ reason, finishCollection (Store.empty.run calls) ticket evidence l.1 ≠
      .error (.corruptAttempt reason)) ∧
    ∀ receipt store, finishCollection (Store.empty.run calls) ticket evidence l.1 =
        .ok (receipt, store) →
      ∀ (later : List Call) (evidence' : String) (l' : Observations),
        (evidence' = evidence ∧ Rearranged l.1 l'.1 →
          finishCollection (store.run later) ticket evidence' l'.1 =
            .ok (⟨ticket.attemptId, receipt.revision, .alreadyApplied⟩, store.run later)) ∧
        (¬ (evidence' = evidence ∧ Rearranged l.1 l'.1) →
          finishCollection (store.run later) ticket evidence' l'.1 =
            .error .operationConflict) := by
  have hsound := (Store.Sound.empty.run calls).1
  refine ⟨hsound.uncorrupt_finishCollection, fun receipt store hfinish later evidence' l' => ?_⟩
  have hcompleted := completed_of_finish hsound hfinish
  obtain ⟨hlater, hsince⟩ := (hsound.finishes (finishes_of_ok hfinish)).1.run later
  exact finish_of_completed hlater (hcompleted.later hsince)

/-- The calls before the only source of a beneficiary is observed. -/
def oneSourceCalls : List Call :=
  [.registerSource "register" ⟨"person", "first", "provider", "one", "owned"⟩,
    .beginCollection "person" "attempt"]

/-- The ticket of the attempt. -/
def oneSourceTicket : CollectionTicket :=
  ⟨"person", "attempt", 1, 1, some 1, [⟨"person", "first", "provider", "one", "owned"⟩], .pending,
    none⟩

/-- What is observed. -/
def oneSource : Observations :=
  ⟨[.complete "first" "seen" [⟨"early", "first", 0, 1000000, none⟩]],
    List.forall_mem_singleton.mpr (List.forall_mem_singleton.mpr ⟨by decide, by decide⟩)⟩

theorem finish_replay_oneSource : ∃ receipt store,
    finishCollection (Store.empty.run oneSourceCalls) oneSourceTicket "evidence" oneSource.1 =
      .ok (receipt, store) ∧
    finishCollection (store.run [.beginCollection "person" "next"]) oneSourceTicket "evidence"
        oneSource.1 =
      .ok (⟨"attempt", receipt.revision, .alreadyApplied⟩,
        store.run [.beginCollection "person" "next"]) := by
  have hfinished : (finishCollection (Store.empty.run oneSourceCalls) oneSourceTicket "evidence"
      oneSource.1).toOption.isSome := by
    decide +kernel
  cases hfinish : finishCollection (Store.empty.run oneSourceCalls) oneSourceTicket "evidence"
      oneSource.1 with
  | error e =>
    rw [hfinish] at hfinished
    cases hfinished
  | ok result =>
    have hsame : Rearranged oneSource.1 oneSource.1 :=
      ⟨_, .refl _, List.forall₂_same.mpr fun o _ => .refl o⟩
    exact ⟨result.1, result.2, rfl, ((finish_replay oneSourceCalls oneSourceTicket "evidence"
      oneSource).2 _ _ hfinish _ _ oneSource).1 ⟨rfl, hsame⟩⟩

end Coverage

end Sotto
