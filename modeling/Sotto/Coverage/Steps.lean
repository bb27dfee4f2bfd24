import Sotto.Coverage.Reconciliation

/-!
# What the calls do

A call that succeeds answers what an earlier call of the same id left, or writes its rows. Each
case is given with the checks that were passed and the tables that are left.
-/

namespace Sotto

namespace Coverage

open Checked

section Steps

variable {store store' : Store}

/-- The tables after a new source is registered and the projection withdrawn. -/
def registered (store : Store) (coordinator : Coordinator) (generation revision : Int)
    (operationId : String) (binding : SourceBinding) (projections : Projections) : Store :=
  let inserted := insertSource (store.insertCoordinator binding.beneficiaryId) coordinator
    generation operationId binding
  { inserted with
    projections := projections
    sources := inserted.sources.modify binding.sourceId fun source =>
      { source with registrationProjectionRevision := some revision } }

/-- A registration that succeeds. -/
inductive Registers (store : Store) (operationId : String) (binding : SourceBinding) :
    RegistrationReceipt → Store → Prop
  | again {stored : String × Source} {receipt : RegistrationReceipt} :
      findRegistration (store.insertCoordinator binding.beneficiaryId) binding.beneficiaryId
        operationId = some stored → registrationAgain stored binding = .ok receipt →
      Registers store operationId binding receipt (store.insertCoordinator binding.beneficiaryId)
  | new {coordinator : Coordinator} {generation : Int} {expectedRevision : Option Int}
      {publication : PublicationReceipt} {projections : Projections} :
      ¬ isBlank operationId → validateBinding binding = .ok () →
      (store.insertCoordinator binding.beneficiaryId).coordinators.lookup binding.beneficiaryId =
        some coordinator →
      store.currentRevision binding.beneficiaryId = .ok expectedRevision →
      ¬ (coordinator.sourceSetGeneration = 0 ∧ expectedRevision.isSome) →
      findRegistration store binding.beneficiaryId operationId = none →
      store.sources.lookup binding.sourceId = none →
      (∀ row ∈ store.sources.rows, ¬ (row.2.providerNamespace = binding.providerNamespace ∧
        row.2.externalAllocationReference = binding.externalAllocationReference)) →
      checkedAdd coordinator.sourceSetGeneration 1 = some generation →
      Coverage.publish store.projections binding.beneficiaryId expectedRevision
        s!"source-registration:{operationId}" binding.ownershipEvidenceReference
        unavailableProjection = .ok (publication, projections) →
      Registers store operationId binding
        ⟨binding.sourceId, generation, some publication.revision,
          projectionOutcome publication.outcome⟩
        (registered store coordinator generation publication.revision operationId binding
          projections)

theorem registers_of_ok {operationId : String} {binding : SourceBinding}
    {receipt : RegistrationReceipt}
    (h : registerSource store operationId binding = .ok (receipt, store')) :
    Registers store operationId binding receipt store' := by
  obtain ⟨⟨⟩, hoperation, h⟩ := bind_eq_ok.mp h
  obtain ⟨⟨⟩, hvalid, h⟩ := bind_eq_ok.mp h
  obtain ⟨existing, hexisting, h⟩ := bind_eq_ok.mp h
  obtain ⟨-, hknown, h⟩ := bind_eq_ok.mp h
  obtain ⟨coordinator, hcoordinator, h⟩ := bind_eq_ok.mp h
  obtain ⟨expectedRevision, hexpected, h⟩ := bind_eq_ok.mp h
  obtain ⟨⟨⟩, hbootstrap, h⟩ := bind_eq_ok.mp h
  cases hfound : findRegistration (store.insertCoordinator binding.beneficiaryId)
      binding.beneficiaryId operationId with
  | some stored =>
    rw [hfound] at h
    obtain ⟨receipt', hagain, h⟩ := bind_eq_ok.mp h
    obtain ⟨rfl, rfl⟩ := Prod.mk.inj (pure_eq_ok.mp h)
    exact .again hfound hagain
  | none =>
    rw [hfound] at h
    obtain ⟨⟨⟩, hfree, h⟩ := bind_eq_ok.mp h
    obtain ⟨generation, hgeneration, h⟩ := bind_eq_ok.mp h
    obtain ⟨⟨publication, store₁⟩, hpublish, h⟩ := bind_eq_ok.mp h
    obtain ⟨⟨publication', projections⟩, hprojections, hpublish⟩ := bind_eq_ok.mp hpublish
    obtain ⟨rfl, rfl⟩ := Prod.mk.inj (pure_eq_ok.mp hpublish)
    obtain ⟨-, -, h⟩ := bind_eq_ok.mp h
    obtain ⟨rfl, rfl⟩ := Prod.mk.inj (pure_eq_ok.mp h)
    rw [require_eq_ok, not_or, Option.isSome_iff_ne_none, not_not] at hfree
    exact .new (require_eq_ok.mp hoperation) hvalid (okOr_eq_ok.mp hcoordinator) hexpected
      (require_eq_ok.mp hbootstrap) hfound hfree.1
      (fun row hrow hsame => hfree.2 ⟨row, hrow, hsame⟩) (okOr_eq_ok.mp hgeneration)
      (mapError_eq_ok.mp hprojections)

/-- The bindings of the sources that a beneficiary has. -/
def bindingsOf (store : Store) (beneficiaryId : String) : List SourceBinding :=
  (store.selectSources fun source => source.beneficiaryId = beneficiaryId).map sourceBindingFromRow

/-- An attempt that begins. -/
def newAttempt (store : Store) (coordinator : Coordinator) (beneficiaryId : String) (epoch : Int)
    (expectedRevision : Option Int) : Attempt where
  collectionEpoch := epoch
  sourceSetGeneration := coordinator.sourceSetGeneration
  expectedProjectionRevision := expectedRevision
  sourceBindings := bindingsJson (bindingsOf store beneficiaryId)
  status := .pending
  aggregateEvidenceReference := none
  canonicalResult := none
  projectionRevision := none

/-- The tables after an attempt begins. -/
def begun (store : Store) (coordinator : Coordinator) (beneficiaryId attemptId : String)
    (epoch : Int) (expectedRevision : Option Int) : Store :=
  { store with
    attempts := AList.insert (beneficiaryId, attemptId)
      (newAttempt store coordinator beneficiaryId epoch expectedRevision)
      (supersedeCurrent store beneficiaryId coordinator.currentAttemptId)
    coordinators := AList.insert beneficiaryId { coordinator with
      collectionEpoch := epoch
      currentAttemptId := some attemptId } store.coordinators }

/-- The begin of a collection that succeeds. -/
inductive Begins (store : Store) (beneficiaryId attemptId : String) :
    CollectionTicket → Store → Prop
  | again {existing : Attempt} {ticket : CollectionTicket} :
      store.attempts.lookup (beneficiaryId, attemptId) = some existing →
      collectionTicketFromRow beneficiaryId attemptId existing = .ok ticket →
      Begins store beneficiaryId attemptId ticket store
  | new {coordinator : Coordinator} {expectedRevision : Option Int} {epoch : Int} :
      ¬ isBlank beneficiaryId → ¬ isBlank attemptId →
      store.coordinators.lookup beneficiaryId = some coordinator →
      store.attempts.lookup (beneficiaryId, attemptId) = none →
      (store.selectSources fun source => source.beneficiaryId = beneficiaryId) ≠ [] →
      coordinator.sourceSetGeneration ≠ 0 →
      store.currentRevision beneficiaryId = .ok expectedRevision →
      checkedAdd coordinator.collectionEpoch 1 = some epoch →
      Begins store beneficiaryId attemptId
        ⟨beneficiaryId, attemptId, epoch, coordinator.sourceSetGeneration, expectedRevision,
          bindingsOf store beneficiaryId, .pending, none⟩
        (begun store coordinator beneficiaryId attemptId epoch expectedRevision)

theorem begins_of_ok {beneficiaryId attemptId : String} {ticket : CollectionTicket}
    (h : beginCollection store beneficiaryId attemptId = .ok (ticket, store')) :
    Begins store beneficiaryId attemptId ticket store' := by
  obtain ⟨⟨⟩, hbeneficiary, h⟩ := bind_eq_ok.mp h
  obtain ⟨⟨⟩, hattempt, h⟩ := bind_eq_ok.mp h
  obtain ⟨coordinator, hcoordinator, h⟩ := bind_eq_ok.mp h
  cases hfound : store.attempts.lookup (beneficiaryId, attemptId) with
  | some existing =>
    rw [hfound] at h
    obtain ⟨ticket', hticket, h⟩ := bind_eq_ok.mp h
    obtain ⟨-, -, h⟩ := bind_eq_ok.mp h
    obtain ⟨rfl, rfl⟩ := Prod.mk.inj (pure_eq_ok.mp h)
    exact .again hfound hticket
  | none =>
    rw [hfound] at h
    obtain ⟨⟨⟩, hsources, h⟩ := bind_eq_ok.mp h
    obtain ⟨expectedRevision, hexpected, h⟩ := bind_eq_ok.mp h
    obtain ⟨epoch, hepoch, h⟩ := bind_eq_ok.mp h
    obtain ⟨-, -, h⟩ := bind_eq_ok.mp h
    obtain ⟨rfl, rfl⟩ := Prod.mk.inj (pure_eq_ok.mp h)
    rw [require_eq_ok, not_or] at hsources
    exact .new (require_eq_ok.mp hbeneficiary) (require_eq_ok.mp hattempt)
      (okOr_eq_ok.mp hcoordinator) hfound hsources.1 hsources.2 hexpected (okOr_eq_ok.mp hepoch)

/-- An attempt once it is completed. -/
def Attempt.complete (attempt : Attempt) (evidence : String) (result : Json) (revision : Int) :
    Attempt :=
  { attempt with
    status := .completed
    aggregateEvidenceReference := some evidence
    canonicalResult := some result
    projectionRevision := some revision }

/-- The tables after an attempt is finished. -/
def finished (store : Store) (ticket : CollectionTicket) (evidence : String) (result : Json)
    (revision : Int) (projections : Projections) : Store :=
  { store with
    projections := projections
    attempts := store.attempts.modify (ticket.beneficiaryId, ticket.attemptId) fun attempt =>
      attempt.complete evidence result revision
    coordinators := store.coordinators.modify ticket.beneficiaryId fun coordinator =>
      if coordinator.currentAttemptId = some ticket.attemptId then
        { coordinator with currentAttemptId := none }
      else coordinator }

/-- The ticket as it is stored in the row of its attempt. -/
def CollectionTicket.storedAs (ticket : CollectionTicket) (attempt : Attempt) : CollectionTicket :=
  { ticket with
    status := attempt.status
    completedRevision := attempt.projectionRevision }

/-- The finish of a collection that succeeds. -/
inductive Finishes (store : Store) (ticket : CollectionTicket) (evidence : String)
    (observations : List SourceObservation) : ReconciliationReceipt → Store → Prop
  | again {attempt : Attempt} {stored : Option StoredCompletionReceipt}
      {receipt : ReconciliationReceipt} :
      store.attempts.lookup (ticket.beneficiaryId, ticket.attemptId) = some attempt →
      collectionTicketFromRow ticket.beneficiaryId ticket.attemptId attempt =
        .ok (ticket.storedAs attempt) →
      attempt.status = .completed →
      validateStoredAttempt store (ticket.storedAs attempt) attempt = .ok stored →
      finishAgain ticket stored evidence observations = .ok receipt →
      Finishes store ticket evidence observations receipt store
  | new {coordinator : Coordinator} {attempt : Attempt} {result : Json}
      {projection : CoverageProjection} {publication : PublicationReceipt}
      {projections : Projections} :
      store.coordinators.lookup ticket.beneficiaryId = some coordinator →
      store.attempts.lookup (ticket.beneficiaryId, ticket.attemptId) = some attempt →
      collectionTicketFromRow ticket.beneficiaryId ticket.attemptId attempt =
        .ok (ticket.storedAs attempt) →
      attempt.status = .pending →
      coordinator.currentAttemptId = some ticket.attemptId →
      coordinator.sourceSetGeneration = attempt.sourceSetGeneration →
      ¬ isBlank evidence →
      canonicalCollection ticket.beneficiaryId ticket.sourceBindings observations evidence =
        .ok (result, projection) →
      Coverage.publish store.projections ticket.beneficiaryId ticket.expectedProjectionRevision
        s!"collection:{ticket.attemptId}" evidence projection = .ok (publication, projections) →
      store.currentRevision ticket.beneficiaryId = .ok ticket.expectedProjectionRevision →
      Finishes store ticket evidence observations
        ⟨ticket.attemptId, publication.revision, publication.outcome⟩
        (finished store ticket evidence result publication.revision projections)

theorem collectionTicketFromRow_eq_ok {beneficiaryId attemptId : String} {attempt : Attempt}
    {ticket : CollectionTicket} :
    collectionTicketFromRow beneficiaryId attemptId attempt = .ok ticket ↔
      ∃ bindings, parseStoredBindings attempt.sourceBindings beneficiaryId = .ok bindings ∧
        ticket = ⟨beneficiaryId, attemptId, attempt.collectionEpoch, attempt.sourceSetGeneration,
          attempt.expectedProjectionRevision, bindings, attempt.status,
          attempt.projectionRevision⟩ := by
  constructor
  · intro h
    obtain ⟨bindings, hbindings, h⟩ := bind_eq_ok.mp h
    exact ⟨bindings, mapError_eq_ok.mp hbindings, (pure_eq_ok.mp h).symm⟩
  · rintro ⟨bindings, hbindings, rfl⟩
    exact bind_eq_ok.mpr ⟨bindings, mapError_eq_ok.mpr hbindings, rfl⟩

theorem finishes_of_ok {ticket : CollectionTicket} {evidence : String}
    {observations : List SourceObservation} {receipt : ReconciliationReceipt}
    (h : finishCollection store ticket evidence observations = .ok (receipt, store')) :
    Finishes store ticket evidence observations receipt store' := by
  obtain ⟨⟨⟩, -, h⟩ := bind_eq_ok.mp h
  obtain ⟨⟨⟩, -, h⟩ := bind_eq_ok.mp h
  obtain ⟨coordinator, hcoordinator, h⟩ := bind_eq_ok.mp h
  obtain ⟨attempt, hattempt, h⟩ := bind_eq_ok.mp h
  obtain ⟨storedTicket, hrow, h⟩ := bind_eq_ok.mp h
  obtain ⟨stored, hstored, h⟩ := bind_eq_ok.mp h
  obtain ⟨⟨⟩, hsame, h⟩ := bind_eq_ok.mp h
  rw [okOr_eq_ok] at hcoordinator hattempt
  have hticket : storedTicket = ticket.storedAs attempt := by
    obtain ⟨bindings, -, rfl⟩ := collectionTicketFromRow_eq_ok.mp hrow
    rw [require_eq_ok] at hsame
    simp only [not_or, not_not] at hsame
    obtain ⟨-, hepoch, hgeneration, hexpected, hbindings⟩ := hsame
    simp only [CollectionTicket.storedAs, hepoch, hgeneration, hexpected, hbindings]
  subst hticket
  cases hstatus : attempt.status with
  | completed =>
    simp only [CollectionTicket.storedAs, hstatus] at h
    obtain ⟨receipt', hagain, h⟩ := bind_eq_ok.mp h
    obtain ⟨rfl, rfl⟩ := Prod.mk.inj (pure_eq_ok.mp h)
    exact .again hattempt hrow hstatus hstored hagain
  | superseded =>
    simp only [CollectionTicket.storedAs, hstatus] at h
    cases h
  | pending =>
    simp only [CollectionTicket.storedAs, hstatus] at h
    obtain ⟨⟨⟩, hevidence, h⟩ := bind_eq_ok.mp h
    obtain ⟨⟨result, projection⟩, hcollection, h⟩ := bind_eq_ok.mp h
    obtain ⟨⟨⟩, hcurrent, h⟩ := bind_eq_ok.mp h
    obtain ⟨actualRevision, hactual, h⟩ := bind_eq_ok.mp h
    obtain ⟨⟨⟩, hexpected, h⟩ := bind_eq_ok.mp h
    obtain ⟨⟨publication, store₁⟩, hpublish, h⟩ := bind_eq_ok.mp h
    obtain ⟨⟨publication', projections⟩, hprojections, hpublish⟩ := bind_eq_ok.mp hpublish
    obtain ⟨rfl, rfl⟩ := Prod.mk.inj (pure_eq_ok.mp hpublish)
    obtain ⟨-, -, h⟩ := bind_eq_ok.mp h
    obtain ⟨rfl, rfl⟩ := Prod.mk.inj (pure_eq_ok.mp h)
    rw [require_eq_ok] at hcurrent hexpected
    rw [hexpected] at hactual
    simp only [not_or, not_not] at hcurrent
    have hgeneration : attempt.sourceSetGeneration = ticket.sourceSetGeneration := by
      obtain ⟨bindings, -, hticket⟩ := collectionTicketFromRow_eq_ok.mp hrow
      exact (congrArg CollectionTicket.sourceSetGeneration hticket).symm
    exact .new hcoordinator hattempt hrow hstatus hcurrent.1 (hcurrent.2.1.trans hgeneration.symm)
      (require_eq_ok.mp hevidence) (mapError_eq_ok.mp hcollection) (mapError_eq_ok.mp hprojections)
      hactual

end Steps

end Coverage

end Sotto
