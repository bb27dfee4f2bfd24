import Sotto.Coverage.Attempts

/-!
# The coordination of sources

Sources are registered for a beneficiary, and an attempt collects an observation of each of them.
A registration makes the projection unavailable and supersedes the attempt in flight; an attempt
that is finished publishes one projection. Each call runs in a transaction of its own, which
holds the coordinator of the beneficiary; one that fails changes nothing.
-/

namespace Sotto

namespace Coverage

open Checked

/-- A row of the coordinators. -/
structure Coordinator where
  sourceSetGeneration : Int
  collectionEpoch : Int
  currentAttemptId : Option String
deriving DecidableEq

/-- A row of the registered sources. -/
structure Source where
  beneficiaryId : String
  providerNamespace : String
  externalAllocationReference : String
  ownershipEvidenceReference : String
  registrationOperationId : String
  registrationSourceSetGeneration : Int
  registrationProjectionRevision : Option Int

/-- The tables of the coverage of all beneficiaries. -/
structure Store where
  projections : Projections
  coordinators : Table String Coordinator
  sources : Table String Source
  attempts : Table (String × String) Attempt

inductive RegistrationOutcome
  | applied
  | alreadyApplied
deriving DecidableEq

structure RegistrationReceipt where
  sourceId : String
  sourceSetGeneration : Int
  projectionRevision : Option Int
  outcome : RegistrationOutcome
deriving DecidableEq

def projectionOutcome : PublicationOutcome → RegistrationOutcome
  | .applied => .applied
  | .alreadyApplied => .alreadyApplied

def unavailableProjection : CoverageProjection :=
  .unavailable .needsReconciliation

def sourceBindingFromRow (row : String × Source) : SourceBinding where
  beneficiaryId := row.2.beneficiaryId
  sourceId := row.1
  providerNamespace := row.2.providerNamespace
  externalAllocationReference := row.2.externalAllocationReference
  ownershipEvidenceReference := row.2.ownershipEvidenceReference

def Attempt.supersede (attempt : Attempt) : Attempt :=
  if attempt.status = .pending then { attempt with status := .superseded } else attempt

namespace Store

/-- The sources that satisfy a condition, in the order of their ids. -/
def selectSources (store : Store) (p : Source → Bool) : List (String × Source) :=
  sortBy Prod.fst (store.sources.rows.filter fun row => p row.2)

/-- Insert a coordinator without sources, unless there is a coordinator. -/
def insertCoordinator (store : Store) (beneficiaryId : String) : Store :=
  { store with
    coordinators := if (store.coordinators.lookup beneficiaryId).isSome then store.coordinators
      else AList.insert beneficiaryId ⟨0, 0, none⟩ store.coordinators }

def currentRevision (store : Store) (beneficiaryId : String) :
    Except ReconciliationError (Option Int) :=
  (store.projections.currentRevision beneficiaryId).mapError .store

/-- Publish in the transaction of a call. -/
def publish (store : Store) (beneficiaryId : String) (expectedRevision : Option Int)
    (operationId evidenceReference : String) (projection : CoverageProjection) :
    Except ReconciliationError (PublicationReceipt × Store) := do
  let (receipt, projections) ← (Coverage.publish store.projections beneficiaryId
    expectedRevision operationId evidenceReference projection).mapError .store
  return (receipt, { store with projections := projections })

end Store

/-- The registration of an operation, if it is registered already. -/
def findRegistration (store : Store) (beneficiaryId operationId : String) :
    Option (String × Source) :=
  store.sources.rows.find? fun row =>
    row.2.beneficiaryId = beneficiaryId ∧ row.2.registrationOperationId = operationId

/-- Answer a registration of an operation that is registered. -/
def registrationAgain (stored : String × Source) (binding : SourceBinding) :
    Except ReconciliationError RegistrationReceipt := do
  require (sourceBindingFromRow stored = binding) .registrationConflict
  let projectionRevision ← okOr stored.2.registrationProjectionRevision .corruptRegistration
  return ⟨stored.1, stored.2.registrationSourceSetGeneration, some projectionRevision,
    .alreadyApplied⟩

/-- The tables once a source is inserted and the attempts are superseded. -/
def insertSource (store : Store) (coordinator : Coordinator) (generation : Int)
    (operationId : String) (binding : SourceBinding) : Store :=
  { store with
    sources := AList.insert binding.sourceId {
      beneficiaryId := binding.beneficiaryId
      providerNamespace := binding.providerNamespace
      externalAllocationReference := binding.externalAllocationReference
      ownershipEvidenceReference := binding.ownershipEvidenceReference
      registrationOperationId := operationId
      registrationSourceSetGeneration := generation
      registrationProjectionRevision := none } store.sources
    attempts := store.attempts.mapRows fun key attempt =>
      if key.1 = binding.beneficiaryId then attempt.supersede else attempt
    coordinators := AList.insert binding.beneficiaryId { coordinator with
      sourceSetGeneration := generation
      currentAttemptId := none } store.coordinators }

/-- Register a source, which makes the projection unavailable. -/
def registerSource (store : Store) (operationId : String) (binding : SourceBinding) :
    Except ReconciliationError (RegistrationReceipt × Store) := do
  validateOperationId operationId
  validateBinding binding
  let existingProjectionRevision ← store.currentRevision binding.beneficiaryId
  require ((store.coordinators.lookup binding.beneficiaryId).isSome ∨
    existingProjectionRevision.isNone) .bootstrapConflict
  let store := store.insertCoordinator binding.beneficiaryId
  let coordinator ← okOr (store.coordinators.lookup binding.beneficiaryId) .database
  let expectedRevision ← store.currentRevision binding.beneficiaryId
  require (¬ (coordinator.sourceSetGeneration = 0 ∧ expectedRevision.isSome)) .bootstrapConflict
  match findRegistration store binding.beneficiaryId operationId with
  | some stored =>
    let receipt ← registrationAgain stored binding
    return (receipt, store)
  | none =>
    require (¬ ((store.sources.lookup binding.sourceId).isSome ∨ ∃ row ∈ store.sources.rows,
      row.2.providerNamespace = binding.providerNamespace ∧
      row.2.externalAllocationReference = binding.externalAllocationReference))
      .sourceBindingConflict
    let generation ← okOr (checkedAdd coordinator.sourceSetGeneration 1) .generationOverflow
    let (publication, store) ← (insertSource store coordinator generation operationId binding).publish
      binding.beneficiaryId expectedRevision s!"source-registration:{operationId}"
      binding.ownershipEvidenceReference unavailableProjection
    require (store.sources.lookup binding.sourceId).isSome .corruptRegistration
    return (⟨binding.sourceId, generation, some publication.revision,
        projectionOutcome publication.outcome⟩,
      { store with sources := store.sources.modify binding.sourceId fun source =>
        { source with registrationProjectionRevision := some publication.revision } })

/-- The bindings of an attempt are those of the sources registered when it began. -/
def validateStoredBindings (store : Store) (ticket : CollectionTicket) :
    Except ReconciliationError Unit := do
  let rows := store.selectSources fun source => source.beneficiaryId = ticket.beneficiaryId ∧
    source.registrationSourceSetGeneration ≤ ticket.sourceSetGeneration
  let authoritative := rows.map sourceBindingFromRow
  let latestGeneration := (rows.map fun row => row.2.registrationSourceSetGeneration).max?
  require (¬ (latestGeneration ≠ some ticket.sourceSetGeneration ∨ authoritative = [] ∨
    authoritative ≠ ticket.sourceBindings)) (.corruptAttempt .bindingSourceSet)

def validateStoredAttempt (store : Store) (ticket : CollectionTicket) (attempt : Attempt) :
    Except ReconciliationError (Option StoredCompletionReceipt) := do
  validateStoredBindings store ticket
  let receipt ← (storedCompletionReceipt ticket.status attempt.aggregateEvidenceReference
    attempt.canonicalResult attempt.projectionRevision).mapError .corruptAttempt
  match receipt with
  | none => return none
  | some (evidence, result, revision) =>
    let canonicalResult ← (validateStoredResult ticket evidence result).mapError .corruptAttempt
    return some ⟨evidence, canonicalResult, revision⟩

/-- The attempts once the current one is superseded. -/
def supersedeCurrent (store : Store) (beneficiaryId : String) :
    Option String → Table (String × String) Attempt
  | some previousAttemptId =>
    store.attempts.modify (beneficiaryId, previousAttemptId) Attempt.supersede
  | none => store.attempts

/-- Begin a collection of the sources that are registered. -/
def beginCollection (store : Store) (beneficiaryId attemptId : String) :
    Except ReconciliationError (CollectionTicket × Store) := do
  validateIdentifier beneficiaryId "beneficiary_id"
  validateAttemptId attemptId
  let coordinator ← okOr (store.coordinators.lookup beneficiaryId) .noSources
  match store.attempts.lookup (beneficiaryId, attemptId) with
  | some existing =>
    let ticket ← collectionTicketFromRow beneficiaryId attemptId existing
    let _ ← validateStoredAttempt store ticket existing
    return (ticket, store)
  | none =>
    let rows := store.selectSources fun source => source.beneficiaryId = beneficiaryId
    require (¬ (rows = [] ∨ coordinator.sourceSetGeneration = 0)) .noSources
    let sourceBindings := rows.map sourceBindingFromRow
    let expectedProjectionRevision ← store.currentRevision beneficiaryId
    let epoch ← okOr (checkedAdd coordinator.collectionEpoch 1) .epochOverflow
    let attempts := supersedeCurrent store beneficiaryId coordinator.currentAttemptId
    require (∀ row ∈ attempts.rows, row.1.1 = beneficiaryId → row.2.collectionEpoch ≠ epoch)
      .database
    let attempt : Attempt := {
      collectionEpoch := epoch
      sourceSetGeneration := coordinator.sourceSetGeneration
      expectedProjectionRevision := expectedProjectionRevision
      sourceBindings := bindingsJson sourceBindings
      status := .pending
      aggregateEvidenceReference := none
      canonicalResult := none
      projectionRevision := none }
    let ticket : CollectionTicket := {
      beneficiaryId := beneficiaryId
      attemptId := attemptId
      collectionEpoch := epoch
      sourceSetGeneration := coordinator.sourceSetGeneration
      expectedProjectionRevision := expectedProjectionRevision
      sourceBindings := sourceBindings
      status := .pending
      completedRevision := none }
    return (ticket, { store with
      attempts := AList.insert (beneficiaryId, attemptId) attempt attempts
      coordinators := AList.insert beneficiaryId { coordinator with
        collectionEpoch := epoch
        currentAttemptId := some attemptId } store.coordinators })

/-- Answer the finish of an attempt that is completed. -/
def finishAgain (ticket : CollectionTicket) (stored : Option StoredCompletionReceipt)
    (aggregateEvidenceReference : String) (observations : List SourceObservation) :
    Except ReconciliationError ReconciliationReceipt := do
  let (canonicalResult, _) ← (canonicalCollection ticket.beneficiaryId ticket.sourceBindings
    observations aggregateEvidenceReference).mapError fun _ => .operationConflict
  let stored ← okOr stored (.corruptAttempt .completionReceipt)
  require (stored.evidence = aggregateEvidenceReference ∧
    stored.canonicalResult = canonicalResult) .operationConflict
  return ⟨ticket.attemptId, stored.revision, .alreadyApplied⟩

/-- Publish the projection of an attempt that is pending. -/
def finishPending (store : Store) (coordinator : Coordinator) (ticket : CollectionTicket)
    (aggregateEvidenceReference : String) (observations : List SourceObservation) :
    Except ReconciliationError (ReconciliationReceipt × Store) := do
  validateIdentifier aggregateEvidenceReference "aggregate_evidence_reference"
  let (canonicalResult, projection) ← (canonicalCollection ticket.beneficiaryId
    ticket.sourceBindings observations aggregateEvidenceReference).mapError .ofCollection
  require (¬ (coordinator.currentAttemptId ≠ some ticket.attemptId ∨
    coordinator.sourceSetGeneration ≠ ticket.sourceSetGeneration ∨
    coordinator.collectionEpoch ≠ ticket.collectionEpoch)) .collectionConflict
  let actualRevision ← store.currentRevision ticket.beneficiaryId
  require (actualRevision = ticket.expectedProjectionRevision)
    (.store (.revisionConflict ticket.expectedProjectionRevision actualRevision))
  let (publication, store) ← store.publish ticket.beneficiaryId
    ticket.expectedProjectionRevision s!"collection:{ticket.attemptId}"
    aggregateEvidenceReference projection
  require (∃ attempt ∈ store.attempts.lookup (ticket.beneficiaryId, ticket.attemptId),
    attempt.status = .pending) .collectionConflict
  return (⟨ticket.attemptId, publication.revision, publication.outcome⟩, { store with
    attempts := store.attempts.modify (ticket.beneficiaryId, ticket.attemptId) fun attempt =>
      { attempt with
        status := .completed
        aggregateEvidenceReference := some aggregateEvidenceReference
        canonicalResult := some canonicalResult
        projectionRevision := some publication.revision }
    coordinators := store.coordinators.modify ticket.beneficiaryId fun coordinator =>
      if coordinator.currentAttemptId = some ticket.attemptId then
        { coordinator with currentAttemptId := none }
      else coordinator })

/-- Finish a collection, and publish one projection of all sources. -/
def finishCollection (store : Store) (ticket : CollectionTicket)
    (aggregateEvidenceReference : String) (observations : List SourceObservation) :
    Except ReconciliationError (ReconciliationReceipt × Store) := do
  validateIdentifier ticket.beneficiaryId "beneficiary_id"
  validateAttemptId ticket.attemptId
  let coordinator ← okOr (store.coordinators.lookup ticket.beneficiaryId) .noSources
  let attempt ← okOr (store.attempts.lookup (ticket.beneficiaryId, ticket.attemptId))
    .attemptMissing
  let storedTicket ← collectionTicketFromRow ticket.beneficiaryId ticket.attemptId attempt
  let storedCompletion ← validateStoredAttempt store storedTicket attempt
  require (¬ (storedTicket.beneficiaryId ≠ ticket.beneficiaryId ∨
    storedTicket.collectionEpoch ≠ ticket.collectionEpoch ∨
    storedTicket.sourceSetGeneration ≠ ticket.sourceSetGeneration ∨
    storedTicket.expectedProjectionRevision ≠ ticket.expectedProjectionRevision ∨
    storedTicket.sourceBindings ≠ ticket.sourceBindings)) .collectionConflict
  match storedTicket.status with
  | .completed =>
    let receipt ← finishAgain ticket storedCompletion aggregateEvidenceReference observations
    return (receipt, store)
  | .superseded => .error .attemptSuperseded
  | .pending =>
    finishPending store coordinator ticket aggregateEvidenceReference observations

/-! ### Runs -/

/-- The timestamps are 64-bit numbers. -/
def SourceObservation.Representable : SourceObservation → Prop
  | complete _ _ paidIntervals => ∀ interval ∈ paidIntervals,
    Json.IsI64 interval.startsAt ∧ Json.IsI64 interval.paidUntil
  | unavailable _ _ _ => True

/-- Observations as their type admits them. -/
abbrev Observations :=
  {observations : List SourceObservation // ∀ o ∈ observations, o.Representable}

inductive Call
  | publish (beneficiaryId : String) (expectedRevision : Option Int)
      (operationId evidenceReference : String) (projection : CoverageProjection)
  | registerSource (operationId : String) (binding : SourceBinding)
  | beginCollection (beneficiaryId attemptId : String)
  | finishCollection (ticket : CollectionTicket) (aggregateEvidenceReference : String)
      (observations : Observations)

/-- What a call leaves: it is committed if it succeeds. -/
def committed {α : Type} (store : Store) : Except ReconciliationError (α × Store) → Store
  | .ok (_, store') => store'
  | .error _ => store

def Call.perform (store : Store) : Call → Store
  | publish beneficiaryId expectedRevision operationId evidenceReference projection =>
    committed store (store.publish beneficiaryId expectedRevision operationId evidenceReference
      projection)
  | registerSource operationId binding =>
    committed store (Coverage.registerSource store operationId binding)
  | beginCollection beneficiaryId attemptId =>
    committed store (Coverage.beginCollection store beneficiaryId attemptId)
  | finishCollection ticket aggregateEvidenceReference observations =>
    committed store (Coverage.finishCollection store ticket aggregateEvidenceReference
      observations.1)

/-- The tables before any call. -/
def Store.empty : Store :=
  ⟨⟨∅, ∅, []⟩, ∅, ∅, ∅⟩

/-- The tables after calls. -/
def Store.run (store : Store) (calls : List Call) : Store :=
  calls.foldl Call.perform store

end Coverage

end Sotto
