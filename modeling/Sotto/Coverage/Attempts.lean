import Sotto.Coverage.Store

/-!
# Collection attempts

A collection attempt is kept with the bindings of its sources and, once it is completed, with the
canonical form of its observations. Both are stored as JSON and checked when they are read.
-/

namespace Sotto

namespace Coverage

open Checked

inductive CollectionStatus
  | pending
  | superseded
  | completed
deriving DecidableEq

/-- The sources and the revision that a collection begins with. -/
structure CollectionTicket where
  beneficiaryId : String
  attemptId : String
  collectionEpoch : Int
  sourceSetGeneration : Int
  expectedProjectionRevision : Option Int
  sourceBindings : List SourceBinding
  status : CollectionStatus
  completedRevision : Option Int
deriving DecidableEq

structure ReconciliationReceipt where
  attemptId : String
  revision : Int
  outcome : PublicationOutcome
deriving DecidableEq

/-- The field of a stored attempt that is not valid. -/
inductive CorruptAttemptReason
  | bindingShape
  | bindingOwnership
  | bindingSourceSet
  | completionReceipt
  | resultShape
  | resultEvidence
  | resultCanonical
deriving DecidableEq

inductive ReconciliationError
  | database
  | store (error : StoreError)
  | invalidSource (message : String)
  | invalidIdentifier (message : String)
  | emptyOperationId
  | registrationConflict
  | bootstrapConflict
  | corruptRegistration
  | sourceBindingConflict
  | emptyAttemptId
  | noSources
  | attemptMissing
  | attemptSuperseded
  | collectionConflict
  | operationConflict
  | corruptAttempt (reason : CorruptAttemptReason)
  | sourceBatchMismatch
  | sourceObservationConflict (message : String)
  | invalidObservation (error : InvalidCoverage)
  | epochOverflow
  | generationOverflow
deriving DecidableEq

def ReconciliationError.ofCollection : CollectionError → ReconciliationError
  | .sourceBatchMismatch => .sourceBatchMismatch
  | .sourceObservationConflict message => .sourceObservationConflict message
  | .invalidObservation error => .invalidObservation error

/-- A row of the collection attempts. -/
structure Attempt where
  collectionEpoch : Int
  sourceSetGeneration : Int
  expectedProjectionRevision : Option Int
  sourceBindings : Json
  status : CollectionStatus
  aggregateEvidenceReference : Option String
  canonicalResult : Option Json
  projectionRevision : Option Int
deriving DecidableEq

structure StoredCompletionReceipt where
  evidence : String
  canonicalResult : Json
  revision : Int

def validateOperationId (operationId : String) : Except ReconciliationError Unit :=
  require (¬ isBlank operationId) .emptyOperationId

def validateAttemptId (attemptId : String) : Except ReconciliationError Unit :=
  require (¬ isBlank attemptId) .emptyAttemptId

def validateIdentifier (value name : String) : Except ReconciliationError Unit :=
  require (¬ isBlank value) (.invalidIdentifier s!"{name} must not be empty")

def validateBinding (binding : SourceBinding) : Except ReconciliationError Unit :=
  [("beneficiary_id", binding.beneficiaryId),
    ("source_id", binding.sourceId),
    ("provider_namespace", binding.providerNamespace),
    ("external_allocation_reference", binding.externalAllocationReference),
    ("ownership_evidence_reference", binding.ownershipEvidenceReference)].forM fun field =>
      require (¬ isBlank field.2) (.invalidSource s!"{field.1} must not be empty")

/-! ### Bindings -/

/-- A binding as JSON, the fields in the order of their keys. -/
def SourceBinding.toJson (binding : SourceBinding) : Json :=
  .obj [("beneficiary_id", .str binding.beneficiaryId),
    ("external_allocation_reference", .str binding.externalAllocationReference),
    ("ownership_evidence_reference", .str binding.ownershipEvidenceReference),
    ("provider_namespace", .str binding.providerNamespace),
    ("source_id", .str binding.sourceId)]

def bindingsJson (bindings : List SourceBinding) : Json :=
  .arr (bindings.map SourceBinding.toJson)

def storedString (object : List (String × Json)) (field : String)
    (reason : CorruptAttemptReason) : Except CorruptAttemptReason String :=
  okOr ((object.lookup field).bind Json.asStr) reason

def storedI64 (object : List (String × Json)) (field : String) :
    Except CorruptAttemptReason Int :=
  okOr ((object.lookup field).bind Json.asI64) .resultShape

def parseStoredBinding (beneficiaryId : String) (value : Json) :
    Except CorruptAttemptReason SourceBinding := do
  let object ← okOr value.asObject .bindingShape
  require (object.length = 5 ∧ ∀ field ∈ ["beneficiary_id", "source_id", "provider_namespace",
    "external_allocation_reference", "ownership_evidence_reference"],
      (object.lookup field).isSome) .bindingShape
  let binding : SourceBinding := {
    beneficiaryId := ← storedString object "beneficiary_id" .bindingShape
    sourceId := ← storedString object "source_id" .bindingShape
    providerNamespace := ← storedString object "provider_namespace" .bindingShape
    externalAllocationReference :=
      ← storedString object "external_allocation_reference" .bindingShape
    ownershipEvidenceReference :=
      ← storedString object "ownership_evidence_reference" .bindingShape }
  require (binding.beneficiaryId = beneficiaryId) .bindingOwnership
  (validateBinding binding).mapError fun _ => .bindingShape
  return binding

def parseStoredBindings (value : Json) (beneficiaryId : String) :
    Except CorruptAttemptReason (List SourceBinding) := do
  let bindings ← okOr value.asArray .bindingShape
  require (bindings ≠ []) .bindingShape
  let parsed ← bindings.mapM (parseStoredBinding beneficiaryId)
  require (parsed.IsChain fun a b => a.sourceId < b.sourceId) .bindingShape
  return parsed

/-! ### Observations -/

def storedRenewalId : Option Json → Except CorruptAttemptReason (Option String)
  | some .null => return none
  | some (.str value) => return some value
  | _ => .error .resultShape

def parseStoredInterval (value : Json) : Except CorruptAttemptReason ConfirmedPaidInterval := do
  let object ← okOr value.asObject .resultShape
  require (object.length = 5 ∧ ∀ field ∈ ["coverage_id", "source_id", "starts_at", "paid_until",
    "failed_renewal_id"], (object.lookup field).isSome) .resultShape
  let failedRenewalId ← storedRenewalId (object.lookup "failed_renewal_id")
  return {
    coverageId := ← storedString object "coverage_id" .resultShape
    sourceId := ← storedString object "source_id" .resultShape
    startsAt := ← storedI64 object "starts_at"
    paidUntil := ← storedI64 object "paid_until"
    failedRenewalId := failedRenewalId }

def parseStoredObservation (value : Json) : Except CorruptAttemptReason SourceObservation := do
  let object ← okOr value.asObject .resultShape
  let status ← storedString object "status" .resultShape
  let sourceId ← storedString object "source_id" .resultShape
  let evidenceReference ← storedString object "evidence_reference" .resultShape
  if status = "complete" then
    require (object.length = 4 ∧ (object.lookup "paid_intervals").isSome) .resultShape
    let values ← okOr ((object.lookup "paid_intervals").bind Json.asArray) .resultShape
    let intervals ← values.mapM parseStoredInterval
    return .complete sourceId evidenceReference intervals
  else if status = "unavailable" then
    require (object.length = 4 ∧ (object.lookup "reason").isSome) .resultShape
    let text ← storedString object "reason" .resultShape
    let reason ← okOr (UnavailableReason.parse text) .resultShape
    return .unavailable sourceId evidenceReference reason
  else
    .error .resultShape

/-! ### Attempts -/

def collectionTicketFromRow (beneficiaryId attemptId : String) (attempt : Attempt) :
    Except ReconciliationError CollectionTicket := do
  let sourceBindings ←
    (parseStoredBindings attempt.sourceBindings beneficiaryId).mapError .corruptAttempt
  return {
    beneficiaryId := beneficiaryId
    attemptId := attemptId
    collectionEpoch := attempt.collectionEpoch
    sourceSetGeneration := attempt.sourceSetGeneration
    expectedProjectionRevision := attempt.expectedProjectionRevision
    sourceBindings := sourceBindings
    status := attempt.status
    completedRevision := attempt.projectionRevision }

def storedCompletionReceipt (status : CollectionStatus) (evidence : Option String)
    (result : Option Json) (revision : Option Int) :
    Except CorruptAttemptReason (Option (String × Json × Int)) :=
  match status, evidence, result, revision with
  | .completed, some evidence, some result, some revision =>
    return some (evidence, result, revision)
  | .pending, none, none, none | .superseded, none, none, none => return none
  | _, _, _, _ => .error .completionReceipt

/-- The stored result, if it is the canonical form of the observations that it holds. -/
def validateStoredResult (ticket : CollectionTicket) (evidence : String) (value : Json) :
    Except CorruptAttemptReason Json := do
  require (¬ isBlank evidence) .resultEvidence
  let object ← okOr value.asObject .resultShape
  require (object.length = 2 ∧ (object.lookup "aggregate_evidence_reference").isSome ∧
    (object.lookup "sources").isSome) .resultShape
  let storedEvidence ← storedString object "aggregate_evidence_reference" .resultShape
  require (storedEvidence = evidence ∧ ¬ isBlank storedEvidence) .resultEvidence
  let sources ← okOr ((object.lookup "sources").bind Json.asArray) .resultShape
  let observations ← sources.mapM parseStoredObservation
  let (canonical, _) ← (canonicalCollection ticket.beneficiaryId ticket.sourceBindings
    observations evidence).mapError fun _ => .resultCanonical
  require (value = canonical) .resultCanonical
  return canonical

end Coverage

end Sotto
