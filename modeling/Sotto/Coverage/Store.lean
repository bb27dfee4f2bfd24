import Sotto.Coverage.Observations
import Sotto.Library.Table

/-!
# The projections of beneficiaries

A projection is put in canonical form before it is published: the facts of a complete one are
normalised. The revisions of a beneficiary are kept with the operations that published them, and
a head points to the current one. Each call runs in a transaction of its own, which holds the
head; one that fails changes nothing.
-/

namespace Sotto

namespace Coverage

open Checked

/-- A projection in the form in which it is stored and compared. -/
structure CanonicalProjection where
  status : String
  unavailableReason : Option UnavailableReason
  paidIntervals : List ConfirmedPaidInterval
deriving DecidableEq

def canonicalProjection (beneficiaryId : String) :
    CoverageProjection → Except InvalidCoverage CanonicalProjection
  | .complete paidIntervals => do
    let normalised ← normaliseConfirmedIntervals ⟨beneficiaryId, paidIntervals⟩
    return ⟨"complete", none, normalised⟩
  | .unavailable reason => return ⟨"unavailable", some reason, []⟩

def UnavailableReason.parse (value : String) : Option UnavailableReason :=
  if value = "needs_reconciliation" then some .needsReconciliation
  else if value = "conflicting_evidence" then some .conflictingEvidence
  else none

/-- The text of an error. -/
def InvalidCoverage.display : InvalidCoverage → String
  | emptyBeneficiary => "beneficiary_id must not be empty"
  | emptyCoverageId => "coverage_id must not be empty"
  | emptySourceId => "source_id must not be empty"
  | invalidInterval => "coverage interval must have starts_at before paid_until"
  | emptyRenewalId => "failed_renewal_id must not be empty"
  | recoveryDeadlineOverflow =>
    "failed renewal recovery deadline overflows the timestamp range"
  | conflictingCoverage => "duplicate coverage_id has conflicting contents"
  | conflictingRenewal => "the same failed renewal is attached to conflicting paid intervals"
  | exportDeadlineOverflow => "export deadline overflows the timestamp range"

/-- Why a projection is not published or not loaded. -/
inductive StoreError
  | database
  | emptyBeneficiary
  | emptyOperationId
  | emptyEvidenceReference
  | invalidExpectedRevision
  | invalidCoverage (error : InvalidCoverage)
  | revisionOverflow
  | projectionMissing
  | projectionUnavailable (reason : UnavailableReason)
  | operationConflict
  | revisionConflict (expected actual : Option Int)
  | corruptProjection (message : String)
deriving DecidableEq

inductive PublicationOutcome
  | applied
  | alreadyApplied
deriving DecidableEq

structure PublicationReceipt where
  revision : Int
  outcome : PublicationOutcome
deriving DecidableEq

/-- A row of the revisions. -/
structure Revision where
  operationId : String
  expectedRevision : Option Int
  evidenceReference : String
  status : String
  unavailableReason : Option String
  factCount : Int

/-- A row of the facts of the revisions. -/
structure RevisionFact where
  beneficiaryId : String
  revision : Int
  fact : ConfirmedPaidInterval

/-- The tables of the projections. -/
structure Projections where
  heads : Table String (Option Int)
  revisions : Table (String × Int) Revision
  facts : List RevisionFact

structure StoredOperation where
  revision : Int
  expectedRevision : Option Int
  evidenceReference : String
  projection : CanonicalProjection

structure LoadedCoverage where
  revision : Int
  coverage : PersonCoverage

namespace Projections

/-- The facts of a revision, in the order of their coverage ids. -/
def selectFacts (projections : Projections) (beneficiaryId : String) (revision : Int) :
    List ConfirmedPaidInterval :=
  sortBy ConfirmedPaidInterval.coverageId ((projections.facts.filter fun row =>
    row.beneficiaryId = beneficiaryId ∧ row.revision = revision).map RevisionFact.fact)

/-- The revision that an operation published. -/
def findOperation (projections : Projections) (beneficiaryId operationId : String) :
    Option ((String × Int) × Revision) :=
  projections.revisions.rows.find? fun row =>
    row.1.1 = beneficiaryId ∧ row.2.operationId = operationId

/-- Insert a head without a revision, unless there is a head. -/
def insertHead (projections : Projections) (beneficiaryId : String) : Projections :=
  { projections with
    heads := if (projections.heads.lookup beneficiaryId).isSome then projections.heads
      else AList.insert beneficiaryId none projections.heads }

/-- Insert a fact of a revision, which has its coverage id and its renewal once. -/
def insertFact (beneficiaryId : String) (revision : Int) (projections : Projections)
    (interval : ConfirmedPaidInterval) : Except StoreError Projections := do
  require (∀ row ∈ projections.facts, row.beneficiaryId = beneficiaryId ∧
    row.revision = revision → row.fact.coverageId ≠ interval.coverageId ∧
      ∀ renewalId ∈ interval.failedRenewalId, row.fact.failedRenewalId ≠ some renewalId) .database
  return { projections with
    facts := projections.facts ++ [⟨beneficiaryId, revision, interval⟩] }

/-- The current revision, `none` if there is no head. -/
def currentRevision (projections : Projections) (beneficiaryId : String) :
    Except StoreError (Option Int) := do
  require (¬ isBlank beneficiaryId) .emptyBeneficiary
  match projections.heads.lookup beneficiaryId with
  | none => return none
  | some (some revision) => return some revision
  | some none => .error (.corruptProjection "head has no current revision")

end Projections

open Projections

/-- What the columns of a revision say of its projection. -/
def projectionMetadata (status : String) (unavailableReason : Option String) (factCount : Int) :
    Except StoreError CanonicalProjection := do
  require (0 ≤ factCount) (.corruptProjection "fact count is negative")
  match unavailableReason.bind UnavailableReason.parse with
  | none =>
    require (status = "complete")
      (.corruptProjection "invalid projection status or unavailable reason")
    return ⟨"complete", none, []⟩
  | some reason =>
    require (status = "unavailable" ∧ factCount = 0)
      (.corruptProjection "invalid projection status or unavailable reason")
    return ⟨"unavailable", some reason, []⟩

def loadOperation (projections : Projections) (beneficiaryId : String) (revision : Int)
    (row : Revision) : Except StoreError StoredOperation := do
  let paidIntervals := projections.selectFacts beneficiaryId revision
  let projection ← projectionMetadata row.status row.unavailableReason row.factCount
  require (row.factCount = paidIntervals.length) <| .corruptProjection
    s!"operation revision {revision} declares {row.factCount} facts but stores {paidIntervals.length}"
  return ⟨revision, row.expectedRevision, row.evidenceReference,
    { projection with paidIntervals := paidIntervals }⟩

/-- Publish one complete or unavailable snapshot. -/
def publish (projections : Projections) (beneficiaryId : String) (expectedRevision : Option Int)
    (operationId evidenceReference : String) (projection : CoverageProjection) :
    Except StoreError (PublicationReceipt × Projections) := do
  require (¬ isBlank beneficiaryId) .emptyBeneficiary
  require (¬ isBlank operationId) .emptyOperationId
  require (¬ isBlank evidenceReference) .emptyEvidenceReference
  require (∀ revision ∈ expectedRevision, 0 < revision) .invalidExpectedRevision
  let canonical ← (canonicalProjection beneficiaryId projection).mapError .invalidCoverage
  let headInserted := (projections.heads.lookup beneficiaryId).isNone
  let projections := projections.insertHead beneficiaryId
  let currentRevision := (projections.heads.lookup beneficiaryId).join
  require (currentRevision.isSome ∨ headInserted)
    (.corruptProjection "head has no current revision")
  match projections.findOperation beneficiaryId operationId with
  | some (key, row) =>
    let stored ← loadOperation projections beneficiaryId key.2 row
    require (stored.expectedRevision = expectedRevision ∧
      stored.evidenceReference = evidenceReference ∧ stored.projection = canonical)
      .operationConflict
    return (⟨stored.revision, .alreadyApplied⟩, projections)
  | none =>
    require (currentRevision = expectedRevision)
      (.revisionConflict expectedRevision currentRevision)
    let revision ← okOr (checkedAdd (currentRevision.getD 0) 1) .revisionOverflow
    require (projections.revisions.lookup (beneficiaryId, revision)).isNone .database
    let row : Revision := {
      operationId := operationId
      expectedRevision := expectedRevision
      evidenceReference := evidenceReference
      status := canonical.status
      unavailableReason := canonical.unavailableReason.map UnavailableReason.asStr
      factCount := canonical.paidIntervals.length }
    let projections ← canonical.paidIntervals.foldlM (insertFact beneficiaryId revision)
      { projections with
        revisions := AList.insert (beneficiaryId, revision) row projections.revisions }
    return (⟨revision, .applied⟩,
      { projections with heads := AList.insert beneficiaryId (some revision) projections.heads })

/-- Load the current snapshot. -/
def load (projections : Projections) (beneficiaryId : String) :
    Except StoreError LoadedCoverage := do
  require (¬ isBlank beneficiaryId) .emptyBeneficiary
  match projections.heads.lookup beneficiaryId with
  | none => .error .projectionMissing
  | some none => .error (.corruptProjection "head has no current revision")
  | some (some revision) =>
    let row ← okOr (projections.revisions.lookup (beneficiaryId, revision))
      (.corruptProjection s!"head points to missing revision {revision}")
    let projection ← projectionMetadata row.status row.unavailableReason row.factCount
    require (∀ value ∈ row.expectedRevision, 0 < value)
      (.corruptProjection "expected revision is not positive")
    require (¬ isBlank row.evidenceReference) (.corruptProjection "evidence reference is empty")
    let paidIntervals := projections.selectFacts beneficiaryId revision
    require (row.factCount = paidIntervals.length) <| .corruptProjection
      s!"revision {revision} declares {row.factCount} facts but stores {paidIntervals.length}"
    let canonical ← (normaliseConfirmedIntervals ⟨beneficiaryId, paidIntervals⟩).mapError
      fun error => .corruptProjection error.display
    require (canonical = paidIntervals)
      (.corruptProjection "stored facts are not in canonical order")
    match projection.unavailableReason with
    | some reason => .error (.projectionUnavailable reason)
    | none => return ⟨revision, ⟨beneficiaryId, paidIntervals⟩⟩

end Coverage

end Sotto
