import Sotto.Coverage.Facts
import Sotto.Library.Json

/-!
# Collecting the observations of sources

One observation of each registered source is checked and merged into one projection. The
observations are also put in a canonical form, which is stored and compared when a collection is
finished again.
-/

namespace Sotto

namespace Coverage

open Checked

/-- Why no complete projection is published. -/
inductive UnavailableReason
  | needsReconciliation
  | conflictingEvidence
deriving DecidableEq

def UnavailableReason.asStr : UnavailableReason → String
  | .needsReconciliation => "needs_reconciliation"
  | .conflictingEvidence => "conflicting_evidence"

inductive CoverageProjection
  | complete (paidIntervals : List ConfirmedPaidInterval)
  | unavailable (reason : UnavailableReason)
deriving DecidableEq

/-- What binds one external allocation to a beneficiary. -/
structure SourceBinding where
  beneficiaryId : String
  sourceId : String
  providerNamespace : String
  externalAllocationReference : String
  ownershipEvidenceReference : String
deriving DecidableEq

/-- An observation of one registered source. -/
inductive SourceObservation
  | complete (sourceId evidenceReference : String) (paidIntervals : List ConfirmedPaidInterval)
  | unavailable (sourceId evidenceReference : String) (reason : UnavailableReason)
deriving DecidableEq

def SourceObservation.sourceId : SourceObservation → String
  | complete sourceId _ _ => sourceId
  | unavailable sourceId _ _ => sourceId

def SourceObservation.evidenceReference : SourceObservation → String
  | complete _ evidenceReference _ => evidenceReference
  | unavailable _ evidenceReference _ => evidenceReference

/-- Why observations are refused. -/
inductive CollectionError
  | sourceBatchMismatch
  | sourceObservationConflict (message : String)
  | invalidObservation (error : InvalidCoverage)
deriving DecidableEq

/-- The maps from the facts to the sources they are in. -/
structure FactSources where
  factSources : List (String × String)
  renewalSources : List (String × String)

/-- The state of a collection. -/
structure Collecting where
  seen : List String
  canonicalObservations : List Json
  completeFacts : List ConfirmedPaidInterval
  facts : FactSources
  unavailableReason : Option UnavailableReason

def recordFactSource (sourceId : String) (maps : FactSources) (interval : ConfirmedPaidInterval) :
    Except CollectionError FactSources := do
  require (interval.sourceId = sourceId) <| .sourceObservationConflict
    "coverage fact source_id does not match its registered source"
  require (maps.factSources.lookup interval.coverageId).isNone <| .sourceObservationConflict
    "coverage_id appears in multiple sources"
  let factSources := (interval.coverageId, sourceId) :: maps.factSources
  match interval.failedRenewalId with
  | none => return ⟨factSources, maps.renewalSources⟩
  | some renewalId =>
    require (maps.renewalSources.lookup renewalId).isNone <| .sourceObservationConflict
      "failed_renewal_id appears in multiple sources"
    return ⟨factSources, (renewalId, sourceId) :: maps.renewalSources⟩

/-- A fact as JSON, the fields in the order of their keys. -/
def ConfirmedPaidInterval.toJson (interval : ConfirmedPaidInterval) : Json :=
  .obj [("coverage_id", .str interval.coverageId),
    ("failed_renewal_id", (interval.failedRenewalId.map Json.str).getD .null),
    ("paid_until", .num interval.paidUntil),
    ("source_id", .str interval.sourceId),
    ("starts_at", .num interval.startsAt)]

/-- A complete observation as JSON. -/
def completeJson (sourceId evidenceReference : String)
    (paidIntervals : List ConfirmedPaidInterval) : Json :=
  .obj [("evidence_reference", .str evidenceReference),
    ("paid_intervals", .arr (paidIntervals.map ConfirmedPaidInterval.toJson)),
    ("source_id", .str sourceId),
    ("status", .str "complete")]

/-- An unavailable observation as JSON. -/
def unavailableJson (sourceId evidenceReference : String) (reason : UnavailableReason) : Json :=
  .obj [("evidence_reference", .str evidenceReference),
    ("reason", .str reason.asStr),
    ("source_id", .str sourceId),
    ("status", .str "unavailable")]

/-- The facts of an observation, normalised. -/
def normalisedFacts (beneficiaryId : String) (paidIntervals : List ConfirmedPaidInterval) :
    Except CollectionError (List ConfirmedPaidInterval) :=
  (normaliseConfirmedIntervals ⟨beneficiaryId, paidIntervals⟩).mapError .invalidObservation

/-- The reason once another observation is unavailable. -/
def combineReason (unavailableReason : Option UnavailableReason) (reason : UnavailableReason) :
    Option UnavailableReason :=
  if reason = .conflictingEvidence then some .conflictingEvidence
  else if unavailableReason.isNone then some .needsReconciliation
  else unavailableReason

def collectObservation (beneficiaryId : String) (expected : List String) (state : Collecting)
    (observation : SourceObservation) : Except CollectionError Collecting := do
  require (¬ (isBlank observation.evidenceReference ∨ observation.sourceId ∉ expected ∨
    observation.sourceId ∈ state.seen)) .sourceBatchMismatch
  let seen := observation.sourceId :: state.seen
  match observation with
  | .complete sourceId evidenceReference paidIntervals =>
    let normalised ← normalisedFacts beneficiaryId paidIntervals
    let facts ← normalised.foldlM (recordFactSource sourceId) state.facts
    return {
      seen := seen
      canonicalObservations :=
        state.canonicalObservations ++ [completeJson sourceId evidenceReference normalised]
      completeFacts := state.completeFacts ++ normalised
      facts := facts
      unavailableReason := state.unavailableReason }
  | .unavailable sourceId evidenceReference reason =>
    return {
      seen := seen
      canonicalObservations :=
        state.canonicalObservations ++ [unavailableJson sourceId evidenceReference reason]
      completeFacts := state.completeFacts
      facts := state.facts
      unavailableReason := combineReason state.unavailableReason reason }

/-- The source of a canonical observation. -/
def jsonSourceId (observation : Json) : String :=
  ((observation.get "source_id").bind Json.asStr).getD ""

/-- The projection that the collected facts and reasons come to. -/
def projectionOf (completeFacts : List ConfirmedPaidInterval) :
    Option UnavailableReason → CoverageProjection
  | some reason => .unavailable reason
  | none => .complete (sortBy ConfirmedPaidInterval.coverageId completeFacts)

def canonicalCollection (beneficiaryId : String) (bindings : List SourceBinding)
    (observations : List SourceObservation) (aggregateEvidenceReference : String) :
    Except CollectionError (Json × CoverageProjection) := do
  require (observations.length = bindings.length) .sourceBatchMismatch
  let expected := (bindings.map SourceBinding.sourceId).dedup
  let state ← observations.foldlM (collectObservation beneficiaryId expected)
    ⟨[], [], [], ⟨[], []⟩, none⟩
  require (state.seen.length = expected.length) .sourceBatchMismatch
  return (.obj [("aggregate_evidence_reference", .str aggregateEvidenceReference),
      ("sources", .arr (sortBy jsonSourceId state.canonicalObservations))],
    projectionOf state.completeFacts state.unavailableReason)

end Coverage

end Sotto
