import Sotto.Coverage.Normal
import Sotto.Coverage.Store

/-!
# Publications

A publication that succeeds answers what an earlier one of the same operation left, or adds the
next revision with its facts and moves the head to it.
-/

namespace Sotto

namespace Coverage

open Checked Projections

/-- A call that publishes. -/
structure Publication where
  beneficiaryId : String
  expectedRevision : Option Int
  operationId : String
  evidenceReference : String
  projection : CoverageProjection

namespace Publication

variable (publication : Publication) (projections : Projections)

def publish : Except StoreError (PublicationReceipt × Projections) :=
  Coverage.publish projections publication.beneficiaryId publication.expectedRevision
    publication.operationId publication.evidenceReference publication.projection

/-- What the call leaves: it is committed if it succeeds. -/
def perform : Projections :=
  match publication.publish projections with
  | .ok (_, projections') => projections'
  | .error _ => projections

/-- The revision that the call adds. -/
def applied : Option Int :=
  match publication.publish projections with
  | .ok (⟨revision, .applied⟩, _) => some revision
  | _ => none

/-- The call passes the checks of its input. -/
structure Valid (canonical : CanonicalProjection) : Prop where
  beneficiary : ¬ isBlank publication.beneficiaryId
  operation : ¬ isBlank publication.operationId
  evidence : ¬ isBlank publication.evidenceReference
  expected : ∀ revision ∈ publication.expectedRevision, 0 < revision
  canonical : canonicalProjection publication.beneficiaryId publication.projection = .ok canonical

/-- The row of the revision that the call adds. -/
def row (canonical : CanonicalProjection) : Revision where
  operationId := publication.operationId
  expectedRevision := publication.expectedRevision
  evidenceReference := publication.evidenceReference
  status := canonical.status
  unavailableReason := canonical.unavailableReason.map UnavailableReason.asStr
  factCount := canonical.paidIntervals.length

end Publication

/-- The tables after calls. -/
def Projections.run (projections : Projections) (publications : List Publication) : Projections :=
  publications.foldl (fun projections publication => publication.perform projections) projections

/-- The number of the current revision, 0 if there is none. -/
def Projections.latest (projections : Projections) (beneficiaryId : String) : Int :=
  (projections.heads.lookup beneficiaryId).join.getD 0

/-- The tables once a revision is added. -/
def Projections.add (projections : Projections) (beneficiaryId : String) (revision : Int)
    (row : Revision) (paidIntervals : List ConfirmedPaidInterval) : Projections where
  heads := AList.insert beneficiaryId (some revision) (projections.insertHead beneficiaryId).heads
  revisions := AList.insert (beneficiaryId, revision) row projections.revisions
  facts := projections.facts ++ paidIntervals.map fun interval => ⟨beneficiaryId, revision, interval⟩

variable {projections projections' : Projections} {publication : Publication}
  {beneficiaryId : String} {revision : Int}

theorem foldlM_insertFact {paidIntervals : List ConfirmedPaidInterval}
    (h : paidIntervals.foldlM (insertFact beneficiaryId revision) projections = .ok projections') :
    projections' = { projections with
      facts := projections.facts ++ paidIntervals.map fun interval =>
        ⟨beneficiaryId, revision, interval⟩ } := by
  induction paidIntervals generalizing projections with
  | nil =>
    obtain rfl := pure_eq_ok.mp h
    simp
  | cons interval paidIntervals ih =>
    rw [List.foldlM_cons] at h
    obtain ⟨inserted, hinserted, h⟩ := bind_eq_ok.mp h
    obtain ⟨⟨⟩, -, hinserted⟩ := bind_eq_ok.mp hinserted
    obtain rfl := pure_eq_ok.mp hinserted
    rw [ih h]
    simp

/-- A publication that succeeds. -/
inductive Publishes (projections : Projections) (publication : Publication)
    (canonical : CanonicalProjection) : PublicationReceipt → Projections → Prop
  | again {key : String × Int} {row : Revision} :
      projections.findOperation publication.beneficiaryId publication.operationId =
        some (key, row) →
      loadOperation (projections.insertHead publication.beneficiaryId) publication.beneficiaryId
        key.2 row = .ok ⟨key.2, publication.expectedRevision, publication.evidenceReference,
          canonical⟩ →
      Publishes projections publication canonical ⟨key.2, .alreadyApplied⟩
        (projections.insertHead publication.beneficiaryId)
  | new {revision : Int} :
      projections.findOperation publication.beneficiaryId publication.operationId = none →
      (projections.heads.lookup publication.beneficiaryId).join = publication.expectedRevision →
      checkedAdd (projections.latest publication.beneficiaryId) 1 = some revision →
      projections.revisions.lookup (publication.beneficiaryId, revision) = none →
      Publishes projections publication canonical ⟨revision, .applied⟩
        (projections.add publication.beneficiaryId revision (publication.row canonical)
          canonical.paidIntervals)

theorem join_insertHead :
    ((projections.insertHead beneficiaryId).heads.lookup beneficiaryId).join =
      (projections.heads.lookup beneficiaryId).join := by
  unfold insertHead
  cases hhead : projections.heads.lookup beneficiaryId with
  | none => simp
  | some head => simp [hhead]

theorem revision_of_loadOperation {row : Revision} {stored : StoredOperation}
    (h : loadOperation projections beneficiaryId revision row = .ok stored) :
    stored.revision = revision := by
  obtain ⟨metadata, -, h⟩ := bind_eq_ok.mp h
  obtain ⟨⟨⟩, -, h⟩ := bind_eq_ok.mp h
  rw [← pure_eq_ok.mp h]

theorem publishes_of_ok {receipt : PublicationReceipt}
    (h : publication.publish projections = .ok (receipt, projections')) :
    ∃ canonical, publication.Valid canonical ∧
      Publishes projections publication canonical receipt projections' := by
  obtain ⟨⟨⟩, hbeneficiary, h⟩ := bind_eq_ok.mp h
  obtain ⟨⟨⟩, hoperation, h⟩ := bind_eq_ok.mp h
  obtain ⟨⟨⟩, hevidence, h⟩ := bind_eq_ok.mp h
  obtain ⟨⟨⟩, hexpected, h⟩ := bind_eq_ok.mp h
  obtain ⟨canonical, hcanonical, h⟩ := bind_eq_ok.mp h
  obtain ⟨⟨⟩, hhead, h⟩ := bind_eq_ok.mp h
  refine ⟨canonical, ⟨require_eq_ok.mp hbeneficiary, require_eq_ok.mp hoperation,
    require_eq_ok.mp hevidence, require_eq_ok.mp hexpected, mapError_eq_ok.mp hcanonical⟩, ?_⟩
  cases hfound : projections.findOperation publication.beneficiaryId publication.operationId with
  | some found =>
    have hfound' : (projections.insertHead publication.beneficiaryId).findOperation
      publication.beneficiaryId publication.operationId = some found := hfound
    rw [hfound'] at h
    obtain ⟨stored, hstored, h⟩ := bind_eq_ok.mp h
    obtain ⟨⟨⟩, hsame, h⟩ := bind_eq_ok.mp h
    obtain ⟨rfl, rfl⟩ := Prod.mk.inj (pure_eq_ok.mp h)
    obtain ⟨hexpected, hevidence, hprojection⟩ := require_eq_ok.mp hsame
    have hrevision := revision_of_loadOperation hstored
    rw [hrevision]
    refine .again hfound ?_
    rw [hstored, ← hrevision, ← hexpected, ← hevidence, ← hprojection]
  | none =>
    have hfound' : (projections.insertHead publication.beneficiaryId).findOperation
      publication.beneficiaryId publication.operationId = none := hfound
    rw [hfound'] at h
    obtain ⟨⟨⟩, hcurrent, h⟩ := bind_eq_ok.mp h
    obtain ⟨revision, hrevision, h⟩ := bind_eq_ok.mp h
    obtain ⟨⟨⟩, hfree, h⟩ := bind_eq_ok.mp h
    obtain ⟨inserted, hinserted, h⟩ := bind_eq_ok.mp h
    obtain ⟨rfl, rfl⟩ := Prod.mk.inj (pure_eq_ok.mp h)
    rw [require_eq_ok, join_insertHead] at hcurrent
    rw [okOr_eq_ok, join_insertHead] at hrevision
    rw [foldlM_insertFact hinserted]
    exact .new hfound hcurrent hrevision (Option.isNone_iff_eq_none.mp (require_eq_ok.mp hfree))

end Coverage

end Sotto
