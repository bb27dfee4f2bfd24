import Sotto.Coverage.Publications
import Sotto.Properties.Stored

/-!
# The revisions of a beneficiary

The revisions are numbered from 1 without gaps, the head points to the last one, and each holds the
canonical form of what an operation published. A revision never changes.
-/

namespace Sotto

namespace Coverage

open Checked Projections

/-- The tables of publications: every revision is the row of a valid publication. -/
structure Projections.Sound (projections : Projections) : Prop where
  counted : ∀ beneficiaryId, 0 ≤ projections.latest beneficiaryId
  heads : ∀ beneficiaryId, projections.heads.lookup beneficiaryId =
    if projections.latest beneficiaryId = 0 then none
    else some (some (projections.latest beneficiaryId))
  numbered : ∀ beneficiaryId n, (projections.revisions.lookup (beneficiaryId, n)).isSome ↔
    1 ≤ n ∧ n ≤ projections.latest beneficiaryId
  once : ∀ {beneficiaryId n n' row row'},
    projections.revisions.lookup (beneficiaryId, n) = some row →
    projections.revisions.lookup (beneficiaryId, n') = some row' →
    row.operationId = row'.operationId → n = n'
  expected : ∀ {beneficiaryId n row}, projections.revisions.lookup (beneficiaryId, n) = some row →
    row.expectedRevision.getD 0 + 1 = n
  rows : ∀ {beneficiaryId n row}, projections.revisions.lookup (beneficiaryId, n) = some row →
    ∃ (publication : Publication) (canonical : CanonicalProjection),
      publication.Valid canonical ∧ publication.beneficiaryId = beneficiaryId ∧
      row = publication.row canonical ∧
      projections.selectFacts beneficiaryId n = canonical.paidIntervals
  facts : ∀ fact ∈ projections.facts,
    (projections.revisions.lookup (fact.beneficiaryId, fact.revision)).isSome

/-- Tables of which the later ones keep the revisions of the earlier ones. -/
def Projections.Extends (projections projections' : Projections) : Prop :=
  ∀ beneficiaryId n row, projections.revisions.lookup (beneficiaryId, n) = some row →
    projections'.revisions.lookup (beneficiaryId, n) = some row ∧
    projections'.selectFacts beneficiaryId n = projections.selectFacts beneficiaryId n

variable {projections projections' projections'' : Projections} {publication : Publication}
  {beneficiaryId : String} {revision : Int} {canonical : CanonicalProjection}

theorem Projections.Extends.refl (projections : Projections) : projections.Extends projections :=
  fun _ _ _ h => ⟨h, rfl⟩

theorem Projections.Extends.trans (h : projections.Extends projections')
    (h' : projections'.Extends projections'') : projections.Extends projections'' := by
  intro b n row hrow
  obtain ⟨hrow', hfacts⟩ := h b n row hrow
  obtain ⟨hrow'', hfacts'⟩ := h' b n row hrow'
  exact ⟨hrow'', hfacts'.trans hfacts⟩

/-- Normalised facts are in the order of their coverage ids. -/
theorem ascends_coverageId {paidIntervals unique : List ConfirmedPaidInterval}
    (h : normaliseConfirmedIntervals ⟨beneficiaryId, paidIntervals⟩ = .ok unique) :
    Ascends ConfirmedPaidInterval.coverageId unique := by
  obtain ⟨-, hfacts, hsorted, hmem⟩ := normaliseConfirmedIntervals_eq_ok.mp h
  refine List.Pairwise.imp_of_mem (fun {f g} hf hg hlt => ?_) hsorted
  rcases Prod.Lex.toLex_lt_toLex.mp hlt with hlt | ⟨heq, hlt'⟩
  · exact hlt
  · obtain rfl := hfacts.coverage f ((hmem f).mp hf) g ((hmem g).mp hg) heq
    exact absurd hlt (lt_irrefl _)

theorem ascends_paidIntervals {projection : CoverageProjection}
    (h : canonicalProjection beneficiaryId projection = .ok canonical) :
    Ascends ConfirmedPaidInterval.coverageId canonical.paidIntervals := by
  cases projection with
  | complete paidIntervals =>
    obtain ⟨unique, hunique, h⟩ := bind_eq_ok.mp h
    obtain rfl := pure_eq_ok.mp h
    exact ascends_coverageId hunique
  | unavailable reason =>
    obtain rfl := pure_eq_ok.mp h
    exact List.Pairwise.nil

section Add

variable {row : Revision} {paidIntervals : List ConfirmedPaidInterval}

theorem lookup_add_heads {b : String} :
    (projections.add beneficiaryId revision row paidIntervals).heads.lookup b =
      if b = beneficiaryId then some (some revision) else projections.heads.lookup b := by
  simp only [Projections.add, Table.lookup_insert, insertHead]
  split
  · rfl
  · next hb =>
    split
    · rfl
    · exact AList.lookup_insert_ne hb

theorem latest_add {b : String} :
    (projections.add beneficiaryId revision row paidIntervals).latest b =
      if b = beneficiaryId then revision else projections.latest b := by
  rw [Projections.latest, lookup_add_heads]
  split
  · rfl
  · rfl

theorem selectFacts_add_of_ne {b : String} {n : Int} (h : (b, n) ≠ (beneficiaryId, revision)) :
    (projections.add beneficiaryId revision row paidIntervals).selectFacts b n =
      projections.selectFacts b n := by
  have hnone : (paidIntervals.map fun interval =>
      (⟨beneficiaryId, revision, interval⟩ : RevisionFact)).filter
        (fun fact => fact.beneficiaryId = b ∧ fact.revision = n) = [] := by
    refine List.filter_eq_nil_iff.mpr fun fact hfact => ?_
    obtain ⟨interval, -, rfl⟩ := List.mem_map.mp hfact
    rw [decide_eq_true_eq]
    rintro ⟨rfl, rfl⟩
    exact h rfl
  rw [selectFacts, Projections.add, List.filter_append, hnone, List.append_nil]
  rfl

/-- The facts of a revision that is new are those that are added. -/
theorem selectFacts_add (hfacts : ∀ fact ∈ projections.facts,
      ¬ (fact.beneficiaryId = beneficiaryId ∧ fact.revision = revision))
    (hsorted : Ascends ConfirmedPaidInterval.coverageId paidIntervals) :
    (projections.add beneficiaryId revision row paidIntervals).selectFacts beneficiaryId revision =
      paidIntervals := by
  have hold : projections.facts.filter
      (fun fact => fact.beneficiaryId = beneficiaryId ∧ fact.revision = revision) = [] :=
    List.filter_eq_nil_iff.mpr fun fact hfact => by
      rw [decide_eq_true_eq]
      exact hfacts fact hfact
  have hnew : (paidIntervals.map fun interval =>
      (⟨beneficiaryId, revision, interval⟩ : RevisionFact)).filter
        (fun fact => fact.beneficiaryId = beneficiaryId ∧ fact.revision = revision) =
          paidIntervals.map fun interval => ⟨beneficiaryId, revision, interval⟩ := by
    refine List.filter_eq_self.mpr fun fact hfact => ?_
    obtain ⟨interval, -, rfl⟩ := List.mem_map.mp hfact
    exact decide_eq_true ⟨rfl, rfl⟩
  rw [selectFacts, Projections.add, List.filter_append, hold, hnew, List.nil_append, List.map_map]
  exact (congrArg _ (List.map_id _)).trans hsorted.sortBy_eq

end Add

/-! ### Operations -/

theorem findOperation_eq_none {operationId : String} :
    projections.findOperation beneficiaryId operationId = none ↔ ∀ n row,
      projections.revisions.lookup (beneficiaryId, n) = some row →
      row.operationId ≠ operationId := by
  simp only [findOperation, List.find?_eq_none, decide_eq_true_eq, not_and, Prod.forall,
    Table.mem_rows]
  constructor
  · intro h n row hrow
    exact h beneficiaryId n row hrow rfl
  · rintro h b n row hrow rfl
    exact h n row hrow

theorem of_findOperation {operationId : String} {key : String × Int} {row : Revision}
    (h : projections.findOperation beneficiaryId operationId = some (key, row)) :
    key.1 = beneficiaryId ∧ row.operationId = operationId ∧
      projections.revisions.lookup key = some row := by
  unfold findOperation at h
  have hsame := List.find?_some h
  rw [decide_eq_true_eq] at hsame
  exact ⟨hsame.1, hsame.2, Table.mem_rows.mp (List.mem_of_find?_eq_some h)⟩

theorem findOperation_eq_some {operationId : String} (h : projections.Sound) {n : Int}
    {row : Revision} : projections.findOperation beneficiaryId operationId =
      some ((beneficiaryId, n), row) ↔
        projections.revisions.lookup (beneficiaryId, n) = some row ∧
        row.operationId = operationId := by
  constructor
  · intro hfound
    obtain ⟨-, hoperation, hrow⟩ := of_findOperation hfound
    exact ⟨hrow, hoperation⟩
  · rintro ⟨hrow, hoperation⟩
    cases hfound : projections.findOperation beneficiaryId operationId with
    | none => exact absurd hoperation (findOperation_eq_none.mp hfound n row hrow)
    | some found =>
      obtain ⟨⟨b, n'⟩, row'⟩ := found
      obtain ⟨rfl, hoperation', hrow'⟩ := of_findOperation hfound
      obtain rfl := h.once hrow' hrow (hoperation'.trans hoperation.symm)
      obtain rfl := Option.some.inj (hrow'.symm.trans hrow)
      rfl

theorem Projections.Sound.insertHead (h : projections.Sound)
    (hrow : (projections.revisions.lookup (beneficiaryId, revision)).isSome) :
    projections.insertHead beneficiaryId = projections := by
  have hhead := h.heads beneficiaryId
  obtain ⟨hpos, hle⟩ := (h.numbered beneficiaryId revision).mp hrow
  rw [if_neg (by omega)] at hhead
  rw [Projections.insertHead, hhead, Option.isSome_some, if_pos rfl]

/-- Adding the next revision keeps the tables sound. -/
theorem Projections.Sound.add (h : projections.Sound) (hvalid : publication.Valid canonical)
    (hfound : projections.findOperation publication.beneficiaryId publication.operationId = none)
    (hcurrent : (projections.heads.lookup publication.beneficiaryId).join =
      publication.expectedRevision)
    (hrevision : checkedAdd (projections.latest publication.beneficiaryId) 1 = some revision) :
    (projections.add publication.beneficiaryId revision (publication.row canonical)
        canonical.paidIntervals).Sound ∧
      projections.Extends (projections.add publication.beneficiaryId revision
        (publication.row canonical) canonical.paidIntervals) := by
  have hnext : revision = projections.latest publication.beneficiaryId + 1 :=
    (checkedAdd_eq_some.mp hrevision).1
  have hcount := h.counted publication.beneficiaryId
  have hfree : ∀ {n row}, projections.revisions.lookup (publication.beneficiaryId, n) = some row →
      n ≠ revision := by
    intro n row hrow
    have hn := (h.numbered _ _).mp (Option.isSome_of_eq_some hrow)
    omega
  have hlookup : ∀ key, (projections.add publication.beneficiaryId revision
      (publication.row canonical) canonical.paidIntervals).revisions.lookup key =
        if key = (publication.beneficiaryId, revision) then some (publication.row canonical)
        else projections.revisions.lookup key := fun key => Table.lookup_insert _ _ _ _
  have hold : ∀ {key row}, projections.revisions.lookup key = some row →
      key ≠ (publication.beneficiaryId, revision) := by
    rintro key row hrow rfl
    exact hfree hrow rfl
  have hextends : projections.Extends (projections.add publication.beneficiaryId revision
      (publication.row canonical) canonical.paidIntervals) := by
    intro b n row hrow
    rw [hlookup, if_neg (hold hrow)]
    exact ⟨hrow, selectFacts_add_of_ne (hold hrow)⟩
  refine ⟨⟨fun b => ?_, fun b => ?_, fun b n => ?_, fun {b n n' row row'} hrow hrow' hsame => ?_,
    fun {b n row} hrow => ?_, fun {b n row} hrow => ?_, fun fact hfact => ?_⟩, hextends⟩
  · rw [latest_add]
    split
    · omega
    · exact h.counted b
  · rw [lookup_add_heads, latest_add]
    split
    · rw [if_neg (by omega)]
    · exact h.heads b
  · rw [hlookup, latest_add]
    by_cases hb : b = publication.beneficiaryId
    · subst hb
      rw [if_pos rfl]
      split
      · next heq =>
        obtain rfl := (Prod.mk.inj heq).2
        exact iff_of_true rfl (by omega)
      · next hne =>
        have hn : n ≠ revision := fun heq => hne (heq ▸ rfl)
        rw [h.numbered]
        omega
    · rw [if_neg fun heq => hb (Prod.mk.inj heq).1, if_neg hb]
      exact h.numbered b n
  · rw [hlookup] at hrow hrow'
    split at hrow
    · next heq =>
      obtain ⟨rfl, rfl⟩ := Prod.mk.inj heq
      obtain rfl := Option.some.inj hrow
      split at hrow'
      · next heq' => exact ((Prod.mk.inj heq').2).symm
      · exact absurd hsame.symm (findOperation_eq_none.mp hfound n' row' hrow')
    · split at hrow'
      · next heq' =>
        obtain ⟨rfl, rfl⟩ := Prod.mk.inj heq'
        obtain rfl := Option.some.inj hrow'
        exact absurd hsame (findOperation_eq_none.mp hfound n row hrow)
      · exact h.once hrow hrow' hsame
  · rw [hlookup] at hrow
    split at hrow
    · next heq =>
      obtain ⟨rfl, rfl⟩ := Prod.mk.inj heq
      obtain rfl := Option.some.inj hrow
      rw [hnext, Projections.latest, hcurrent]
      rfl
    · exact h.expected hrow
  · rw [hlookup] at hrow
    split at hrow
    · next heq =>
      obtain ⟨rfl, rfl⟩ := Prod.mk.inj heq
      obtain rfl := Option.some.inj hrow
      refine ⟨publication, canonical, hvalid, rfl, rfl, selectFacts_add ?_ ?_⟩
      · rintro fact hfact ⟨hbeneficiary, hfactRevision⟩
        obtain ⟨row, hrow⟩ := Option.isSome_iff_exists.mp (h.facts fact hfact)
        rw [hbeneficiary] at hrow
        exact hfree hrow hfactRevision
      · exact ascends_paidIntervals hvalid.canonical
    · next hne =>
      rw [selectFacts_add_of_ne hne]
      exact h.rows hrow
  · rw [hlookup]
    split
    · rfl
    · next hne =>
      rcases List.mem_append.mp hfact with hfact | hfact
      · exact h.facts fact hfact
      · obtain ⟨interval, -, rfl⟩ := List.mem_map.mp hfact
        exact absurd rfl hne

theorem Projections.Sound.publishes (h : projections.Sound) {receipt : PublicationReceipt}
    (hvalid : publication.Valid canonical)
    (hp : Publishes projections publication canonical receipt projections') :
    projections'.Sound ∧ projections.Extends projections' := by
  cases hp with
  | @again key row hfound hload =>
    obtain ⟨hbeneficiary, -, hrow⟩ := of_findOperation hfound
    rw [← Prod.mk.eta (p := key), hbeneficiary] at hrow
    rw [h.insertHead (Option.isSome_of_eq_some hrow)]
    exact ⟨h, .refl projections⟩
  | @new revision hfound hcurrent hrevision hfree =>
    exact h.add hvalid hfound hcurrent hrevision

theorem Projections.Sound.perform (h : projections.Sound) (publication : Publication) :
    (publication.perform projections).Sound ∧
      projections.Extends (publication.perform projections) := by
  unfold Publication.perform
  cases hcall : publication.publish projections with
  | error e => exact ⟨h, .refl projections⟩
  | ok result =>
    obtain ⟨canonical, hvalid, hp⟩ := publishes_of_ok hcall
    exact h.publishes hvalid hp

/-- Calls keep the tables sound and every revision. -/
theorem Projections.Sound.run (h : projections.Sound) (publications : List Publication) :
    (projections.run publications).Sound ∧ projections.Extends (projections.run publications) := by
  induction publications generalizing projections with
  | nil => exact ⟨h, .refl projections⟩
  | cons publication publications ih =>
    obtain ⟨hstep, hextends⟩ := h.perform publication
    obtain ⟨hrun, hextends'⟩ := ih hstep
    exact ⟨hrun, hextends.trans hextends'⟩

/-- The tables before any publication. -/
def Projections.empty : Projections :=
  ⟨∅, ∅, []⟩

theorem Projections.Sound.empty : Projections.empty.Sound where
  counted _ := le_rfl
  heads _ := rfl
  numbered b n := by
    refine iff_of_false Bool.false_ne_true ?_
    rintro ⟨hpos, hle⟩
    exact absurd (hpos.trans hle) (by decide : ¬ (1 : Int) ≤ 0)
  once h := by cases h
  expected h := by cases h
  rows h := by cases h
  facts _ h := by cases h

/-! ### Publishing again -/

/-- A revision holds what a call published. -/
structure Publication.Recorded (publication : Publication) (projections : Projections)
    (canonical : CanonicalProjection) (revision : Int) : Prop where
  valid : publication.Valid canonical
  row : projections.revisions.lookup (publication.beneficiaryId, revision) =
    some (publication.row canonical)
  facts : projections.selectFacts publication.beneficiaryId revision = canonical.paidIntervals

theorem Publication.Recorded.extends (h : publication.Recorded projections canonical revision)
    (hextends : projections.Extends projections') :
    publication.Recorded projections' canonical revision := by
  obtain ⟨hrow, hfacts⟩ := hextends _ _ _ h.row
  exact ⟨h.valid, hrow, hfacts.trans h.facts⟩

theorem projectionMetadata_of_canonical {projection : CoverageProjection}
    (h : canonicalProjection beneficiaryId projection = .ok canonical) :
    projectionMetadata canonical.status (canonical.unavailableReason.map UnavailableReason.asStr)
      canonical.paidIntervals.length = .ok { canonical with paidIntervals := [] } := by
  cases projection with
  | complete paidIntervals =>
    obtain ⟨unique, -, h⟩ := bind_eq_ok.mp h
    obtain rfl := pure_eq_ok.mp h
    exact bind_eq_ok.mpr ⟨⟨⟩, require_eq_ok.mpr (Int.natCast_nonneg _), rfl⟩
  | unavailable reason =>
    obtain rfl := pure_eq_ok.mp h
    cases reason <;> rfl

/-- A revision reads back as it was published. -/
theorem Publication.Recorded.loadOperation
    (h : publication.Recorded projections canonical revision) :
    loadOperation projections publication.beneficiaryId revision (publication.row canonical) =
      .ok ⟨revision, publication.expectedRevision, publication.evidenceReference, canonical⟩ := by
  refine bind_eq_ok.mpr ⟨_, projectionMetadata_of_canonical h.valid.canonical, ?_⟩
  refine bind_eq_ok.mpr ⟨⟨⟩, require_eq_ok.mpr ?_, ?_⟩
  · rw [h.facts]
    rfl
  · rw [h.facts]
    rfl

theorem recorded_of_publishes (h : projections.Sound) {receipt : PublicationReceipt}
    (hvalid : publication.Valid canonical)
    (hp : Publishes projections publication canonical receipt projections') :
    publication.Recorded projections' canonical receipt.revision := by
  cases hp with
  | @again key row hfound hload =>
    obtain ⟨hbeneficiary, hoperation, hrow⟩ := of_findOperation hfound
    rw [← Prod.mk.eta (p := key), hbeneficiary] at hrow
    rw [h.insertHead (Option.isSome_of_eq_some hrow)] at hload ⊢
    obtain ⟨publication₀, canonical₀, hvalid₀, hbeneficiary₀, rfl, hfacts₀⟩ := h.rows hrow
    have hrecorded : publication₀.Recorded projections canonical₀ key.2 := by
      refine ⟨hvalid₀, ?_, ?_⟩
      · rw [hbeneficiary₀]
        exact hrow
      · rw [hbeneficiary₀]
        exact hfacts₀
    have hstored := hrecorded.loadOperation
    rw [hbeneficiary₀, hload] at hstored
    obtain ⟨-, hexpected, hevidence, rfl⟩ := StoredOperation.mk.inj (Except.ok.inj hstored)
    have hsame : publication₀.row canonical = publication.row canonical := by
      unfold Publication.row
      rw [← hexpected, ← hevidence, show publication₀.operationId = _ from hoperation]
    rw [hsame] at hrow
    exact ⟨hvalid, hrow, hfacts₀⟩
  | @new revision hfound hcurrent hrevision hfree =>
    have hnext : revision = projections.latest publication.beneficiaryId + 1 :=
      (checkedAdd_eq_some.mp hrevision).1
    refine ⟨hvalid, AList.lookup_insert _, selectFacts_add ?_ ?_⟩
    · rintro fact hfact ⟨hbeneficiary, rfl⟩
      have hn := h.facts fact hfact
      rw [hbeneficiary, hfree] at hn
      cases hn
    · exact ascends_paidIntervals hvalid.canonical

/-- The calls publish the same. -/
def Publication.Same (publication publication' : Publication) : Prop :=
  publication'.expectedRevision = publication.expectedRevision ∧
  publication'.evidenceReference = publication.evidenceReference ∧
  canonicalProjection publication.beneficiaryId publication'.projection =
    canonicalProjection publication.beneficiaryId publication.projection

variable {publication' : Publication} {canonical' : CanonicalProjection}

/-- An operation that is published is answered from its revision. -/
theorem Publication.Recorded.publish (h : projections.Sound)
    (hrecorded : publication.Recorded projections canonical revision)
    (hvalid : publication'.Valid canonical')
    (hbeneficiary : publication'.beneficiaryId = publication.beneficiaryId)
    (hoperation : publication'.operationId = publication.operationId) :
    (publication.Same publication' →
      publication'.publish projections = .ok (⟨revision, .alreadyApplied⟩, projections)) ∧
    (¬ publication.Same publication' →
      publication'.publish projections = .error .operationConflict) := by
  have hinserted : projections.insertHead publication'.beneficiaryId = projections := by
    rw [hbeneficiary]
    exact h.insertHead (Option.isSome_of_eq_some hrecorded.row)
  have hfound : projections.findOperation publication'.beneficiaryId publication'.operationId =
      some ((publication.beneficiaryId, revision), publication.row canonical) := by
    rw [hbeneficiary, hoperation]
    exact (findOperation_eq_some h).mpr ⟨hrecorded.row, rfl⟩
  have hhead : (projections.heads.lookup publication'.beneficiaryId).join.isSome := by
    obtain ⟨hpos, hle⟩ := (h.numbered _ _).mp (Option.isSome_of_eq_some hrecorded.row)
    rw [hbeneficiary, h.heads, if_neg (by omega)]
    rfl
  have hload := hrecorded.loadOperation
  rw [← hbeneficiary] at hload
  have hsame : publication.Same publication' ↔
      publication.expectedRevision = publication'.expectedRevision ∧
      publication.evidenceReference = publication'.evidenceReference ∧ canonical = canonical' := by
    have hcanonical := hvalid.canonical
    rw [hbeneficiary] at hcanonical
    rw [Publication.Same, hcanonical, hrecorded.valid.canonical, Except.ok.injEq,
      eq_comm (b := publication.expectedRevision), eq_comm (b := publication.evidenceReference),
      eq_comm (b := canonical)]
  have hpublish : publication'.publish projections =
      (Checked.require (publication.expectedRevision = publication'.expectedRevision ∧
        publication.evidenceReference = publication'.evidenceReference ∧ canonical = canonical')
        StoreError.operationConflict >>= fun _ =>
          .ok (⟨revision, .alreadyApplied⟩, projections)) := by
    refine (bind_of_ok (a := ()) (require_eq_ok.mpr hvalid.beneficiary)).trans ?_
    refine (bind_of_ok (a := ()) (require_eq_ok.mpr hvalid.operation)).trans ?_
    refine (bind_of_ok (a := ()) (require_eq_ok.mpr hvalid.evidence)).trans ?_
    refine (bind_of_ok (a := ()) (require_eq_ok.mpr hvalid.expected)).trans ?_
    refine (bind_of_ok (mapError_eq_ok.mpr hvalid.canonical)).trans ?_
    simp only [hinserted, hfound]
    refine (bind_of_ok (a := ()) (require_eq_ok.mpr (.inl hhead))).trans ?_
    exact bind_of_ok hload
  rw [hpublish, hsame]
  constructor
  · intro hequal
    exact bind_of_ok (a := ()) (require_eq_ok.mpr hequal)
  · intro hdifferent
    exact bind_eq_error.mpr (.inl (require_eq_error.mpr ⟨hdifferent, rfl⟩))

/-- A new operation that expects another revision than the current one conflicts. -/
theorem publish_stale (hvalid : publication.Valid canonical) (h : projections.Sound)
    (hnew : ∀ n row, projections.revisions.lookup (publication.beneficiaryId, n) = some row →
      row.operationId ≠ publication.operationId)
    (hstale : (projections.heads.lookup publication.beneficiaryId).join ≠
      publication.expectedRevision) :
    publication.publish projections = .error (.revisionConflict publication.expectedRevision
      (projections.heads.lookup publication.beneficiaryId).join) := by
  have hfound : (projections.insertHead publication.beneficiaryId).findOperation
      publication.beneficiaryId publication.operationId = none := findOperation_eq_none.mpr hnew
  have hhead : (projections.heads.lookup publication.beneficiaryId).join.isSome ∨
      (projections.heads.lookup publication.beneficiaryId).isNone := by
    rw [h.heads]
    split
    · exact .inr rfl
    · exact .inl rfl
  refine (bind_of_ok (a := ()) (require_eq_ok.mpr hvalid.beneficiary)).trans ?_
  refine (bind_of_ok (a := ()) (require_eq_ok.mpr hvalid.operation)).trans ?_
  refine (bind_of_ok (a := ()) (require_eq_ok.mpr hvalid.evidence)).trans ?_
  refine (bind_of_ok (a := ()) (require_eq_ok.mpr hvalid.expected)).trans ?_
  refine (bind_of_ok (mapError_eq_ok.mpr hvalid.canonical)).trans ?_
  simp only [hfound, join_insertHead]
  refine (bind_of_ok (a := ()) (require_eq_ok.mpr hhead)).trans ?_
  exact bind_eq_error.mpr (.inl (require_eq_error.mpr ⟨hstale, rfl⟩))

/-! ### Loading -/

/-- What is loaded of a revision. -/
def loadedForm (beneficiaryId : String) (revision : Int) :
    CoverageProjection → Except StoreError LoadedCoverage
  | .complete paidIntervals => do
    let normalised ← (normaliseConfirmedIntervals ⟨beneficiaryId, paidIntervals⟩).mapError
      .invalidCoverage
    return ⟨revision, ⟨beneficiaryId, normalised⟩⟩
  | .unavailable reason => .error (.projectionUnavailable reason)

/-- The last revision that calls published for a beneficiary. -/
def lastPublished (beneficiaryId : String) (projections : Projections) :
    List Publication → Option (Int × CoverageProjection)
  | [] => none
  | publication :: publications =>
    (lastPublished beneficiaryId (publication.perform projections) publications).or
      (if publication.beneficiaryId = beneficiaryId then
        (publication.applied projections).map fun revision => (revision, publication.projection)
      else none)

theorem normalise_canonical {projection : CoverageProjection} (hbeneficiary : ¬ isBlank beneficiaryId)
    (h : canonicalProjection beneficiaryId projection = .ok canonical) :
    normaliseConfirmedIntervals ⟨beneficiaryId, canonical.paidIntervals⟩ =
      .ok canonical.paidIntervals := by
  cases projection with
  | complete paidIntervals =>
    obtain ⟨unique, hunique, h⟩ := bind_eq_ok.mp h
    obtain rfl := pure_eq_ok.mp h
    exact normaliseConfirmedIntervals_idem hunique
  | unavailable reason =>
    obtain rfl := pure_eq_ok.mp h
    exact normaliseConfirmedIntervals_eq_ok.mpr
      ⟨hbeneficiary, .nil, List.Pairwise.nil, fun f => Iff.rfl⟩

theorem load_of_latest (h : projections.Sound)
    (hrecorded : publication.Recorded projections canonical revision)
    (hlatest : projections.latest publication.beneficiaryId = revision) :
    load projections publication.beneficiaryId =
      loadedForm publication.beneficiaryId revision publication.projection := by
  have hhead := h.heads publication.beneficiaryId
  obtain ⟨hpos, -⟩ := (h.numbered _ _).mp (Option.isSome_of_eq_some hrecorded.row)
  rw [hlatest, if_neg (by omega)] at hhead
  have hmetadata := projectionMetadata_of_canonical hrecorded.valid.canonical
  have hcount : (publication.row canonical).factCount =
      (projections.selectFacts publication.beneficiaryId revision).length := by
    rw [hrecorded.facts]
    rfl
  have hnormal := normalise_canonical hrecorded.valid.beneficiary hrecorded.valid.canonical
  rw [← hrecorded.facts] at hnormal
  refine (bind_of_ok (a := ()) (require_eq_ok.mpr hrecorded.valid.beneficiary)).trans ?_
  simp only [hhead]
  refine (bind_of_ok (okOr_eq_ok.mpr hrecorded.row)).trans ?_
  refine (bind_of_ok hmetadata).trans ?_
  refine (bind_of_ok (a := ()) (require_eq_ok.mpr hrecorded.valid.expected)).trans ?_
  refine (bind_of_ok (a := ()) (require_eq_ok.mpr hrecorded.valid.evidence)).trans ?_
  refine (bind_of_ok (a := ()) (require_eq_ok.mpr hcount)).trans ?_
  refine (bind_of_ok (mapError_eq_ok.mpr hnormal)).trans ?_
  refine (bind_of_ok (a := ()) (require_eq_ok.mpr rfl)).trans ?_
  have hcanonical := hrecorded.valid.canonical
  cases hprojection : publication.projection with
  | complete paidIntervals =>
    rw [hprojection] at hcanonical
    obtain ⟨unique, hunique, hcanonical⟩ := bind_eq_ok.mp hcanonical
    obtain rfl := pure_eq_ok.mp hcanonical
    rw [hrecorded.facts, loadedForm, hunique]
    rfl
  | unavailable reason =>
    rw [hprojection] at hcanonical
    obtain rfl := pure_eq_ok.mp hcanonical
    rfl

theorem load_congr (hhead : projections'.heads.lookup beneficiaryId =
      projections.heads.lookup beneficiaryId)
    (hextends : projections.Extends projections') (h : projections.Sound) :
    load projections' beneficiaryId = load projections beneficiaryId := by
  have hcurrent := h.heads beneficiaryId
  unfold load
  by_cases hne : projections.latest beneficiaryId = 0
  · rw [if_pos hne] at hcurrent
    rw [hhead, hcurrent]
  · rw [if_neg hne] at hcurrent
    have hcount := h.counted beneficiaryId
    have hlatest := (h.numbered beneficiaryId (projections.latest beneficiaryId)).mpr
      ⟨by omega, le_rfl⟩
    obtain ⟨row, hrow⟩ := Option.isSome_iff_exists.mp hlatest
    obtain ⟨hrow', hfacts⟩ := hextends _ _ _ hrow
    rw [hhead, hcurrent]
    simp only [hrow, hrow', hfacts]

theorem load_perform (h : projections.Sound) :
    load (publication.perform projections) beneficiaryId =
      ((if publication.beneficiaryId = beneficiaryId then
        (publication.applied projections).map fun revision => (revision, publication.projection)
      else none).map fun published => loadedForm beneficiaryId published.1 published.2).getD
        (load projections beneficiaryId) := by
  unfold Publication.perform Publication.applied
  cases hcall : publication.publish projections with
  | error e =>
    simp
  | ok result =>
    obtain ⟨receipt, projections'⟩ := result
    obtain ⟨canonical, hvalid, hp⟩ := publishes_of_ok hcall
    obtain ⟨hsound, hextends⟩ := h.publishes hvalid hp
    have hrecorded := recorded_of_publishes h hvalid hp
    cases hp with
    | @again key row hfound hload =>
      obtain ⟨hbeneficiary, -, hrow⟩ := of_findOperation hfound
      rw [← Prod.mk.eta (p := key), hbeneficiary] at hrow
      rw [h.insertHead (Option.isSome_of_eq_some hrow)]
      simp
    | @new revision hfound hcurrent hrevision hfree =>
      by_cases hb : publication.beneficiaryId = beneficiaryId
      · subst hb
        rw [if_pos rfl]
        exact load_of_latest hsound hrecorded (latest_add.trans (if_pos rfl))
      · rw [if_neg hb]
        exact load_congr (lookup_add_heads.trans (if_neg (Ne.symm hb))) hextends h

theorem load_run (h : projections.Sound) (publications : List Publication) :
    load (projections.run publications) beneficiaryId =
      ((lastPublished beneficiaryId projections publications).map fun published =>
        loadedForm beneficiaryId published.1 published.2).getD (load projections beneficiaryId) := by
  induction publications generalizing projections with
  | nil => rfl
  | cons publication publications ih =>
    rw [lastPublished]
    refine (ih (h.perform publication).1).trans ?_
    cases lastPublished beneficiaryId (publication.perform projections) publications with
    | some published => rfl
    | none => exact load_perform h

/-- The revisions of a beneficiary are numbered from 1 to the head, a call adds one only if it
expects the head, operations are answered from their revision, and the last one is loaded. -/
theorem publications_linear (publications : List Publication) (beneficiaryId : String) :
    (∃ n, 0 ≤ n ∧
      (Projections.empty.run publications).heads.lookup beneficiaryId =
        (if n = 0 then none else some (some n)) ∧
      ∀ r, ((Projections.empty.run publications).revisions.lookup (beneficiaryId, r)).isSome ↔
        1 ≤ r ∧ r ≤ n) ∧
    (∀ publication : Publication, publication.beneficiaryId = beneficiaryId →
      (∀ receipt projections', publication.publish (Projections.empty.run publications) =
          .ok (receipt, projections') →
        receipt.outcome = .alreadyApplied ∧ projections' = Projections.empty.run publications ∨
        receipt.outcome = .applied ∧ publication.expectedRevision =
          ((Projections.empty.run publications).heads.lookup beneficiaryId).join ∧
        projections'.heads.lookup beneficiaryId = some (some receipt.revision)) ∧
      ∀ canonical, publication.Valid canonical →
        (∀ n row, (Projections.empty.run publications).revisions.lookup (beneficiaryId, n) =
          some row → row.operationId ≠ publication.operationId) →
        ((Projections.empty.run publications).heads.lookup beneficiaryId).join ≠
          publication.expectedRevision →
        publication.publish (Projections.empty.run publications) =
            .error (.revisionConflict publication.expectedRevision
              ((Projections.empty.run publications).heads.lookup beneficiaryId).join) ∧
          publication.perform (Projections.empty.run publications) =
            Projections.empty.run publications) ∧
    (∀ (publication : Publication) (receipt : PublicationReceipt) (projections : Projections),
      publication.beneficiaryId = beneficiaryId →
      publication.publish (Projections.empty.run publications) = .ok (receipt, projections) →
      ∀ (later : List Publication) (publication' : Publication) (canonical' : CanonicalProjection),
        publication'.Valid canonical' → publication'.beneficiaryId = beneficiaryId →
        publication'.operationId = publication.operationId →
        (publication.Same publication' → publication'.publish (projections.run later) =
          .ok (⟨receipt.revision, .alreadyApplied⟩, projections.run later)) ∧
        (¬ publication.Same publication' → publication'.publish (projections.run later) =
          .error .operationConflict)) ∧
    (¬ isBlank beneficiaryId → load (Projections.empty.run publications) beneficiaryId =
      ((lastPublished beneficiaryId Projections.empty publications).map fun published =>
        loadedForm beneficiaryId published.1 published.2).getD (.error .projectionMissing)) := by
  obtain ⟨hsound, -⟩ := Projections.Sound.empty.run publications
  refine ⟨⟨_, hsound.counted beneficiaryId, hsound.heads beneficiaryId,
    hsound.numbered beneficiaryId⟩, ?_, ?_, ?_⟩
  · rintro publication rfl
    refine ⟨fun receipt projections' hcall => ?_, fun canonical hvalid hnew hstale => ?_⟩
    · obtain ⟨canonical, hvalid, hp⟩ := publishes_of_ok hcall
      cases hp with
      | @again key row hfound hload =>
        obtain ⟨hbeneficiary, -, hrow⟩ := of_findOperation hfound
        rw [← Prod.mk.eta (p := key), hbeneficiary] at hrow
        exact .inl ⟨rfl, hsound.insertHead (Option.isSome_of_eq_some hrow)⟩
      | @new revision hfound hcurrent hrevision hfree =>
        exact .inr ⟨rfl, hcurrent.symm, lookup_add_heads.trans (if_pos rfl)⟩
    · have hcall := publish_stale hvalid hsound hnew hstale
      refine ⟨hcall, ?_⟩
      rw [Publication.perform, hcall]
  · rintro publication receipt projections rfl hcall later publication' canonical' hvalid' hb hop
    obtain ⟨canonical, hvalid, hp⟩ := publishes_of_ok hcall
    have hrecorded := recorded_of_publishes hsound hvalid hp
    obtain ⟨hlater, hextends⟩ := (hsound.publishes hvalid hp).1.run later
    exact (hrecorded.extends hextends).publish hlater hvalid' hb hop
  · intro hbeneficiary
    refine (load_run Projections.Sound.empty publications).trans (congrArg _ ?_)
    exact bind_of_ok (a := ()) (require_eq_ok.mpr hbeneficiary)

/-- The first call for a beneficiary. -/
def firstPublication : Publication :=
  ⟨"person", none, "first", "evidence", .complete [⟨"early", "source", 0, 1000000, none⟩]⟩

/-- A call after it. -/
def secondPublication : Publication :=
  ⟨"person", some 1, "second", "evidence", .unavailable .needsReconciliation⟩

theorem isSome_firstPublication :
    (firstPublication.publish Projections.empty).toOption.isSome := by
  decide +kernel

theorem publications_linear_twice : ∃ receipt projections,
    firstPublication.publish Projections.empty = .ok (receipt, projections) ∧
    firstPublication.publish (projections.run [secondPublication]) =
      .ok (⟨receipt.revision, .alreadyApplied⟩, projections.run [secondPublication]) := by
  have happlied := isSome_firstPublication
  cases hcall : firstPublication.publish Projections.empty with
  | error e =>
    rw [hcall] at happlied
    cases happlied
  | ok result =>
    obtain ⟨canonical, hvalid, -⟩ := publishes_of_ok hcall
    exact ⟨result.1, result.2, rfl, ((publications_linear [] "person").2.2.1 firstPublication
      result.1 result.2 rfl hcall [secondPublication] firstPublication canonical hvalid rfl rfl).1
        ⟨rfl, rfl, rfl⟩⟩

/-- An operation that is repeated with blank evidence is refused for that. -/
theorem emptyEvidence_of_repeated : ∃ receipt projections,
    firstPublication.publish Projections.empty = .ok (receipt, projections) ∧
    { firstPublication with evidenceReference := "" }.publish projections ≠
      .error .operationConflict := by
  have happlied := isSome_firstPublication
  cases hcall : firstPublication.publish Projections.empty with
  | error e =>
    rw [hcall] at happlied
    cases happlied
  | ok result =>
    have hrefused : { firstPublication with evidenceReference := "" }.publish result.2 =
        .error .emptyEvidenceReference := by
      refine (bind_of_ok (a := ()) (require_eq_ok.mpr (by decide +kernel))).trans ?_
      exact (bind_of_ok (a := ()) (require_eq_ok.mpr (by decide +kernel))).trans rfl
    refine ⟨result.1, result.2, rfl, ?_⟩
    rw [hrefused]
    nofun

end Coverage

end Sotto
