import Mathlib.Data.List.Sort
import Sotto.Coverage.Reconciliation
import Sotto.Properties.Collections

/-!
# Stored attempts read back

The bindings and the observations of an attempt are stored as JSON and checked when they are read.
Bindings read back to themselves. The canonical form of observations reads back to observations
with the same canonical form, so that it passes its own check, and it determines the observations
up to their order and that of their facts.
-/

namespace Sotto

namespace Coverage

open Checked SourceObservation

variable {beneficiaryId : String}

@[simp]
theorem asI64_num {n : Int} (h : Json.IsI64 n) : (Json.num n).asI64 = some n :=
  if_pos h

/-! ### Bindings -/

theorem parseStoredBinding_toJson {binding : SourceBinding}
    (hvalid : validateBinding binding = .ok ()) :
    parseStoredBinding binding.beneficiaryId binding.toJson = .ok binding := by
  simp only [parseStoredBinding, SourceBinding.toJson, bind_eq_ok, okOr_eq_ok, require_eq_ok,
    pure_eq_ok, mapError_eq_ok, storedString, Json.asObject, Json.asStr, List.lookup_cons,
    String.reduceBEq, List.forall_mem_cons, List.not_mem_nil, List.length_cons, List.length_nil,
    Option.some.injEq, Option.bind_some, Option.isSome_some, exists_eq_left', exists_const,
    false_implies, implies_true, and_self, hvalid]

theorem parseStoredBindings_bindingsJson {bindings : List SourceBinding} (hne : bindings ≠ [])
    (hvalid : ∀ binding ∈ bindings, validateBinding binding = .ok () ∧
      binding.beneficiaryId = beneficiaryId) (hsorted : Ascends SourceBinding.sourceId bindings) :
    parseStoredBindings (bindingsJson bindings) beneficiaryId = .ok bindings := by
  have hparsed : (bindings.map SourceBinding.toJson).mapM (parseStoredBinding beneficiaryId) =
      .ok bindings := by
    refine mapM_map_eq_ok fun binding hbinding => ?_
    obtain ⟨hvalid, hbeneficiary⟩ := hvalid binding hbinding
    rw [← hbeneficiary]
    exact parseStoredBinding_toJson hvalid
  simp only [parseStoredBindings, bindingsJson, bind_eq_ok, okOr_eq_ok, require_eq_ok,
    Json.asArray, Option.some.injEq, exists_eq_left', pure_eq_ok, exists_const, hparsed,
    Except.ok.injEq, ne_eq, List.map_eq_nil_iff]
  exact ⟨hne, hsorted.isChain, trivial⟩

/-! ### Observations -/

theorem parse_asStr (reason : UnavailableReason) :
    UnavailableReason.parse reason.asStr = some reason := by
  cases reason <;> rfl

theorem storedRenewalId_toJson (failedRenewalId : Option String) :
    storedRenewalId (some ((failedRenewalId.map Json.str).getD .null)) = .ok failedRenewalId := by
  cases failedRenewalId <;> rfl

theorem parseStoredInterval_toJson {interval : ConfirmedPaidInterval}
    (h : Json.IsI64 interval.startsAt ∧ Json.IsI64 interval.paidUntil) :
    parseStoredInterval interval.toJson = .ok interval := by
  simp only [parseStoredInterval, ConfirmedPaidInterval.toJson, bind_eq_ok, okOr_eq_ok,
    require_eq_ok, pure_eq_ok, storedString, storedI64, Json.asObject, Json.asStr,
    List.lookup_cons, String.reduceBEq, List.forall_mem_cons, List.not_mem_nil, List.length_cons,
    List.length_nil, Option.some.injEq, Option.bind_some, Option.isSome_some, exists_eq_left',
    exists_const, false_implies, implies_true, and_self, storedRenewalId_toJson,
    Except.ok.injEq, asI64_num h.1, asI64_num h.2]

theorem parseStoredObservation_toJson {o : SourceObservation} (h : o.Representable) :
    parseStoredObservation o.toJson = .ok o := by
  cases o with
  | complete sourceId evidenceReference paidIntervals =>
    have hparsed : (paidIntervals.map ConfirmedPaidInterval.toJson).mapM parseStoredInterval =
        .ok paidIntervals :=
      mapM_map_eq_ok fun interval hinterval => parseStoredInterval_toJson (h interval hinterval)
    simp only [parseStoredObservation, SourceObservation.toJson, completeJson, bind_eq_ok,
      okOr_eq_ok, require_eq_ok, pure_eq_ok, storedString, Json.asObject, Json.asStr,
      Json.asArray, List.lookup_cons, String.reduceBEq, List.length_cons, List.length_nil,
      Option.some.injEq, Option.bind_some, Option.isSome_some, exists_eq_left', exists_const,
      if_true, and_self, true_and, hparsed, Except.ok.injEq]
  | unavailable sourceId evidenceReference reason =>
    simp only [parseStoredObservation, SourceObservation.toJson, unavailableJson, bind_eq_ok,
      okOr_eq_ok, require_eq_ok, pure_eq_ok, storedString, Json.asObject, Json.asStr,
      List.lookup_cons, String.reduceBEq, String.reduceEq, List.length_cons, List.length_nil,
      Option.some.injEq, Option.bind_some, Option.isSome_some, exists_eq_left', exists_const,
      if_true, if_false, and_self, true_and, parse_asStr]

/-! ### Canonical forms -/

theorem normaliseConfirmedIntervals_idem {paidIntervals unique : List ConfirmedPaidInterval}
    (h : normaliseConfirmedIntervals ⟨beneficiaryId, paidIntervals⟩ = .ok unique) :
    normaliseConfirmedIntervals ⟨beneficiaryId, unique⟩ = .ok unique := by
  obtain ⟨hbeneficiary, hfacts, hsorted, hmem⟩ := normaliseConfirmedIntervals_eq_ok.mp h
  refine normaliseConfirmedIntervals_eq_ok.mpr ⟨hbeneficiary, ?_, hsorted, fun f => Iff.rfl⟩
  exact hfacts.mono fun f hf => (hmem f).mp hf

theorem SourceObservation.Accepted.normalForm {o : SourceObservation}
    (h : o.Accepted beneficiaryId) : (o.normalForm beneficiaryId).Accepted beneficiaryId ∧
      (o.normalForm beneficiaryId).normalForm beneficiaryId = o.normalForm beneficiaryId := by
  cases o with
  | complete sourceId evidenceReference paidIntervals =>
    obtain ⟨unique, hunique⟩ := h
    have hidem := normaliseConfirmedIntervals_idem hunique
    simp only [SourceObservation.normalForm, hunique, Except.toOption, Option.getD_some, hidem]
    exact ⟨⟨unique, hidem⟩, trivial⟩
  | unavailable => exact ⟨trivial, rfl⟩

/-- The facts of a normal form are among those of the observation. -/
theorem SourceObservation.Representable.normalForm {o : SourceObservation}
    (h : o.Representable) (haccepted : o.Accepted beneficiaryId) :
    (o.normalForm beneficiaryId).Representable := by
  cases o with
  | complete sourceId evidenceReference paidIntervals =>
    obtain ⟨unique, hunique⟩ := haccepted
    obtain ⟨-, -, -, hmem⟩ := normaliseConfirmedIntervals_eq_ok.mp hunique
    simp only [SourceObservation.normalForm, hunique, Except.toOption, Option.getD_some]
    exact fun interval hinterval => h interval ((hmem interval).mp hinterval)
  | unavailable => trivial

/-- The normal forms in the order in which they are stored. -/
def canonicalObservations (beneficiaryId : String) (l : List SourceObservation) :
    List SourceObservation :=
  sortBy sourceId (l.map (normalForm beneficiaryId))

theorem sortBy_map_toJson (ns : List SourceObservation) :
    sortBy jsonSourceId (ns.map SourceObservation.toJson) =
      (sortBy sourceId ns).map SourceObservation.toJson := by
  refine (List.map_insertionSort _ _ _ _ fun n _ n' _ => ?_).symm
  rw [jsonSourceId_toJson, jsonSourceId_toJson]

/-- The canonical form of observations is that of the observations that it holds. -/
theorem canonicalCollection_canonicalObservations {bindings : List SourceBinding}
    {l : List SourceObservation} {evidence : String} {result : Json × CoverageProjection}
    (h : canonicalCollection beneficiaryId bindings l evidence = .ok result) :
    canonicalCollection beneficiaryId bindings (canonicalObservations beneficiaryId l) evidence =
      .ok result := by
  obtain ⟨hlength, ⟨haccepted, hfit⟩, rfl⟩ := canonicalCollection_eq_ok.mp h
  have hperm : (l.map (normalForm beneficiaryId)).Perm (canonicalObservations beneficiaryId l) :=
    (perm_sortBy sourceId _).symm
  have hnormal : ∀ n ∈ canonicalObservations beneficiaryId l,
      n.Accepted beneficiaryId ∧ n.normalForm beneficiaryId = n := by
    intro n hn
    obtain ⟨o, ho, rfl⟩ := List.mem_map.mp (hperm.mem_iff.mpr hn)
    exact (haccepted o ho).normalForm
  have hsame : (canonicalObservations beneficiaryId l).map (normalForm beneficiaryId) =
      canonicalObservations beneficiaryId l :=
    (List.map_congr_left fun n hn => (hnormal n hn).2).trans (List.map_id _)
  have hcount : (canonicalObservations beneficiaryId l).length = l.length := by
    rw [← hperm.length_eq, List.length_map]
  refine canonicalCollection_eq_ok.mpr ⟨?_, ⟨fun n hn => (hnormal n hn).1, ?_⟩, ?_⟩
  · rwa [hcount]
  · rw [hsame]
    exact hfit.perm hperm
  · rw [hsame]
    exact hfit.collected_eq hperm evidence

/-- The stored form of a collection is its canonical observations. -/
theorem canonicalCollection_json {bindings : List SourceBinding} {l : List SourceObservation}
    {evidence : String} {json : Json} {projection : CoverageProjection}
    (h : canonicalCollection beneficiaryId bindings l evidence = .ok (json, projection)) :
    json = .obj [("aggregate_evidence_reference", .str evidence), ("sources",
      .arr ((canonicalObservations beneficiaryId l).map SourceObservation.toJson))] := by
  obtain ⟨-, -, hresult⟩ := canonicalCollection_eq_ok.mp h
  rw [collected, sortBy_map_toJson] at hresult
  exact congrArg Prod.fst hresult

/-- A stored result passes the check that it is read with. -/
theorem validateStoredResult_eq_ok {ticket : CollectionTicket} {l : Observations}
    {evidence : String} {json : Json} {projection : CoverageProjection}
    (hevidence : ¬ isBlank evidence)
    (h : canonicalCollection ticket.beneficiaryId ticket.sourceBindings l.1 evidence =
      .ok (json, projection)) : validateStoredResult ticket evidence json = .ok json := by
  have hcanonical := canonicalCollection_canonicalObservations h
  obtain ⟨-, ⟨haccepted, -⟩, -⟩ := canonicalCollection_eq_ok.mp h
  have hparsed : ((canonicalObservations ticket.beneficiaryId l.1).map
      SourceObservation.toJson).mapM parseStoredObservation =
        .ok (canonicalObservations ticket.beneficiaryId l.1) := by
    refine mapM_map_eq_ok fun n hn => parseStoredObservation_toJson ?_
    obtain ⟨o, ho, rfl⟩ := List.mem_map.mp (mem_sortBy.mp hn)
    exact (l.2 o ho).normalForm (haccepted o ho)
  have hjson := canonicalCollection_json h
  rw [hjson] at hcanonical ⊢
  simp only [validateStoredResult, bind_eq_ok, okOr_eq_ok, require_eq_ok, pure_eq_ok,
    mapError_eq_ok, storedString, Json.asObject, Json.asStr, Json.asArray, List.lookup_cons,
    String.reduceBEq, List.length_cons, List.length_nil, Option.some.injEq, Option.bind_some,
    Option.isSome_some, exists_eq_left', exists_const, and_self, hparsed, Except.ok.injEq]
  exact ⟨hevidence, trivial, ⟨trivial, hevidence⟩, _, hcanonical, rfl, rfl⟩

/-! ### The same content -/

theorem ConfirmedPaidInterval.toJson_injective :
    Function.Injective ConfirmedPaidInterval.toJson := by
  intro f g h
  obtain ⟨c, s, a, b, r⟩ := f
  obtain ⟨c', s', a', b', r'⟩ := g
  simp only [toJson, Json.obj.injEq, List.cons.injEq, Prod.mk.injEq, Json.str.injEq,
    Json.num.injEq, true_and, and_true] at h
  obtain ⟨rfl, hr, rfl, rfl, rfl⟩ := h
  have hrenewal : storedRenewalId (some ((r.map Json.str).getD .null)) =
      storedRenewalId (some ((r'.map Json.str).getD .null)) := congrArg _ (congrArg some hr)
  rw [storedRenewalId_toJson, storedRenewalId_toJson] at hrenewal
  rw [Except.ok.inj hrenewal]

theorem SourceObservation.toJson_injective : Function.Injective SourceObservation.toJson := by
  intro o o' h
  cases o with
  | complete sourceId evidenceReference paidIntervals =>
    cases o' with
    | complete =>
      simp only [SourceObservation.toJson, completeJson, Json.obj.injEq, List.cons.injEq,
        Prod.mk.injEq, Json.str.injEq, Json.arr.injEq, true_and, and_true] at h
      obtain ⟨rfl, hfacts, rfl⟩ := h
      rw [List.map_injective_iff.mpr ConfirmedPaidInterval.toJson_injective hfacts]
    | unavailable =>
      simp [SourceObservation.toJson, completeJson, unavailableJson] at h
  | unavailable sourceId evidenceReference reason =>
    cases o' with
    | complete =>
      simp [SourceObservation.toJson, completeJson, unavailableJson] at h
    | unavailable _ _ reason' =>
      simp only [SourceObservation.toJson, unavailableJson, Json.obj.injEq, List.cons.injEq,
        Prod.mk.injEq, Json.str.injEq, true_and, and_true] at h
      obtain ⟨rfl, hreason, rfl⟩ := h
      have hparse := congrArg UnavailableReason.parse hreason
      rw [parse_asStr, parse_asStr] at hparse
      rw [Option.some.inj hparse]

/-- Observations with one normal form differ in the order of their facts. -/
theorem sameObservation_of_normalForm {o o' : SourceObservation}
    (ho : o.Accepted beneficiaryId) (ho' : o'.Accepted beneficiaryId)
    (h : o.normalForm beneficiaryId = o'.normalForm beneficiaryId) : SameObservation o o' := by
  cases o with
  | complete sourceId evidenceReference paidIntervals =>
    obtain ⟨unique, hunique⟩ := ho
    cases o' with
    | complete sourceId' evidenceReference' paidIntervals' =>
      obtain ⟨unique', hunique'⟩ := ho'
      simp only [SourceObservation.normalForm, hunique, hunique', Except.toOption,
        Option.getD_some, complete.injEq] at h
      obtain ⟨rfl, rfl, rfl⟩ := h
      obtain ⟨-, -, -, hmem⟩ := normaliseConfirmedIntervals_eq_ok.mp hunique
      obtain ⟨-, -, -, hmem'⟩ := normaliseConfirmedIntervals_eq_ok.mp hunique'
      exact .complete fun f => (hmem f).symm.trans (hmem' f)
    | unavailable => cases h
  | unavailable sourceId evidenceReference reason =>
    cases o' with
    | complete => cases h
    | unavailable =>
      cases h
      exact .unavailable

theorem exists_perm_of_perm_map {α β : Type} {f : α → β} {l l' : List α}
    (h : (l.map f).Perm (l'.map f)) :
    ∃ m, l.Perm m ∧ List.Forall₂ (fun a b => f a = f b) m l' := by
  have hcomp : Relation.Comp (List.Forall₂ fun a b => f a = b) List.Perm l (l'.map f) :=
    ⟨l.map f, List.forall₂_map_right_iff.mpr (List.forall₂_same.mpr fun _ _ => rfl), h⟩
  rw [List.forall₂_comp_perm_eq_perm_comp_forall₂] at hcomp
  obtain ⟨m, hm, hforms⟩ := hcomp
  exact ⟨m, hm, List.forall₂_map_right_iff.mp hforms⟩

/-- Two collections have one canonical form exactly if their observations differ in order. -/
theorem canonicalCollection_eq_iff {bindings : List SourceBinding}
    {l l' : List SourceObservation} {evidence : String} {json : Json}
    {projection : CoverageProjection}
    (h : canonicalCollection beneficiaryId bindings l evidence = .ok (json, projection)) :
    (∃ projection', canonicalCollection beneficiaryId bindings l' evidence =
      .ok (json, projection')) ↔ Rearranged l l' := by
  constructor
  · rintro ⟨projection', h'⟩
    have hjson := (canonicalCollection_json h).symm.trans (canonicalCollection_json h')
    obtain ⟨-, ⟨haccepted, -⟩, -⟩ := canonicalCollection_eq_ok.mp h
    obtain ⟨-, ⟨haccepted', -⟩, -⟩ := canonicalCollection_eq_ok.mp h'
    simp only [Json.obj.injEq, List.cons.injEq, Prod.mk.injEq, Json.arr.injEq, true_and,
      and_true] at hjson
    have hsorted : canonicalObservations beneficiaryId l = canonicalObservations beneficiaryId l' :=
      List.map_injective_iff.mpr SourceObservation.toJson_injective hjson
    have hperm : (l.map (normalForm beneficiaryId)).Perm (l'.map (normalForm beneficiaryId)) := by
      have hl' : (canonicalObservations beneficiaryId l').Perm _ := perm_sortBy sourceId _
      rw [← hsorted] at hl'
      exact (perm_sortBy sourceId _).symm.trans hl'
    obtain ⟨m, hm, hforms⟩ := exists_perm_of_perm_map hperm
    refine ⟨m, hm, ?_⟩
    have hleft := (List.forall₂_and_left _ _).mpr
      ⟨fun o ho => haccepted o (hm.mem_iff.mpr ho), hforms⟩
    have hright := (List.forall₂_and_left _ _).mpr ⟨haccepted', hleft.flip⟩
    exact hright.flip.imp fun o o' h => sameObservation_of_normalForm h.2.1 h.1 h.2.2
  · rintro ⟨m, hperm, hsame⟩
    exact ⟨projection, canonicalCollection_of_rearranged hperm hsame h⟩

end Coverage

end Sotto
