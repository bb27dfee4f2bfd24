import Mathlib.Data.List.Perm.Basic
import Sotto.Coverage.Store
import Sotto.Properties.Coverage

/-!
# A collection does not depend on the order of its observations

A collection succeeds on observations whose normal forms fit the expected sources and each other,
which does not depend on their order. What it gives is sorted by keys that no two of them share,
and the facts of a complete projection are published as they are.
-/

namespace Sotto

namespace Coverage

open Checked

variable {beneficiaryId : String} {expected : List String}

namespace SourceObservation

/-- The normalisation accepts the facts of the observation. -/
def Accepted (beneficiaryId : String) : SourceObservation → Prop
  | complete _ _ paidIntervals =>
    ∃ unique, normaliseConfirmedIntervals ⟨beneficiaryId, paidIntervals⟩ = .ok unique
  | unavailable _ _ _ => True

/-- The observation with its facts normalised. -/
def normalForm (beneficiaryId : String) : SourceObservation → SourceObservation
  | complete sourceId evidenceReference paidIntervals => complete sourceId evidenceReference
    ((normaliseConfirmedIntervals ⟨beneficiaryId, paidIntervals⟩).toOption.getD [])
  | unavailable sourceId evidenceReference reason => unavailable sourceId evidenceReference reason

def facts : SourceObservation → List ConfirmedPaidInterval
  | complete _ _ paidIntervals => paidIntervals
  | unavailable _ _ _ => []

def toJson : SourceObservation → Json
  | complete sourceId evidenceReference paidIntervals =>
    completeJson sourceId evidenceReference paidIntervals
  | unavailable sourceId evidenceReference reason =>
    unavailableJson sourceId evidenceReference reason

/-- The reason for an unavailable projection once there is the observation. -/
def combine (unavailableReason : Option UnavailableReason) :
    SourceObservation → Option UnavailableReason
  | complete _ _ _ => unavailableReason
  | unavailable _ _ reason => combineReason unavailableReason reason

@[simp]
theorem sourceId_normalForm (o : SourceObservation) :
    (o.normalForm beneficiaryId).sourceId = o.sourceId := by
  cases o <;> rfl

@[simp]
theorem evidenceReference_normalForm (o : SourceObservation) :
    (o.normalForm beneficiaryId).evidenceReference = o.evidenceReference := by
  cases o <;> rfl

theorem jsonSourceId_toJson (o : SourceObservation) : jsonSourceId o.toJson = o.sourceId := by
  cases o <;> rfl

instance : RightCommutative combine where
  right_comm reason o o' := by
    cases o with
    | complete => rfl
    | unavailable _ _ r =>
      cases o' with
      | complete => rfl
      | unavailable _ _ r' => cases reason <;> cases r <;> cases r' <;> rfl

end SourceObservation

open SourceObservation

/-- Two facts share no identity. -/
def Apart (f g : ConfirmedPaidInterval) : Prop :=
  f.coverageId ≠ g.coverageId ∧ ∀ r ∈ f.failedRenewalId, r ∉ g.failedRenewalId

theorem Apart.symm {f g : ConfirmedPaidInterval} (h : Apart f g) : Apart g f :=
  ⟨h.1.symm, fun r hg hf => h.2 r hf hg⟩

/-- What a collection checks of observations in normal form. -/
structure Fit (expected : List String) (ns : List SourceObservation) : Prop where
  evidence : ∀ n ∈ ns, ¬ isBlank n.evidenceReference
  expected : ∀ n ∈ ns, n.sourceId ∈ expected
  once : (ns.map sourceId).Nodup
  sources : ∀ n ∈ ns, ∀ f ∈ n.facts, f.sourceId = n.sourceId
  apart : (ns.flatMap facts).Pairwise Apart

/-- The maps of a collection record facts. -/
structure FactSources.Records (maps : FactSources) (facts : List ConfirmedPaidInterval) :
    Prop where
  coverage : ∀ id, (maps.factSources.lookup id).isNone ↔ ∀ f ∈ facts, f.coverageId ≠ id
  renewal : ∀ r, (maps.renewalSources.lookup r).isNone ↔ ∀ f ∈ facts, r ∉ f.failedRenewalId

theorem recordFactSource_eq_ok {source : String} {maps maps' : FactSources}
    {f : ConfirmedPaidInterval} : recordFactSource source maps f = .ok maps' ↔
      (f.sourceId = source ∧ (maps.factSources.lookup f.coverageId).isNone ∧
        ∀ r ∈ f.failedRenewalId, (maps.renewalSources.lookup r).isNone) ∧
      maps' = ⟨(f.coverageId, source) :: maps.factSources,
        (f.failedRenewalId.map fun r => (r, source)).toList ++ maps.renewalSources⟩ := by
  cases hrenewal : f.failedRenewalId with
  | none =>
    simp only [recordFactSource, hrenewal, bind_eq_ok, require_eq_ok, pure_eq_ok, exists_const]
    constructor
    · rintro ⟨hsource, hcoverage, rfl⟩
      exact ⟨⟨hsource, hcoverage, fun r hr => (by cases hr)⟩, rfl⟩
    · rintro ⟨⟨hsource, hcoverage, -⟩, rfl⟩
      exact ⟨hsource, hcoverage, rfl⟩
  | some r =>
    simp only [recordFactSource, hrenewal, bind_eq_ok, require_eq_ok, pure_eq_ok, exists_const,
      Option.mem_def, Option.some.injEq, forall_eq']
    constructor
    · rintro ⟨hsource, hcoverage, hr, rfl⟩
      exact ⟨⟨hsource, hcoverage, hr⟩, rfl⟩
    · rintro ⟨⟨hsource, hcoverage, hr⟩, rfl⟩
      exact ⟨hsource, hcoverage, hr, rfl⟩

theorem FactSources.Records.snoc {source : String} {maps : FactSources}
    {facts : List ConfirmedPaidInterval} {f : ConfirmedPaidInterval} (h : maps.Records facts) :
    FactSources.Records ⟨(f.coverageId, source) :: maps.factSources,
      (f.failedRenewalId.map fun r => (r, source)).toList ++ maps.renewalSources⟩
      (facts ++ [f]) := by
  constructor
  · intro id
    simp only [List.lookup_cons, List.mem_append, List.mem_singleton, or_imp, forall_and,
      forall_eq, ← h.coverage]
    by_cases hid : id = f.coverageId
    · subst hid
      simp
    · simp [beq_eq_false_iff_ne.mpr hid, Ne.symm hid]
  · intro r
    simp only [List.mem_append, List.mem_singleton, or_imp, forall_and, forall_eq, ← h.renewal]
    cases hrenewal : f.failedRenewalId with
    | none => simp
    | some r' =>
      by_cases hr : r = r'
      · subst hr
        simp
      · simp [beq_eq_false_iff_ne.mpr hr, List.lookup_cons, Ne.symm hr]

/-- The facts of one source are recorded if they are its own and apart from all others. -/
theorem recordFactSource_loop (source : String) (done : List ConfirmedPaidInterval) :
    Loop (recordFactSource source)
      (fun fs => (∀ f ∈ fs, f.sourceId = source) ∧ (done ++ fs).Pairwise Apart)
      fun maps fs => maps.Records (done ++ fs) where
  shorter fs f h := by
    refine ⟨fun g hg => h.1 g (List.mem_append_left _ hg), ?_⟩
    have happ := h.2
    rw [← List.append_assoc] at happ
    exact (List.pairwise_append.mp happ).1
  step maps fs f hmaps hfs := by
    simp only [recordFactSource_eq_ok, exists_and_left, exists_eq, and_true, hmaps.coverage,
      hmaps.renewal, ← List.append_assoc]
    rw [List.pairwise_append]
    constructor
    · rintro ⟨hsource, hcoverage, hrenewal⟩
      refine ⟨fun g hg => ?_, hfs.2, List.pairwise_singleton _ _, fun g hg k hk => ?_⟩
      · rcases List.mem_append.mp hg with hg | hg
        · exact hfs.1 g hg
        · exact List.mem_singleton.mp hg ▸ hsource
      · obtain rfl := List.mem_singleton.mp hk
        exact ⟨hcoverage g hg, fun r hr hr' => hrenewal r hr' g hg hr⟩
    · rintro ⟨hsource, -, -, happ⟩
      refine ⟨hsource f (by simp), fun g hg => (happ g hg f (by simp)).1, fun r hr g hg hgr => ?_⟩
      exact (happ g hg f (by simp)).2 r hgr hr
  next maps fs f maps' hmaps hfs h := by
    obtain ⟨-, rfl⟩ := recordFactSource_eq_ok.mp h
    rw [← List.append_assoc]
    exact hmaps.snoc

/-- What a collection has recorded of observations. -/
structure Collecting.Records (beneficiaryId : String) (state : Collecting)
    (l : List SourceObservation) : Prop where
  seen : ∀ s, s ∈ state.seen ↔ s ∈ l.map sourceId
  length : state.seen.length = l.length
  observations : state.canonicalObservations =
    (l.map (normalForm beneficiaryId)).map SourceObservation.toJson
  completeFacts : state.completeFacts =
    (l.map (normalForm beneficiaryId)).flatMap SourceObservation.facts
  maps : state.facts.Records ((l.map (normalForm beneficiaryId)).flatMap SourceObservation.facts)
  reason : state.unavailableReason = (l.map (normalForm beneficiaryId)).foldl combine none

/-- What a collection checks of observations. -/
def Fits (beneficiaryId : String) (expected : List String) (l : List SourceObservation) : Prop :=
  (∀ o ∈ l, o.Accepted beneficiaryId) ∧ Fit expected (l.map (normalForm beneficiaryId))

theorem Fit.nil : Fit expected [] where
  evidence _ h := absurd h List.not_mem_nil
  expected _ h := absurd h List.not_mem_nil
  once := List.nodup_nil
  sources _ h := absurd h List.not_mem_nil
  apart := List.Pairwise.nil

theorem fit_append {ns : List SourceObservation} {n : SourceObservation} :
    Fit expected (ns ++ [n]) ↔ Fit expected ns ∧
      (¬ isBlank n.evidenceReference ∧ n.sourceId ∈ expected ∧ n.sourceId ∉ ns.map sourceId) ∧
      (∀ f ∈ n.facts, f.sourceId = n.sourceId) ∧
      (ns.flatMap facts ++ n.facts).Pairwise Apart := by
  constructor
  · rintro ⟨hevidence, hexpected, honce, hsources, happ⟩
    rw [List.flatMap_append, List.flatMap_singleton] at happ
    rw [List.map_append, List.nodup_append] at honce
    have hn : n ∈ ns ++ [n] := by simp
    have hold : ∀ m ∈ ns, m ∈ ns ++ [n] := fun m hm => List.mem_append_left _ hm
    refine ⟨⟨fun m hm => hevidence m (hold m hm), fun m hm => hexpected m (hold m hm), honce.1,
      fun m hm => hsources m (hold m hm), (List.pairwise_append.mp happ).1⟩,
      ⟨hevidence n hn, hexpected n hn, fun hmem => ?_⟩, hsources n hn, happ⟩
    exact honce.2.2 n.sourceId hmem n.sourceId (by simp) rfl
  · rintro ⟨hns, ⟨hevidence, hexpected, honce⟩, hsources, happ⟩
    refine ⟨?_, ?_, ?_, ?_, ?_⟩
    · simp only [List.mem_append, List.mem_singleton, or_imp, forall_and, forall_eq]
      exact ⟨hns.evidence, hevidence⟩
    · simp only [List.mem_append, List.mem_singleton, or_imp, forall_and, forall_eq]
      exact ⟨hns.expected, hexpected⟩
    · rw [List.map_append, List.nodup_append]
      refine ⟨hns.once, List.nodup_singleton _, fun a ha b hb hab => honce ?_⟩
      obtain rfl := List.mem_singleton.mp hb
      exact hab ▸ ha
    · simp only [List.mem_append, List.mem_singleton, or_imp, forall_and, forall_eq]
      exact ⟨hns.sources, hsources⟩
    · rwa [List.flatMap_append, List.flatMap_singleton]

theorem normalisedFacts_eq_ok {paidIntervals unique : List ConfirmedPaidInterval} :
    normalisedFacts beneficiaryId paidIntervals = .ok unique ↔
      normaliseConfirmedIntervals ⟨beneficiaryId, paidIntervals⟩ = .ok unique := by
  unfold normalisedFacts
  cases normaliseConfirmedIntervals ⟨beneficiaryId, paidIntervals⟩ <;> simp [Except.mapError]

/-- One step of a collection, in terms of the normal form of the observation. -/
theorem collectObservation_eq_ok {state state' : Collecting} {o : SourceObservation} :
    collectObservation beneficiaryId expected state o = .ok state' ↔
      (¬ isBlank o.evidenceReference ∧ o.sourceId ∈ expected ∧ o.sourceId ∉ state.seen) ∧
      o.Accepted beneficiaryId ∧
      ∃ maps, (o.normalForm beneficiaryId).facts.foldlM (recordFactSource o.sourceId)
          state.facts = .ok maps ∧
        state' = ⟨o.sourceId :: state.seen,
          state.canonicalObservations ++ [(o.normalForm beneficiaryId).toJson],
          state.completeFacts ++ (o.normalForm beneficiaryId).facts, maps,
          (o.normalForm beneficiaryId).combine state.unavailableReason⟩ := by
  have hcheck : ¬ (isBlank o.evidenceReference ∨ o.sourceId ∉ expected ∨ o.sourceId ∈ state.seen) ↔
      ¬ isBlank o.evidenceReference ∧ o.sourceId ∈ expected ∧ o.sourceId ∉ state.seen := by
    simp only [not_or, not_not]
  cases o with
  | complete source evidence paidIntervals =>
    simp only [collectObservation, bind_eq_ok, require_eq_ok, pure_eq_ok, exists_const, hcheck,
      normalisedFacts_eq_ok, Accepted, normalForm]
    refine and_congr_right fun _ => ⟨?_, ?_⟩
    · rintro ⟨unique, hunique, maps, hmaps, rfl⟩
      rw [hunique]
      exact ⟨⟨unique, rfl⟩, maps, hmaps, rfl⟩
    · rintro ⟨⟨unique, hunique⟩, maps, hmaps, rfl⟩
      rw [hunique] at hmaps ⊢
      exact ⟨unique, rfl, maps, hmaps, rfl⟩
  | unavailable source evidence reason =>
    simp only [collectObservation, bind_eq_ok, require_eq_ok, pure_eq_ok, exists_const, hcheck,
      Accepted, normalForm]
    refine and_congr_right fun _ => ⟨?_, ?_⟩
    · rintro rfl
      exact ⟨trivial, state.facts, rfl, by simp [facts, toJson, combine, sourceId]⟩
    · rintro ⟨-, maps, hmaps, rfl⟩
      obtain rfl := Except.ok.inj hmaps
      simp [facts, toJson, combine, sourceId]

/-- A collection accepts the observations that fit, one by one, and records them. -/
theorem collectObservation_loop : Loop (collectObservation beneficiaryId expected)
    (Fits beneficiaryId expected) (Collecting.Records beneficiaryId) where
  shorter l o h := by
    have hfit := h.2
    rw [List.map_append, List.map_singleton] at hfit
    exact ⟨fun o' ho' => h.1 o' (List.mem_append_left _ ho'), (fit_append.mp hfit).1⟩
  step state l o hstate hl := by
    have hmap : (l.map (normalForm beneficiaryId)).map sourceId = l.map sourceId := by
      simp [List.map_map, Function.comp_def]
    have hloop := ((recordFactSource_loop o.sourceId
      ((l.map (normalForm beneficiaryId)).flatMap facts)).foldlM
        (o.normalForm beneficiaryId).facts (k := []) (s := state.facts)
        (by simpa using hstate.maps) (by simpa using hl.2.apart)).1
    simp only [List.nil_append] at hloop
    simp only [collectObservation_eq_ok, Fits, List.map_append, List.map_singleton, fit_append,
      hmap, sourceId_normalForm, evidenceReference_normalForm, hstate.seen, ← hloop,
      List.mem_append, List.mem_singleton, or_imp, forall_and, forall_eq]
    constructor
    · rintro ⟨state', hcheck, haccepted, maps, hmaps, -⟩
      exact ⟨⟨hl.1, haccepted⟩, hl.2, hcheck, maps, hmaps⟩
    · rintro ⟨⟨-, haccepted⟩, -, hcheck, maps, hmaps⟩
      exact ⟨_, hcheck, haccepted, maps, hmaps, rfl⟩
  next state l o state' hstate hl h := by
    obtain ⟨-, -, maps, hmaps, rfl⟩ := collectObservation_eq_ok.mp h
    have hfit := hl.2
    rw [List.map_append, List.map_singleton, fit_append] at hfit
    have hrecords := ((recordFactSource_loop o.sourceId
      ((l.map (normalForm beneficiaryId)).flatMap facts)).foldlM
        (o.normalForm beneficiaryId).facts (k := []) (s := state.facts)
        (by simpa using hstate.maps) (by simpa using hfit.1.apart)).2 maps hmaps
    refine ⟨fun s => ?_, ?_, ?_, ?_, ?_, ?_⟩
    · simp [hstate.seen, or_comm]
    · simp [hstate.length]
    · simp [hstate.observations]
    · simp [hstate.completeFacts]
    · simpa using hrecords
    · simp [hstate.reason]

theorem Collecting.Records.nil :
    Collecting.Records beneficiaryId ⟨[], [], [], ⟨[], []⟩, none⟩ [] where
  seen _ := by simp
  length := rfl
  observations := rfl
  completeFacts := rfl
  maps := ⟨fun _ => by simp, fun _ => by simp⟩
  reason := rfl

/-- What a collection gives of observations in normal form. -/
def collected (aggregateEvidenceReference : String) (ns : List SourceObservation) :
    Json × CoverageProjection :=
  (.obj [("aggregate_evidence_reference", .str aggregateEvidenceReference),
      ("sources", .arr (sortBy jsonSourceId (ns.map SourceObservation.toJson)))],
    projectionOf (ns.flatMap facts) (ns.foldl combine none))

/-- When a collection succeeds, and what it gives. -/
theorem canonicalCollection_eq_ok {bindings : List SourceBinding} {l : List SourceObservation}
    {evidence : String} {result : Json × CoverageProjection} :
    canonicalCollection beneficiaryId bindings l evidence = .ok result ↔
      (l.length = bindings.length ∧
        l.length = ((bindings.map SourceBinding.sourceId).dedup).length) ∧
      Fits beneficiaryId (bindings.map SourceBinding.sourceId).dedup l ∧
      result = collected evidence (l.map (normalForm beneficiaryId)) := by
  have hsteps : Loop (collectObservation beneficiaryId (bindings.map SourceBinding.sourceId).dedup)
      (Fits beneficiaryId (bindings.map SourceBinding.sourceId).dedup)
      (Collecting.Records beneficiaryId) := collectObservation_loop
  have hloop := hsteps.foldlM l .nil ⟨by simp, .nil⟩
  simp only [canonicalCollection, bind_eq_ok, require_eq_ok, pure_eq_ok, exists_const]
  constructor
  · rintro ⟨hlength, state, hstate, hseen, rfl⟩
    have hrecords := hloop.2 state hstate
    rw [hrecords.length] at hseen
    refine ⟨⟨hlength, hseen⟩, hloop.1.mp ⟨state, hstate⟩, ?_⟩
    rw [hrecords.observations, hrecords.completeFacts, hrecords.reason]
    rfl
  · rintro ⟨⟨hlength, hseen⟩, hfits, rfl⟩
    obtain ⟨state, hstate⟩ := hloop.1.mpr hfits
    have hrecords := hloop.2 state hstate
    refine ⟨hlength, state, hstate, hrecords.length.trans hseen, ?_⟩
    rw [hrecords.observations, hrecords.completeFacts, hrecords.reason]
    rfl

/-- Observations that differ in the order of their facts and how often each is given. -/
inductive SameObservation : SourceObservation → SourceObservation → Prop
  | complete {sourceId evidenceReference : String} {F G : List ConfirmedPaidInterval}
      (h : ∀ f, f ∈ F ↔ f ∈ G) : SameObservation (.complete sourceId evidenceReference F)
        (.complete sourceId evidenceReference G)
  | unavailable {sourceId evidenceReference : String} {reason : UnavailableReason} :
      SameObservation (.unavailable sourceId evidenceReference reason)
        (.unavailable sourceId evidenceReference reason)

/-- The same observations in another order, each with its facts in another order. -/
def Rearranged (l l' : List SourceObservation) : Prop :=
  ∃ m, l.Perm m ∧ List.Forall₂ SameObservation m l'

theorem SameObservation.symm {o o' : SourceObservation} (h : SameObservation o o') :
    SameObservation o' o := by
  cases h with
  | complete h => exact .complete fun f => (h f).symm
  | unavailable => exact .unavailable

theorem SameObservation.refl (o : SourceObservation) : SameObservation o o := by
  cases o with
  | complete => exact .complete fun _ => Iff.rfl
  | unavailable => exact .unavailable

theorem SameObservation.accepted {o o' : SourceObservation} (h : SameObservation o o')
    (ho : o.Accepted beneficiaryId) : o'.Accepted beneficiaryId := by
  cases h with
  | complete h =>
    obtain ⟨unique, hunique⟩ := ho
    exact ⟨unique, normalise_congr h hunique⟩
  | unavailable => exact ho

theorem SameObservation.normalForm_eq {o o' : SourceObservation} (h : SameObservation o o')
    (ho : o.Accepted beneficiaryId) :
    o.normalForm beneficiaryId = o'.normalForm beneficiaryId := by
  cases h with
  | complete h =>
    obtain ⟨unique, hunique⟩ := ho
    simp only [normalForm, hunique, normalise_congr h hunique]
  | unavailable => rfl

theorem map_normalForm_eq {m l : List SourceObservation} (h : List.Forall₂ SameObservation m l)
    (hm : ∀ o ∈ m, o.Accepted beneficiaryId) :
    m.map (normalForm beneficiaryId) = l.map (normalForm beneficiaryId) ∧
      ∀ o ∈ l, o.Accepted beneficiaryId := by
  induction h with
  | nil => exact ⟨rfl, hm⟩
  | cons ho _ ih =>
    simp only [List.mem_cons, forall_eq_or_imp] at hm ⊢
    obtain ⟨hmap, hl⟩ := ih hm.2
    exact ⟨congrArg₂ List.cons (ho.normalForm_eq hm.1) hmap, ho.accepted hm.1, hl⟩

theorem Fit.perm {ns ns' : List SourceObservation} (h : Fit expected ns) (hperm : ns.Perm ns') :
    Fit expected ns' where
  evidence n hn := h.evidence n (hperm.mem_iff.mpr hn)
  expected n hn := h.expected n (hperm.mem_iff.mpr hn)
  once := (hperm.map sourceId).nodup_iff.mp h.once
  sources n hn := h.sources n (hperm.mem_iff.mpr hn)
  apart := ((hperm.flatMap_right facts).pairwise_iff Apart.symm).mp h.apart

theorem Fit.ascends_facts {ns : List SourceObservation} (h : Fit expected ns) :
    Ascends ConfirmedPaidInterval.coverageId
      (sortBy ConfirmedPaidInterval.coverageId (ns.flatMap facts)) :=
  ascends_sortBy (List.pairwise_map.mpr (h.apart.imp fun hfg => hfg.1))

theorem Fit.ascends_json {ns : List SourceObservation} (h : Fit expected ns) :
    Ascends jsonSourceId (sortBy jsonSourceId (ns.map SourceObservation.toJson)) := by
  refine ascends_sortBy ?_
  rw [List.map_map]
  exact (List.map_congr_left fun o _ => jsonSourceId_toJson o) ▸ h.once

/-- What is collected does not depend on the order. -/
theorem Fit.collected_eq {ns ns' : List SourceObservation} (h : Fit expected ns)
    (hperm : ns.Perm ns') (evidence : String) : collected evidence ns = collected evidence ns' := by
  have h' := h.perm hperm
  have hjson : sortBy jsonSourceId (ns.map SourceObservation.toJson) =
      sortBy jsonSourceId (ns'.map SourceObservation.toJson) :=
    h.ascends_json.eq_of_mem_iff h'.ascends_json fun j => by
      rw [mem_sortBy, mem_sortBy, (hperm.map SourceObservation.toJson).mem_iff]
  have hfacts : sortBy ConfirmedPaidInterval.coverageId (ns.flatMap facts) =
      sortBy ConfirmedPaidInterval.coverageId (ns'.flatMap facts) :=
    h.ascends_facts.eq_of_mem_iff h'.ascends_facts fun f => by
      rw [mem_sortBy, mem_sortBy, (hperm.flatMap_right facts).mem_iff]
  have hreason : ns.foldl combine none = ns'.foldl combine none := hperm.foldl_eq none
  simp only [collected, hjson, hreason]
  cases ns'.foldl combine none with
  | some reason => rfl
  | none => simp only [projectionOf, hfacts]

theorem canonicalCollection_of_rearranged {bindings : List SourceBinding}
    {l l' : List SourceObservation} {evidence : String} {result : Json × CoverageProjection}
    {m : List SourceObservation} (hperm : l.Perm m) (hsame : List.Forall₂ SameObservation m l')
    (h : canonicalCollection beneficiaryId bindings l evidence = .ok result) :
    canonicalCollection beneficiaryId bindings l' evidence = .ok result := by
  obtain ⟨hlength, ⟨haccepted, hfit⟩, rfl⟩ := canonicalCollection_eq_ok.mp h
  obtain ⟨hmap, haccepted'⟩ := map_normalForm_eq hsame fun o ho =>
    haccepted o (hperm.mem_iff.mpr ho)
  have hns : (l.map (normalForm beneficiaryId)).Perm (l'.map (normalForm beneficiaryId)) :=
    hmap ▸ hperm.map (normalForm beneficiaryId)
  have hlen : l'.length = l.length := (hsame.length_eq.symm).trans hperm.length_eq.symm
  refine canonicalCollection_eq_ok.mpr ⟨?_, ⟨haccepted', hfit.perm hns⟩,
    hfit.collected_eq hns evidence⟩
  rw [hlen]
  exact hlength

/-- The facts of a normal form are valid. -/
theorem valid_of_normalForm {o : SourceObservation} (ho : o.Accepted beneficiaryId)
    {f : ConfirmedPaidInterval} (hf : f ∈ (o.normalForm beneficiaryId).facts) :
    f.Valid := by
  cases o with
  | complete source evidence paidIntervals =>
    obtain ⟨unique, hunique⟩ := ho
    simp only [normalForm, hunique] at hf
    obtain ⟨-, hfacts, -, hmem⟩ := normaliseConfirmedIntervals_eq_ok.mp hunique
    exact hfacts.valid f ((hmem f).mp hf)
  | unavailable => exact absurd hf List.not_mem_nil

/-- Sorting by the coverage id sorts by all that the normalisation sorts by. -/
theorem ascends_sortKey {l : List ConfirmedPaidInterval}
    (h : Ascends ConfirmedPaidInterval.coverageId l) :
    Ascends ConfirmedPaidInterval.sortKey l := by
  have hlt : ∀ f g : ConfirmedPaidInterval, f.coverageId < g.coverageId →
      f.sortKey < g.sortKey := fun f g hfg => Prod.Lex.toLex_lt_toLex.mpr (Or.inl hfg)
  exact List.Pairwise.imp (hlt _ _) h

/-- Facts that are apart are consistent. -/
theorem consistent_of_apart {l : List ConfirmedPaidInterval} (hvalid : ∀ f ∈ l, f.Valid)
    (h : l.Pairwise Apart) : Consistent {f | f ∈ l} := by
  have hcases : ∀ f ∈ l, ∀ g ∈ l, f = g ∨ Apart f g := by
    refine List.Pairwise.forall_of_forall_of_flip (fun f _ => Or.inl rfl) ?_ ?_
    · exact h.imp Or.inr
    · exact h.imp fun hfg => Or.inr hfg.symm
  refine ⟨hvalid, fun f hf g hg hfg => ?_, fun f hf g hg r hfr hgr => ?_⟩
  · exact (hcases f hf g hg).resolve_right fun happ => happ.1 hfg
  · rcases hcases f hf g hg with rfl | happ
    · rfl
    · exact absurd hgr (happ.2 r hfr)

/-- Without a reason, every observation is complete. -/
theorem facts_of_no_reason {ns : List SourceObservation} (h : ns.foldl combine none = none) :
    ∀ n ∈ ns, ∃ sourceId evidence paidIntervals, n = .complete sourceId evidence paidIntervals := by
  induction ns using List.reverseRecOn with
  | nil => exact fun n hn => absurd hn List.not_mem_nil
  | append_singleton ns n ih =>
    rw [List.foldl_append, List.foldl_cons, List.foldl_nil] at h
    cases n with
    | complete source evidence paidIntervals =>
      intro n hn
      rcases List.mem_append.mp hn with hn | hn
      · exact ih h n hn
      · exact ⟨source, evidence, paidIntervals, List.mem_singleton.mp hn⟩
    | unavailable source evidence reason =>
      cases hold : ns.foldl combine none <;> cases reason <;>
        simp [combine, combineReason, hold] at h

/-- The facts of observations that fit, all of them complete, are in the order and the form in
which they are published. -/
theorem Fit.published {l : List SourceObservation}
    (haccepted : ∀ o ∈ l, o.Accepted beneficiaryId) (hblank : l = [] → ¬ isBlank beneficiaryId)
    (h : Fit expected (l.map (normalForm beneficiaryId)))
    (hreason : (l.map (normalForm beneficiaryId)).foldl combine none = none) :
    normaliseConfirmedIntervals ⟨beneficiaryId, sortBy ConfirmedPaidInterval.coverageId
      ((l.map (normalForm beneficiaryId)).flatMap facts)⟩ =
        .ok (sortBy ConfirmedPaidInterval.coverageId
          ((l.map (normalForm beneficiaryId)).flatMap facts)) := by
  have hbeneficiary : ¬ isBlank beneficiaryId := by
    cases l with
    | nil => exact hblank rfl
    | cons o l =>
      have ho := haccepted o List.mem_cons_self
      cases o with
      | complete source evidence paidIntervals =>
        obtain ⟨unique, hunique⟩ := ho
        exact (normaliseConfirmedIntervals_eq_ok.mp hunique).1
      | unavailable source evidence reason =>
        obtain ⟨_, _, _, hn⟩ := facts_of_no_reason hreason _ List.mem_cons_self
        cases hn
  have hvalid : ∀ f ∈ (l.map (normalForm beneficiaryId)).flatMap facts, f.Valid := by
    intro f hf
    obtain ⟨n, hn, hfn⟩ := List.mem_flatMap.mp hf
    obtain ⟨o, ho, rfl⟩ := List.mem_map.mp hn
    exact valid_of_normalForm (haccepted o ho) hfn
  refine normaliseConfirmedIntervals_eq_ok.mpr ⟨hbeneficiary, ?_, ascends_sortKey h.ascends_facts,
    fun f => Iff.rfl⟩
  exact (consistent_of_apart hvalid h.apart).mono fun f hf => mem_sortBy.mp hf

/-- A collection does not depend on the order of the observations and of their facts, and the
facts of a complete projection are published as they are. -/
theorem collection_canonical (beneficiaryId : String) (bindings : List SourceBinding)
    (l l' : List SourceObservation) (evidence : String) (h : Rearranged l l') :
    (∀ result, canonicalCollection beneficiaryId bindings l evidence = .ok result ↔
      canonicalCollection beneficiaryId bindings l' evidence = .ok result) ∧
    ∀ json paidIntervals, (l = [] → ¬ isBlank beneficiaryId) →
      canonicalCollection beneficiaryId bindings l evidence =
        .ok (json, .complete paidIntervals) →
      canonicalProjection beneficiaryId (.complete paidIntervals) =
        .ok ⟨"complete", none, paidIntervals⟩ := by
  obtain ⟨m, hperm, hsame⟩ := h
  refine ⟨fun result => ⟨canonicalCollection_of_rearranged hperm hsame, fun h => ?_⟩,
    fun json paidIntervals hblank h => ?_⟩
  · have hm := canonicalCollection_of_rearranged (.refl l') (hsame.flip.imp fun _ _ => .symm) h
    exact canonicalCollection_of_rearranged hperm.symm
      (List.forall₂_same.mpr fun o _ => .refl o) hm
  · obtain ⟨-, ⟨haccepted, hfit⟩, hresult⟩ := canonicalCollection_eq_ok.mp h
    have hprojection := congrArg Prod.snd hresult
    simp only [collected] at hprojection
    cases hreason : (l.map (normalForm beneficiaryId)).foldl combine none with
    | some reason =>
      rw [hreason] at hprojection
      cases hprojection
    | none =>
      rw [hreason] at hprojection
      obtain rfl := CoverageProjection.complete.inj hprojection
      simp only [canonicalProjection, hfit.published haccepted hblank hreason]
      rfl

/-- Two sources, each with one fact. -/
def twoSources : List SourceObservation :=
  [.complete "second" "seen" [⟨"late", "second", 5000000, 6000000, none⟩],
    .complete "first" "seen" [⟨"early", "first", 0, 1000000, some "renewal"⟩]]

/-- The bindings of the two sources. -/
def twoBindings : List SourceBinding :=
  [⟨"person", "first", "provider", "one", "owned"⟩,
    ⟨"person", "second", "provider", "two", "owned"⟩]

theorem collection_canonical_twoSources :
    Rearranged twoSources twoSources.reverse ∧
    (∃ json paidIntervals, canonicalCollection "person" twoBindings twoSources "evidence" =
      .ok (json, .complete paidIntervals)) ∧
    (∀ result, canonicalCollection "person" twoBindings twoSources "evidence" = .ok result ↔
      canonicalCollection "person" twoBindings twoSources.reverse "evidence" = .ok result) ∧
    ∀ json paidIntervals, (twoSources = [] → ¬ isBlank "person") →
      canonicalCollection "person" twoBindings twoSources "evidence" =
        .ok (json, .complete paidIntervals) →
      canonicalProjection "person" (.complete paidIntervals) =
        .ok ⟨"complete", none, paidIntervals⟩ :=
  have hsame : Rearranged twoSources twoSources.reverse :=
    ⟨twoSources.reverse, (List.reverse_perm twoSources).symm,
      List.forall₂_same.mpr fun o _ => .refl o⟩
  have hcomplete : ∃ json paidIntervals,
      canonicalCollection "person" twoBindings twoSources "evidence" =
        .ok (json, .complete paidIntervals) :=
    ⟨.obj [("aggregate_evidence_reference", .str "evidence"),
        ("sources", .arr ((twoSources.reverse).map SourceObservation.toJson))],
      [⟨"early", "first", 0, 1000000, some "renewal"⟩,
        ⟨"late", "second", 5000000, 6000000, none⟩], by decide +kernel⟩
  ⟨hsame, hcomplete, collection_canonical "person" twoBindings twoSources twoSources.reverse
    "evidence" hsame⟩

end Coverage

end Sotto
