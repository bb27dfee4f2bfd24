import Sotto.Coverage.Steps
import Sotto.Properties.Stored

/-!
# The sources of the attempts

Every generation of a beneficiary's sources has its source, and an attempt holds the bindings of
the sources up to its generation. Calls add sources of later generations only, and a completed
attempt never changes. So every stored attempt passes the checks that it is read with.
-/

namespace Sotto

namespace Coverage

open Checked

/-- The bindings of the sources that a beneficiary had at a generation. -/
def Store.bindingsUpTo (store : Store) (beneficiaryId : String) (generation : Int) :
    List SourceBinding :=
  (store.selectSources fun source => source.beneficiaryId = beneficiaryId ∧
    source.registrationSourceSetGeneration ≤ generation).map sourceBindingFromRow

/-- An attempt is completed with the canonical form of observations, or has no result. -/
inductive Attempt.Receipt (beneficiaryId : String) (bindings : List SourceBinding)
    (attempt : Attempt) : Prop
  | unfinished : attempt.status ≠ .completed → attempt.aggregateEvidenceReference = none →
      attempt.canonicalResult = none → attempt.projectionRevision = none →
      Receipt beneficiaryId bindings attempt
  | completed {evidence : String} {l : Observations} {json : Json}
      {projection : CoverageProjection} {revision : Int} :
      attempt.status = .completed → ¬ isBlank evidence →
      canonicalCollection beneficiaryId bindings l.1 evidence = .ok (json, projection) →
      attempt.aggregateEvidenceReference = some evidence → attempt.canonicalResult = some json →
      attempt.projectionRevision = some revision → Receipt beneficiaryId bindings attempt

structure Attempt.Sound (store : Store) (beneficiaryId : String) (attempt : Attempt) : Prop where
  generation : ∃ coordinator, store.coordinators.lookup beneficiaryId = some coordinator ∧
    1 ≤ attempt.sourceSetGeneration ∧
    attempt.sourceSetGeneration ≤ coordinator.sourceSetGeneration
  bindings : attempt.sourceBindings =
    bindingsJson (store.bindingsUpTo beneficiaryId attempt.sourceSetGeneration)
  receipt : attempt.Receipt beneficiaryId
    (store.bindingsUpTo beneficiaryId attempt.sourceSetGeneration)

structure Store.Sound (store : Store) : Prop where
  counted : ∀ {beneficiaryId coordinator},
    store.coordinators.lookup beneficiaryId = some coordinator →
    0 ≤ coordinator.sourceSetGeneration
  generations : ∀ {beneficiaryId coordinator},
    store.coordinators.lookup beneficiaryId = some coordinator →
    ∀ g, 1 ≤ g → g ≤ coordinator.sourceSetGeneration → ∃ sourceId source,
      store.sources.lookup sourceId = some source ∧ source.beneficiaryId = beneficiaryId ∧
      source.registrationSourceSetGeneration = g
  sources : ∀ {sourceId source}, store.sources.lookup sourceId = some source →
    validateBinding (sourceBindingFromRow (sourceId, source)) = .ok () ∧
    ∃ coordinator, store.coordinators.lookup source.beneficiaryId = some coordinator ∧
      source.registrationSourceSetGeneration ≤ coordinator.sourceSetGeneration
  attempts : ∀ {beneficiaryId attemptId attempt},
    store.attempts.lookup (beneficiaryId, attemptId) = some attempt →
    attempt.Sound store beneficiaryId

/-- Tables of which the later ones keep the bindings of the earlier generations and the completed
attempts. -/
structure Later (store store' : Store) : Prop where
  coordinators : ∀ {beneficiaryId coordinator},
    store.coordinators.lookup beneficiaryId = some coordinator →
    ∃ coordinator', store'.coordinators.lookup beneficiaryId = some coordinator' ∧
      coordinator.sourceSetGeneration ≤ coordinator'.sourceSetGeneration
  bindings : ∀ {beneficiaryId coordinator},
    store.coordinators.lookup beneficiaryId = some coordinator →
    ∀ g ≤ coordinator.sourceSetGeneration,
      store'.bindingsUpTo beneficiaryId g = store.bindingsUpTo beneficiaryId g
  completed : ∀ {key attempt}, store.attempts.lookup key = some attempt →
    attempt.status = .completed → store'.attempts.lookup key = some attempt

section Sources

variable {store store' store'' : Store} {beneficiaryId : String} {g : Int}
  {binding : SourceBinding} {attempt : Attempt} {p : Source → Bool} {row : String × Source}

theorem mem_selectSources :
    row ∈ store.selectSources p ↔ store.sources.lookup row.1 = some row.2 ∧ p row.2 = true := by
  rw [Store.selectSources, mem_sortBy, List.mem_filter, Table.mem_rows]

theorem ascends_selectSources :
    Ascends SourceBinding.sourceId ((store.selectSources p).map sourceBindingFromRow) := by
  have hnodup : ((store.sources.rows.filter fun row => p row.2).map Prod.fst).Nodup :=
    (Table.nodup_rows store.sources).sublist (List.filter_sublist.map _)
  exact List.pairwise_map.mpr (ascends_sortBy hnodup)

theorem mem_bindingsUpTo : binding ∈ store.bindingsUpTo beneficiaryId g ↔
    ∃ source, store.sources.lookup binding.sourceId = some source ∧
      (source.beneficiaryId = beneficiaryId ∧ source.registrationSourceSetGeneration ≤ g) ∧
      sourceBindingFromRow (binding.sourceId, source) = binding := by
  simp only [Store.bindingsUpTo, List.mem_map, mem_selectSources, decide_eq_true_eq, Prod.exists]
  constructor
  · rintro ⟨sourceId, source, ⟨hlookup, hsource⟩, rfl⟩
    exact ⟨source, hlookup, hsource, rfl⟩
  · rintro ⟨source, hlookup, hsource, hbinding⟩
    exact ⟨binding.sourceId, source, ⟨hlookup, hsource⟩, hbinding⟩

theorem ascends_bindingsUpTo :
    Ascends SourceBinding.sourceId (store.bindingsUpTo beneficiaryId g) :=
  ascends_selectSources

/-- The bindings depend on what the sources of the generations are. -/
theorem bindingsUpTo_congr (h : ∀ b : SourceBinding, b ∈ store'.bindingsUpTo beneficiaryId g ↔
    b ∈ store.bindingsUpTo beneficiaryId g) :
    store'.bindingsUpTo beneficiaryId g = store.bindingsUpTo beneficiaryId g :=
  ascends_bindingsUpTo.eq_of_mem_iff ascends_bindingsUpTo h

theorem Later.refl (store : Store) : Later store store :=
  ⟨fun h => ⟨_, h, le_rfl⟩, fun _ _ _ => rfl, fun h _ => h⟩

theorem Later.trans (h : Later store store') (h' : Later store' store'') : Later store store'' where
  coordinators hc := by
    obtain ⟨c', hc', hle⟩ := h.coordinators hc
    obtain ⟨c'', hc'', hle'⟩ := h'.coordinators hc'
    exact ⟨c'', hc'', hle.trans hle'⟩
  bindings hc g hg := by
    obtain ⟨c', hc', hle⟩ := h.coordinators hc
    rw [h'.bindings hc' g (hg.trans hle), h.bindings hc g hg]
  completed ha hstatus := h'.completed (h.completed ha hstatus) hstatus

theorem Attempt.Sound.later (h : attempt.Sound store beneficiaryId) (hl : Later store store') :
    attempt.Sound store' beneficiaryId := by
  obtain ⟨c, hc, hpos, hle⟩ := h.generation
  obtain ⟨c', hc', hle'⟩ := hl.coordinators hc
  have hbindings := hl.bindings hc _ hle
  refine ⟨⟨c', hc', hpos, hle.trans hle'⟩, ?_, ?_⟩
  · rw [hbindings]
    exact h.bindings
  · rw [hbindings]
    exact h.receipt

theorem Attempt.Sound.supersede (h : attempt.Sound store beneficiaryId) :
    attempt.supersede.Sound store beneficiaryId := by
  unfold Attempt.supersede
  split
  · next hpending =>
    refine ⟨h.generation, h.bindings, ?_⟩
    cases h.receipt with
    | unfinished _ hevidence hresult hrevision =>
      exact .unfinished (by simp) hevidence hresult hrevision
    | completed hcompleted =>
      rw [hpending] at hcompleted
      cases hcompleted
  · exact h

theorem supersede_of_completed (h : attempt.status = .completed) : attempt.supersede = attempt := by
  rw [Attempt.supersede, if_neg]
  rw [h]
  nofun

/-! ### Checks -/

/-- An attempt reads back to the ticket of its generation. -/
theorem Store.Sound.ticket (h : store.Sound) {attemptId : String}
    (hattempt : store.attempts.lookup (beneficiaryId, attemptId) = some attempt) :
    collectionTicketFromRow beneficiaryId attemptId attempt = .ok ⟨beneficiaryId, attemptId,
      attempt.collectionEpoch, attempt.sourceSetGeneration, attempt.expectedProjectionRevision,
      store.bindingsUpTo beneficiaryId attempt.sourceSetGeneration, attempt.status,
      attempt.projectionRevision⟩ := by
  have hsound := h.attempts hattempt
  obtain ⟨c, hc, hpos, hle⟩ := hsound.generation
  obtain ⟨sourceId, source, hsource, rfl, hg⟩ := h.generations hc _ hpos hle
  have hmem : sourceBindingFromRow (sourceId, source) ∈
      store.bindingsUpTo source.beneficiaryId attempt.sourceSetGeneration :=
    mem_bindingsUpTo.mpr ⟨source, hsource, ⟨rfl, hg.le⟩, rfl⟩
  refine collectionTicketFromRow_eq_ok.mpr ⟨_, ?_, rfl⟩
  rw [hsound.bindings]
  refine parseStoredBindings_bindingsJson (List.ne_nil_of_mem hmem) (fun binding hbinding => ?_)
    ascends_bindingsUpTo
  obtain ⟨source', hsource', ⟨hbeneficiary, -⟩, heq⟩ := mem_bindingsUpTo.mp hbinding
  rw [← heq]
  exact ⟨(h.sources hsource').1, hbeneficiary⟩

/-- The bindings of an attempt are those of the sources. -/
theorem Store.Sound.validateStoredBindings (h : store.Sound) {ticket : CollectionTicket}
    {coordinator : Coordinator}
    (hc : store.coordinators.lookup ticket.beneficiaryId = some coordinator)
    (hpos : 1 ≤ ticket.sourceSetGeneration)
    (hle : ticket.sourceSetGeneration ≤ coordinator.sourceSetGeneration)
    (hbindings : ticket.sourceBindings =
      store.bindingsUpTo ticket.beneficiaryId ticket.sourceSetGeneration) :
    validateStoredBindings store ticket = .ok () := by
  obtain ⟨sourceId, source, hsource, hbeneficiary, hg⟩ := h.generations hc _ hpos hle
  have hmem : (sourceId, source) ∈ store.selectSources fun source =>
      source.beneficiaryId = ticket.beneficiaryId ∧
        source.registrationSourceSetGeneration ≤ ticket.sourceSetGeneration :=
    mem_selectSources.mpr ⟨hsource, decide_eq_true ⟨hbeneficiary, hg.le⟩⟩
  have hmax : ((store.selectSources fun source => source.beneficiaryId = ticket.beneficiaryId ∧
      source.registrationSourceSetGeneration ≤ ticket.sourceSetGeneration).map
        fun row => row.2.registrationSourceSetGeneration).max? = some ticket.sourceSetGeneration := by
    rw [List.max?_eq_some_iff]
    refine ⟨List.mem_map.mpr ⟨_, hmem, hg⟩, fun n hn => ?_⟩
    obtain ⟨row, hrow, rfl⟩ := List.mem_map.mp hn
    exact (of_decide_eq_true (mem_selectSources.mp hrow).2).2
  have hne := List.ne_nil_of_mem hmem
  refine require_eq_ok.mpr (not_or.mpr ⟨not_not.mpr hmax, not_or.mpr ⟨fun hnil => ?_,
    not_not.mpr hbindings.symm⟩⟩)
  exact hne (List.map_eq_nil_iff.mp hnil)

theorem Attempt.Receipt.validate {ticket : CollectionTicket}
    (h : attempt.Receipt ticket.beneficiaryId ticket.sourceBindings)
    (hstatus : ticket.status = attempt.status)
    (hbindings : validateStoredBindings store ticket = .ok ()) :
    ∃ stored, validateStoredAttempt store ticket attempt = .ok stored ∧
      (attempt.status = .completed → ∃ evidence, ∃ l : Observations, ∃ json projection revision,
        canonicalCollection ticket.beneficiaryId ticket.sourceBindings l.1 evidence =
          .ok (json, projection) ∧ attempt.aggregateEvidenceReference = some evidence ∧
        attempt.canonicalResult = some json ∧ attempt.projectionRevision = some revision ∧
        stored = some ⟨evidence, json, revision⟩) := by
  cases h with
  | unfinished hopen hevidence hresult hrevision =>
    refine ⟨none, ?_, fun hcompleted => absurd hcompleted hopen⟩
    have hreceipt : storedCompletionReceipt ticket.status attempt.aggregateEvidenceReference
        attempt.canonicalResult attempt.projectionRevision = .ok none := by
      rw [hevidence, hresult, hrevision, hstatus]
      cases hs : attempt.status with
      | completed => exact absurd hs hopen
      | pending => rfl
      | superseded => rfl
    refine bind_eq_ok.mpr ⟨(), hbindings, ?_⟩
    rw [hreceipt]
    rfl
  | @completed evidence l json projection revision hcompleted hevidence hcollection hstored hresult
      hrevision =>
    refine ⟨some ⟨evidence, json, revision⟩, ?_, fun _ => ⟨evidence, l, json, projection, revision,
      hcollection, hstored, hresult, hrevision, rfl⟩⟩
    have hreceipt : storedCompletionReceipt ticket.status attempt.aggregateEvidenceReference
        attempt.canonicalResult attempt.projectionRevision =
          .ok (some (evidence, json, revision)) := by
      rw [hstored, hresult, hrevision, hstatus, hcompleted]
      rfl
    have hvalid := validateStoredResult_eq_ok hevidence hcollection
    refine bind_eq_ok.mpr ⟨(), hbindings, bind_eq_ok.mpr ⟨_, mapError_eq_ok.mpr hreceipt, ?_⟩⟩
    exact bind_eq_ok.mpr ⟨json, mapError_eq_ok.mpr hvalid, rfl⟩

/-! ### Steps -/

theorem Store.Sound.withProjections (h : store.Sound) (projections : Projections) :
    { store with projections := projections }.Sound where
  counted := h.counted
  generations := h.generations
  sources := h.sources
  attempts ha := ⟨(h.attempts ha).generation, (h.attempts ha).bindings, (h.attempts ha).receipt⟩

theorem Later.withProjections (h : Later store store') (projections : Projections) :
    Later store { store' with projections := projections } :=
  ⟨h.coordinators, h.bindings, h.completed⟩

theorem lookup_insertCoordinator {b : String} {coordinator : Coordinator} :
    (store.insertCoordinator beneficiaryId).coordinators.lookup b = some coordinator ↔
      store.coordinators.lookup b = some coordinator ∨ b = beneficiaryId ∧
        store.coordinators.lookup beneficiaryId = none ∧ coordinator = ⟨0, 0, none⟩ := by
  unfold Store.insertCoordinator
  cases hc : store.coordinators.lookup beneficiaryId with
  | some c => simp
  | none =>
    simp only [Option.isSome_none, Bool.false_eq_true, if_false, Table.lookup_insert]
    by_cases hb : b = beneficiaryId
    · subst hb
      simp [hc, eq_comm]
    · simp [hb]

theorem Store.Sound.insertCoordinator (h : store.Sound) (beneficiaryId : String) :
    (store.insertCoordinator beneficiaryId).Sound ∧
      Later store (store.insertCoordinator beneficiaryId) := by
  have hlater : Later store (store.insertCoordinator beneficiaryId) :=
    ⟨fun hc => ⟨_, lookup_insertCoordinator.mpr (.inl hc), le_rfl⟩, fun _ _ _ => rfl,
      fun ha _ => ha⟩
  refine ⟨⟨fun hc => ?_, fun hc g hpos hle => ?_, fun hs => ?_, fun ha => ?_⟩, hlater⟩
  · rcases lookup_insertCoordinator.mp hc with hc | ⟨-, -, rfl⟩
    · exact h.counted hc
    · exact le_rfl
  · rcases lookup_insertCoordinator.mp hc with hc | ⟨-, -, rfl⟩
    · exact h.generations hc g hpos hle
    · exact absurd (hpos.trans hle) (by decide)
  · obtain ⟨hvalid, c, hc, hle⟩ := h.sources hs
    exact ⟨hvalid, c, lookup_insertCoordinator.mpr (.inl hc), hle⟩
  · exact (h.attempts ha).later hlater

section Registered

variable {coordinator : Coordinator} {generation revision : Int} {operationId : String}
  {projections : Projections}

/-- The row of a source that is registered. -/
def newSource (generation revision : Int) (operationId : String) (binding : SourceBinding) :
    Source where
  beneficiaryId := binding.beneficiaryId
  providerNamespace := binding.providerNamespace
  externalAllocationReference := binding.externalAllocationReference
  ownershipEvidenceReference := binding.ownershipEvidenceReference
  registrationOperationId := operationId
  registrationSourceSetGeneration := generation
  registrationProjectionRevision := some revision

theorem lookup_registered_sources {sourceId : String} :
    (registered store coordinator generation revision operationId binding
      projections).sources.lookup sourceId =
        if sourceId = binding.sourceId then
          some (newSource generation revision operationId binding)
        else store.sources.lookup sourceId := by
  simp only [registered, insertSource, Table.lookup_modify, Table.lookup_insert]
  split
  · rfl
  · rfl

theorem lookup_registered_coordinators {b : String} :
    (registered store coordinator generation revision operationId binding
      projections).coordinators.lookup b =
        if b = binding.beneficiaryId then
          some { coordinator with sourceSetGeneration := generation, currentAttemptId := none }
        else (store.insertCoordinator binding.beneficiaryId).coordinators.lookup b := by
  simp only [registered, insertSource, Table.lookup_insert]

theorem lookup_registered_attempts {key : String × String} :
    (registered store coordinator generation revision operationId binding
      projections).attempts.lookup key = (store.attempts.lookup key).map fun attempt =>
        if key.1 = binding.beneficiaryId then attempt.supersede else attempt := by
  simp only [registered, insertSource, Table.lookup_mapRows]
  rfl

theorem Store.Sound.registered (h : store.Sound) (hvalid : validateBinding binding = .ok ())
    (hc : (store.insertCoordinator binding.beneficiaryId).coordinators.lookup
      binding.beneficiaryId = some coordinator)
    (hfree : store.sources.lookup binding.sourceId = none)
    (hgeneration : checkedAdd coordinator.sourceSetGeneration 1 = some generation) :
    (registered store coordinator generation revision operationId binding projections).Sound ∧
      Later store
        (registered store coordinator generation revision operationId binding projections) := by
  obtain ⟨hinserted, hextended⟩ := h.insertCoordinator binding.beneficiaryId
  obtain ⟨rfl, -⟩ := checkedAdd_eq_some.mp hgeneration
  have hcount := hinserted.counted hc
  have hold : ∀ {sourceId source}, store.sources.lookup sourceId = some source →
      sourceId ≠ binding.sourceId := by
    rintro sourceId source hs rfl
    rw [hfree] at hs
    cases hs
  have hcoordinators : ∀ {b c}, store.coordinators.lookup b = some c → ∃ c',
      (Coverage.registered store coordinator (coordinator.sourceSetGeneration + 1) revision
        operationId binding projections).coordinators.lookup b = some c' ∧
      c.sourceSetGeneration ≤ c'.sourceSetGeneration := by
    intro b c hb
    rw [lookup_registered_coordinators]
    split
    · next heq =>
      subst heq
      rw [lookup_insertCoordinator.mpr (.inl hb)] at hc
      obtain rfl := Option.some.inj hc
      exact ⟨_, rfl, Int.le_add_one le_rfl⟩
    · exact ⟨c, lookup_insertCoordinator.mpr (.inl hb), le_rfl⟩
  have hlater : Later store (Coverage.registered store coordinator
      (coordinator.sourceSetGeneration + 1) revision operationId binding projections) := by
    refine ⟨hcoordinators, fun {b c} hb g hg => bindingsUpTo_congr fun b' => ?_,
      fun ha hstatus => ?_⟩
    · rw [mem_bindingsUpTo, mem_bindingsUpTo, lookup_registered_sources]
      split
      · next hsource =>
        rw [hsource, hfree]
        refine iff_of_false ?_ (by rintro ⟨s, hs, -⟩; cases hs)
        rintro ⟨s, hs, ⟨hbeneficiary, hle⟩, -⟩
        obtain rfl := Option.some.inj hs
        obtain rfl : binding.beneficiaryId = b := hbeneficiary
        rw [lookup_insertCoordinator.mpr (.inl hb)] at hc
        obtain rfl := Option.some.inj hc
        exact absurd (le_trans hle hg) (Int.not_le.mpr (Int.lt_add_one_of_le le_rfl))
      · rfl
    · rw [lookup_registered_attempts, ha, Option.map_some]
      split
      · rw [supersede_of_completed hstatus]
      · rfl
  refine ⟨⟨fun {b c} hb => ?_, fun {b c} hb g hpos hle => ?_, fun {sourceId source} hs => ?_,
    fun {b a attempt} ha => ?_⟩, hlater⟩
  · rw [lookup_registered_coordinators] at hb
    split at hb
    · obtain rfl := Option.some.inj hb
      exact Int.le_add_one hcount
    · exact hinserted.counted hb
  · have hkept : ∀ c', (store.insertCoordinator binding.beneficiaryId).coordinators.lookup b =
        some c' → g ≤ c'.sourceSetGeneration → ∃ sourceId source,
          (Coverage.registered store coordinator (coordinator.sourceSetGeneration + 1) revision
            operationId binding projections).sources.lookup sourceId = some source ∧
          source.beneficiaryId = b ∧ source.registrationSourceSetGeneration = g := by
      intro c' hc' hg
      obtain ⟨sourceId, source, hs, hsource⟩ := hinserted.generations hc' g hpos hg
      refine ⟨sourceId, source, ?_, hsource⟩
      rw [lookup_registered_sources, if_neg (hold hs)]
      exact hs
    rw [lookup_registered_coordinators] at hb
    split at hb
    · next heq =>
      subst heq
      obtain rfl := Option.some.inj hb
      rcases (Int.le_iff_lt_or_eq.mp hle) with hlt | rfl
      · exact hkept coordinator hc (Int.lt_add_one_iff.mp hlt)
      · exact ⟨binding.sourceId,
          newSource (coordinator.sourceSetGeneration + 1) revision operationId binding,
          lookup_registered_sources.trans (if_pos rfl), rfl, rfl⟩
    · exact hkept c hb hle
  · rw [lookup_registered_sources] at hs
    split at hs
    · next heq =>
      subst heq
      obtain rfl := Option.some.inj hs
      refine ⟨hvalid, { coordinator with
        sourceSetGeneration := coordinator.sourceSetGeneration + 1
        currentAttemptId := none }, ?_, le_rfl⟩
      exact lookup_registered_coordinators.trans (if_pos rfl)
    · obtain ⟨hvalid', c, hb, hle⟩ := h.sources hs
      obtain ⟨c', hc', hle'⟩ := hcoordinators hb
      exact ⟨hvalid', c', hc', hle.trans hle'⟩
  · rw [lookup_registered_attempts] at ha
    obtain ⟨attempt', ha', rfl⟩ := Option.map_eq_some_iff.mp ha
    have hsound := (h.attempts ha').later hlater
    split
    · exact hsound.supersede
    · exact hsound

end Registered

section Attempts

variable {coordinator : Coordinator} {attemptId : String} {epoch : Int}
  {expectedRevision : Option Int}

theorem lookup_supersedeCurrent {current : Option String} {key : String × String} :
    ∃ f : Attempt → Attempt, (∀ attempt, f attempt = attempt ∨ f attempt = attempt.supersede) ∧
      (supersedeCurrent store beneficiaryId current).lookup key =
        (store.attempts.lookup key).map f := by
  cases current with
  | none =>
    refine ⟨id, fun attempt => .inl rfl, ?_⟩
    rw [Option.map_id]
    rfl
  | some previousAttemptId =>
    by_cases hkey : key = (beneficiaryId, previousAttemptId)
    · refine ⟨Attempt.supersede, fun attempt => .inr rfl, ?_⟩
      rw [supersedeCurrent, hkey, Table.lookup_modify_self]
    · refine ⟨id, fun attempt => .inl rfl, ?_⟩
      rw [supersedeCurrent, Table.lookup_modify_of_ne hkey, Option.map_id]
      rfl

/-- The sources of a beneficiary are those up to its generation. -/
theorem Store.Sound.bindingsOf (h : store.Sound)
    (hc : store.coordinators.lookup beneficiaryId = some coordinator) :
    bindingsOf store beneficiaryId =
      store.bindingsUpTo beneficiaryId coordinator.sourceSetGeneration := by
  refine ascends_selectSources.eq_of_mem_iff ascends_bindingsUpTo fun b => ?_
  simp only [mem_bindingsUpTo, List.mem_map, mem_selectSources, decide_eq_true_eq, Prod.exists]
  constructor
  · rintro ⟨sourceId, source, ⟨hs, rfl⟩, rfl⟩
    obtain ⟨-, c, hc', hle⟩ := h.sources hs
    obtain rfl := Option.some.inj (hc.symm.trans hc')
    exact ⟨source, hs, ⟨rfl, hle⟩, rfl⟩
  · rintro ⟨source, hs, ⟨hbeneficiary, -⟩, hb⟩
    exact ⟨b.sourceId, source, ⟨hs, hbeneficiary⟩, hb⟩

theorem lookup_begun_coordinators {b : String} {c : Coordinator}
    (hc : store.coordinators.lookup beneficiaryId = some coordinator) :
    (begun store coordinator beneficiaryId attemptId epoch expectedRevision).coordinators.lookup b =
        some c → ∃ c', store.coordinators.lookup b = some c' ∧
      c.sourceSetGeneration = c'.sourceSetGeneration := by
  intro hb
  simp only [begun, Table.lookup_insert] at hb
  split at hb
  · next heq =>
    subst heq
    obtain rfl := Option.some.inj hb
    exact ⟨coordinator, hc, rfl⟩
  · exact ⟨c, hb, rfl⟩

theorem Store.Sound.begun (h : store.Sound)
    (hc : store.coordinators.lookup beneficiaryId = some coordinator)
    (hnone : store.attempts.lookup (beneficiaryId, attemptId) = none)
    (hne : coordinator.sourceSetGeneration ≠ 0) :
    (begun store coordinator beneficiaryId attemptId epoch expectedRevision).Sound ∧
      Later store (begun store coordinator beneficiaryId attemptId epoch expectedRevision) := by
  have hcoordinators : ∀ {b c}, store.coordinators.lookup b = some c → ∃ c',
      (Coverage.begun store coordinator beneficiaryId attemptId epoch
        expectedRevision).coordinators.lookup b = some c' ∧
      c.sourceSetGeneration ≤ c'.sourceSetGeneration := by
    intro b c hb
    simp only [Coverage.begun, Table.lookup_insert]
    split
    · next heq =>
      subst heq
      obtain rfl := Option.some.inj (hb.symm.trans hc)
      exact ⟨_, rfl, le_rfl⟩
    · exact ⟨c, hb, le_rfl⟩
  have hlater : Later store
      (Coverage.begun store coordinator beneficiaryId attemptId epoch expectedRevision) := by
    refine ⟨hcoordinators, fun _ _ _ => rfl, fun {key attempt} ha hstatus => ?_⟩
    have hkey : key ≠ (beneficiaryId, attemptId) := by
      rintro rfl
      rw [hnone] at ha
      cases ha
    obtain ⟨f, hf, hlookup⟩ := @lookup_supersedeCurrent store beneficiaryId
      coordinator.currentAttemptId key
    rw [Coverage.begun, AList.lookup_insert_ne hkey, hlookup, ha, Option.map_some]
    rcases hf attempt with heq | heq
    · rw [heq]
    · rw [heq, supersede_of_completed hstatus]
  refine ⟨⟨fun {b c} hb => ?_, fun {b c} hb g hpos hle => ?_, fun {sourceId source} hs => ?_,
    fun {b a attempt} ha => ?_⟩, hlater⟩
  · obtain ⟨c', hc', heq⟩ := lookup_begun_coordinators hc hb
    rw [heq]
    exact h.counted hc'
  · obtain ⟨c', hc', heq⟩ := lookup_begun_coordinators hc hb
    exact h.generations hc' g hpos (heq ▸ hle)
  · obtain ⟨hvalid, c, hb, hle⟩ := h.sources hs
    obtain ⟨c', hc', hle'⟩ := hcoordinators hb
    exact ⟨hvalid, c', hc', hle.trans hle'⟩
  · by_cases hkey : (b, a) = (beneficiaryId, attemptId)
    · obtain ⟨rfl, rfl⟩ := Prod.mk.inj hkey
      rw [Coverage.begun, AList.lookup_insert] at ha
      obtain rfl := Option.some.inj ha
      have hpos : 1 ≤ coordinator.sourceSetGeneration :=
        lt_of_le_of_ne (h.counted hc) hne.symm
      have hnew : (newAttempt store coordinator b epoch expectedRevision).Sound store b :=
        ⟨⟨coordinator, hc, hpos, le_rfl⟩, congrArg bindingsJson (h.bindingsOf hc),
          .unfinished nofun rfl rfl rfl⟩
      exact hnew.later hlater
    · obtain ⟨f, hf, hlookup⟩ := @lookup_supersedeCurrent store beneficiaryId
        coordinator.currentAttemptId (b, a)
      rw [Coverage.begun, AList.lookup_insert_ne hkey, hlookup] at ha
      obtain ⟨attempt', ha', rfl⟩ := Option.map_eq_some_iff.mp ha
      have hsound := (h.attempts ha').later hlater
      rcases hf attempt' with heq | heq
      · rw [heq]
        exact hsound
      · rw [heq]
        exact hsound.supersede

variable {ticket : CollectionTicket} {evidence : String} {l : Observations} {result : Json}
  {projection : CoverageProjection} {revision : Int} {projections : Projections}

theorem lookup_finished_coordinators {b : String} :
    (finished store ticket evidence result revision projections).coordinators.lookup b =
      (store.coordinators.lookup b).map fun c =>
        if b = ticket.beneficiaryId ∧ c.currentAttemptId = some ticket.attemptId then
          { c with currentAttemptId := none }
        else c := by
  simp only [finished, Table.lookup_modify]
  split
  · next heq => simp [heq]
  · next hne => simp [hne]

theorem Store.Sound.finished (h : store.Sound)
    (ha : store.attempts.lookup (ticket.beneficiaryId, ticket.attemptId) = some attempt)
    (hrow : collectionTicketFromRow ticket.beneficiaryId ticket.attemptId attempt =
      .ok (ticket.storedAs attempt))
    (hstatus : attempt.status = .pending) (hevidence : ¬ isBlank evidence)
    (hcollection : canonicalCollection ticket.beneficiaryId ticket.sourceBindings l.1 evidence =
      .ok (result, projection)) :
    (finished store ticket evidence result revision projections).Sound ∧
      Later store (finished store ticket evidence result revision projections) := by
  have hgeneration : ∀ {b : String} (c : Coordinator),
      (if b = ticket.beneficiaryId ∧ c.currentAttemptId = some ticket.attemptId then
        { c with currentAttemptId := none } else c).sourceSetGeneration =
          c.sourceSetGeneration := by
    intro b c
    split <;> rfl
  have hlater : Later store (Coverage.finished store ticket evidence result revision
      projections) := by
    refine ⟨fun {b c} hb => ?_, fun _ _ _ => rfl, fun {key attempt'} ha' hcompleted => ?_⟩
    · rw [lookup_finished_coordinators, hb]
      exact ⟨_, rfl, (hgeneration c).ge⟩
    · have hkey : key ≠ (ticket.beneficiaryId, ticket.attemptId) := by
        rintro rfl
        obtain rfl := Option.some.inj (ha.symm.trans ha')
        rw [hstatus] at hcompleted
        cases hcompleted
      rw [Coverage.finished, Table.lookup_modify_of_ne hkey]
      exact ha'
  have hbindings : ticket.sourceBindings =
      store.bindingsUpTo ticket.beneficiaryId attempt.sourceSetGeneration :=
    congrArg CollectionTicket.sourceBindings (Except.ok.inj (hrow.symm.trans (h.ticket ha)))
  refine ⟨⟨fun {b c} hb => ?_, fun {b c} hb g hpos hle => ?_, fun {sourceId source} hs => ?_,
    fun {b a attempt'} ha' => ?_⟩, hlater⟩
  · rw [lookup_finished_coordinators] at hb
    obtain ⟨c', hc', rfl⟩ := Option.map_eq_some_iff.mp hb
    rw [hgeneration]
    exact h.counted hc'
  · rw [lookup_finished_coordinators] at hb
    obtain ⟨c', hc', rfl⟩ := Option.map_eq_some_iff.mp hb
    rw [hgeneration] at hle
    exact h.generations hc' g hpos hle
  · obtain ⟨hvalid, c, hb, hle⟩ := h.sources hs
    obtain ⟨c', hc', hle'⟩ := hlater.coordinators hb
    exact ⟨hvalid, c', hc', hle.trans hle'⟩
  · by_cases hkey : (b, a) = (ticket.beneficiaryId, ticket.attemptId)
    · obtain ⟨rfl, rfl⟩ := Prod.mk.inj hkey
      rw [Coverage.finished, Table.lookup_modify_self, ha] at ha'
      obtain rfl := Option.some.inj ha'
      have hsound := h.attempts ha
      rw [hbindings] at hcollection
      have hnew : (attempt.complete evidence result revision).Sound store ticket.beneficiaryId :=
        ⟨hsound.generation, hsound.bindings,
          .completed rfl hevidence hcollection rfl rfl rfl⟩
      exact hnew.later hlater
    · rw [Coverage.finished, Table.lookup_modify_of_ne hkey] at ha'
      exact (h.attempts ha').later hlater

end Attempts

/-! ### Runs -/

theorem publish_of_ok {expectedRevision : Option Int} {operationId evidence : String}
    {projection : CoverageProjection} {receipt : PublicationReceipt}
    (h : store.publish beneficiaryId expectedRevision operationId evidence projection =
      .ok (receipt, store')) :
    ∃ projections, Coverage.publish store.projections beneficiaryId expectedRevision operationId
        evidence projection = .ok (receipt, projections) ∧
      store' = { store with projections := projections } := by
  obtain ⟨⟨receipt', projections⟩, hpublish, h⟩ := bind_eq_ok.mp h
  obtain ⟨rfl, rfl⟩ := Prod.mk.inj (pure_eq_ok.mp h)
  exact ⟨projections, mapError_eq_ok.mp hpublish, rfl⟩

theorem Store.Sound.registers {operationId : String} {receipt : RegistrationReceipt}
    (h : store.Sound) (hr : Registers store operationId binding receipt store') :
    store'.Sound ∧ Later store store' := by
  cases hr with
  | again => exact h.insertCoordinator _
  | new _ hvalid hc _ _ _ hfree _ hgeneration => exact h.registered hvalid hc hfree hgeneration

theorem Store.Sound.begins {attemptId : String} {ticket : CollectionTicket} (h : store.Sound)
    (hb : Begins store beneficiaryId attemptId ticket store') :
    store'.Sound ∧ Later store store' := by
  cases hb with
  | again => exact ⟨h, .refl store⟩
  | new _ _ hc hnone _ hne => exact h.begun hc hnone hne

theorem Store.Sound.finishes {ticket : CollectionTicket} {evidence : String} {l : Observations}
    {receipt : ReconciliationReceipt} (h : store.Sound)
    (hf : Finishes store ticket evidence l.1 receipt store') : store'.Sound ∧ Later store store' := by
  cases hf with
  | again => exact ⟨h, .refl store⟩
  | new _ ha hrow hstatus _ _ hevidence hcollection =>
    exact h.finished ha hrow hstatus hevidence hcollection

/-- A call keeps the tables sound. -/
theorem Store.Sound.perform (h : store.Sound) (call : Call) :
    (call.perform store).Sound ∧ Later store (call.perform store) := by
  have hfail : store.Sound ∧ Later store store := ⟨h, .refl store⟩
  cases call with
  | publish beneficiaryId expectedRevision operationId evidence projection =>
    rw [Call.perform]
    cases hcall : store.publish beneficiaryId expectedRevision operationId evidence projection with
    | error e => exact hfail
    | ok result =>
      obtain ⟨projections, -, hstore⟩ := publish_of_ok hcall
      rw [committed, hstore]
      exact ⟨h.withProjections projections, (Later.refl store).withProjections projections⟩
  | registerSource operationId binding =>
    rw [Call.perform]
    cases hcall : Coverage.registerSource store operationId binding with
    | error e => exact hfail
    | ok result => exact h.registers (registers_of_ok hcall)
  | beginCollection beneficiaryId attemptId =>
    rw [Call.perform]
    cases hcall : Coverage.beginCollection store beneficiaryId attemptId with
    | error e => exact hfail
    | ok result => exact h.begins (begins_of_ok hcall)
  | finishCollection ticket evidence l =>
    rw [Call.perform]
    cases hcall : Coverage.finishCollection store ticket evidence l.1 with
    | error e => exact hfail
    | ok result => exact h.finishes (finishes_of_ok hcall)

theorem Store.Sound.empty : Store.empty.Sound where
  counted h := by cases h
  generations h := by cases h
  sources h := by cases h
  attempts h := by cases h

/-- Calls keep the tables sound. -/
theorem Store.Sound.run (h : store.Sound) (calls : List Call) :
    (store.run calls).Sound ∧ Later store (store.run calls) := by
  induction calls generalizing store with
  | nil => exact ⟨h, .refl store⟩
  | cons call calls ih =>
    obtain ⟨hstep, hlater⟩ := h.perform call
    obtain ⟨hrun, hlater'⟩ := ih hstep
    exact ⟨hrun, hlater.trans hlater'⟩

end Sources

end Coverage

end Sotto
