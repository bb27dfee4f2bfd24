import Mathlib.Data.List.Dedup
import Sotto.Properties.Replay
import Sotto.Properties.Revisions

/-!
# Complete projections cover the registered sources

A registration publishes an unavailable projection and supersedes the attempt in flight, and an
attempt that is finished holds the bindings of all sources. So a complete head was published by
the finish of an attempt, from observations of exactly the sources that are registered.
-/

namespace Sotto

namespace Coverage

open Checked Projections SourceObservation

/-- The tables of calls: only the current attempt is pending, and an allocation has one source. -/
structure Store.Coherent (store : Store) : Prop where
  sound : store.Sound
  projections : store.projections.Sound
  pending : ∀ {beneficiaryId attemptId attempt},
    store.attempts.lookup (beneficiaryId, attemptId) = some attempt →
    attempt.status = .pending → ∃ coordinator,
      store.coordinators.lookup beneficiaryId = some coordinator ∧
      coordinator.currentAttemptId = some attemptId
  allocations : ∀ {sourceId source sourceId' source'},
    store.sources.lookup sourceId = some source →
    store.sources.lookup sourceId' = some source' →
    source.providerNamespace = source'.providerNamespace →
    source.externalAllocationReference = source'.externalAllocationReference →
    sourceId = sourceId'

/-- Tables of which the later ones keep what sources are bound to and superseded attempts. -/
structure Store.Keeps (store store' : Store) : Prop where
  sources : ∀ {sourceId source}, store.sources.lookup sourceId = some source →
    ∃ source', store'.sources.lookup sourceId = some source' ∧
      sourceBindingFromRow (sourceId, source') = sourceBindingFromRow (sourceId, source)
  superseded : ∀ {key attempt}, store.attempts.lookup key = some attempt →
    attempt.status = .superseded → store'.attempts.lookup key = some attempt

section Covering

variable {store store' store'' : Store} {projections projections' : Projections}
  {beneficiaryId : String} {expectedRevision : Option Int} {operationId evidence : String}
  {projection : CoverageProjection} {receipt : PublicationReceipt}

theorem Store.Keeps.refl (store : Store) : store.Keeps store :=
  ⟨fun h => ⟨_, h, rfl⟩, fun h _ => h⟩

theorem Store.Keeps.trans (h : store.Keeps store') (h' : store'.Keeps store'') :
    store.Keeps store'' where
  sources hs := by
    obtain ⟨source', hs', heq⟩ := h.sources hs
    obtain ⟨source'', hs'', heq'⟩ := h'.sources hs'
    exact ⟨source'', hs'', heq'.trans heq⟩
  superseded ha hstatus := h'.superseded (h.superseded ha hstatus) hstatus

theorem supersede_of_superseded {attempt : Attempt} (h : attempt.status = .superseded) :
    attempt.supersede = attempt := by
  rw [Attempt.supersede, if_neg]
  rw [h]
  intro hpending
  cases hpending

theorem status_supersede (attempt : Attempt) : attempt.supersede.status ≠ .pending := by
  unfold Attempt.supersede
  split
  · nofun
  · assumption

/-! ### Publications at the head -/

theorem currentRevision_eq_ok
    (hcurrent : projections.currentRevision beneficiaryId = .ok expectedRevision) :
    expectedRevision.getD 0 = projections.latest beneficiaryId := by
  obtain ⟨⟨⟩, -, hcurrent⟩ := bind_eq_ok.mp hcurrent
  cases hhead : projections.heads.lookup beneficiaryId with
  | none =>
    rw [hhead] at hcurrent
    obtain rfl := pure_eq_ok.mp hcurrent
    rw [Projections.latest, hhead]
    rfl
  | some head =>
    cases head with
    | none =>
      rw [hhead] at hcurrent
      cases hcurrent
    | some revision =>
      rw [hhead] at hcurrent
      obtain rfl := pure_eq_ok.mp hcurrent
      rw [Projections.latest, hhead]
      rfl

theorem expectedRevision_of_loadOperation {row : Revision} {stored : StoredOperation} {n : Int}
    (h : loadOperation projections beneficiaryId n row = .ok stored) :
    row.expectedRevision = stored.expectedRevision := by
  obtain ⟨metadata, -, h⟩ := bind_eq_ok.mp h
  obtain ⟨⟨⟩, -, h⟩ := bind_eq_ok.mp h
  rw [← pure_eq_ok.mp h]

/-- A publication that expects the current revision adds the next one. -/
theorem add_of_publish (h : projections.Sound)
    (hcurrent : projections.currentRevision beneficiaryId = .ok expectedRevision)
    (hpublish : Coverage.publish projections beneficiaryId expectedRevision operationId evidence
      projection = .ok (receipt, projections')) :
    ∃ canonical, canonicalProjection beneficiaryId projection = .ok canonical ∧
      receipt.outcome = .applied ∧
      (⟨beneficiaryId, expectedRevision, operationId, evidence, projection⟩ :
        Publication).Recorded projections' canonical receipt.revision ∧
      projections'.heads.lookup beneficiaryId = some (some receipt.revision) ∧
      projections.Extends projections' ∧
      ∀ b ≠ beneficiaryId, projections'.heads.lookup b = projections.heads.lookup b := by
  have hlatest := currentRevision_eq_ok hcurrent
  obtain ⟨canonical, hvalid, hp⟩ := @publishes_of_ok _ _
    ⟨beneficiaryId, expectedRevision, operationId, evidence, projection⟩ _ hpublish
  have hrecorded := recorded_of_publishes h hvalid hp
  obtain ⟨-, hextends⟩ := h.publishes hvalid hp
  cases hp with
  | @again key row hfound hload =>
    obtain ⟨hbeneficiary, hoperation, hrow⟩ := of_findOperation hfound
    rw [← Prod.mk.eta (p := key), hbeneficiary] at hrow
    have hexpected := h.expected hrow
    rw [expectedRevision_of_loadOperation hload, hlatest] at hexpected
    obtain ⟨-, hle⟩ := (h.numbered _ _).mp (Option.isSome_of_eq_some hrow)
    exact absurd (hexpected.trans_le hle) (by simp)
  | @new revision hfound hjoin hrevision hfree =>
    refine ⟨canonical, hvalid.canonical, rfl, hrecorded, lookup_add_heads.trans (if_pos rfl),
      hextends, fun b hb => lookup_add_heads.trans (if_neg hb)⟩

/-! ### Coherence -/

theorem Store.Coherent.insertCoordinator (h : store.Coherent) (beneficiaryId : String) :
    (store.insertCoordinator beneficiaryId).Coherent ∧
      store.Keeps (store.insertCoordinator beneficiaryId) := by
  refine ⟨⟨(h.sound.insertCoordinator beneficiaryId).1, h.projections, fun ha hstatus => ?_,
    h.allocations⟩, ⟨fun hs => ⟨_, hs, rfl⟩, fun ha _ => ha⟩⟩
  obtain ⟨c, hc, hcurrent⟩ := h.pending ha hstatus
  exact ⟨c, lookup_insertCoordinator.mpr (.inl hc), hcurrent⟩

theorem Store.Coherent.registers {operationId : String} {binding : SourceBinding}
    {receipt : RegistrationReceipt} (h : store.Coherent)
    (hr : Registers store operationId binding receipt store') :
    store'.Coherent ∧ store.Keeps store' := by
  obtain ⟨hsound, -⟩ := h.sound.registers hr
  cases hr with
  | again => exact h.insertCoordinator _
  | @new coordinator generation expectedRevision publication projections _ _ hc _ _ _ hfree hapart
      _ hpublish =>
    obtain ⟨canonical, hvalid, hp⟩ := @publishes_of_ok _ _
      ⟨binding.beneficiaryId, expectedRevision, s!"source-registration:{operationId}",
        binding.ownershipEvidenceReference, unavailableProjection⟩ _ hpublish
    have hold : ∀ {sourceId source}, store.sources.lookup sourceId = some source →
        sourceId ≠ binding.sourceId := by
      rintro sourceId source hs rfl
      rw [hfree] at hs
      cases hs
    refine ⟨⟨hsound, (h.projections.publishes hvalid hp).1, fun {b a attempt} ha hstatus => ?_,
      fun {sourceId source sourceId' source'} hs hs' hprovider hreference => ?_⟩,
      ⟨fun {sourceId source} hs => ?_, fun {key attempt} ha hstatus => ?_⟩⟩
    · rw [lookup_registered_attempts] at ha
      obtain ⟨attempt', ha', rfl⟩ := Option.map_eq_some_iff.mp ha
      split at hstatus
      · exact absurd hstatus (status_supersede attempt')
      · next hb =>
        obtain ⟨c, hc, hcurrent⟩ := h.pending ha' hstatus
        refine ⟨c, ?_, hcurrent⟩
        rw [lookup_registered_coordinators, if_neg hb]
        exact lookup_insertCoordinator.mpr (.inl hc)
    · rw [lookup_registered_sources] at hs hs'
      split at hs
      · next heq =>
        subst heq
        obtain rfl := Option.some.inj hs
        split at hs'
        · next heq' => exact heq'.symm
        · exact absurd ⟨hprovider.symm, hreference.symm⟩
            (hapart (sourceId', source') (Table.mem_rows.mpr hs'))
      · split at hs'
        · next heq' =>
          subst heq'
          obtain rfl := Option.some.inj hs'
          exact absurd ⟨hprovider, hreference⟩
            (hapart (sourceId, source) (Table.mem_rows.mpr hs))
        · exact h.allocations hs hs' hprovider hreference
    · exact ⟨source, lookup_registered_sources.trans ((if_neg (hold hs)).trans hs), rfl⟩
    · rw [lookup_registered_attempts, ha, Option.map_some, supersede_of_superseded hstatus, ite_self]

theorem lookup_supersedeCurrent_of_ne {current : Option String} {key : String × String}
    (h : ∀ attemptId, current = some attemptId → key ≠ (beneficiaryId, attemptId)) :
    (supersedeCurrent store beneficiaryId current).lookup key = store.attempts.lookup key := by
  cases current with
  | none => rfl
  | some previousAttemptId => exact Table.lookup_modify_of_ne (h _ rfl) _ _

theorem Store.Coherent.begins {attemptId : String} {ticket : CollectionTicket}
    (h : store.Coherent) (hb : Begins store beneficiaryId attemptId ticket store') :
    store'.Coherent ∧ store.Keeps store' := by
  obtain ⟨hsound, -⟩ := h.sound.begins hb
  cases hb with
  | again => exact ⟨h, .refl store⟩
  | @new coordinator expectedRevision epoch _ _ hc hnone _ _ _ _ =>
    have hkey : ∀ {key attempt}, store.attempts.lookup key = some attempt →
        key ≠ (beneficiaryId, attemptId) := by
      rintro key attempt ha rfl
      rw [hnone] at ha
      cases ha
    refine ⟨⟨hsound, h.projections, fun {b a attempt} ha hstatus => ?_, h.allocations⟩,
      ⟨fun {sourceId source} hs => ⟨source, hs, rfl⟩, fun {key attempt} ha hstatus => ?_⟩⟩
    · by_cases hnew : (b, a) = (beneficiaryId, attemptId)
      · obtain ⟨rfl, rfl⟩ := Prod.mk.inj hnew
        exact ⟨_, AList.lookup_insert _, rfl⟩
      · rw [Coverage.begun, AList.lookup_insert_ne hnew] at ha
        by_cases hcurrent : ∃ previous, coordinator.currentAttemptId = some previous ∧
            (b, a) = (beneficiaryId, previous)
        · obtain ⟨previous, hprevious, heq⟩ := hcurrent
          obtain ⟨rfl, rfl⟩ := Prod.mk.inj heq
          rw [hprevious, supersedeCurrent, Table.lookup_modify_self] at ha
          obtain ⟨attempt', -, rfl⟩ := Option.map_eq_some_iff.mp ha
          exact absurd hstatus (status_supersede attempt')
        · rw [lookup_supersedeCurrent_of_ne fun previous hprevious heq =>
            hcurrent ⟨previous, hprevious, heq⟩] at ha
          obtain ⟨c, hc', hpending⟩ := h.pending ha hstatus
          have hb : b ≠ beneficiaryId := by
            rintro rfl
            obtain rfl := Option.some.inj (hc.symm.trans hc')
            exact hcurrent ⟨a, hpending, rfl⟩
          exact ⟨c, (AList.lookup_insert_ne hb).trans hc', hpending⟩
    · obtain ⟨f, hf, hlookup⟩ := @lookup_supersedeCurrent store beneficiaryId
        coordinator.currentAttemptId key
      rw [Coverage.begun, AList.lookup_insert_ne (hkey ha), hlookup, ha, Option.map_some]
      rcases hf attempt with heq | heq
      · rw [heq]
      · rw [heq, supersede_of_superseded hstatus]

theorem Store.Coherent.finishes {ticket : CollectionTicket} {l : Observations}
    {receipt : ReconciliationReceipt} (h : store.Coherent)
    (hf : Finishes store ticket evidence l.1 receipt store') :
    store'.Coherent ∧ store.Keeps store' := by
  obtain ⟨hsound, -⟩ := h.sound.finishes hf
  cases hf with
  | again => exact ⟨h, .refl store⟩
  | @new coordinator attempt result projection publication projections hc ha _ hpending hcurrent _ _
      _ hpublish _ =>
    obtain ⟨canonical, hvalid, hp⟩ := @publishes_of_ok _ _
      ⟨ticket.beneficiaryId, ticket.expectedProjectionRevision,
        s!"collection:{ticket.attemptId}", evidence, projection⟩ _ hpublish
    refine ⟨⟨hsound, (h.projections.publishes hvalid hp).1, fun {b a attempt'} ha' hstatus => ?_,
      h.allocations⟩, ⟨fun {sourceId source} hs => ⟨source, hs, rfl⟩,
        fun {key attempt'} ha' hstatus => ?_⟩⟩
    · by_cases hkey : (b, a) = (ticket.beneficiaryId, ticket.attemptId)
      · obtain ⟨rfl, rfl⟩ := Prod.mk.inj hkey
        rw [Coverage.finished, Table.lookup_modify_self, ha] at ha'
        obtain rfl := Option.some.inj ha'
        cases hstatus
      · rw [Coverage.finished, Table.lookup_modify_of_ne hkey] at ha'
        obtain ⟨c, hc', hpending'⟩ := h.pending ha' hstatus
        have hb : b ≠ ticket.beneficiaryId := by
          rintro rfl
          obtain rfl := Option.some.inj (hc.symm.trans hc')
          obtain rfl := Option.some.inj (hcurrent.symm.trans hpending')
          exact hkey rfl
        exact ⟨c, (Table.lookup_modify_of_ne hb _ _).trans hc', hpending'⟩
    · have hkey : key ≠ (ticket.beneficiaryId, ticket.attemptId) := by
        rintro rfl
        obtain rfl := Option.some.inj (ha.symm.trans ha')
        rw [hpending] at hstatus
        cases hstatus
      exact (Table.lookup_modify_of_ne hkey _ _).trans ha'

/-- A call keeps the tables coherent. -/
theorem Store.Coherent.perform (h : store.Coherent) (call : Call) :
    (call.perform store).Coherent ∧ store.Keeps (call.perform store) := by
  have hfail : store.Coherent ∧ store.Keeps store := ⟨h, .refl store⟩
  cases call with
  | publish beneficiaryId expectedRevision operationId evidence projection =>
    rw [Call.perform]
    cases hcall : store.publish beneficiaryId expectedRevision operationId evidence projection with
    | error e => exact hfail
    | ok result =>
      obtain ⟨projections, hpublish, hstore⟩ := publish_of_ok hcall
      obtain ⟨canonical, hvalid, hp⟩ := @publishes_of_ok _ _
        ⟨beneficiaryId, expectedRevision, operationId, evidence, projection⟩ _ hpublish
      rw [committed, hstore]
      exact ⟨⟨h.sound.withProjections projections, (h.projections.publishes hvalid hp).1, h.pending,
        h.allocations⟩, ⟨fun hs => ⟨_, hs, rfl⟩, fun ha _ => ha⟩⟩
  | registerSource operationId binding =>
    rw [Call.perform]
    cases hcall : Coverage.registerSource store operationId binding with
    | error e => exact hfail
    | ok result => exact h.registers (registers_of_ok hcall)
  | beginCollection beneficiaryId attemptId =>
    rw [Call.perform]
    cases hcall : Coverage.beginCollection store beneficiaryId attemptId with
    | error e => exact hfail
    | ok result => exact h.begins (begins_of_ok hcall)
  | finishCollection ticket evidence l =>
    rw [Call.perform]
    cases hcall : Coverage.finishCollection store ticket evidence l.1 with
    | error e => exact hfail
    | ok result => exact h.finishes (finishes_of_ok hcall)

theorem Store.Coherent.empty : Store.empty.Coherent where
  sound := .empty
  projections := .empty
  pending h := by cases h
  allocations h := by cases h

/-- Calls keep the tables coherent. -/
theorem Store.Coherent.run (h : store.Coherent) (calls : List Call) :
    (store.run calls).Coherent ∧ store.Keeps (store.run calls) := by
  induction calls generalizing store with
  | nil => exact ⟨h, .refl store⟩
  | cons call calls ih =>
    obtain ⟨hstep, hkeeps⟩ := h.perform call
    obtain ⟨hrun, hkeeps'⟩ := ih hstep
    exact ⟨hrun, hkeeps.trans hkeeps'⟩

/-! ### Heads -/

/-- The current revision of a beneficiary is complete. -/
def Projections.HeadComplete (projections : Projections) (beneficiaryId : String) (n : Int) : Prop :=
  projections.heads.lookup beneficiaryId = some (some n) ∧ ∃ row,
    projections.revisions.lookup (beneficiaryId, n) = some row ∧ row.status = "complete"

theorem mem_bindingsOf {binding : SourceBinding} :
    binding ∈ bindingsOf store beneficiaryId ↔ ∃ source,
      store.sources.lookup binding.sourceId = some source ∧ source.beneficiaryId = beneficiaryId ∧
      sourceBindingFromRow (binding.sourceId, source) = binding := by
  simp only [bindingsOf, List.mem_map, mem_selectSources, decide_eq_true_eq, Prod.exists]
  constructor
  · rintro ⟨sourceId, source, ⟨hlookup, hsource⟩, rfl⟩
    exact ⟨source, hlookup, hsource, rfl⟩
  · rintro ⟨source, hlookup, hsource, hbinding⟩
    exact ⟨binding.sourceId, source, ⟨hlookup, hsource⟩, hbinding⟩

/-- A collection has one observation of each source. -/
theorem perm_sources {bindings : List SourceBinding} {l : List SourceObservation}
    {result : Json × CoverageProjection}
    (h : canonicalCollection beneficiaryId bindings l evidence = .ok result) :
    (l.map sourceId).Perm (bindings.map SourceBinding.sourceId) := by
  obtain ⟨⟨hlength, -⟩, ⟨-, hfit⟩, -⟩ := canonicalCollection_eq_ok.mp h
  have hmap : (l.map (normalForm beneficiaryId)).map sourceId = l.map sourceId := by
    rw [List.map_map]
    exact List.map_congr_left fun o _ => sourceId_normalForm o
  have honce := hfit.once
  rw [hmap] at honce
  have hsubset : l.map sourceId ⊆ bindings.map SourceBinding.sourceId := by
    intro s hs
    obtain ⟨o, ho, rfl⟩ := List.mem_map.mp hs
    have hexpected := hfit.expected _ (List.mem_map_of_mem ho)
    rw [sourceId_normalForm] at hexpected
    exact List.mem_dedup.mp hexpected
  refine (List.subperm_of_subset honce hsubset).perm_of_length_le ?_
  rw [List.length_map, List.length_map, hlength]

/-- A step that leaves the head and the sources of a beneficiary. -/
structure Store.Leaves (store store' : Store) (beneficiaryId : String) : Prop where
  head : store'.projections.heads.lookup beneficiaryId =
    store.projections.heads.lookup beneficiaryId
  extended : store.projections.Extends store'.projections
  bindings : bindingsOf store' beneficiaryId = bindingsOf store beneficiaryId

theorem Store.Leaves.refl (store : Store) (beneficiaryId : String) :
    store.Leaves store beneficiaryId :=
  ⟨rfl, .refl _, rfl⟩

theorem Store.Leaves.trans (h : store.Leaves store' beneficiaryId)
    (h' : store'.Leaves store'' beneficiaryId) : store.Leaves store'' beneficiaryId :=
  ⟨h'.head.trans h.head, h.extended.trans h'.extended, h'.bindings.trans h.bindings⟩

theorem Store.Leaves.headComplete {n : Int} (h : store.Leaves store' beneficiaryId)
    (hcoherent : store.Coherent) (hcomplete : store'.projections.HeadComplete beneficiaryId n) :
    store.projections.HeadComplete beneficiaryId n := by
  obtain ⟨hhead, row, hrow, hstatus⟩ := hcomplete
  rw [h.head] at hhead
  have hlatest : store.projections.latest beneficiaryId = n := by
    rw [Projections.latest, hhead]
    rfl
  have hne : store.projections.latest beneficiaryId ≠ 0 := by
    intro hzero
    have hnone := hcoherent.projections.heads beneficiaryId
    rw [if_pos hzero, hhead] at hnone
    cases hnone
  have hcount := hcoherent.projections.counted beneficiaryId
  obtain ⟨row', hrow'⟩ := Option.isSome_iff_exists.mp
    ((hcoherent.projections.numbered beneficiaryId n).mpr ⟨by omega, hlatest.ge⟩)
  obtain ⟨hkept, -⟩ := h.extended _ _ _ hrow'
  obtain rfl := Option.some.inj (hkept.symm.trans hrow)
  exact ⟨hhead, row', hrow', hstatus⟩

/-- The last call published the complete head, from observations of the registered sources. -/
structure Collects (store : Store) (beneficiaryId : String) (n : Int) (ticket : CollectionTicket)
    (evidence : String) (l : Observations) (store' : Store) : Prop where
  beneficiary : ticket.beneficiaryId = beneficiaryId
  finished : finishCollection store ticket evidence l.1 =
    .ok (⟨ticket.attemptId, n, .applied⟩, store')
  sources : (l.1.map sourceId).Perm
    ((bindingsOf store beneficiaryId).map SourceBinding.sourceId)
  collection : ∃ json projection, canonicalCollection beneficiaryId
    (bindingsOf store beneficiaryId) l.1 evidence = .ok (json, projection) ∧
    load store'.projections beneficiaryId = loadedForm beneficiaryId n projection
  bindings : bindingsOf store' beneficiaryId = bindingsOf store beneficiaryId

/-- A registration leaves the head of others, and an unavailable one of the beneficiary. -/
theorem Store.Coherent.leaves_of_registers {operationId : String} {binding : SourceBinding}
    {receipt : RegistrationReceipt} (h : store.Coherent)
    (hr : Registers store operationId binding receipt store') :
    store.Leaves store' beneficiaryId ∨
      ∀ n, ¬ store'.projections.HeadComplete beneficiaryId n := by
  cases hr with
  | again => exact .inl ⟨rfl, .refl _, rfl⟩
  | @new coordinator generation expectedRevision publication projections _ _ hc hcurrent _ _ hfree _
      _ hpublish =>
    obtain ⟨canonical, hcanonical, -, hrecorded, hhead, hextends, hothers⟩ :=
      add_of_publish h.projections (mapError_eq_ok.mp hcurrent) hpublish
    by_cases hb : beneficiaryId = binding.beneficiaryId
    · subst hb
      refine .inr fun n hcomplete => ?_
      obtain ⟨hhead', row, hrow, hstatus⟩ := hcomplete
      obtain rfl := Option.some.inj (Option.some.inj (hhead.symm.trans hhead'))
      obtain rfl := Option.some.inj (hrecorded.row.symm.trans hrow)
      obtain rfl := pure_eq_ok.mp hcanonical
      exact absurd (show "unavailable" = "complete" from hstatus) (by decide)
    · refine .inl ⟨hothers beneficiaryId hb, hextends, ?_⟩
      refine ascends_selectSources.eq_of_mem_iff ascends_selectSources fun b => ?_
      change b ∈ bindingsOf _ _ ↔ b ∈ bindingsOf _ _
      rw [mem_bindingsOf, mem_bindingsOf, lookup_registered_sources]
      split
      · next heq =>
        rw [heq, hfree]
        refine iff_of_false ?_ (by rintro ⟨s, hs, -⟩; cases hs)
        rintro ⟨s, hs, hbeneficiary, -⟩
        obtain rfl := Option.some.inj hs
        exact hb hbeneficiary.symm
      · rfl

theorem Store.Coherent.leaves_of_finishes {ticket : CollectionTicket} {l : Observations}
    {receipt : ReconciliationReceipt} (h : store.Coherent)
    (hcall : finishCollection store ticket evidence l.1 = .ok (receipt, store')) :
    store.Leaves store' beneficiaryId ∨
      Collects store beneficiaryId receipt.revision ticket evidence l store' ∧
      store'.projections.heads.lookup beneficiaryId = some (some receipt.revision) := by
  cases finishes_of_ok hcall with
  | again => exact .inl (.refl store beneficiaryId)
  | @new coordinator attempt result projection publication projections hc ha hrow _ _ hgeneration _
      hcollection hpublish hcurrent =>
    obtain ⟨canonical, -, houtcome, hrecorded, hhead, hextends, hothers⟩ :=
      add_of_publish h.projections (mapError_eq_ok.mp hcurrent) hpublish
    by_cases hb : beneficiaryId = ticket.beneficiaryId
    · subst hb
      have hbindings : ticket.sourceBindings = bindingsOf store ticket.beneficiaryId := by
        rw [h.sound.bindingsOf hc, hgeneration]
        exact congrArg CollectionTicket.sourceBindings
          (Except.ok.inj (hrow.symm.trans (h.sound.ticket ha)))
      have hlatest : projections.latest ticket.beneficiaryId = publication.revision := by
        rw [Projections.latest, hhead]
        rfl
      have hprojections : projections.Sound := by
        obtain ⟨_, hvalid, hp⟩ := @publishes_of_ok _ _
          ⟨ticket.beneficiaryId, ticket.expectedProjectionRevision,
            s!"collection:{ticket.attemptId}", evidence, projection⟩ _ hpublish
        exact (h.projections.publishes hvalid hp).1
      rw [hbindings] at hcollection
      refine .inr ⟨⟨rfl, ?_, perm_sources hcollection, ⟨result, projection, hcollection, load_of_latest hprojections hrecorded hlatest⟩, rfl⟩,
        hhead⟩
      rw [hcall, houtcome]
    · exact .inl ⟨hothers beneficiaryId hb, hextends, rfl⟩

/-- A call of the reconciliation, and not a publication of another component. -/
def Call.Reconciles : Call → Prop
  | publish .. => False
  | registerSource .. => True
  | beginCollection .. => True
  | finishCollection .. => True

/-- A call leaves the head, leaves none that is complete or is the finish that published it. -/
theorem Store.Coherent.leaves_of_perform (h : store.Coherent) {call : Call}
    (hcall : call.Reconciles) :
    store.Leaves (call.perform store) beneficiaryId ∨
      (∀ n, ¬ (call.perform store).projections.HeadComplete beneficiaryId n) ∨
      ∃ ticket evidence l n, call = .finishCollection ticket evidence l ∧
        Collects store beneficiaryId n ticket evidence l (call.perform store) ∧
        (call.perform store).projections.heads.lookup beneficiaryId = some (some n) := by
  have hfail : store.Leaves store beneficiaryId := .refl store beneficiaryId
  cases call with
  | publish => cases hcall
  | registerSource operationId binding =>
    rw [Call.perform]
    cases hperform : Coverage.registerSource store operationId binding with
    | error e => exact .inl hfail
    | ok result =>
      exact (h.leaves_of_registers (registers_of_ok hperform)).imp_right .inl
  | beginCollection b attemptId =>
    rw [Call.perform]
    cases hperform : Coverage.beginCollection store b attemptId with
    | error e => exact .inl hfail
    | ok result =>
      obtain ⟨ticket, store'⟩ := result
      cases begins_of_ok hperform with
      | again => exact .inl hfail
      | new => exact .inl ⟨rfl, .refl _, rfl⟩
  | finishCollection ticket evidence l =>
    rw [Call.perform]
    cases hperform : Coverage.finishCollection store ticket evidence l.1 with
    | error e => exact .inl hfail
    | ok result =>
      refine (h.leaves_of_finishes hperform).imp_right fun hcollects => .inr ?_
      exact ⟨ticket, evidence, l, _, rfl, hcollects⟩

/-- A complete head was published by the finish of an attempt. -/
theorem complete_of_run (calls : List Call) (hcalls : ∀ call ∈ calls, call.Reconciles)
    (beneficiaryId : String) (n : Int)
    (h : (Store.empty.run calls).projections.HeadComplete beneficiaryId n) :
    ∃ before ticket evidence l after,
      calls = before ++ .finishCollection ticket evidence l :: after ∧
      Collects (Store.empty.run before) beneficiaryId n ticket evidence l
        (Store.empty.run (before ++ [.finishCollection ticket evidence l])) ∧
      (Store.empty.run (before ++ [.finishCollection ticket evidence l])).Leaves
        (Store.empty.run calls) beneficiaryId := by
  induction calls using List.reverseRecOn with
  | nil => cases h.1
  | append_singleton calls call ih =>
    have hbefore : ∀ call ∈ calls, call.Reconciles :=
      fun call hcall => hcalls call (List.mem_append_left _ hcall)
    obtain ⟨hcoherent, -⟩ := Store.Coherent.empty.run calls
    have hrun : Store.empty.run (calls ++ [call]) = call.perform (Store.empty.run calls) :=
      List.foldl_append
    rw [hrun] at h ⊢
    rcases @Store.Coherent.leaves_of_perform _ beneficiaryId hcoherent call
      (hcalls call (by simp)) with hleaves | hnone | hfinish
    · obtain ⟨before, ticket, evidence, l, after, rfl, hcollects, hsince⟩ :=
        ih hbefore (hleaves.headComplete hcoherent h)
      exact ⟨before, ticket, evidence, l, after ++ [call], by simp, hcollects,
        hsince.trans hleaves⟩
    · exact absurd h (hnone n)
    · obtain ⟨ticket, evidence, l, n', rfl, hcollects, hhead⟩ := hfinish
      obtain rfl := Option.some.inj (Option.some.inj (hhead.symm.trans h.1))
      rw [← hrun] at hcollects ⊢
      exact ⟨calls, ticket, evidence, l, [], rfl, hcollects, .refl _ _⟩

end Covering

/-- A complete head was published from observations of exactly the registered sources, only the
current attempt is pending, a superseded attempt is never finished, and sources and allocations
stay bound to their beneficiaries. -/
theorem complete_covers_sources (calls : List Call) (hcalls : ∀ call ∈ calls, call.Reconciles)
    (beneficiaryId : String) :
    (∀ n, (Store.empty.run calls).projections.HeadComplete beneficiaryId n →
      ∃ before ticket evidence, ∃ l : Observations, ∃ after json projection,
        calls = before ++ .finishCollection ticket evidence l :: after ∧
        ticket.beneficiaryId = beneficiaryId ∧
        finishCollection (Store.empty.run before) ticket evidence l.1 =
          .ok (⟨ticket.attemptId, n, .applied⟩,
            Store.empty.run (before ++ [.finishCollection ticket evidence l])) ∧
        (l.1.map sourceId).Perm
          ((bindingsOf (Store.empty.run before) beneficiaryId).map SourceBinding.sourceId) ∧
        canonicalCollection beneficiaryId (bindingsOf (Store.empty.run before) beneficiaryId) l.1
          evidence = .ok (json, projection) ∧
        load (Store.empty.run calls).projections beneficiaryId =
          loadedForm beneficiaryId n projection ∧
        bindingsOf (Store.empty.run calls) beneficiaryId =
          bindingsOf (Store.empty.run before) beneficiaryId) ∧
    (∀ attemptId attempt,
      (Store.empty.run calls).attempts.lookup (beneficiaryId, attemptId) = some attempt →
      attempt.status = .pending → ∃ coordinator,
        (Store.empty.run calls).coordinators.lookup beneficiaryId = some coordinator ∧
        coordinator.currentAttemptId = some attemptId) ∧
    (∀ attemptId attempt,
      (Store.empty.run calls).attempts.lookup (beneficiaryId, attemptId) = some attempt →
      attempt.status = .superseded →
      ∀ (later : List Call) (ticket : CollectionTicket) (evidence : String) (l : Observations),
        ticket.beneficiaryId = beneficiaryId → ticket.attemptId = attemptId →
        (Call.finishCollection ticket evidence l).perform ((Store.empty.run calls).run later) =
          (Store.empty.run calls).run later) ∧
    ∀ sourceId source, (Store.empty.run calls).sources.lookup sourceId = some source →
      ∀ later : List Call, ∃ source',
        ((Store.empty.run calls).run later).sources.lookup sourceId = some source' ∧
        source'.beneficiaryId = source.beneficiaryId ∧
        source'.providerNamespace = source.providerNamespace ∧
        source'.externalAllocationReference = source.externalAllocationReference ∧
        ∀ sourceId' source'',
          ((Store.empty.run calls).run later).sources.lookup sourceId' = some source'' →
          source''.providerNamespace = source.providerNamespace →
          source''.externalAllocationReference = source.externalAllocationReference →
          sourceId' = sourceId := by
  obtain ⟨hcoherent, -⟩ := Store.Coherent.empty.run calls
  refine ⟨fun n hcomplete => ?_, fun attemptId attempt => hcoherent.pending,
    fun attemptId attempt ha hstatus later ticket evidence l hb hattempt => ?_,
    fun sourceId source hs later => ?_⟩
  · obtain ⟨before, ticket, evidence, l, after, hsplit, hcollects, hsince⟩ :=
      complete_of_run calls hcalls beneficiaryId n hcomplete
    obtain ⟨json, projection, hcollection, hload⟩ := hcollects.collection
    have hsound := (Store.Coherent.empty.run
      (before ++ [Call.finishCollection ticket evidence l])).1.projections
    exact ⟨before, ticket, evidence, l, after, json, projection, hsplit, hcollects.beneficiary,
      hcollects.finished, hcollects.sources, hcollection,
      (load_congr hsince.head hsince.extended hsound).trans hload,
      hsince.bindings.trans hcollects.bindings⟩
  · subst hb hattempt
    have hkept := (hcoherent.run later).2.superseded ha hstatus
    rw [Call.perform]
    cases hcall : finishCollection ((Store.empty.run calls).run later) ticket evidence l.1 with
    | error e => rfl
    | ok result =>
      obtain ⟨receipt, store'⟩ := result
      cases finishes_of_ok hcall with
      | again ha' _ hcompleted =>
        obtain rfl := Option.some.inj (hkept.symm.trans ha')
        rw [hstatus] at hcompleted
        cases hcompleted
      | new _ ha' _ hpending =>
        obtain rfl := Option.some.inj (hkept.symm.trans ha')
        rw [hstatus] at hpending
        cases hpending
  · obtain ⟨hlater, hkeeps⟩ := hcoherent.run later
    obtain ⟨source', hs', heq⟩ := hkeeps.sources hs
    have hprovider := congrArg SourceBinding.providerNamespace heq
    have hreference := congrArg SourceBinding.externalAllocationReference heq
    refine ⟨source', hs', congrArg SourceBinding.beneficiaryId heq, hprovider, hreference,
      fun sourceId' source'' hs'' hprovider' hreference' => ?_⟩
    exact hlater.allocations hs'' hs' (hprovider'.trans hprovider.symm)
      (hreference'.trans hreference.symm)

/-- The calls up to the finish of the attempt of one source. -/
def oneSourceFinished : List Call :=
  oneSourceCalls ++ [.finishCollection oneSourceTicket "evidence" oneSource]

theorem complete_covers_oneSource : ∃ before ticket evidence, ∃ l : Observations, ∃ after,
    oneSourceFinished = before ++ .finishCollection ticket evidence l :: after ∧
    (l.1.map sourceId).Perm
      ((bindingsOf (Store.empty.run before) "person").map SourceBinding.sourceId) := by
  have hcalls : ∀ call ∈ oneSourceFinished, call.Reconciles := by
    simp [oneSourceFinished, oneSourceCalls, Call.Reconciles]
  have hhead : (Store.empty.run oneSourceFinished).projections.heads.lookup "person" =
      some (some 2) := by
    decide +kernel
  have hstatus : ((Store.empty.run oneSourceFinished).projections.revisions.lookup
      ("person", 2)).map Revision.status = some "complete" := by
    decide +kernel
  obtain ⟨row, hrow, hcomplete⟩ := Option.map_eq_some_iff.mp hstatus
  obtain ⟨before, ticket, evidence, l, after, _, _, hsplit, -, -, hsources, -⟩ :=
    (complete_covers_sources oneSourceFinished hcalls "person").1 2 ⟨hhead, row, hrow, hcomplete⟩
  exact ⟨before, ticket, evidence, l, after, hsplit, hsources⟩

end Coverage

end Sotto
