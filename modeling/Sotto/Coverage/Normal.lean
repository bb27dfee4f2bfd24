import Sotto.Coverage.Facts

/-!
# What the normalisation accepts

The normalisation succeeds on the facts that are valid one by one and agree in pairs. What it
gives is the one list in strict order that has the same facts.
-/

namespace Sotto

namespace Coverage

open Checked

/-- The facts of the person. -/
def PersonCoverage.facts (coverage : PersonCoverage) : Set ConfirmedPaidInterval :=
  {f | f ∈ coverage.paidIntervals}

/-- What the normalisation checks of a fact alone. -/
structure ConfirmedPaidInterval.Valid (f : ConfirmedPaidInterval) : Prop where
  coverage : ¬ isBlank f.coverageId
  source : ¬ isBlank f.sourceId
  interval : f.startsAt < f.paidUntil
  renewal : ∀ r ∈ f.failedRenewalId,
    ¬ isBlank r ∧ ∃ deadline, checkedAdd f.paidUntil renewalRecoverySeconds = some deadline

/-- What the normalisation checks of the facts together. -/
structure Consistent (facts : Set ConfirmedPaidInterval) : Prop where
  valid : ∀ f ∈ facts, f.Valid
  coverage : ∀ f ∈ facts, ∀ g ∈ facts, f.coverageId = g.coverageId → f = g
  renewal : ∀ f ∈ facts, ∀ g ∈ facts, ∀ r ∈ f.failedRenewalId, r ∈ g.failedRenewalId →
    f.identity = g.identity

/-- The maps of the normalisation record the facts. -/
structure Normalising.Records (maps : Normalising) (facts : Set ConfirmedPaidInterval) :
    Prop where
  unique : ∀ id f, maps.unique.lookup id = some f ↔ f ∈ facts ∧ f.coverageId = id
  values : ∀ f, f ∈ maps.unique.map Prod.snd ↔ f ∈ facts
  once : (maps.unique.map fun e => e.2.coverageId).Nodup
  renewals : ∀ r i, maps.renewalIdentity.lookup r = some i ↔
    ∃ f ∈ facts, f.failedRenewalId = some r ∧ f.identity = i

theorem Consistent.mono {F G : Set ConfirmedPaidInterval} (h : Consistent G) (hFG : F ⊆ G) :
    Consistent F where
  valid f hf := h.valid f (hFG hf)
  coverage f hf g hg := h.coverage f (hFG hf) g (hFG hg)
  renewal f hf g hg := h.renewal f (hFG hf) g (hFG hg)

theorem Consistent.nil : Consistent {f | f ∈ []} where
  valid _ hf := absurd hf List.not_mem_nil
  coverage _ hf := absurd hf List.not_mem_nil
  renewal _ hf := absurd hf List.not_mem_nil

theorem Normalising.Records.nil : Normalising.Records ⟨[], []⟩ {f | f ∈ []} where
  unique _ _ := by simp
  values _ := by simp
  once := by simp
  renewals _ _ := by simp

variable {maps maps' : Normalising} {facts F G : Set ConfirmedPaidInterval}
  {f : ConfirmedPaidInterval}

theorem recordRenewal_eq_ok {renewals renewals' : List (String × RenewalIdentity)}
    {renewal : Option String} : recordRenewal f renewals renewal = .ok renewals' ↔
      (∀ r ∈ renewal, (¬ isBlank r ∧
        ∃ deadline, checkedAdd f.paidUntil renewalRecoverySeconds = some deadline) ∧
        ∀ previous ∈ renewals.lookup r, previous = f.identity) ∧
      renewals' = (renewal.map fun r => (r, f.identity)).toList ++ renewals := by
  cases renewal with
  | none =>
    constructor
    · intro h
      cases h
      exact ⟨fun r hr => (by cases hr), rfl⟩
    · rintro ⟨-, rfl⟩
      rfl
  | some r =>
    simp only [recordRenewal, bind_eq_ok, require_eq_ok, okOr_eq_ok, pure_eq_ok, Option.mem_def,
      Option.some.injEq, forall_eq', Option.map_some, Option.toList_some, List.singleton_append]
    constructor
    · rintro ⟨_, hblank, _, hprevious, deadline, hdeadline, rfl⟩
      exact ⟨⟨⟨hblank, deadline, hdeadline⟩, hprevious⟩, rfl⟩
    · rintro ⟨⟨⟨hblank, deadline, hdeadline⟩, hprevious⟩, rfl⟩
      exact ⟨(), hblank, (), hprevious, deadline, hdeadline, rfl⟩

theorem recordUnique_eq_ok {unique unique' : List (String × ConfirmedPaidInterval)} :
    recordUnique f unique = .ok unique' ↔
      (∀ previous ∈ unique.lookup f.coverageId, previous = f) ∧
      unique' = if (unique.lookup f.coverageId).isSome then unique
        else (f.coverageId, f) :: unique := by
  simp only [recordUnique, bind_eq_ok, require_eq_ok, exists_const, and_congr_right_iff]
  intro _
  split
  · exact pure_eq_ok.trans eq_comm
  · exact pure_eq_ok.trans eq_comm

theorem normaliseInterval_eq_ok : normaliseInterval maps f = .ok maps' ↔
    f.Valid ∧ (∀ previous ∈ maps.unique.lookup f.coverageId, previous = f) ∧
    (∀ r ∈ f.failedRenewalId, ∀ previous ∈ maps.renewalIdentity.lookup r,
      previous = f.identity) ∧
    maps' = ⟨if (maps.unique.lookup f.coverageId).isSome then maps.unique
        else (f.coverageId, f) :: maps.unique,
      (f.failedRenewalId.map fun r => (r, f.identity)).toList ++ maps.renewalIdentity⟩ := by
  simp only [normaliseInterval, bind_eq_ok, require_eq_ok, recordRenewal_eq_ok,
    recordUnique_eq_ok, pure_eq_ok]
  constructor
  · rintro ⟨_, hc, _, hs, _, hi, _, ⟨hr, rfl⟩, _, ⟨hu, rfl⟩, rfl⟩
    exact ⟨⟨hc, hs, hi, fun r h => (hr r h).1⟩, hu, fun r h => (hr r h).2, rfl⟩
  · rintro ⟨⟨hc, hs, hi, hr⟩, hu, hp, rfl⟩
    exact ⟨(), hc, (), hs, (), hi, _, ⟨fun r h => ⟨hr r h, hp r h⟩, rfl⟩, _, ⟨hu, rfl⟩, rfl⟩

/-- A fact is accepted if it is consistent with those before it. -/
theorem consistent_insert_iff (hmaps : maps.Records facts) (hfacts : Consistent facts) :
    (∃ maps', normaliseInterval maps f = .ok maps') ↔ Consistent (insert f facts) := by
  simp only [normaliseInterval_eq_ok, exists_and_left, exists_eq, and_true]
  constructor
  · rintro ⟨hf, hu, hr⟩
    have hcoverage : ∀ g ∈ facts, g.coverageId = f.coverageId → g = f := fun g hg hgf =>
      hu g ((hmaps.unique _ _).mpr ⟨hg, hgf⟩)
    have hrenewal : ∀ g ∈ facts, ∀ r ∈ f.failedRenewalId, r ∈ g.failedRenewalId →
        g.identity = f.identity := fun g hg r hfr hgr =>
      hr r hfr _ ((hmaps.renewals _ _).mpr ⟨g, hg, hgr, rfl⟩)
    constructor
    · rintro g (rfl | hg)
      · exact hf
      · exact hfacts.valid g hg
    · rintro g (rfl | hg) k (rfl | hk) hgk
      · rfl
      · exact (hcoverage k hk hgk.symm).symm
      · exact hcoverage g hg hgk
      · exact hfacts.coverage g hg k hk hgk
    · rintro g (rfl | hg) k (rfl | hk) r hgr hkr
      · rfl
      · exact (hrenewal k hk r hgr hkr).symm
      · exact hrenewal g hg r hkr hgr
      · exact hfacts.renewal g hg k hk r hgr hkr
  · intro h
    have hf := Set.mem_insert f facts
    refine ⟨h.valid f hf, fun g hg => ?_, fun r hr i hi => ?_⟩
    · obtain ⟨hg, hgf⟩ := (hmaps.unique _ _).mp hg
      exact h.coverage g (Set.mem_insert_of_mem f hg) f hf hgf
    · obtain ⟨g, hg, hgr, rfl⟩ := (hmaps.renewals _ _).mp hi
      exact h.renewal g (Set.mem_insert_of_mem f hg) f hf r hgr hr

theorem Normalising.Records.renewalsInsert (hmaps : maps.Records facts)
    (hinsert : Consistent (insert f facts)) (r : String) (i : RenewalIdentity) :
    ((f.failedRenewalId.map fun r => (r, f.identity)).toList ++ maps.renewalIdentity).lookup r =
      some i ↔ ∃ g ∈ insert f facts, g.failedRenewalId = some r ∧ g.identity = i := by
  have hf := Set.mem_insert f facts
  cases hrenewal : f.failedRenewalId with
  | none =>
    simp only [Option.map_none, Option.toList_none, List.nil_append, hmaps.renewals,
      Set.mem_insert_iff, exists_eq_or_imp, hrenewal, reduceCtorEq, false_and, false_or]
  | some r' =>
    simp only [Option.map_some, Option.toList_some, List.singleton_append, List.lookup_cons]
    by_cases hr : r = r'
    · subst hr
      simp only [beq_self_eq_true, Option.some.injEq]
      constructor
      · exact fun h => ⟨f, hf, hrenewal, h⟩
      · rintro ⟨g, hg, hgr, rfl⟩
        exact hinsert.renewal f hf g hg r hrenewal hgr
    · simp only [beq_eq_false_iff_ne.mpr hr, hmaps.renewals, Set.mem_insert_iff,
        exists_eq_or_imp, hrenewal, Option.some.injEq, Ne.symm hr, false_and, false_or]

theorem Normalising.Records.uniqueInsert (hmaps : maps.Records facts)
    (hinsert : Consistent (insert f facts)) :
    let unique := if (maps.unique.lookup f.coverageId).isSome then maps.unique
      else (f.coverageId, f) :: maps.unique
    (∀ id g, unique.lookup id = some g ↔ g ∈ insert f facts ∧ g.coverageId = id) ∧
      (∀ g, g ∈ unique.map Prod.snd ↔ g ∈ insert f facts) ∧
      (unique.map fun e => e.2.coverageId).Nodup := by
  have hf := Set.mem_insert f facts
  cases hlookup : maps.unique.lookup f.coverageId with
  | some g =>
    obtain ⟨hg, hgf⟩ := (hmaps.unique _ _).mp hlookup
    have hmem : f ∈ facts :=
      hinsert.coverage g (Set.mem_insert_of_mem f hg) f hf hgf ▸ hg
    simp only [Option.isSome_some, if_true, Set.insert_eq_of_mem hmem]
    exact ⟨hmaps.unique, hmaps.values, hmaps.once⟩
  | none =>
    have hfresh : ∀ g ∈ facts, g.coverageId ≠ f.coverageId := fun g hg hgf => by
      rw [(hmaps.unique _ g).mpr ⟨hg, hgf⟩] at hlookup
      cases hlookup
    simp only [Option.isSome_none, Bool.false_eq_true, if_false, List.lookup_cons, List.map_cons,
      List.mem_cons, Set.mem_insert_iff, hmaps.values, List.nodup_cons, true_and, implies_true]
    refine ⟨fun id g => ?_, fun hmem => ?_, hmaps.once⟩
    · by_cases hid : id = f.coverageId
      · subst hid
        simp only [beq_self_eq_true, Option.some.injEq]
        constructor
        · rintro rfl
          exact ⟨Or.inl rfl, rfl⟩
        · rintro ⟨rfl | hg, hgf⟩
          · rfl
          · exact absurd hgf (hfresh g hg)
      · simp only [beq_eq_false_iff_ne.mpr hid, hmaps.unique]
        constructor
        · exact fun h => ⟨Or.inr h.1, h.2⟩
        · rintro ⟨rfl | hg, hgf⟩
          · exact absurd hgf.symm hid
          · exact ⟨hg, hgf⟩
    · obtain ⟨e, he, hef⟩ := List.mem_map.mp hmem
      exact hfresh e.2 ((hmaps.values e.2).mp (List.mem_map_of_mem he)) hef

/-- The maps record the next fact. -/
theorem Normalising.Records.insert (hmaps : maps.Records facts)
    (hinsert : Consistent (insert f facts)) (h : normaliseInterval maps f = .ok maps') :
    maps'.Records (insert f facts) := by
  obtain ⟨-, -, -, rfl⟩ := normaliseInterval_eq_ok.mp h
  obtain ⟨hunique, hvalues, honce⟩ := hmaps.uniqueInsert hinsert
  exact ⟨hunique, hvalues, honce, hmaps.renewalsInsert hinsert⟩

theorem facts_append (l : List ConfirmedPaidInterval) (f : ConfirmedPaidInterval) :
    {g | g ∈ l ++ [f]} = insert f {g | g ∈ l} := by
  ext g
  simp only [Set.mem_ofPred_eq, List.mem_append, List.mem_singleton, Set.mem_insert_iff]
  exact or_comm

/-- The normalisation accepts consistent facts one by one, and records them. -/
theorem normaliseInterval_loop : Loop normaliseInterval (fun l => Consistent {f | f ∈ l})
    fun maps l => maps.Records {f | f ∈ l} where
  shorter l f h := h.mono fun _ hg => List.mem_append_left [f] hg
  step maps l f hmaps hl := by
    rw [facts_append]
    exact consistent_insert_iff hmaps hl
  next maps l f maps' hmaps hl h := by
    rw [facts_append] at hl ⊢
    exact hmaps.insert hl h

theorem ConfirmedPaidInterval.sortKey_injective :
    Function.Injective ConfirmedPaidInterval.sortKey := by
  intro f g h
  obtain ⟨c, s, a, b, r⟩ := f
  obtain ⟨c', s', a', b', r'⟩ := g
  simp only [sortKey, toLex_inj, Prod.mk.injEq] at h
  obtain ⟨rfl, rfl, rfl, h⟩ := h
  cases h
  rfl

theorem normaliseConfirmedIntervals_eq_ok {coverage : PersonCoverage}
    {unique : List ConfirmedPaidInterval} :
    normaliseConfirmedIntervals coverage = .ok unique ↔
      ¬ isBlank coverage.beneficiaryId ∧ Consistent coverage.facts ∧
        Ascends ConfirmedPaidInterval.sortKey unique ∧ ∀ f, f ∈ unique ↔ f ∈ coverage.facts := by
  have hloop := normaliseInterval_loop.foldlM coverage.paidIntervals .nil .nil
  rw [List.nil_append] at hloop
  have hresult : ∀ maps : Normalising, maps.Records coverage.facts →
      Ascends ConfirmedPaidInterval.sortKey
        (sortBy ConfirmedPaidInterval.sortKey (maps.unique.map Prod.snd)) ∧
      ∀ f, f ∈ sortBy ConfirmedPaidInterval.sortKey (maps.unique.map Prod.snd) ↔
        f ∈ coverage.facts := by
    intro maps hmaps
    refine ⟨ascends_sortBy ?_, fun f => mem_sortBy.trans (hmaps.values f)⟩
    have hnodup : (maps.unique.map Prod.snd).Nodup := by
      refine List.Nodup.of_map ConfirmedPaidInterval.coverageId ?_
      rw [List.map_map]
      exact hmaps.once
    exact hnodup.map ConfirmedPaidInterval.sortKey_injective
  simp only [normaliseConfirmedIntervals, bind_eq_ok, require_eq_ok, pure_eq_ok, exists_const]
  refine and_congr_right fun _ => ⟨?_, ?_⟩
  · rintro ⟨maps, hmaps, rfl⟩
    exact ⟨hloop.1.mp ⟨maps, hmaps⟩, hresult maps (hloop.2 maps hmaps)⟩
  · rintro ⟨hfacts, hunique, hmem⟩
    obtain ⟨maps, hmaps⟩ := hloop.1.mpr hfacts
    obtain ⟨hsorted, hsame⟩ := hresult maps (hloop.2 maps hmaps)
    exact ⟨maps, hmaps, hsorted.eq_of_mem_iff hunique fun f => (hsame f).trans (hmem f).symm⟩

end Coverage

end Sotto
