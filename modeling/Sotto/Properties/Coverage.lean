import Sotto.Coverage.Meaning

/-!
# Coverage is evaluated as the union of its intervals

On facts that the normalisation accepts, an evaluation that succeeds says of the facts what their
intervals mean. It fails only where the end of the export window is out of the range of
timestamps. Only the set of the facts counts, and more facts give no less access.
-/

namespace Sotto

namespace Coverage

open Checked

variable {coverage : PersonCoverage} {l : List EligibleInterval}
  {facts : Set ConfirmedPaidInterval} {now e : Timestamp} {d : CoverageDecision}

theorem covers_union : Covers (eligibleSpans facts) now ↔
    Covers (paidSpans facts) now ∨ Covers (recoverySpans facts) now := by
  simp only [Covers, eligibleSpans, Set.mem_union, or_and_right, exists_or]

theorem paidNow_iff (h : Lists l facts) :
    (l.any fun i => i.kind = .paid ∧ i.span.Holds now) = true ↔ Covers (paidSpans facts) now := by
  simp only [List.any_eq_true, decide_eq_true_eq, Covers, h.paid]
  constructor
  · rintro ⟨i, hi, hkind, hnow⟩
    exact ⟨i.span, ⟨i, hi, hkind, rfl⟩, hnow⟩
  · rintro ⟨_, ⟨i, hi, hkind, rfl⟩, hnow⟩
    exact ⟨i, hi, hkind, hnow⟩

theorem recoveryUntil_eq_some (h : Lists l facts) :
    ((l.filter fun i => i.kind = .recovery ∧ i.span.Holds now).map EligibleInterval.endsAt).max? =
      some e ↔ IsGreatest (Span.ends '' {s | s ∈ recoverySpans facts ∧ s.Holds now}) e := by
  rw [List.max?_eq_some_iff]
  have hmem : ∀ y, y ∈ (l.filter fun i => i.kind = .recovery ∧ i.span.Holds now).map
      EligibleInterval.endsAt ↔ y ∈ Span.ends '' {s | s ∈ recoverySpans facts ∧ s.Holds now} := by
    intro y
    simp only [List.mem_map, List.mem_filter, decide_eq_true_eq, Set.mem_image, Set.mem_ofPred_eq,
      h.recovery]
    constructor
    · rintro ⟨i, ⟨hi, hkind, hnow⟩, rfl⟩
      exact ⟨i.span, ⟨⟨i, hi, hkind, rfl⟩, hnow⟩, rfl⟩
    · rintro ⟨_, ⟨⟨i, hi, hkind, rfl⟩, hnow⟩, rfl⟩
      exact ⟨i, ⟨hi, hkind, hnow⟩, rfl⟩
  simp only [hmem]
  rfl

/-- What an evaluation in an episode says. -/
def inEpisode (l : List EligibleInterval) (now : Timestamp) (current : Episode) :
    CoverageDecision :=
  let paidNow := l.any fun i => i.kind = .paid ∧ i.span.Holds now
  { state := if paidNow then .paid else .renewalRecovery
    activeUntil := some current.ends
    recoveryUntil := if paidNow then none else
      ((l.filter fun i => i.kind = .recovery ∧ i.span.Holds now).map EligibleInterval.endsAt).max?
    exportUntil := none }

/-- What an evaluation after the latest episode says. -/
def afterEpisode (now exportUntil : Timestamp) : CoverageDecision :=
  { state := if now < exportUntil then .exportOnly else .expired
    activeUntil := none
    recoveryUntil := none
    exportUntil := some exportUntil }

def noEpisode : CoverageDecision :=
  { state := .free, activeUntil := none, recoveryUntil := none, exportUntil := none }

theorem evaluate_of_current (hl : eligibleIntervals coverage = .ok l) {current : Episode}
    (h : (episodes l).find? (fun e => e.Holds now) = some current) :
    evaluate coverage now = .ok (inEpisode l now current) := by
  simp only [evaluate, hl, bind, Except.bind]
  rw [h]
  rfl

theorem evaluate_of_ended (hl : eligibleIntervals coverage = .ok l)
    (h : (episodes l).find? (fun e => e.Holds now) = none) {latestEnded : Episode}
    (hlatest : latest ((episodes l).filter fun e => e.ends ≤ now) = some latestEnded) :
    evaluate coverage now = (okOr (checkedAdd latestEnded.ends exportWindowSeconds)
      .exportDeadlineOverflow).map (afterEpisode now) := by
  simp only [evaluate, hl, bind, Except.bind]
  rw [h]
  simp only [hlatest]
  cases checkedAdd latestEnded.ends exportWindowSeconds <;> rfl

theorem evaluate_of_free (hl : eligibleIntervals coverage = .ok l)
    (h : (episodes l).find? (fun e => e.Holds now) = none)
    (hlatest : latest ((episodes l).filter fun e => e.ends ≤ now) = none) :
    evaluate coverage now = .ok noEpisode := by
  simp only [evaluate, hl, bind, Except.bind]
  rw [h]
  simp only [hlatest]
  rfl

theorem isGreatest_latest (h : Lists l facts) {latestEnded : Episode}
    (hlatest : latest ((episodes l).filter fun e => e.ends ≤ now) = some latestEnded) :
    IsGreatest (Span.Ended (eligibleSpans facts) now) latestEnded.ends := by
  obtain ⟨hmem, hle⟩ := (latest_spec _).2 _ hlatest
  simp only [List.mem_filter, decide_eq_true_eq] at hmem hle
  refine ⟨h.mem_ended.mpr ⟨hmem.2, latestEnded, hmem.1, rfl⟩, fun y hy => ?_⟩
  obtain ⟨hy, e, he, rfl⟩ := h.mem_ended.mp hy
  exact hle e ⟨he, hy⟩

theorem ended_eq_empty (h : Lists l facts)
    (hlatest : latest ((episodes l).filter fun e => e.ends ≤ now) = none) :
    Span.Ended (eligibleSpans facts) now = ∅ := by
  refine Set.eq_empty_of_forall_notMem fun y hy => ?_
  obtain ⟨hy, e, he, rfl⟩ := h.mem_ended.mp hy
  have hnil := (latest_spec _).1 hlatest
  have hmem : e ∈ (episodes l).filter fun e => e.ends ≤ now :=
    List.mem_filter.mpr ⟨he, decide_eq_true hy⟩
  rw [hnil] at hmem
  cases hmem

/-- The end of an episode that holds an instant is the end of the component there. -/
theorem ends_eq_iff (h : Lists l facts) {current : Episode} (hmem : current ∈ episodes l)
    (hnow : current.Holds now) : current.ends = e ↔
      ∃ s ∈ eligibleSpans facts, s.Holds now ∧ Span.IsEnd (eligibleSpans facts) s e := by
  rw [h.eligibleSpans_eq]
  obtain ⟨s, hs, hsnow, hend⟩ := h.swept.isEnd_of_holds h.starts_lt_ends hmem hnow
  constructor
  · rintro rfl
    exact ⟨s, hs, hsnow, hend⟩
  · rintro ⟨t, ht, htnow, hte⟩
    exact hend.eq_of_holds hs ht hsnow htnow hte

theorem means_inEpisode (h : Lists l facts) {current : Episode} (hmem : current ∈ episodes l)
    (hnow : current.Holds now) : (inEpisode l now current).Means facts now := by
  have hcovers : Covers (eligibleSpans facts) now := h.covers_iff.mpr ⟨current, hmem, hnow⟩
  have hpaid : _ ↔ Covers (paidSpans facts) now := paidNow_iff h
  have hnone : ∀ e, ¬ LatestEnd facts now e := fun e he => he.1 hcovers
  have hactive : ∀ e, some current.ends = some e ↔
      ∃ s ∈ eligibleSpans facts, s.Holds now ∧ Span.IsEnd (eligibleSpans facts) s e := fun e =>
    Option.some_inj.trans (ends_eq_iff h hmem hnow)
  by_cases hp : Covers (paidSpans facts) now
  · have hd : inEpisode l now current = ⟨.paid, some current.ends, none, none⟩ := by
      simp only [inEpisode, hpaid.mpr hp, if_true]
    rw [hd]
    exact ⟨by simp [hp], by simp [hp], by simp [hnone], by simp [hnone], by simp [hcovers],
      hactive, by simp [hp], by simp [hnone]⟩
  · have hr : Covers (recoverySpans facts) now := (covers_union.mp hcovers).resolve_left hp
    have hd : inEpisode l now current = ⟨.renewalRecovery, some current.ends,
        ((l.filter fun i => i.kind = .recovery ∧ i.span.Holds now).map
          EligibleInterval.endsAt).max?, none⟩ := by
      simp only [inEpisode, if_neg (mt hpaid.mp hp)]
    rw [hd]
    exact ⟨by simp [hp], by simp [hp, hr], by simp [hnone], by simp [hnone], by simp [hcovers],
      hactive, fun e => (recoveryUntil_eq_some h).trans (by simp [hp]), by simp [hnone]⟩

theorem not_covers_cases (h : ¬ Covers (eligibleSpans facts) now) :
    ¬ Covers (paidSpans facts) now ∧ ¬ Covers (recoverySpans facts) now :=
  not_or.mp (mt covers_union.mpr h)

theorem means_noEpisode (h : ¬ Covers (eligibleSpans facts) now)
    (hended : Span.Ended (eligibleSpans facts) now = ∅) : noEpisode.Means facts now := by
  obtain ⟨hp, hr⟩ := not_covers_cases h
  have hnone : ∀ e, ¬ LatestEnd facts now e := fun e he => by
    have hmem := he.2.1
    rw [hended] at hmem
    exact hmem
  have hout : ∀ s ∈ eligibleSpans facts, ¬ s.Holds now := fun s hs hnow => h ⟨s, hs, hnow⟩
  have hrout : ∀ s ∈ recoverySpans facts, ¬ s.Holds now := fun s hs hnow => hr ⟨s, hs, hnow⟩
  refine ⟨by simp [noEpisode, hp], by simp [noEpisode, hr], by simp [noEpisode, hnone],
    by simp [noEpisode, hnone], by simp [noEpisode, h, hended], fun e => ?_, fun e => ?_,
    by simp [noEpisode, hnone]⟩
  · simp only [noEpisode, reduceCtorEq, false_iff]
    rintro ⟨s, hs, hnow, -⟩
    exact hout s hs hnow
  · simp only [noEpisode, reduceCtorEq, false_iff]
    rintro ⟨-, ⟨s, ⟨hs, hnow⟩, -⟩, -⟩
    exact hrout _ hs hnow

theorem means_afterEpisode (h : ¬ Covers (eligibleSpans facts) now)
    (he : IsGreatest (Span.Ended (eligibleSpans facts) now) e) :
    (afterEpisode now (e + exportWindowSeconds)).Means facts now := by
  obtain ⟨hp, hr⟩ := not_covers_cases h
  have hlatest : ∀ {e'}, LatestEnd facts now e' ↔ e' = e := fun {e'} =>
    ⟨fun h' => h'.2.unique he, fun h' => h' ▸ ⟨h, he⟩⟩
  have hne : Span.Ended (eligibleSpans facts) now ≠ ∅ := Set.nonempty_iff_ne_empty.mp ⟨e, he.1⟩
  have hout : ∀ s ∈ eligibleSpans facts, ¬ s.Holds now := fun s hs hnow => h ⟨s, hs, hnow⟩
  have hrout : ∀ s ∈ recoverySpans facts, ¬ s.Holds now := fun s hs hnow => hr ⟨s, hs, hnow⟩
  unfold afterEpisode
  refine ⟨?_, ?_, ?_, ?_, ?_, fun e' => ?_, fun e' => ?_, fun e' => ?_⟩
  · split <;> simp [hp]
  · split <;> simp [hr]
  · split <;> simp_all
  · split <;> simp_all
  · split <;> simp [hne]
  · simp only [reduceCtorEq, false_iff]
    rintro ⟨s, hs, hnow, -⟩
    exact hout s hs hnow
  · simp only [reduceCtorEq, false_iff]
    rintro ⟨-, ⟨s, ⟨hs, hnow⟩, -⟩, -⟩
    exact hrout _ hs hnow
  · simp only [hlatest, exists_eq_left, Option.some.injEq]
    exact eq_comm

/-- The export window of the latest component that has ended goes out of the range of
timestamps. -/
def Overflows (facts : Set ConfirmedPaidInterval) (now : Timestamp) : Prop :=
  ∃ e, LatestEnd facts now e ∧ checkedAdd e exportWindowSeconds = none

/-- What an evaluation of facts that the normalisation accepts comes to. -/
theorem evaluate_cases {unique : List ConfirmedPaidInterval}
    (h : normaliseConfirmedIntervals coverage = .ok unique) (now : Timestamp) :
    (¬ Overflows coverage.facts now ∧
      ∃ d, evaluate coverage now = .ok d ∧ d.Means coverage.facts now) ∨
      Overflows coverage.facts now ∧
        evaluate coverage now = .error .exportDeadlineOverflow := by
  obtain ⟨l, hl, hlists⟩ := eligibleIntervals_of_normal h
  cases hfind : (episodes l).find? (fun e => e.Holds now) with
  | some current =>
    have hmem := List.mem_of_find?_eq_some hfind
    have hnow : current.Holds now := by simpa using List.find?_some hfind
    have hcovers := hlists.covers_iff.mpr ⟨current, hmem, hnow⟩
    exact Or.inl ⟨fun ⟨e, he, _⟩ => he.1 hcovers, _, evaluate_of_current hl hfind,
      means_inEpisode hlists hmem hnow⟩
  | none =>
    have hcovers : ¬ Covers (eligibleSpans coverage.facts) now := by
      rw [hlists.covers_iff]
      rintro ⟨e, he, hnow⟩
      exact List.find?_eq_none.mp hfind e he (decide_eq_true hnow)
    cases hlatest : latest ((episodes l).filter fun e => e.ends ≤ now) with
    | none =>
      have hended := ended_eq_empty hlists hlatest
      refine Or.inl ⟨fun ⟨e, he, _⟩ => ?_, _, evaluate_of_free hl hfind hlatest,
        means_noEpisode hcovers hended⟩
      have hmem := he.2.1
      rw [hended] at hmem
      exact hmem
    | some latestEnded =>
      have hend := isGreatest_latest hlists hlatest
      have heval := evaluate_of_ended hl hfind hlatest
      cases hadd : checkedAdd latestEnded.ends exportWindowSeconds with
      | none =>
        rw [hadd] at heval
        exact Or.inr ⟨⟨latestEnded.ends, ⟨hcovers, hend⟩, hadd⟩, heval⟩
      | some exportUntil =>
        rw [hadd] at heval
        refine Or.inl ⟨fun ⟨e, he, hnone⟩ => ?_, _, heval, ?_⟩
        · rw [he.2.unique hend, hadd] at hnone
          cases hnone
        · obtain ⟨rfl, -⟩ := checkedAdd_eq_some.mp hadd
          exact means_afterEpisode hcovers hend

theorem evaluate_of_invalid {e : InvalidCoverage}
    (h : normaliseConfirmedIntervals coverage = .error e) (now : Timestamp) :
    evaluate coverage now = .error e := by
  simp only [evaluate, eligibleIntervals, h, bind, Except.bind]

theorem normal_of_evaluate (h : evaluate coverage now = .ok d) :
    ∃ unique, normaliseConfirmedIntervals coverage = .ok unique := by
  cases hnormal : normaliseConfirmedIntervals coverage with
  | ok unique => exact ⟨unique, rfl⟩
  | error e =>
    rw [evaluate_of_invalid hnormal] at h
    cases h

theorem means_of_evaluate (h : evaluate coverage now = .ok d) : d.Means coverage.facts now := by
  obtain ⟨unique, hunique⟩ := normal_of_evaluate h
  rcases evaluate_cases hunique now with ⟨-, d', hd', hmeans⟩ | ⟨-, herror⟩
  · rw [h] at hd'
    cases hd'
    exact hmeans
  · rw [h] at herror
    cases herror

/-- Facts that the normalisation accepts are evaluated as the union of their intervals, unless
the end of the export window is out of range. -/
theorem evaluate_meaning (coverage : PersonCoverage) (unique : List ConfirmedPaidInterval)
    (h : normaliseConfirmedIntervals coverage = .ok unique) (now : Timestamp) :
    (¬ Overflows coverage.facts now →
      ∃ d, evaluate coverage now = .ok d ∧ d.Means coverage.facts now) ∧
      (Overflows coverage.facts now →
        evaluate coverage now = .error .exportDeadlineOverflow) := by
  rcases evaluate_cases h now with ⟨hfits, hd⟩ | ⟨hover, herror⟩
  · exact ⟨fun _ => hd, fun hover => absurd hover hfits⟩
  · exact ⟨fun hfits => absurd hover hfits, fun _ => herror⟩

/-- A person with a failed renewal and a later interval. -/
def renewed : PersonCoverage :=
  ⟨"person", [⟨"late", "source", 5000000, 6000000, none⟩,
    ⟨"early", "source", 0, 1000000, some "renewal"⟩]⟩

theorem evaluate_meaning_renewed :
    ∃ unique, normaliseConfirmedIntervals renewed = .ok unique ∧
      ((¬ Overflows renewed.facts 1500000 →
        ∃ d, evaluate renewed 1500000 = .ok d ∧ d.Means renewed.facts 1500000) ∧
        (Overflows renewed.facts 1500000 →
          evaluate renewed 1500000 = .error .exportDeadlineOverflow)) :=
  ⟨renewed.paidIntervals.reverse, by decide +kernel,
    evaluate_meaning renewed renewed.paidIntervals.reverse (by decide +kernel) 1500000⟩

/-- A person whose coverage lasts as long as timestamps do. -/
def lasting : PersonCoverage :=
  ⟨"person", [⟨"coverage", "source", 0, 2 ^ 63 - 1, none⟩]⟩

theorem evaluate_meaning_lasting : ¬ ∀ coverage unique now,
    normaliseConfirmedIntervals coverage = .ok unique →
      ∃ d, evaluate coverage now = .ok d ∧ d.Means coverage.facts now := by
  intro h
  obtain ⟨d, hd, -⟩ := h lasting lasting.paidIntervals (2 ^ 63 - 1) (by decide +kernel)
  have herror : evaluate lasting (2 ^ 63 - 1) = .error .exportDeadlineOverflow := by
    decide +kernel
  rw [herror] at hd
  cases hd

theorem evaluate_congr {coverage' : PersonCoverage}
    (h : normaliseConfirmedIntervals coverage = normaliseConfirmedIntervals coverage') :
    evaluate coverage now = evaluate coverage' now := by
  simp only [evaluate, eligibleIntervals, h]

theorem normalise_congr {beneficiaryId : String} {F G : List ConfirmedPaidInterval}
    (hFG : ∀ f, f ∈ F ↔ f ∈ G) {unique : List ConfirmedPaidInterval}
    (h : normaliseConfirmedIntervals ⟨beneficiaryId, F⟩ = .ok unique) :
    normaliseConfirmedIntervals ⟨beneficiaryId, G⟩ = .ok unique := by
  have hfacts : PersonCoverage.facts ⟨beneficiaryId, F⟩ = PersonCoverage.facts ⟨beneficiaryId, G⟩ :=
    Set.ext hFG
  rw [normaliseConfirmedIntervals_eq_ok] at h ⊢
  rw [← hfacts]
  exact h

theorem evaluate_of_same {beneficiaryId : String} {F G : List ConfirmedPaidInterval}
    (hFG : ∀ f, f ∈ F ↔ f ∈ G) (h : evaluate ⟨beneficiaryId, F⟩ now = .ok d) :
    evaluate ⟨beneficiaryId, G⟩ now = .ok d := by
  obtain ⟨unique, hunique⟩ := normal_of_evaluate h
  rw [← h]
  exact evaluate_congr ((normalise_congr hFG hunique).trans hunique.symm)

/-- Lists with the same facts, in any order and each any number of times, are evaluated alike,
and so is the normalised list. -/
theorem normalisation_canonical (beneficiaryId : String) (F G : List ConfirmedPaidInterval)
    (hFG : ∀ f, f ∈ F ↔ f ∈ G) :
    (∀ unique, normaliseConfirmedIntervals ⟨beneficiaryId, F⟩ = .ok unique ↔
      normaliseConfirmedIntervals ⟨beneficiaryId, G⟩ = .ok unique) ∧
    (∀ now d, evaluate ⟨beneficiaryId, F⟩ now = .ok d ↔
      evaluate ⟨beneficiaryId, G⟩ now = .ok d) ∧
    ∀ unique, normaliseConfirmedIntervals ⟨beneficiaryId, F⟩ = .ok unique →
      normaliseConfirmedIntervals ⟨beneficiaryId, unique⟩ = .ok unique ∧
      ∀ now, evaluate ⟨beneficiaryId, unique⟩ now = evaluate ⟨beneficiaryId, F⟩ now := by
  have hGF : ∀ f, f ∈ G ↔ f ∈ F := fun f => (hFG f).symm
  refine ⟨fun unique => ⟨normalise_congr hFG, normalise_congr hGF⟩,
    fun now d => ⟨evaluate_of_same hFG, evaluate_of_same hGF⟩, fun unique h => ?_⟩
  have hsame : ∀ f, f ∈ F ↔ f ∈ unique := fun f =>
    ((normaliseConfirmedIntervals_eq_ok.mp h).2.2.2 f).symm
  have hunique := normalise_congr hsame h
  exact ⟨hunique, fun now => evaluate_congr (hunique.trans h.symm)⟩

theorem normalisation_canonical_renewed :
    let F := renewed.paidIntervals
    let G := renewed.paidIntervals.reverse ++ renewed.paidIntervals
    (∀ f, f ∈ F ↔ f ∈ G) ∧
    (∀ unique, normaliseConfirmedIntervals ⟨"person", F⟩ = .ok unique ↔
      normaliseConfirmedIntervals ⟨"person", G⟩ = .ok unique) ∧
    (∀ now d, evaluate ⟨"person", F⟩ now = .ok d ↔ evaluate ⟨"person", G⟩ now = .ok d) ∧
    ∀ unique, normaliseConfirmedIntervals ⟨"person", F⟩ = .ok unique →
      normaliseConfirmedIntervals ⟨"person", unique⟩ = .ok unique ∧
      ∀ now, evaluate ⟨"person", unique⟩ now = evaluate ⟨"person", F⟩ now :=
  have hFG : ∀ f, f ∈ renewed.paidIntervals ↔
      f ∈ renewed.paidIntervals.reverse ++ renewed.paidIntervals := fun f => by simp
  ⟨hFG, normalisation_canonical "person" _ _ hFG⟩

/-- How much access a state gives. -/
def CoverageState.rank : CoverageState → Nat
  | .free => 0
  | .expired => 1
  | .exportOnly => 2
  | .renewalRecovery => 3
  | .paid => 4

section More

variable {F G : Set ConfirmedPaidInterval} {dF dG : CoverageDecision}

theorem paidSpans_mono (hFG : F ⊆ G) : paidSpans F ⊆ paidSpans G :=
  fun _ ⟨f, hf, hs⟩ => ⟨f, hFG hf, hs⟩

theorem recoverySpans_mono (hFG : F ⊆ G) : recoverySpans F ⊆ recoverySpans G :=
  fun _ ⟨f, hf, hs⟩ => ⟨f, hFG hf, hs⟩

theorem eligibleSpans_mono (hFG : F ⊆ G) : eligibleSpans F ⊆ eligibleSpans G :=
  Set.union_subset_union (paidSpans_mono hFG) (recoverySpans_mono hFG)

theorem Covers.mono {S T : Set (Span Timestamp)} (hST : S ⊆ T) (h : Covers S now) :
    Covers T now := by
  obtain ⟨s, hs, hnow⟩ := h
  exact ⟨s, hST hs, hnow⟩

/-- With no interval at the instant, the latest end among more facts is no earlier. -/
theorem LatestEnd.mono (hFG : F ⊆ G) (hends : ∀ s ∈ eligibleSpans G, ∃ e,
    Span.IsEnd (eligibleSpans G) s e) (h : LatestEnd F now e)
    (hcovers : ¬ Covers (eligibleSpans G) now) :
    ∃ z ∈ Span.Ended (eligibleSpans G) now, e ≤ z :=
  Span.Ended.mono (eligibleSpans_mono hFG) (fun s hs hnow => hcovers ⟨s, hs, hnow⟩) hends h.2.1

theorem CoverageDecision.Means.rank_of_covers (hG : dG.Means G now)
    (h : Covers (eligibleSpans G) now) : 3 ≤ dG.state.rank := by
  rcases covers_union.mp h with hpaid | hrecovery
  · rw [hG.paid.mpr hpaid]
    decide
  · by_cases hpaid : Covers (paidSpans G) now
    · rw [hG.paid.mpr hpaid]
      decide
    · rw [hG.renewalRecovery.mpr ⟨hpaid, hrecovery⟩]
      decide

/-- The state with more facts is at least the state with fewer. -/
theorem CoverageDecision.Means.rank_le (hFG : F ⊆ G) (hends : ∀ s ∈ eligibleSpans G, ∃ e,
    Span.IsEnd (eligibleSpans G) s e) (hF : dF.Means F now) (hG : dG.Means G now) :
    dF.state.rank ≤ dG.state.rank := by
  have hlatest : ∀ e, LatestEnd F now e → ¬ Covers (eligibleSpans G) now →
      ∃ z ∈ Span.Ended (eligibleSpans G) now, e ≤ z := fun e he => he.mono hFG hends
  have hfree : ∀ e, LatestEnd F now e → dG.state ≠ .free := fun e he hstateG => by
    obtain ⟨hcovers, hnone⟩ := hG.free.mp hstateG
    obtain ⟨z, hz, -⟩ := hlatest e he hcovers
    rw [hnone] at hz
    exact hz
  cases hstate : dF.state with
  | free => exact Nat.zero_le _
  | paid =>
    have hpaid := (hF.paid.mp hstate).mono (paidSpans_mono hFG)
    rw [hG.paid.mpr hpaid]
  | renewalRecovery =>
    have hrecovery := (hF.renewalRecovery.mp hstate).2.mono (recoverySpans_mono hFG)
    exact hG.rank_of_covers (covers_union.mpr (Or.inr hrecovery))
  | expired =>
    obtain ⟨e, he, -⟩ := hF.expired.mp hstate
    cases hstateG : dG.state with
    | free => exact absurd hstateG (hfree e he)
    | paid | renewalRecovery | exportOnly | expired => decide
  | exportOnly =>
    obtain ⟨e, he, hnow⟩ := hF.exportOnly.mp hstate
    cases hstateG : dG.state with
    | free => exact absurd hstateG (hfree e he)
    | expired =>
      obtain ⟨e', he', hexpired⟩ := hG.expired.mp hstateG
      obtain ⟨z, hz, hez⟩ := hlatest e he he'.1
      have hle : e + exportWindowSeconds ≤ e' + exportWindowSeconds :=
        Int.add_le_add_right (hez.trans (he'.2.2 hz)) _
      exact absurd (hle.trans hexpired) (not_le.mpr hnow)
    | paid | renewalRecovery | exportOnly => decide

/-- The active end with more facts is no earlier. -/
theorem CoverageDecision.Means.activeUntil_le (hFG : F ⊆ G) (hends : ∀ s ∈ eligibleSpans G, ∃ e,
    Span.IsEnd (eligibleSpans G) s e) (hF : dF.Means F now) (hG : dG.Means G now)
    (h : dF.activeUntil = some e) : ∃ e', dG.activeUntil = some e' ∧ e ≤ e' := by
  obtain ⟨s, hs, hnow, hend⟩ := (hF.activeUntil e).mp h
  have hsG := eligibleSpans_mono hFG hs
  obtain ⟨e', he'⟩ := hends s hsG
  exact ⟨e', (hG.activeUntil e').mpr ⟨s, hsG, hnow, he'⟩, hend.mono (eligibleSpans_mono hFG) he'⟩

/-- The export end with more facts is no earlier, as long as there is one. -/
theorem CoverageDecision.Means.exportUntil_le (hFG : F ⊆ G) (hends : ∀ s ∈ eligibleSpans G, ∃ e,
    Span.IsEnd (eligibleSpans G) s e) (hF : dF.Means F now) (hG : dG.Means G now)
    (h : dF.exportUntil = some e) {e' : Timestamp} (h' : dG.exportUntil = some e') : e ≤ e' := by
  obtain ⟨x, hx, rfl⟩ := (hF.exportUntil e).mp h
  obtain ⟨y, hy, rfl⟩ := (hG.exportUntil e').mp h'
  obtain ⟨z, hz, hxz⟩ := hx.mono hFG hends hy.1
  exact Int.add_le_add_right (hxz.trans (hy.2.2 hz)) _

end More

/-- Both decisions are in one of the states that have an export end, or neither is. -/
theorem exportUntil_of_state {F G : Set ConfirmedPaidInterval} {dF dG : CoverageDecision}
    (hF : dF.Means F now) (hG : dG.Means G now) (hstate : dF.state = dG.state)
    (h : dF.exportUntil = some e) : ∃ e', dG.exportUntil = some e' := by
  obtain ⟨x, hx, rfl⟩ := (hF.exportUntil e).mp h
  rcases lt_or_ge now (x + exportWindowSeconds) with hlt | hge
  · have hd := hF.exportOnly.mpr ⟨x, hx, hlt⟩
    obtain ⟨y, hy, -⟩ := hG.exportOnly.mp (hstate ▸ hd)
    exact ⟨_, (hG.exportUntil _).mpr ⟨y, hy, rfl⟩⟩
  · have hd := hF.expired.mpr ⟨x, hx, hge⟩
    obtain ⟨y, hy, -⟩ := hG.expired.mp (hstate ▸ hd)
    exact ⟨_, (hG.exportUntil _).mpr ⟨y, hy, rfl⟩⟩

/-- More facts give no less access, and no earlier end of it. -/
theorem coverage_monotone (F G : PersonCoverage) (hFG : ∀ f ∈ F.paidIntervals, f ∈ G.paidIntervals)
    (now : Timestamp) (dF dG : CoverageDecision) (hF : evaluate F now = .ok dF)
    (hG : evaluate G now = .ok dG) :
    dF.state.rank ≤ dG.state.rank ∧
      (∀ e, dF.activeUntil = some e → ∃ e', dG.activeUntil = some e' ∧ e ≤ e') ∧
      (dF.state = dG.state →
        ∀ e, dF.exportUntil = some e → ∃ e', dG.exportUntil = some e' ∧ e ≤ e') := by
  have hmF := means_of_evaluate hF
  have hmG := means_of_evaluate hG
  obtain ⟨unique, hunique⟩ := normal_of_evaluate hG
  obtain ⟨l, -, hl⟩ := eligibleIntervals_of_normal hunique
  have hends : ∀ s ∈ eligibleSpans G.facts, ∃ e, Span.IsEnd (eligibleSpans G.facts) s e :=
    fun s hs => hl.exists_isEnd hs
  refine ⟨hmF.rank_le hFG hends hmG, fun e he => hmF.activeUntil_le hFG hends hmG he,
    fun hstate e he => ?_⟩
  obtain ⟨e', he'⟩ := exportUntil_of_state hmF hmG hstate he
  exact ⟨e', he', hmF.exportUntil_le hFG hends hmG he he'⟩

theorem coverage_monotone_renewed :
    ∃ dF dG, evaluate ⟨"person", renewed.paidIntervals.drop 1⟩ 1500000 = .ok dF ∧
      evaluate renewed 1500000 = .ok dG ∧
      dF.state.rank ≤ dG.state.rank ∧
      (∀ e, dF.activeUntil = some e → ∃ e', dG.activeUntil = some e' ∧ e ≤ e') ∧
      (dF.state = dG.state →
        ∀ e, dF.exportUntil = some e → ∃ e', dG.exportUntil = some e' ∧ e ≤ e') :=
  have hd : evaluate ⟨"person", renewed.paidIntervals.drop 1⟩ 1500000 =
      .ok ⟨.renewalRecovery, some 2209600, some 2209600, none⟩ := by decide +kernel
  have hd' : evaluate renewed 1500000 =
      .ok ⟨.renewalRecovery, some 2209600, some 2209600, none⟩ := by decide +kernel
  ⟨_, _, hd, hd', coverage_monotone _ _ (fun _ hf => List.mem_of_mem_drop hf) _ _ _ hd hd'⟩

end Coverage

end Sotto
