import Mathlib.Data.List.Induction
import Sotto.Coverage.Normal

/-!
# What an evaluation means

The intervals that verified facts make eligible, as sets of half-open intervals, and what a
decision says about them at an instant. The episodes that the evaluation computes are the
components of the union of these intervals.
-/

namespace Sotto

namespace Coverage

open Checked

/-- The paid intervals of the facts. -/
def paidSpans (facts : Set ConfirmedPaidInterval) : Set (Span Timestamp) :=
  {s | ∃ f ∈ facts, s = ⟨f.startsAt, f.paidUntil⟩}

/-- The recovery intervals of the facts. -/
def recoverySpans (facts : Set ConfirmedPaidInterval) : Set (Span Timestamp) :=
  {s | ∃ f ∈ facts, f.failedRenewalId.isSome ∧
    s = ⟨f.paidUntil, f.paidUntil + renewalRecoverySeconds⟩}

def eligibleSpans (facts : Set ConfirmedPaidInterval) : Set (Span Timestamp) :=
  paidSpans facts ∪ recoverySpans facts

def Covers (S : Set (Span Timestamp)) (now : Timestamp) : Prop :=
  ∃ s ∈ S, s.Holds now

/-- The end of the latest component that has ended. -/
def LatestEnd (facts : Set ConfirmedPaidInterval) (now e : Timestamp) : Prop :=
  ¬ Covers (eligibleSpans facts) now ∧ IsGreatest (Span.Ended (eligibleSpans facts) now) e

/-- What a decision says about the facts at an instant. -/
structure CoverageDecision.Means (d : CoverageDecision) (facts : Set ConfirmedPaidInterval)
    (now : Timestamp) : Prop where
  paid : d.state = .paid ↔ Covers (paidSpans facts) now
  renewalRecovery : d.state = .renewalRecovery ↔
    ¬ Covers (paidSpans facts) now ∧ Covers (recoverySpans facts) now
  exportOnly : d.state = .exportOnly ↔
    ∃ e, LatestEnd facts now e ∧ now < e + exportWindowSeconds
  expired : d.state = .expired ↔
    ∃ e, LatestEnd facts now e ∧ e + exportWindowSeconds ≤ now
  free : d.state = .free ↔
    ¬ Covers (eligibleSpans facts) now ∧ Span.Ended (eligibleSpans facts) now = ∅
  activeUntil : ∀ e, d.activeUntil = some e ↔
    ∃ s ∈ eligibleSpans facts, s.Holds now ∧ Span.IsEnd (eligibleSpans facts) s e
  recoveryUntil : ∀ e, d.recoveryUntil = some e ↔ ¬ Covers (paidSpans facts) now ∧
    IsGreatest (Span.ends '' {s | s ∈ recoverySpans facts ∧ s.Holds now}) e
  exportUntil : ∀ e, d.exportUntil = some e ↔
    ∃ e', LatestEnd facts now e' ∧ e = e' + exportWindowSeconds

/-- A list of the intervals that the facts make eligible, in the order of their starts. -/
structure Lists (l : List EligibleInterval) (facts : Set ConfirmedPaidInterval) : Prop where
  paid : ∀ s, s ∈ paidSpans facts ↔ ∃ i ∈ l, i.kind = .paid ∧ i.span = s
  recovery : ∀ s, s ∈ recoverySpans facts ↔ ∃ i ∈ l, i.kind = .recovery ∧ i.span = s
  ordered : l.Pairwise fun i j => i.startsAt ≤ j.startsAt
  proper : ∀ i ∈ l, i.startsAt < i.endsAt

/-- The intervals that one valid fact makes eligible. -/
def ConfirmedPaidInterval.eligible (f : ConfirmedPaidInterval) : List EligibleInterval :=
  ⟨f.startsAt, f.paidUntil, .paid, f.coverageId⟩ ::
    if f.failedRenewalId.isSome then
      [⟨f.paidUntil, f.paidUntil + renewalRecoverySeconds, .recovery, f.coverageId⟩]
    else []

theorem ConfirmedPaidInterval.mem_eligible {f : ConfirmedPaidInterval} {i : EligibleInterval} :
    i ∈ f.eligible ↔ i = ⟨f.startsAt, f.paidUntil, .paid, f.coverageId⟩ ∨
      f.failedRenewalId.isSome ∧
        i = ⟨f.paidUntil, f.paidUntil + renewalRecoverySeconds, .recovery, f.coverageId⟩ := by
  unfold ConfirmedPaidInterval.eligible
  split <;> simp_all

theorem eligible_of_valid {f : ConfirmedPaidInterval} (hf : f.Valid) :
    eligible f = .ok f.eligible := by
  unfold eligible ConfirmedPaidInterval.eligible
  cases hrenewal : f.failedRenewalId with
  | none => rfl
  | some r =>
    obtain ⟨-, deadline, hdeadline⟩ := hf.renewal r hrenewal
    obtain ⟨rfl, -⟩ := checkedAdd_eq_some.mp hdeadline
    simp [okOr, hdeadline, bind, Except.bind, pure, Except.pure]

/-- On valid facts, the intervals are those of the facts. -/
theorem eligibleIntervals_of_normal {coverage : PersonCoverage}
    {unique : List ConfirmedPaidInterval} (h : normaliseConfirmedIntervals coverage = .ok unique) :
    ∃ l, eligibleIntervals coverage = .ok l ∧ Lists l coverage.facts := by
  obtain ⟨-, hfacts, -, hmem⟩ := normaliseConfirmedIntervals_eq_ok.mp h
  have hmap : unique.mapM eligible = .ok (unique.map ConfirmedPaidInterval.eligible) :=
    mapM_eq_ok fun f hf => eligible_of_valid (hfacts.valid f ((hmem f).mp hf))
  refine ⟨sortBy EligibleInterval.sortKey (unique.map ConfirmedPaidInterval.eligible).flatten,
    by simp [eligibleIntervals, h, hmap, bind, Except.bind, pure, Except.pure], ?_⟩
  have hl : ∀ i, i ∈ sortBy EligibleInterval.sortKey
      (unique.map ConfirmedPaidInterval.eligible).flatten ↔
        ∃ f ∈ coverage.facts, i ∈ f.eligible := fun i => by
    simp only [mem_sortBy, List.mem_flatten, List.mem_map, exists_exists_and_eq_and, hmem]
  refine ⟨fun s => ⟨?_, ?_⟩, fun s => ⟨?_, ?_⟩, ?_, fun i hi => ?_⟩
  · rintro ⟨f, hf, rfl⟩
    exact ⟨_, (hl _).mpr ⟨f, hf, ConfirmedPaidInterval.mem_eligible.mpr (Or.inl rfl)⟩, rfl, rfl⟩
  · rintro ⟨i, hi, hpaid, rfl⟩
    obtain ⟨f, hf, hif⟩ := (hl i).mp hi
    rcases ConfirmedPaidInterval.mem_eligible.mp hif with rfl | ⟨-, rfl⟩
    · exact ⟨f, hf, rfl⟩
    · cases hpaid
  · rintro ⟨f, hf, hrenewal, rfl⟩
    exact ⟨_, (hl _).mpr ⟨f, hf, ConfirmedPaidInterval.mem_eligible.mpr (Or.inr ⟨hrenewal, rfl⟩)⟩,
      rfl, rfl⟩
  · rintro ⟨i, hi, hrecovery, rfl⟩
    obtain ⟨f, hf, hif⟩ := (hl i).mp hi
    rcases ConfirmedPaidInterval.mem_eligible.mp hif with rfl | ⟨hrenewal, rfl⟩
    · cases hrecovery
    · exact ⟨f, hf, hrenewal, rfl⟩
  · refine (pairwise_sortBy _ _).imp fun {i j} hij => ?_
    rcases (Prod.Lex.toLex_le_toLex ..).mp hij with hlt | ⟨heq, -⟩
    · exact hlt.le
    · exact heq.le
  · obtain ⟨f, hf, hif⟩ := (hl i).mp hi
    rcases ConfirmedPaidInterval.mem_eligible.mp hif with rfl | ⟨-, rfl⟩
    · exact (hfacts.valid f hf).interval
    · exact Int.lt_add_of_pos_right _ (by decide)

/-- The episodes are what the sweep over the intervals gives. -/
theorem episodes_eq (l : List EligibleInterval) :
    episodes l = Span.sweep (l.map EligibleInterval.span) := by
  have hfrom : ∀ (l : List EligibleInterval) (done : List Episode) (e : Episode),
      l.foldl extendEpisodes (done ++ [e]) =
        done ++ Span.sweepFrom e (l.map EligibleInterval.span) := by
    intro l
    induction l with
    | nil => exact fun done e => rfl
    | cons i l ih =>
      intro done e
      simp only [List.foldl_cons, List.map_cons, Span.sweepFrom, extendEpisodes,
        List.getLast?_append, List.getLast?_singleton, Option.some_or, List.dropLast_concat]
      by_cases hi : i.startsAt ≤ e.ends
      · rw [if_pos hi, if_pos (show i.span.starts ≤ e.ends from hi), ih]
        rfl
      · rw [if_neg hi, if_neg (show ¬ i.span.starts ≤ e.ends from hi), ih, List.append_assoc]
        rfl
  cases l with
  | nil => rfl
  | cons i l => exact hfrom l [] i.span

/-- The latest of the episodes, if there are any. -/
theorem latest_spec (es : List Episode) :
    (latest es = none → es = []) ∧
      ∀ e, latest es = some e → e ∈ es ∧ ∀ e' ∈ es, e'.ends ≤ e.ends := by
  induction es using List.reverseRecOn with
  | nil => exact ⟨fun _ => rfl, fun e he => (by cases he)⟩
  | append_singleton es x ih =>
    have hstep : latest (es ++ [x]) = some (later (latest es) x) := by
      simp [latest, List.foldl_append]
    rw [hstep]
    refine ⟨fun h => (by cases h), fun e he => ?_⟩
    obtain rfl := Option.some.inj he
    cases hbest : latest es with
    | none =>
      obtain rfl := ih.1 hbest
      simp [later]
    | some best =>
      obtain ⟨hmem, hle⟩ := ih.2 best hbest
      unfold later
      simp only [List.mem_append, List.mem_singleton, or_imp, forall_and, forall_eq]
      split
      · exact ⟨Or.inl hmem, hle, le_of_lt ‹_›⟩
      · exact ⟨Or.inr rfl, fun e' he' => (hle e' he').trans (not_lt.mp ‹_›), le_rfl⟩

namespace Lists

variable {l : List EligibleInterval} {facts : Set ConfirmedPaidInterval} {now : Timestamp}

theorem eligibleSpans_eq (h : Lists l facts) :
    eligibleSpans facts = {s | s ∈ l.map EligibleInterval.span} := by
  ext s
  simp only [eligibleSpans, Set.mem_union, h.paid, h.recovery, Set.mem_ofPred_eq, List.mem_map]
  constructor
  · rintro (⟨i, hi, -, rfl⟩ | ⟨i, hi, -, rfl⟩)
    · exact ⟨i, hi, rfl⟩
    · exact ⟨i, hi, rfl⟩
  · rintro ⟨i, hi, rfl⟩
    cases hkind : i.kind with
    | paid => exact Or.inl ⟨i, hi, hkind, rfl⟩
    | recovery => exact Or.inr ⟨i, hi, hkind, rfl⟩

theorem starts_lt_ends (h : Lists l facts) : ∀ s ∈ l.map EligibleInterval.span,
    s.starts < s.ends := by
  intro s hs
  obtain ⟨i, hi, rfl⟩ := List.mem_map.mp hs
  exact h.proper i hi

theorem swept (h : Lists l facts) :
    Span.Swept (l.map EligibleInterval.span) (episodes l) := by
  rw [episodes_eq]
  refine Span.swept_sweep (List.pairwise_map.mpr h.ordered) fun s hs => ?_
  exact (h.starts_lt_ends s hs).le

theorem covers_iff (h : Lists l facts) :
    Covers (eligibleSpans facts) now ↔ ∃ e ∈ episodes l, e.Holds now := by
  rw [h.swept.holds_iff, h.eligibleSpans_eq]
  rfl

theorem mem_ended (h : Lists l facts) {y : Timestamp} :
    y ∈ Span.Ended (eligibleSpans facts) now ↔ y ≤ now ∧ ∃ e ∈ episodes l, e.ends = y := by
  rw [h.eligibleSpans_eq]
  exact h.swept.mem_ended h.starts_lt_ends

theorem exists_isEnd (h : Lists l facts) {s : Span Timestamp} (hs : s ∈ eligibleSpans facts) :
    ∃ e, Span.IsEnd (eligibleSpans facts) s e := by
  rw [h.eligibleSpans_eq] at hs ⊢
  exact h.swept.exists_isEnd h.starts_lt_ends hs

end Lists

end Coverage

end Sotto
