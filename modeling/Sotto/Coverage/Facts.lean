import Mathlib.Algebra.Order.Ring.Int
import Mathlib.Data.Prod.Lex
import Mathlib.Data.String.Basic
import Mathlib.Order.WithBot
import Sotto.Library.Checked
import Sotto.Library.Intervals
import Sotto.Library.SortBy

/-!
# Coverage of a person

The evaluation of one person's coverage at an instant. Verified facts are checked, merged and put
in order, each gives a paid interval and possibly a recovery interval, and overlapping or touching
intervals are merged into episodes. Timestamps are Unix seconds, and additions are checked for
overflow of 64 bits.
-/

namespace Sotto

namespace Coverage

open Checked

abbrev Timestamp := Int

/-- The sum, if it is in the range of 64-bit timestamps. -/
def checkedAdd (a b : Timestamp) : Option Timestamp :=
  if -2 ^ 63 ≤ a + b ∧ a + b < 2 ^ 63 then some (a + b) else none

theorem checkedAdd_eq_some {a b c : Timestamp} :
    checkedAdd a b = some c ↔ c = a + b ∧ -2 ^ 63 ≤ c ∧ c < 2 ^ 63 := by
  unfold checkedAdd
  split
  · simp only [Option.some.injEq]
    constructor
    · rintro rfl
      exact ⟨rfl, ‹_›⟩
    · exact fun h => h.1.symm
  · simp only [reduceCtorEq, false_iff]
    rintro ⟨rfl, h⟩
    contradiction

def renewalRecoverySeconds : Timestamp := 14 * 24 * 60 * 60

def exportWindowSeconds : Timestamp := 30 * 24 * 60 * 60

/-- The characters with the Unicode property `White_Space`. -/
def isWhiteSpace (c : Char) : Bool :=
  (9 ≤ c.toNat && c.toNat ≤ 13) || (0x2000 ≤ c.toNat && c.toNat ≤ 0x200A) ||
    [0x20, 0x85, 0xA0, 0x1680, 0x2028, 0x2029, 0x202F, 0x205F, 0x3000].contains c.toNat

/-- The text is empty once it is trimmed. -/
def isBlank (s : String) : Bool :=
  s.toList.all isWhiteSpace

/-- A paid interval that has already been verified. -/
structure ConfirmedPaidInterval where
  coverageId : String
  sourceId : String
  startsAt : Timestamp
  paidUntil : Timestamp
  failedRenewalId : Option String
deriving DecidableEq

/-- A person whose coverage is evaluated. -/
structure PersonCoverage where
  beneficiaryId : String
  paidIntervals : List ConfirmedPaidInterval

inductive CoverageState
  | free
  | paid
  | renewalRecovery
  | exportOnly
  | expired
deriving DecidableEq

structure CoverageDecision where
  state : CoverageState
  activeUntil : Option Timestamp
  recoveryUntil : Option Timestamp
  exportUntil : Option Timestamp
deriving DecidableEq

inductive InvalidCoverage
  | emptyBeneficiary
  | emptyCoverageId
  | emptySourceId
  | invalidInterval
  | emptyRenewalId
  | recoveryDeadlineOverflow
  | conflictingCoverage
  | conflictingRenewal
  | exportDeadlineOverflow
deriving DecidableEq

structure RenewalIdentity where
  coverageId : String
  sourceId : String
  startsAt : Timestamp
  paidUntil : Timestamp
deriving DecidableEq

/-- The two maps of the normalisation. -/
structure Normalising where
  unique : List (String × ConfirmedPaidInterval)
  renewalIdentity : List (String × RenewalIdentity)

namespace ConfirmedPaidInterval

def identity (interval : ConfirmedPaidInterval) : RenewalIdentity :=
  ⟨interval.coverageId, interval.sourceId, interval.startsAt, interval.paidUntil⟩

/-- What the normalised facts are in the order of. -/
def sortKey (interval : ConfirmedPaidInterval) :
    String ×ₗ String ×ₗ Timestamp ×ₗ Timestamp ×ₗ WithBot String :=
  toLex (interval.coverageId, toLex (interval.sourceId, toLex (interval.startsAt,
    toLex (interval.paidUntil, interval.failedRenewalId))))

end ConfirmedPaidInterval

/-- The renewal identities once that of a failed renewal is recorded. -/
def recordRenewal (interval : ConfirmedPaidInterval)
    (renewalIdentity : List (String × RenewalIdentity)) :
    Option String → Except InvalidCoverage (List (String × RenewalIdentity))
  | none => .ok renewalIdentity
  | some renewalId => do
    require (¬ isBlank renewalId) .emptyRenewalId
    require (∀ previous ∈ renewalIdentity.lookup renewalId, previous = interval.identity)
      .conflictingRenewal
    let _ ← okOr (checkedAdd interval.paidUntil renewalRecoverySeconds) .recoveryDeadlineOverflow
    return (renewalId, interval.identity) :: renewalIdentity

/-- Record a fact that no other fact has the identity of. -/
def recordUnique (interval : ConfirmedPaidInterval)
    (unique : List (String × ConfirmedPaidInterval)) :
    Except InvalidCoverage (List (String × ConfirmedPaidInterval)) := do
  require (∀ previous ∈ unique.lookup interval.coverageId, previous = interval)
    .conflictingCoverage
  if (unique.lookup interval.coverageId).isSome then
    return unique
  return (interval.coverageId, interval) :: unique

def normaliseInterval (maps : Normalising) (interval : ConfirmedPaidInterval) :
    Except InvalidCoverage Normalising := do
  require (¬ isBlank interval.coverageId) .emptyCoverageId
  require (¬ isBlank interval.sourceId) .emptySourceId
  require (interval.startsAt < interval.paidUntil) .invalidInterval
  let renewalIdentity ← recordRenewal interval maps.renewalIdentity interval.failedRenewalId
  let unique ← recordUnique interval maps.unique
  return ⟨unique, renewalIdentity⟩

/-- Validate the facts and give each of them once, in order. -/
def normaliseConfirmedIntervals (coverage : PersonCoverage) :
    Except InvalidCoverage (List ConfirmedPaidInterval) := do
  require (¬ isBlank coverage.beneficiaryId) .emptyBeneficiary
  let maps ← coverage.paidIntervals.foldlM normaliseInterval ⟨[], []⟩
  return sortBy ConfirmedPaidInterval.sortKey (maps.unique.map Prod.snd)

inductive IntervalKind
  | paid
  | recovery
deriving DecidableEq

structure EligibleInterval where
  startsAt : Timestamp
  endsAt : Timestamp
  kind : IntervalKind
  coverageId : String
deriving DecidableEq

namespace EligibleInterval

def span (interval : EligibleInterval) : Span Timestamp :=
  ⟨interval.startsAt, interval.endsAt⟩

/-- What the intervals are in the order of; a paid one goes before a recovery one. -/
def sortKey (interval : EligibleInterval) : Timestamp ×ₗ Timestamp ×ₗ Bool ×ₗ String :=
  toLex (interval.startsAt, toLex (interval.endsAt,
    toLex (decide (interval.kind = .recovery), interval.coverageId)))

end EligibleInterval

/-- The intervals that one fact makes eligible. -/
def eligible (interval : ConfirmedPaidInterval) :
    Except InvalidCoverage (List EligibleInterval) := do
  let paid : EligibleInterval :=
    ⟨interval.startsAt, interval.paidUntil, .paid, interval.coverageId⟩
  if interval.failedRenewalId.isSome then
    let endsAt ← okOr (checkedAdd interval.paidUntil renewalRecoverySeconds)
      .recoveryDeadlineOverflow
    return [paid, ⟨interval.paidUntil, endsAt, .recovery, interval.coverageId⟩]
  return [paid]

def eligibleIntervals (coverage : PersonCoverage) :
    Except InvalidCoverage (List EligibleInterval) := do
  let unique ← normaliseConfirmedIntervals coverage
  let intervals ← unique.mapM eligible
  return sortBy EligibleInterval.sortKey intervals.flatten

abbrev Episode := Span Timestamp

/-- Extend the last episode, or begin one. -/
def extendEpisodes (episodes : List Episode) (interval : EligibleInterval) : List Episode :=
  match episodes.getLast? with
  | some episode =>
    if interval.startsAt ≤ episode.ends then
      episodes.dropLast ++ [⟨episode.starts, max episode.ends interval.endsAt⟩]
    else episodes ++ [interval.span]
  | none => episodes ++ [interval.span]

def episodes (intervals : List EligibleInterval) : List Episode :=
  intervals.foldl extendEpisodes []

/-- The episode with the greater end, the second one of two that end together. -/
def later : Option Episode → Episode → Episode
  | some best, episode => if episode.ends < best.ends then best else episode
  | none, episode => episode

/-- The last of the episodes with the greatest end. -/
def latest (episodes : List Episode) : Option Episode :=
  episodes.foldl (fun best episode => some (later best episode)) none

/-- Evaluate one person's coverage at `now`. -/
def evaluate (coverage : PersonCoverage) (now : Timestamp) :
    Except InvalidCoverage CoverageDecision := do
  let intervals ← eligibleIntervals coverage
  let episodes := episodes intervals
  match episodes.find? fun episode => episode.Holds now with
  | some current =>
    let paidNow := intervals.any fun interval =>
      interval.kind = .paid ∧ interval.span.Holds now
    let recoveryUntil := ((intervals.filter fun interval =>
      interval.kind = .recovery ∧ interval.span.Holds now).map EligibleInterval.endsAt).max?
    return {
      state := if paidNow then .paid else .renewalRecovery
      activeUntil := some current.ends
      recoveryUntil := if paidNow then none else recoveryUntil
      exportUntil := none }
  | none =>
    match latest (episodes.filter fun episode => episode.ends ≤ now) with
    | none =>
      return { state := .free, activeUntil := none, recoveryUntil := none, exportUntil := none }
    | some latestEnded =>
      let exportUntil ← okOr (checkedAdd latestEnded.ends exportWindowSeconds)
        .exportDeadlineOverflow
      return {
        state := if now < exportUntil then .exportOnly else .expired
        activeUntil := none
        recoveryUntil := none
        exportUntil := some exportUntil }

end Coverage

end Sotto
