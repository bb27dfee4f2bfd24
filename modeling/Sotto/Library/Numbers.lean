import Mathlib.Algebra.Order.Group.Unbundled.Int
import Mathlib.Algebra.Order.Ring.Int
import Sotto.Library.Text

/-!
# Numbers of a machine and as text

Numbers of 64 bits with a sign, whose operations have no value when they overflow, and numbers
read from text. A number may be written with a plus sign.
-/

namespace Sotto

namespace Numbers

open Text

/-- The number is one of 64 bits with a sign. -/
def InI64 (n : ℤ) : Prop :=
  -2 ^ 63 ≤ n ∧ n < 2 ^ 63

instance (n : ℤ) : Decidable (InI64 n) := inferInstanceAs (Decidable (_ ∧ _))

def subI64 (a b : ℤ) : Option ℤ :=
  if InI64 (a - b) then some (a - b) else none

def absI64 (a : ℤ) : Option ℤ :=
  if InI64 |a| then some |a| else none

/-- The value of a digit in a base up to 16, in any letter case. -/
def digitValue (base : ℕ) (c : Char) : Option ℕ :=
  let value :=
    if '0' ≤ c ∧ c ≤ '9' then some (c.toNat - '0'.toNat)
    else if 'a' ≤ c ∧ c ≤ 'f' then some (c.toNat - 'a'.toNat + 10)
    else if 'A' ≤ c ∧ c ≤ 'F' then some (c.toNat - 'A'.toNat + 10)
    else none
  value.filter (· < base)

/-- The value of a text of digits that is not empty. -/
def parseDigits (base : ℕ) (s : List Char) : Option ℕ :=
  if s = [] then none
  else (s.mapM (digitValue base)).map fun digits => digits.foldl (fun n d => base * n + d) 0

/-- Read a number without a sign; a plus sign is skipped. -/
def parseUnsigned (base : ℕ) : List Char → Option ℕ
  | '+' :: s => parseDigits base s
  | s => parseDigits base s

def parseI64 : List Char → Option ℤ
  | '-' :: s => ((parseDigits 10 s).map fun n => -(n : ℤ)).filter InI64
  | s => ((parseUnsigned 10 s).map fun n => (n : ℤ)).filter InI64

/-- Read a byte in a base. -/
def parseU8 (base : ℕ) (s : List Char) : Option UInt8 :=
  ((parseUnsigned base s).filter (· < 256)).map UInt8.ofNat

/-! ### Digits and pairs of digits -/

theorem digitValue_spec {base : ℕ} {c : Char} {n : ℕ} (h : digitValue base c = some n) :
    n < base ∧ c.toNat < 128 := by
  simp only [digitValue, Option.filter_eq_some_iff, decide_eq_true_eq] at h
  refine ⟨h.2, ?_⟩
  have hle (a b : Char) : a ≤ b ↔ a.toNat ≤ b.toNat := Iff.rfl
  obtain ⟨h, -⟩ := h
  split_ifs at h with h₁ h₂ h₃
  · exact lt_of_le_of_lt ((hle _ _).mp h₁.2) (by decide)
  · exact lt_of_le_of_lt ((hle _ _).mp h₂.2) (by decide)
  · exact lt_of_le_of_lt ((hle _ _).mp h₃.2) (by decide)

theorem digitValue_plus {base : ℕ} : digitValue base '+' = none := by
  rw [digitValue, if_neg (by decide), if_neg (by decide), if_neg (by decide), Option.filter_none]

theorem digitValue_wide {base : ℕ} {c : Char} (h : 128 ≤ c.toNat) : digitValue base c = none := by
  cases hvalue : digitValue base c with
  | none => rfl
  | some n => exact absurd (digitValue_spec hvalue).2 (Nat.not_lt.mpr h)

theorem parseUnsigned_of_ne {base : ℕ} {c : Char} (h : c ≠ '+') (s : List Char) :
    parseUnsigned base (c :: s) = parseDigits base (c :: s) := by
  rw [parseUnsigned]
  intro t ht
  exact h (List.cons.inj ht).1

theorem parseDigits_one {base : ℕ} {d : Char} : parseDigits base [d] = digitValue base d := by
  rw [parseDigits, if_neg (List.cons_ne_nil _ _)]
  cases h : digitValue base d <;> simp [List.mapM_cons, h]

theorem parseDigits_two {base : ℕ} {c d : Char} : parseDigits base [c, d] =
    (digitValue base c).bind fun high => (digitValue base d).map fun low => base * high + low := by
  rw [parseDigits, if_neg (List.cons_ne_nil _ _)]
  cases hc : digitValue base c <;> cases hd : digitValue base d <;>
    simp [List.mapM_cons, hc, hd]

theorem parseU8_pair {c d : Char} {b : UInt8} : parseU8 16 [c, d] = some b ↔
    ∃ high low, (digitValue 16 c = some high ∨ c = '+' ∧ high = 0) ∧
      digitValue 16 d = some low ∧ b = UInt8.ofNat (16 * high + low) := by
  by_cases hc : c = '+'
  · subst hc
    simp only [parseU8, parseUnsigned, parseDigits_one, digitValue_plus, reduceCtorEq, false_or,
      true_and, Option.map_eq_some_iff, Option.filter_eq_some_iff, decide_eq_true_eq]
    constructor
    · rintro ⟨low, ⟨hd, -⟩, rfl⟩
      exact ⟨0, low, rfl, hd, by rw [Nat.mul_zero, Nat.zero_add]⟩
    · rintro ⟨_, low, rfl, hd, rfl⟩
      exact ⟨low, ⟨hd, (digitValue_spec hd).1.trans (by decide)⟩, by
        rw [Nat.mul_zero, Nat.zero_add]⟩
  · simp only [parseU8, parseUnsigned_of_ne hc, parseDigits_two, hc, false_and, or_false,
      Option.map_eq_some_iff, Option.filter_eq_some_iff, decide_eq_true_eq,
      Option.bind_eq_some_iff]
    constructor
    · rintro ⟨_, ⟨⟨high, hhigh, low, hlow, rfl⟩, -⟩, rfl⟩
      exact ⟨high, low, hhigh, hlow, rfl⟩
    · rintro ⟨high, low, hhigh, hlow, rfl⟩
      have hlt := (digitValue_spec hhigh).1
      have hlt' := (digitValue_spec hlow).1
      exact ⟨_, ⟨⟨high, hhigh, low, hlow, rfl⟩, by omega⟩, rfl⟩

theorem parseU8_wide {c : Char} (h : 128 ≤ c.toNat) : parseU8 16 [c] = none := by
  have hne : c ≠ '+' := by
    rintro rfl
    exact absurd h (by decide)
  rw [parseU8, parseUnsigned_of_ne hne, parseDigits_one, digitValue_wide h]
  rfl

/-! ### Written numbers -/

theorem digitValue_of_isDigit {c : Char} (h : c.isDigit = true) :
    digitValue 10 c = some (c.toNat - '0'.toNat) := by
  simp only [Char.isDigit, Bool.and_eq_true, decide_eq_true_eq] at h
  have hrange : '0' ≤ c ∧ c ≤ '9' := h
  have hle : c.toNat ≤ 57 := h.2
  have hlt : c.toNat - '0'.toNat < 10 := Nat.lt_of_le_of_lt (Nat.sub_le_sub_right hle _) (by decide)
  rw [digitValue, if_pos hrange, Option.filter_some, if_pos (decide_eq_true hlt)]

theorem mapM_digitValue {s : List Char} (h : ∀ c ∈ s, c.isDigit = true) :
    s.mapM (digitValue 10) = some (s.map fun c => c.toNat - '0'.toNat) := by
  induction s with
  | nil => rfl
  | cons c s ih =>
    rw [List.forall_mem_cons] at h
    rw [List.mapM_cons, digitValue_of_isDigit h.1, ih h.2]
    rfl

theorem isDigit_toDigits (n : ℕ) : ∀ c ∈ Nat.toDigits 10 n, c.isDigit = true :=
  fun _ hc => Nat.isDigit_of_mem_toDigits (by decide) (by decide) hc

/-- A number that is written is read back. -/
theorem parseDigits_toDigits (n : ℕ) : parseDigits 10 (Nat.toDigits 10 n) = some n := by
  rw [parseDigits, if_neg Nat.toDigits_ne_nil, mapM_digitValue (isDigit_toDigits n),
    Option.map_some, List.foldl_map, ← Nat.ofDigitChars_eq_foldl, Nat.ofDigitChars_ten_toDigits]

theorem toDigits_injective {m n : ℕ} (h : Nat.toDigits 10 m = Nat.toDigits 10 n) : m = n := by
  have hdigits := congrArg (parseDigits 10) h
  rw [parseDigits_toDigits, parseDigits_toDigits] at hdigits
  exact Option.some.inj hdigits

/-- Numbers are determined by their text. -/
theorem toString_injective {m n : ℤ} (h : (toString m).toList = (toString n).toList) : m = n := by
  have hminus (k : ℕ) (s : List Char) : Nat.toDigits 10 k ≠ '-' :: s := by
    intro hk
    have hdigit := isDigit_toDigits k '-' (hk ▸ List.mem_cons_self)
    cases hdigit
  have htext (k : ℤ) : (toString k).toList =
      if 0 ≤ k then Nat.toDigits 10 k.toNat else '-' :: Nat.toDigits 10 (-k).toNat := by
    rw [Int.toString_eq_repr, Int.repr_eq_if]
    split
    · exact Nat.toList_repr
    · simp [Nat.toList_repr]
  rw [htext, htext] at h
  split at h <;> split at h
  · have heq := toDigits_injective h
    omega
  · exact absurd h (hminus _ _)
  · exact absurd h.symm (hminus _ _)
  · have heq := toDigits_injective (List.cons.inj h).2
    omega

end Numbers

end Sotto
