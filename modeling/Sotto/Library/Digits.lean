import Mathlib.Data.Nat.Digits.Lemmas

/-!
# Big-endian digits and groups of bits

Lists of digits with the most significant one first, and a number's bits cut into groups of one
width. A list of digits is determined by its length and its value.
-/

namespace Sotto

/-- The number with the digits, the most significant one first. -/
def bigEndian (b : ℕ) (l : List ℕ) : ℕ :=
  Nat.ofDigits b l.reverse

section Digits

variable {b : ℕ} {l k : List ℕ}

@[simp]
theorem bigEndian_nil (b : ℕ) : bigEndian b [] = 0 :=
  rfl

@[simp]
theorem bigEndian_singleton (b d : ℕ) : bigEndian b [d] = d := by
  simp [bigEndian]

theorem bigEndian_append (b : ℕ) (l k : List ℕ) :
    bigEndian b (l ++ k) = bigEndian b l * b ^ k.length + bigEndian b k := by
  simp only [bigEndian, List.reverse_append, Nat.ofDigits_append, List.length_reverse]
  ring

theorem bigEndian_cons (b d : ℕ) (l : List ℕ) :
    bigEndian b (d :: l) = d * b ^ l.length + bigEndian b l := by
  simpa using bigEndian_append b [d] l

theorem bigEndian_snoc (b d : ℕ) (l : List ℕ) :
    bigEndian b (l ++ [d]) = bigEndian b l * b + d := by
  simpa using bigEndian_append b l [d]

theorem bigEndian_lt (hb : 1 < b) (hl : ∀ d ∈ l, d < b) : bigEndian b l < b ^ l.length := by
  have h := Nat.ofDigits_lt_base_pow_length hb (l := l.reverse) fun d hd =>
    hl d (List.mem_reverse.mp hd)
  rwa [List.length_reverse] at h

/-- Digits are determined by their number and their value. -/
theorem bigEndian_inj (hb : 1 < b) (hlength : l.length = k.length) (hl : ∀ d ∈ l, d < b)
    (hk : ∀ d ∈ k, d < b) (h : bigEndian b l = bigEndian b k) : l = k := by
  have hreverse : l.reverse = k.reverse := by
    refine Nat.ofDigits_inj_of_len_eq hb (by simpa using hlength) ?_ ?_ h
    · exact fun d hd => hl d (List.mem_reverse.mp hd)
    · exact fun d hd => hk d (List.mem_reverse.mp hd)
  exact List.reverse_inj.mp hreverse

/-- Digits of base `m + 1` have the value of their sum, up to multiples of `m`. -/
theorem bigEndian_modEq_sum (m : ℕ) (l : List ℕ) :
    bigEndian (m + 1) l ≡ l.sum [MOD m] := by
  have h := Nat.ofDigits_modEq' (m + 1) 1 m (by simp [Nat.ModEq]) l.reverse
  rwa [Nat.ofDigits_one, List.sum_reverse] at h

end Digits

/-- The lowest `w` bits of a number, the most significant one first. -/
def bitsOf : (w n : ℕ) → List Bool
  | 0, _ => []
  | w + 1, n => bitsOf w (n / 2) ++ [decide (n % 2 = 1)]

def ofBits (l : List Bool) : ℕ :=
  bigEndian 2 (l.map Bool.toNat)

/-- The groups of `w` bits, as far as there are enough bits. -/
def groupsOf (w : ℕ) (l : List Bool) : List (List Bool) :=
  (List.range (l.length / w)).map fun i => (l.drop (w * i)).take w

@[simp]
theorem length_bitsOf (w n : ℕ) : (bitsOf w n).length = w := by
  induction w generalizing n with
  | zero => rfl
  | succ w ih => simp [bitsOf, ih]

theorem ofBits_append (l k : List Bool) :
    ofBits (l ++ k) = ofBits l * 2 ^ k.length + ofBits k := by
  simp [ofBits, bigEndian_append]

theorem ofBits_lt (l : List Bool) : ofBits l < 2 ^ l.length := by
  have h : ofBits l < 2 ^ (l.map Bool.toNat).length := by
    refine bigEndian_lt (by decide) fun d hd => ?_
    obtain ⟨c, -, rfl⟩ := List.mem_map.mp hd
    exact Bool.toNat_lt c
  rwa [List.length_map] at h

theorem ofBits_bitsOf {w n : ℕ} (h : n < 2 ^ w) : ofBits (bitsOf w n) = n := by
  induction w generalizing n with
  | zero =>
    obtain rfl : n = 0 := by omega
    rfl
  | succ w ih =>
    have hn : n / 2 < 2 ^ w := by
      rw [pow_succ] at h
      omega
    rw [bitsOf, ofBits_append, ih hn]
    rcases Nat.mod_two_eq_zero_or_one n with h0 | h0
    · simp [ofBits, h0]
      omega
    · simp [ofBits, h0]
      omega

theorem ofBits_replicate (n : ℕ) : ofBits (List.replicate n false) = 0 := by
  induction n with
  | zero => rfl
  | succ n ih => rw [List.replicate_succ', ofBits_append, ih]; rfl

/-- Groups of bits are the digits of the number that the bits make. -/
theorem bigEndian_groups {w : ℕ} {gs : List (List Bool)} (h : ∀ g ∈ gs, g.length = w) :
    bigEndian (2 ^ w) (gs.map ofBits) = ofBits gs.flatten := by
  induction gs with
  | nil => rfl
  | cons g gs ih =>
    simp only [List.mem_cons, forall_eq_or_imp] at h
    have hlength : gs.flatten.length = w * gs.length := by
      rw [List.length_flatten, List.map_congr_left (fun g hg => h.2 g hg), List.map_const',
        List.sum_replicate_nat, mul_comm]
    rw [List.map_cons, bigEndian_cons, ih h.2, List.flatten_cons, ofBits_append, hlength,
      List.length_map, ← pow_mul]

theorem length_of_mem_groupsOf {w : ℕ} {l g : List Bool} (h : g ∈ groupsOf w l) :
    g.length = w := by
  obtain ⟨i, hi, rfl⟩ := List.mem_map.mp h
  have hle : w * (i + 1) ≤ l.length :=
    (Nat.mul_le_mul_left w (List.mem_range.mp hi)).trans (Nat.mul_div_le l.length w)
  rw [List.length_take, List.length_drop]
  rw [Nat.mul_succ] at hle
  omega

theorem flatten_groupsOf (w : ℕ) (l : List Bool) :
    (groupsOf w l).flatten = l.take (w * (l.length / w)) := by
  unfold groupsOf
  induction l.length / w with
  | zero => simp
  | succ n ih =>
    rw [List.range_succ, List.map_append, List.flatten_append, ih, List.map_singleton,
      List.flatten_singleton, Nat.mul_succ, List.take_add]

theorem length_groupsOf (w : ℕ) (l : List Bool) : (groupsOf w l).length = l.length / w := by
  simp [groupsOf]

theorem ofBits_flatMap_bitsOf {w : ℕ} {l : List ℕ} (h : ∀ d ∈ l, d < 2 ^ w) :
    ofBits (l.flatMap (bitsOf w)) = bigEndian (2 ^ w) l := by
  have hwidth : ∀ g ∈ l.map (bitsOf w), g.length = w := by
    intro g hg
    obtain ⟨d, -, rfl⟩ := List.mem_map.mp hg
    exact length_bitsOf w d
  have hgroups := bigEndian_groups hwidth
  rw [List.flatMap_def, ← hgroups, List.map_map]
  congr 1
  exact (List.map_congr_left fun d hd => ofBits_bitsOf (h d hd)).trans (List.map_id l)

theorem length_flatMap_bitsOf (w : ℕ) (l : List ℕ) :
    (l.flatMap (bitsOf w)).length = w * l.length := by
  induction l with
  | nil => rfl
  | cons d l ih =>
    rw [List.flatMap_cons, List.length_append, length_bitsOf, ih, List.length_cons, Nat.mul_succ,
      Nat.add_comm]

theorem ofBits_take {l : List Bool} {n : ℕ} :
    ofBits (l.take n) = ofBits l / 2 ^ (l.length - n) := by
  have h := ofBits_append (l.take n) (l.drop n)
  have hlt := ofBits_lt (l.drop n)
  rw [List.take_append_drop] at h
  rw [List.length_drop] at h hlt
  rw [h, Nat.add_div_of_dvd_right (Dvd.intro_left _ rfl), Nat.mul_div_cancel _ (by positivity),
    Nat.div_eq_of_lt hlt, Nat.add_zero]

/-- The numbers of the groups of bits are the digits of what the groups leave of the bits. -/
theorem bigEndian_groupsOf (w : ℕ) (l : List Bool) :
    bigEndian (2 ^ w) ((groupsOf w l).map ofBits) =
      ofBits l / 2 ^ (l.length - w * (l.length / w)) := by
  rw [bigEndian_groups fun g hg => length_of_mem_groupsOf hg, flatten_groupsOf, ofBits_take]

end Sotto
