import Mathlib.Tactic.IntervalCases
import Sotto.Properties.KeyText

/-!
# Typing mistakes in key texts

One symbol typed for another, or two neighbours swapped, changes at most ten neighbouring bits of
the payload and its checksum. Where all of them are the payload's, the first sum sees the
difference, as it is the number of the payload modulo 255. Where they reach into the checksum, the
second sum does.
-/

namespace Sotto

namespace Core

namespace Format

/-- A typing mistake: a symbol replaced by one of the alphabet, or two swapped that have at most
hyphens between them. -/
inductive Typo : List Char → List Char → Prop
  | replaced (l r : List Char) {c d : Char} (hc : c ≠ '-') (hd : d ∈ crockfordAlphabet) :
      Typo (l ++ c :: r) (l ++ d :: r)
  | swapped (l : List Char) {h : List Char} (r : List Char) (c d : Char)
      (hh : ∀ x ∈ h, x = '-') : Typo (l ++ c :: (h ++ d :: r)) (l ++ d :: (h ++ c :: r))

/-- A mistake in the values of the symbols. -/
inductive Slip : List ℕ → List ℕ → Prop
  | replaced (u v : ℕ) : Slip [u] [v]
  | swapped (u v : ℕ) : Slip [u, v] [v, u]

/-- The two sums of a Fletcher-16 checksum. -/
def sums (data : List UInt8) : ℕ × ℕ :=
  data.foldl fletcherStep (0, 0)

theorem sums_snoc (data : List UInt8) (x : UInt8) :
    sums (data ++ [x]) = fletcherStep (sums data) x := by
  simp [sums]

theorem sums_lt (data : List UInt8) : (sums data).1 < 255 ∧ (sums data).2 < 255 := by
  induction data using List.reverseRecOn with
  | nil => decide
  | append_singleton data x =>
    rw [sums_snoc]
    exact ⟨Nat.mod_lt _ (by decide), Nat.mod_lt _ (by decide)⟩

/-- The first sum is the number of the bytes modulo 255. -/
theorem sums_append_fst (l k : List UInt8) :
    (sums (l ++ k)).1 = ((sums l).1 + value k) % 255 := by
  induction k using List.reverseRecOn with
  | nil => simp [value, Nat.mod_eq_of_lt (sums_lt l).1]
  | append_singleton k x ih =>
    have hstep : (sums (l ++ k ++ [x])).1 = ((sums (l ++ k)).1 + x.toNat) % 255 := by
      rw [sums_snoc]
      rfl
    rw [← List.append_assoc, hstep, ih, value_snoc]
    omega

/-- What the sums tell of a last byte. -/
theorem sums_last (l : List UInt8) (x : UInt8) :
    (sums (l ++ [x])).1 = ((sums l).1 + x.toNat) % 255 ∧
      (sums (l ++ [x])).2 = ((sums l).2 + (sums l).1 + x.toNat) % 255 := by
  rw [sums_snoc]
  change ((sums l).1 + x.toNat) % 255 = _ ∧
    ((sums l).2 + ((sums l).1 + x.toNat) % 255) % 255 = _
  omega

theorem sums_last_two (l : List UInt8) (y x : UInt8) :
    (sums (l ++ [y, x])).1 = ((sums l).1 + y.toNat + x.toNat) % 255 ∧
      (sums (l ++ [y, x])).2 =
        ((sums l).2 + 2 * (sums l).1 + 2 * y.toNat + x.toNat) % 255 := by
  have hsplit : l ++ [y, x] = l ++ [y] ++ [x] := by simp
  obtain ⟨hfst, hsnd⟩ := sums_last (l ++ [y]) x
  obtain ⟨hfst', hsnd'⟩ := sums_last l y
  rw [hsplit, hfst, hsnd, hfst', hsnd']
  omega

theorem value_checked (pre : List Char) (version : UInt8) (payload : List UInt8) :
    value (checked pre version payload) = value payload * 65536 +
      (sums (tagged pre version payload)).1 * 256 + (sums (tagged pre version payload)).2 := by
  obtain ⟨hfst, hsnd⟩ := sums_lt (tagged pre version payload)
  have hbytes : checked pre version payload = payload ++
      [UInt8.ofNat (sums (tagged pre version payload)).1,
        UInt8.ofNat (sums (tagged pre version payload)).2] := rfl
  have hfst' : (UInt8.ofNat (sums (tagged pre version payload)).1).toNat =
      (sums (tagged pre version payload)).1 :=
    UInt8.toNat_ofNat_of_lt' (by have : UInt8.size = 256 := rfl; omega)
  have hsnd' : (UInt8.ofNat (sums (tagged pre version payload)).2).toNat =
      (sums (tagged pre version payload)).2 :=
    UInt8.toNat_ofNat_of_lt' (by have : UInt8.size = 256 := rfl; omega)
  rw [hbytes, value_append]
  simp only [value, List.map_cons, List.map_nil, bigEndian_cons, bigEndian_nil, hfst', hsnd',
    List.length_cons, List.length_nil]
  omega

/-- The remainder of the numbers of two payloads modulo 255, if the first sums agree. -/
theorem value_modEq {l k k' : List UInt8} (h : (sums (l ++ k)).1 = (sums (l ++ k')).1) :
    value k ≡ value k' [MOD 255] := by
  rw [sums_append_fst, sums_append_fst] at h
  exact Nat.ModEq.add_left_cancel' _ h

theorem Slip.length_eq {us vs : List ℕ} (h : Slip us vs) : vs.length = us.length := by
  cases h <;> rfl

/-- Mistyped symbols differ modulo 255. -/
theorem Slip.eq_of_modEq {us vs : List ℕ} (h : Slip us vs) (hus : ∀ u ∈ us, u < 32)
    (hvs : ∀ v ∈ vs, v < 32) (heq : bigEndian 32 us ≡ bigEndian 32 vs [MOD 255]) :
    bigEndian 32 us = bigEndian 32 vs := by
  cases h with
  | replaced u v =>
    have hu := hus u List.mem_cons_self
    have hv := hvs v List.mem_cons_self
    simp only [bigEndian_singleton, Nat.ModEq] at heq ⊢
    omega
  | swapped u v =>
    have hu := hus u List.mem_cons_self
    have hv := hvs v List.mem_cons_self
    simp only [bigEndian_cons, bigEndian_nil, List.length_cons, List.length_nil, Nat.ModEq]
      at heq ⊢
    omega

section Window

variable {α W W' ζ e w q : ℕ}

/-- Where the mistyped bits are all read, they differ modulo 255 if what is read does. -/
theorem modEq_of_window (hq : q ≤ e)
    (h : ((α * 2 ^ w + W) * 2 ^ e + ζ) / 2 ^ q ≡ ((α * 2 ^ w + W') * 2 ^ e + ζ) / 2 ^ q [MOD 255]) :
    W ≡ W' [MOD 255] := by
  have hread : ∀ u, ((α * 2 ^ w + u) * 2 ^ e + ζ) / 2 ^ q =
      (α * 2 ^ w + u) * 2 ^ (e - q) + ζ / 2 ^ q := by
    intro u
    have hpow : 2 ^ e = 2 ^ (e - q) * 2 ^ q := by
      rw [← pow_add, Nat.sub_add_cancel hq]
    rw [hpow, ← mul_assoc, add_comm, Nat.add_mul_div_right _ _ (by positivity), add_comm]
  rw [hread, hread] at h
  have hcoprime : Nat.gcd 255 (2 ^ (e - q)) = 1 :=
    Nat.Coprime.pow_right (e - q) (by decide)
  exact Nat.ModEq.add_left_cancel' _
    (Nat.ModEq.cancel_right_of_coprime hcoprime (Nat.ModEq.add_right_cancel' _ h))

/-- Below the mistyped bits nothing changes. -/
theorem mod_of_window (hq : q ≤ e) (u : ℕ) :
    ((α * 2 ^ w + u) * 2 ^ e + ζ) % 2 ^ q = ζ % 2 ^ q := by
  have hpow : 2 ^ e = 2 ^ (e - q) * 2 ^ q := by
    rw [← pow_add, Nat.sub_add_cancel hq]
  rw [hpow, ← mul_assoc, Nat.mul_add_mod']

/-- Above the mistyped bits nothing changes. -/
theorem div_of_window (hq : e + w ≤ q) {u : ℕ} (hu : u < 2 ^ w) (hζ : ζ < 2 ^ e) :
    ((α * 2 ^ w + u) * 2 ^ e + ζ) / 2 ^ q = α / 2 ^ (q - (e + w)) := by
  have hpow : 2 ^ q = 2 ^ e * 2 ^ w * 2 ^ (q - (e + w)) := by
    rw [← pow_add, ← pow_add, Nat.add_sub_cancel' hq]
  rw [hpow, ← Nat.div_div_eq_div_mul, ← Nat.div_div_eq_div_mul]
  congr 1
  rw [add_comm, Nat.add_mul_div_right _ _ (by positivity), Nat.div_eq_of_lt hζ, zero_add,
    add_comm, Nat.add_mul_div_right _ _ (by positivity), Nat.div_eq_of_lt hu, zero_add]

end Window

/-- Bytes of one length whose numbers agree above the last `n` begin alike. -/
theorem exists_append {l k : List UInt8} {n : ℕ} (hlength : l.length = k.length)
    (hn : n ≤ l.length) (h : value l / 256 ^ n = value k / 256 ^ n) :
    ∃ m s t, l = m ++ s ∧ k = m ++ t ∧ s.length = n ∧ t.length = n := by
  have hvalue : ∀ j : List UInt8, j.length = l.length →
      value j / 256 ^ n = value (j.take (l.length - n)) := by
    intro j hj
    have hlast : (j.drop (l.length - n)).length = n := by
      rw [List.length_drop]
      omega
    have hlt := value_lt (j.drop (l.length - n))
    have hsplit := value_append (j.take (l.length - n)) (j.drop (l.length - n))
    rw [hlast] at hlt hsplit
    rw [List.take_append_drop] at hsplit
    rw [hsplit, add_comm, Nat.add_mul_div_right _ _ (by positivity), Nat.div_eq_of_lt hlt,
      zero_add]
  rw [hvalue l rfl, hvalue k hlength.symm] at h
  have hm : l.take (l.length - n) = k.take (l.length - n) :=
    value_inj (by rw [List.length_take, List.length_take, hlength]) h
  refine ⟨l.take (l.length - n), l.drop (l.length - n), k.drop (l.length - n),
    (List.take_append_drop _ _).symm, ?_, ?_, ?_⟩
  · rw [hm, List.take_append_drop]
  · rw [List.length_drop]
    omega
  · rw [List.length_drop]
    omega

section Boundary

variable {α ζ u v x x' y y' a a' b b' A B P X : ℕ}

theorem parts_of_eq (ha : a < 255) (hb : b < 255) (h : P * 65536 + a * 256 + b = X) :
    P = X / 65536 ∧ a = X / 256 % 256 ∧ b = X % 256 := by
  omega

theorem sum_last (hb : b = (B + x) % 255) (hb' : b' = (B + x') % 255) :
    (b + x') % 255 = (b' + x) % 255 := by
  omega

theorem sum_last_two (ha : a = (A + y + x) % 255) (ha' : a' = (A + y' + x') % 255)
    (hb : b = (B + 2 * y + x) % 255) (hb' : b' = (B + 2 * y' + x') % 255) :
    (a + y' + x') % 255 = (a' + y + x) % 255 ∧
      (b + 2 * y' + x') % 255 = (b' + 2 * y + x) % 255 := by
  constructor
  · clear hb hb'
    omega
  · clear ha ha'
    omega

theorem parts_ten (hζ : ζ < 2 ^ 10) : (X * 2 ^ 10 + ζ) / 2 ^ 3 / 65536 = X / 512 ∧
    (X * 2 ^ 10 + ζ) / 2 ^ 3 % 256 = X % 2 * 128 + ζ / 8 := by
  omega

theorem parts_fifteen (hζ : ζ < 2 ^ 15) : (X * 2 ^ 15 + ζ) / 65536 = X / 2 ∧
    (X * 2 ^ 15 + ζ) / 256 % 256 = X % 2 * 128 + ζ / 256 ∧
      (X * 2 ^ 15 + ζ) % 256 = ζ % 256 := by
  omega

/-- The lowest bit of two symbols. -/
theorem low_of_swapped : (α * 1024 + (u * 32 + v)) % 2 = v % 2 := by
  omega

/-- The highest bit of two symbols, above the rest. -/
theorem high_of_swapped (hv : v < 32) : (α * 1024 + (u * 32 + v)) / 512 = 2 * α + u / 16 := by
  omega

theorem bytes_of_swapped (hv : v < 32) : (α * 1024 + (u * 32 + v)) / 2 =
    (2 * α + u / 16) * 256 + (u % 16 * 16 + v / 2) ∧ u % 16 * 16 + v / 2 < 256 := by
  omega

theorem replaced_at_boundary {pad : ℕ} (hpad : pad < 4) (hu : u < 32) (hv : v < 32)
    (hX : (P * 256 + x) * 65536 + a * 256 + b = ((α * 32 + u) * 2 ^ 15 + ζ) / 2 ^ pad)
    (hX' : (P * 256 + x') * 65536 + a' * 256 + b' = ((α * 32 + v) * 2 ^ 15 + ζ) / 2 ^ pad)
    (hx : x < 256) (hx' : x' < 256) (ha : a < 255) (ha' : a' < 255)
    (hb : b = (B + x) % 255) (hb' : b' = (B + x') % 255) : x = x' := by
  interval_cases pad <;> omega

/-- The two symbols end in the first two bits of the checksum or earlier. -/
theorem swapped_before {pad : ℕ} (hpad : pad < 3) (hu : u < 32) (hv : v < 32)
    (hX : (P * 256 + x) * 65536 + a * 256 + b =
      ((α * 1024 + (u * 32 + v)) * 2 ^ 10 + ζ) / 2 ^ pad)
    (hX' : (P * 256 + x') * 65536 + a' * 256 + b' =
      ((α * 1024 + (v * 32 + u)) * 2 ^ 10 + ζ) / 2 ^ pad)
    (hx : x < 256) (hx' : x' < 256) (ha : a < 255) (ha' : a' < 255)
    (hb : b = (B + x) % 255) (hb' : b' = (B + x') % 255) : x = x' := by
  interval_cases pad <;> omega

theorem swapped_after {pad : ℕ} (hpos : 0 < pad) (hpad : pad < 5) (hu : u < 32) (hv : v < 32)
    (hX : (P * 256 + x) * 65536 + a * 256 + b =
      ((α * 1024 + (u * 32 + v)) * 2 ^ 15 + ζ) / 2 ^ pad)
    (hX' : (P * 256 + x') * 65536 + a' * 256 + b' =
      ((α * 1024 + (v * 32 + u)) * 2 ^ 15 + ζ) / 2 ^ pad)
    (hx : x < 256) (hx' : x' < 256) (ha : a < 255) (ha' : a' < 255)
    (hb : b = (B + x) % 255) (hb' : b' = (B + x') % 255) : x = x' := by
  interval_cases pad <;> omega

theorem high_eq_of_swapped : ∀ u < 32, ∀ v < 32,
    (v % 2 * 128 + v / 16) % 255 = (u % 2 * 128 + u / 16) % 255 → u / 16 = v / 16 := by
  decide +kernel

/-- One bit of the two symbols is the payload's last one, and the lowest is in the second sum. -/
theorem swapped_last_bit (hu : u < 32) (hv : v < 32) (hζ : ζ < 2 ^ 10)
    (hX : (P * 256 + x) * 65536 + a * 256 + b =
      ((α * 1024 + (u * 32 + v)) * 2 ^ 10 + ζ) / 2 ^ 3)
    (hX' : (P * 256 + x') * 65536 + a' * 256 + b' =
      ((α * 1024 + (v * 32 + u)) * 2 ^ 10 + ζ) / 2 ^ 3)
    (ha : a < 255) (ha' : a' < 255) (hblt : b < 255) (hblt' : b' < 255)
    (hb : b = (B + x) % 255) (hb' : b' = (B + x') % 255) : x = x' := by
  obtain ⟨hP, -, hbX⟩ := parts_of_eq ha hblt hX
  obtain ⟨hP', -, hbX'⟩ := parts_of_eq ha' hblt' hX'
  rw [(parts_ten hζ).1, high_of_swapped hv] at hP
  rw [(parts_ten hζ).1, high_of_swapped hu] at hP'
  rw [(parts_ten hζ).2, low_of_swapped] at hbX hbX'
  have hsum := sum_last hb hb'
  rw [hbX, hbX'] at hsum
  have hbits : (v % 2 * 128 + v / 16) % 255 = (u % 2 * 128 + u / 16) % 255 := by
    clear hX hX' hb hb' hbX hbX'
    omega
  have hhigh := high_eq_of_swapped u hu v hv hbits
  omega

theorem eq_of_swapped : ∀ u < 32, ∀ v < 32,
    (128 * (v % 2) + v / 16 + (v % 16 * 16 + u / 2)) % 255 =
      (128 * (u % 2) + u / 16 + (u % 16 * 16 + v / 2)) % 255 →
    (2 * (v / 16) + (v % 16 * 16 + u / 2)) % 255 =
      (2 * (u / 16) + (u % 16 * 16 + v / 2)) % 255 → u = v := by
  decide +kernel

/-- The two symbols are the payload's last nine bits and the first one of the checksum. -/
theorem swapped_across_byte (hu : u < 32) (hv : v < 32) (hζ : ζ < 2 ^ 15)
    (hX : ((P * 256 + y) * 256 + x) * 65536 + a * 256 + b =
      (α * 1024 + (u * 32 + v)) * 2 ^ 15 + ζ)
    (hX' : ((P * 256 + y') * 256 + x') * 65536 + a' * 256 + b' =
      (α * 1024 + (v * 32 + u)) * 2 ^ 15 + ζ)
    (hx : x < 256) (hx' : x' < 256) (halt : a < 255) (halt' : a' < 255) (hblt : b < 255)
    (hblt' : b' < 255) (ha : a = (A + y + x) % 255) (ha' : a' = (A + y' + x') % 255)
    (hb : b = (B + 2 * y + x) % 255) (hb' : b' = (B + 2 * y' + x') % 255) : u = v := by
  obtain ⟨hP, haX, hbX⟩ := parts_of_eq halt hblt hX
  obtain ⟨hP', haX', hbX'⟩ := parts_of_eq halt' hblt' hX'
  obtain ⟨hbytes, hlow⟩ := bytes_of_swapped (α := α) (u := u) hv
  obtain ⟨hbytes', hlow'⟩ := bytes_of_swapped (α := α) (u := v) hu
  rw [(parts_fifteen hζ).1, hbytes] at hP
  rw [(parts_fifteen hζ).1, hbytes'] at hP'
  rw [(parts_fifteen hζ).2.1, low_of_swapped] at haX haX'
  rw [(parts_fifteen hζ).2.2] at hbX hbX'
  obtain ⟨hsum, hsum'⟩ := sum_last_two ha ha' hb hb'
  rw [haX, haX'] at hsum
  rw [hbX, hbX'] at hsum'
  clear hX hX' ha ha' hb hb' haX haX' hbX hbX' hbytes hbytes'
  obtain ⟨hxu, hyu⟩ : x = u % 16 * 16 + v / 2 ∧ P * 256 + y = 2 * α + u / 16 := by
    generalize u % 16 * 16 + v / 2 = m at *
    omega
  obtain ⟨hxv, hyv⟩ : x' = v % 16 * 16 + u / 2 ∧ P * 256 + y' = 2 * α + v / 16 := by
    generalize v % 16 * 16 + u / 2 = m at *
    omega
  refine eq_of_swapped u hu v hv ?_ ?_
  · rw [← hxu, ← hxv]
    clear hsum' hxu hxv hP hP' hlow hlow'
    omega
  · rw [← hxu, ← hxv]
    clear hsum hxu hxv hP hP' hlow hlow'
    omega

end Boundary

section Payload

variable {pre : List Char} {version : UInt8} {payload p : List UInt8}

/-- The sums of a text's header and version with bytes of the payload. -/
def headed (pre : List Char) (version : UInt8) (l : List UInt8) : ℕ × ℕ :=
  sums (utf8 pre ++ [version] ++ l)

theorem value_checked_parts {V pad : ℕ} (h : value (checked pre version payload) = V / 2 ^ pad) :
    (∀ n, value payload / 256 ^ n = V / 2 ^ (pad + 16 + 8 * n)) ∧
      (headed pre version payload).1 = V % 2 ^ (pad + 16) / 2 ^ pad / 256 := by
  obtain ⟨hfst, hsnd⟩ := sums_lt (tagged pre version payload)
  obtain ⟨hvalue, hsum, -⟩ := parts_of_eq hfst hsnd (value_checked pre version payload).symm
  have hpow : (2 : ℕ) ^ (pad + 16) = 2 ^ pad * 65536 := pow_add 2 pad 16
  constructor
  · intro n
    rw [hvalue, h, Nat.div_div_eq_div_mul, Nat.div_div_eq_div_mul, pow_add, hpow, pow_mul,
      ← mul_assoc]
    rfl
  · have hmod : V / 2 ^ pad / 256 % 256 = V % 2 ^ (pad + 16) / 2 ^ pad / 256 := by
      rw [hpow, Nat.mod_mul_right_div_self]
      omega
    rw [← hmod, ← h]
    exact hsum

/-- What the sums tell, where two payloads differ in the last byte only. -/
theorem sums_of_last (pre : List Char) (version : UInt8) (hlength : payload.length = p.length) (hpos : 0 < payload.length)
    (h : value payload / 256 ^ 1 = value p / 256 ^ 1) :
    ∃ m x x', payload = m ++ [x] ∧ p = m ++ [x'] ∧
      (headed pre version payload).2 =
        ((headed pre version m).2 + (headed pre version m).1 + x.toNat) % 255 ∧
      (headed pre version p).2 =
        ((headed pre version m).2 + (headed pre version m).1 + x'.toNat) % 255 := by
  obtain ⟨m, s, t, rfl, rfl, hs, ht⟩ := exists_append hlength hpos h
  obtain ⟨x, rfl⟩ := List.length_eq_one_iff.mp hs
  obtain ⟨x', rfl⟩ := List.length_eq_one_iff.mp ht
  refine ⟨m, x, x', rfl, rfl, ?_, ?_⟩
  · rw [headed, ← List.append_assoc, (sums_last _ x).2]
    rfl
  · rw [headed, ← List.append_assoc, (sums_last _ x').2]
    rfl

theorem sums_of_last_two (pre : List Char) (version : UInt8)
    (hlength : payload.length = p.length) (htwo : 2 ≤ payload.length)
    (h : value payload / 256 ^ 2 = value p / 256 ^ 2) :
    ∃ m y x y' x', payload = m ++ [y, x] ∧ p = m ++ [y', x'] ∧
      (headed pre version payload).1 =
        ((headed pre version m).1 + y.toNat + x.toNat) % 255 ∧
      (headed pre version payload).2 = ((headed pre version m).2 +
        2 * (headed pre version m).1 + 2 * y.toNat + x.toNat) % 255 ∧
      (headed pre version p).1 =
        ((headed pre version m).1 + y'.toNat + x'.toNat) % 255 ∧
      (headed pre version p).2 = ((headed pre version m).2 +
        2 * (headed pre version m).1 + 2 * y'.toNat + x'.toNat) % 255 := by
  obtain ⟨m, s, t, rfl, rfl, hs, ht⟩ := exists_append hlength htwo h
  obtain ⟨y, x, rfl⟩ := List.length_eq_two.mp hs
  obtain ⟨y', x', rfl⟩ := List.length_eq_two.mp ht
  have hsums := sums_last_two (utf8 pre ++ [version] ++ m)
  simp only [List.append_assoc] at hsums
  simp only [headed, List.append_assoc]
  exact ⟨m, y, x, y', x', rfl, rfl, (hsums y x).1, (hsums y x).2, (hsums y' x').1,
    (hsums y' x').2⟩

theorem bigEndian_pair (c d : ℕ) : bigEndian 32 [c, d] = c * 32 + d := by
  simp [bigEndian_cons]

theorem bigEndian_lt_pow {W : List ℕ} {n : ℕ} (hW : W.length = n) (h : ∀ u ∈ W, u < 32) :
    bigEndian 32 W < 2 ^ (5 * n) := by
  rw [← hW, pow_mul]
  exact bigEndian_lt (by decide) h

/-- Symbols that reach from the payload into the checksum. -/
theorem eq_of_boundary {U U' : List ℕ} {α ζ pad e : ℕ} (hlength : payload.length = p.length)
    (hslip : Slip U U') (hU : ∀ u ∈ U, u < 32) (hU' : ∀ u ∈ U', u < 32) (hζ : ζ < 2 ^ (5 * e))
    (hpad : pad < 5) (hlast : 5 * e < pad + 16) (hfirst : pad + 16 < 5 * e + 5 * U.length)
    (hbits : 5 * U.length + 5 * e ≤ 8 * (payload.length + 2) + pad)
    (h : value (checked pre version payload) =
      ((α * 2 ^ (5 * U.length) + bigEndian 32 U) * 2 ^ (5 * e) + ζ) / 2 ^ pad)
    (h' : value (checked pre version p) =
      ((α * 2 ^ (5 * U.length) + bigEndian 32 U') * 2 ^ (5 * e) + ζ) / 2 ^ pad) :
    payload = p := by
  have hupper : ∀ n, 5 * e + 5 * U.length ≤ pad + 16 + 8 * n →
      value payload / 256 ^ n = value p / 256 ^ n := by
    intro n hn
    rw [(value_checked_parts h).1, (value_checked_parts h').1,
      div_of_window hn (bigEndian_lt_pow rfl hU) hζ,
      div_of_window hn (bigEndian_lt_pow hslip.length_eq hU') hζ]
  have hsame : ∀ {x x' : UInt8} {m : List UInt8}, x.toNat = x'.toNat → m ++ [x] = m ++ [x'] :=
    fun hx => by rw [UInt8.toNat_inj.mp hx]
  rw [value_checked] at h h'
  obtain ⟨halt, hblt⟩ := sums_lt (tagged pre version payload)
  obtain ⟨halt', hblt'⟩ := sums_lt (tagged pre version p)
  cases hslip with
  | replaced u v =>
    have hu := hU u List.mem_cons_self
    have hv := hU' v List.mem_cons_self
    simp only [List.length_singleton] at hfirst hbits h h' hupper
    obtain rfl : e = 3 := by omega
    obtain ⟨m, x, x', rfl, rfl, hb, hb'⟩ :=
      sums_of_last pre version hlength (by omega) (hupper 1 (by omega))
    rw [value_snoc, bigEndian_singleton] at h h'
    exact hsame (replaced_at_boundary (by omega) hu hv h h' (toNat_lt x) (toNat_lt x') halt halt'
      hb hb')
  | swapped u v =>
    have hu := hU u List.mem_cons_self
    have hv := hU' v List.mem_cons_self
    simp only [List.length_cons, List.length_nil, bigEndian_pair] at hfirst hbits h h' hupper
    obtain rfl | ⟨rfl, hpad0⟩ | ⟨rfl, rfl⟩ : e = 2 ∨ e = 3 ∧ 0 < pad ∨ e = 3 ∧ pad = 0 := by omega
    · obtain ⟨m, x, x', rfl, rfl, hb, hb'⟩ :=
        sums_of_last pre version hlength (by omega) (hupper 1 (by omega))
      rw [value_snoc] at h h'
      obtain hlt | rfl : pad < 3 ∨ pad = 3 := by omega
      · exact hsame (swapped_before hlt hu hv h h' (toNat_lt x) (toNat_lt x') halt halt' hb hb')
      · exact hsame (swapped_last_bit hu hv hζ h h' halt halt' hblt hblt' hb hb')
    · obtain ⟨m, x, x', rfl, rfl, hb, hb'⟩ :=
        sums_of_last pre version hlength (by omega) (hupper 1 (by omega))
      rw [value_snoc] at h h'
      exact hsame (swapped_after hpad0 hpad hu hv h h' (toNat_lt x) (toNat_lt x') halt halt'
        hb hb')
    · obtain ⟨m, y, x, y', x', rfl, rfl, ha, hb, ha', hb'⟩ :=
        sums_of_last_two pre version hlength (by omega)
          (hupper 2 (by omega))
      have hsplit : ∀ y x : UInt8, value (m ++ [y, x]) =
          (value m * 256 + y.toNat) * 256 + x.toNat := by
        intro y x
        rw [show m ++ [y, x] = m ++ [y] ++ [x] by simp, value_snoc, value_snoc]
      have hequal : u = v := by
        rw [hsplit, pow_zero, Nat.div_one] at h h'
        exact swapped_across_byte hu hv hζ h h' (toNat_lt x) (toNat_lt x') halt halt' hblt hblt'
          ha ha' hb hb'
      rw [hequal, ← value_checked] at h h'
      refine value_inj hlength ?_
      have hvalue := (value_checked_parts h).1 0
      have hvalue' := (value_checked_parts h').1 0
      rw [pow_zero, Nat.div_one] at hvalue hvalue'
      rw [hvalue, hvalue']

theorem eq_of_slip {A U U' Z : List ℕ} {pad : ℕ} (hlength : payload.length = p.length)
    (hslip : Slip U U') (hU : ∀ u ∈ U, u < 32) (hU' : ∀ u ∈ U', u < 32) (hZ : ∀ z ∈ Z, z < 32)
    (hpad : pad < 5)
    (hbits : 5 * (A ++ (U ++ Z)).length = 8 * (payload.length + 2) + pad)
    (h : value (checked pre version payload) = bigEndian 32 (A ++ (U ++ Z)) / 2 ^ pad)
    (h' : value (checked pre version p) = bigEndian 32 (A ++ (U' ++ Z)) / 2 ^ pad) :
    payload = p := by
  have hwindow : ∀ W : List ℕ, W.length = U.length → bigEndian 32 (A ++ (W ++ Z)) =
      (bigEndian 32 A * 2 ^ (5 * U.length) + bigEndian 32 W) * 2 ^ (5 * Z.length) +
        bigEndian 32 Z := by
    intro W hW
    rw [bigEndian_append, bigEndian_append, List.length_append, hW, pow_mul, pow_mul, pow_add]
    ring
  have hζ := bigEndian_lt_pow (W := Z) rfl hZ
  rw [hwindow U rfl] at h
  rw [hwindow U' hslip.length_eq] at h'
  obtain ⟨hvalue, hsum⟩ := value_checked_parts h
  obtain ⟨hvalue', hsum'⟩ := value_checked_parts h'
  replace hvalue := hvalue 0
  replace hvalue' := hvalue' 0
  rw [pow_zero, Nat.div_one, Nat.mul_zero, Nat.add_zero] at hvalue hvalue'
  refine value_inj hlength ?_
  rcases le_or_gt (pad + 16) (5 * Z.length) with hle | hgt
  · -- the checksum is what it was, and its first byte tells the payloads apart
    have hfst : (headed pre version payload).1 = (headed pre version p).1 := by
      rw [hsum, hsum', mod_of_window hle, mod_of_window hle]
    have hmod := value_modEq hfst
    rw [hvalue, hvalue'] at hmod
    rw [hvalue, hvalue', hslip.eq_of_modEq hU hU' (modEq_of_window hle hmod)]
  · rcases le_or_gt (5 * Z.length + 5 * U.length) (pad + 16) with hle | hcross
    · rw [hvalue, hvalue', div_of_window hle (bigEndian_lt_pow rfl hU) hζ,
        div_of_window hle (bigEndian_lt_pow hslip.length_eq hU') hζ]
    · simp only [List.length_append] at hbits
      rw [eq_of_boundary hlength hslip hU hU' hζ hpad hgt hcross (by omega) h h']

theorem symbols_of_filter {s : List Char} {ds : List ℕ} (hds : ∀ d ∈ ds, d < 32)
    (h : s.filter (· ≠ '-') = ds.map symbol) : symbols s = some ds := by
  rw [symbols_eq_some, h, List.forall₂_map_left_iff, List.forall₂_same]
  exact fun d hd => (symbol_spec d (hds d hd)).1

theorem exists_symbol {c : Char} (hc : c ∈ crockfordAlphabet) : ∃ v < 32, symbol v = c := by
  obtain ⟨v, hv, rfl⟩ := List.getElem_of_mem hc
  refine ⟨v, hv, ?_⟩
  rw [symbol, List.getD_eq_getElem?_getD, List.getElem?_eq_getElem hv, Option.getD_some]

/-- The symbols of a mistyped text. -/
theorem slip_of_typo {body body' : List Char} {ds : List ℕ} (h : Typo body body')
    (hds : ∀ d ∈ ds, d < 32) (hbody : body.filter (· ≠ '-') = ds.map symbol) :
    symbols body' = some ds ∨ ∃ A U U' Z, ds = A ++ (U ++ Z) ∧ Slip U U' ∧
      (∀ u ∈ U', u < 32) ∧ symbols body' = some (A ++ (U' ++ Z)) := by
  cases h with
  | @replaced l r c d hc hd =>
    obtain ⟨v, hv, rfl⟩ := exists_symbol hd
    rw [List.filter_append, List.filter_cons_of_pos (by simpa using hc)] at hbody
    obtain ⟨A, B, rfl, hA, hB⟩ := List.map_eq_append_iff.mp hbody.symm
    obtain ⟨u, Z, rfl, hu, hZ⟩ := List.map_eq_cons_iff.mp hB
    have hv32 : ∀ u ∈ [v], u < 32 := by simpa using hv
    refine Or.inr ⟨A, [u], [v], Z, rfl, .replaced u v, hv32, symbols_of_filter ?_ ?_⟩
    · intro x hx
      simp only [List.mem_append, List.mem_cons, List.not_mem_nil, or_false] at hx hds
      rcases hx with hx | rfl | hx
      · exact hds x (.inl hx)
      · exact hv
      · exact hds x (.inr (.inr hx))
    · rw [List.filter_append, List.filter_cons_of_pos (by simpa using (symbol_spec v hv).2.1)]
      simp only [List.map_append, List.map_cons, hA, hZ, List.cons_append,
        List.nil_append]
  | @swapped l h r c d hh =>
    have hnil : h.filter (· ≠ '-') = [] := by
      rw [List.filter_eq_nil_iff]
      intro x hx
      simpa using hh x hx
    by_cases hc : c = '-'
    · refine Or.inl (symbols_of_filter hds ?_)
      rw [← hbody]
      simp only [List.filter_append, List.filter_cons, hnil, hc, List.nil_append]
      split <;> simp
    by_cases hd : d = '-'
    · refine Or.inl (symbols_of_filter hds ?_)
      rw [← hbody]
      simp only [List.filter_append, List.filter_cons, hnil, hd, List.nil_append]
      simp
    have hfilter : ∀ x y : Char, x ≠ '-' → y ≠ '-' →
        (l ++ x :: (h ++ y :: r)).filter (· ≠ '-') =
          l.filter (· ≠ '-') ++ x :: y :: r.filter (· ≠ '-') := by
      intro x y hx hy
      rw [List.filter_append, List.filter_cons_of_pos (by simpa using hx), List.filter_append,
        List.filter_cons_of_pos (by simpa using hy), hnil, List.nil_append]
    rw [hfilter c d hc hd] at hbody
    obtain ⟨A, B, rfl, hA, hB⟩ := List.map_eq_append_iff.mp hbody.symm
    obtain ⟨u, B, rfl, hu, hB⟩ := List.map_eq_cons_iff.mp hB
    obtain ⟨v, Z, rfl, hv, hZ⟩ := List.map_eq_cons_iff.mp hB
    have huv : ∀ x ∈ [v, u], x < 32 := by
      intro x hx
      refine hds x ?_
      simp only [List.mem_append, List.mem_cons, List.not_mem_nil, or_false] at hx ⊢
      tauto
    refine Or.inr ⟨A, [u, v], [v, u], Z, rfl, .swapped u v, huv, symbols_of_filter ?_ ?_⟩
    · intro x hx
      refine hds x ?_
      simp only [List.mem_append, List.mem_cons, List.not_mem_nil, or_false] at hx ⊢
      tauto
    · rw [hfilter d c hd hc, ← hA, ← hu, ← hv, ← hZ]
      simp

theorem verify_eq_ok {body : List UInt8} :
    verify pre version body = .ok p ↔ body = checked pre version p := by
  constructor
  · intro h
    unfold verify at h
    split_ifs at h with hshort hcheck
    obtain rfl := Except.ok.inj h
    rw [checked, hcheck, List.take_append_drop]
  · rintro rfl
    exact verify_checked pre version p

/-- A text with one symbol replaced, or two swapped, is refused or still gives the payload. -/
theorem typo_caught (pre : List Char) (version : UInt8) (payload p : List UInt8)
    (body : List Char) (htypo : Typo (group (encode (checked pre version payload)) 5) body)
    (h : decodeKey pre version (head pre version ++ body) = .ok p) : p = payload := by
  obtain ⟨ds, hencode, hds, hlt, hle, hvalue⟩ := encode_spec (checked pre version payload)
  have hfilter : (group (encode (checked pre version payload)) 5).filter (· ≠ '-') =
      ds.map symbol := by
    rw [filter_group (by decide), filter_encode, hencode]
  have hlength : ∀ l, (checked pre version l).length = l.length + 2 := by
    intro l
    simp [checked, length_fletcher16]
  rw [decodeKey, stripPrefix_append] at h
  simp only at h
  obtain ⟨bytes, hdecode, hverify⟩ := Checked.bind_eq_ok.mp h
  obtain rfl := verify_eq_ok.mp hverify
  rw [decode_eq] at hdecode
  rcases slip_of_typo htypo hds hfilter with hsymbols | ⟨A, U, U', Z, rfl, hslip, hU', hsymbols⟩
  · rw [hsymbols] at hdecode
    have hbytes := Except.ok.inj hdecode
    rw [decodedValues_of_encode hds hlt hle hvalue] at hbytes
    have hsame := (verify_eq_ok.mpr hbytes).symm.trans (verify_checked pre version payload)
    exact Except.ok.inj hsame
  · rw [hsymbols] at hdecode
    have hbytes := Except.ok.inj hdecode
    obtain ⟨hcount, hnumber⟩ := decodedValues_spec (lt_of_symbols hsymbols)
    rw [hbytes] at hcount hnumber
    have hsize : (A ++ (U' ++ Z)).length = (A ++ (U ++ Z)).length := by
      simp only [List.length_append, hslip.length_eq]
    rw [hsize] at hcount hnumber
    rw [hlength] at hlt hle hvalue hcount
    simp only [List.mem_append] at hds
    have hpad : 5 * (A ++ (U ++ Z)).length =
        8 * (payload.length + 2) + (5 * (A ++ (U ++ Z)).length - 8 * (payload.length + 2)) := by
      omega
    have hold : value (checked pre version payload) = bigEndian 32 (A ++ (U ++ Z)) /
        2 ^ (5 * (A ++ (U ++ Z)).length - 8 * (payload.length + 2)) := by
      rw [hvalue, Nat.mul_div_cancel _ (by positivity)]
    have hnew : value (checked pre version p) = bigEndian 32 (A ++ (U' ++ Z)) /
        2 ^ (5 * (A ++ (U ++ Z)).length - 8 * (payload.length + 2)) := by
      rw [hnumber]
      congr 2
      omega
    exact (eq_of_slip (by omega) hslip (fun u hu => hds u (.inr (.inl hu))) hU'
      (fun z hz => hds z (.inr (.inr hz))) (by omega) hpad hold hnew).symm

theorem typo_caught_padding :
    Typo (group (encode (checked ['S', 'K'] 1 [0, 1])) 5)
      ['0', '0', '0', 'T', '1', '-', 'M', '9'] ∧
    ∃ p, decodeKey ['S', 'K'] 1 (head ['S', 'K'] 1 ++ ['0', '0', '0', 'T', '1', '-', 'M', '9']) =
      .ok p ∧ p = [0, 1] :=
  have htext : group (encode (checked ['S', 'K'] 1 [0, 1])) 5 =
      ['0', '0', '0', 'T', '1', '-', 'M'] ++ '8' :: [] := by
    decide +kernel
  have htypo : Typo (group (encode (checked ['S', 'K'] 1 [0, 1])) 5)
      (['0', '0', '0', 'T', '1', '-', 'M'] ++ '9' :: []) :=
    htext ▸ .replaced _ _ (by decide) (by decide)
  have hdecode : decodeKey ['S', 'K'] 1 (head ['S', 'K'] 1 ++
      (['0', '0', '0', 'T', '1', '-', 'M'] ++ '9' :: [])) = .ok [0, 1] := by
    decide +kernel
  ⟨htypo, [0, 1], hdecode, typo_caught ['S', 'K'] 1 [0, 1] [0, 1] _ htypo hdecode⟩

end Payload

end Format

end Core

end Sotto
