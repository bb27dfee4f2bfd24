import Mathlib.Algebra.Order.Ring.Nat
import Mathlib.Tactic.Ring
import Sotto.Core.Format
import Sotto.Library.Checked
import Sotto.Library.Digits

/-!
# Key text round trips

The symbols of an encoding and the bytes of it are the digits of one number, in bases 32 and 256.
What is left in a bit buffer is the remainder of that number, so no bit is lost in a shift, and
the loops compute what the bits in groups of five and of eight make.
-/

namespace Sotto

namespace Core

namespace Format

/-- The number that bytes make, the first one most significant. -/
def value (data : List UInt8) : ℕ :=
  bigEndian 256 (data.map UInt8.toNat)

theorem value_append (l k : List UInt8) : value (l ++ k) = value l * 256 ^ k.length + value k := by
  simp [value, bigEndian_append]

theorem value_snoc (l : List UInt8) (b : UInt8) : value (l ++ [b]) = value l * 256 + b.toNat := by
  simp [value, bigEndian_snoc]

theorem toNat_lt (b : UInt8) : b.toNat < 256 :=
  b.toNat_lt_size

theorem value_lt (l : List UInt8) : value l < 256 ^ l.length := by
  have h := bigEndian_lt (b := 256) (l := l.map UInt8.toNat) (by decide) fun d hd => by
    obtain ⟨b, -, rfl⟩ := List.mem_map.mp hd
    exact toNat_lt b
  rwa [List.length_map] at h

/-- Bytes are determined by their number and their value. -/
theorem value_inj {l k : List UInt8} (hlength : l.length = k.length) (h : value l = value k) :
    l = k := by
  have hmap := bigEndian_inj (b := 256) (by decide) (by simpa using hlength)
    (fun d hd => by
      obtain ⟨b, -, rfl⟩ := List.mem_map.mp hd
      exact toNat_lt b)
    (fun d hd => by
      obtain ⟨b, -, rfl⟩ := List.mem_map.mp hd
      exact toNat_lt b) h
  exact List.map_injective_iff.mpr (fun _ _ => UInt8.toNat_inj.mp) hmap

theorem mask_eq (acc bits : ℕ) : acc &&& mask bits = acc % 2 ^ bits := by
  rw [mask, Nat.one_shiftLeft, Nat.and_two_pow_sub_one_eq_mod]

theorem and_31 (x : ℕ) : x &&& 0x1f = x % 32 :=
  Nat.and_two_pow_sub_one_eq_mod x 5

/-- A shift within 16 bits loses nothing, and makes room for the next bits. -/
theorem shl16_or {acc bits k b : ℕ} (hacc : acc < 2 ^ bits) (hbits : bits + k ≤ 16)
    (hb : b < 2 ^ k) : acc <<< k < 2 ^ 16 ∧ (shl16 acc k ||| b) = acc * 2 ^ k + b ∧
      acc * 2 ^ k + b < 2 ^ (bits + k) := by
  have hle : (acc + 1) * 2 ^ k ≤ 2 ^ (bits + k) := by
    rw [pow_add]
    exact Nat.mul_le_mul_right _ hacc
  have htop : 2 ^ (bits + k) ≤ 2 ^ 16 := Nat.pow_le_pow_right (by decide) hbits
  rw [Nat.succ_mul] at hle
  have hlt : acc <<< k < 2 ^ 16 := by
    rw [Nat.shiftLeft_eq]
    omega
  refine ⟨hlt, ?_, by omega⟩
  rw [shl16, Nat.mod_eq_of_lt hlt, ← Nat.shiftLeft_add_eq_or_of_lt hb, Nat.shiftLeft_eq]

/-- The symbols that are put out are the leading digits of the buffer. -/
theorem drain_spec (acc bits : ℕ) (out : List Char) : ∃ ds : List ℕ,
    drain acc bits out = (out ++ ds.map symbol, bits % 5) ∧ ds.length = bits / 5 ∧
      (∀ d ∈ ds, d < 32) ∧
      bigEndian 32 ds * 2 ^ (bits % 5) + acc % 2 ^ (bits % 5) = acc % 2 ^ bits := by
  induction bits using Nat.strongRecOn generalizing out with
  | ind bits ih =>
    by_cases hbits : bits < 5
    · refine ⟨[], ?_, by simp [Nat.div_eq_of_lt hbits], by simp, by simp [Nat.mod_eq_of_lt hbits]⟩
      rw [drain.eq_2 acc bits out (by omega)]
      simp [Nat.mod_eq_of_lt hbits]
    · obtain ⟨n, rfl⟩ : ∃ n, bits = n + 5 := ⟨bits - 5, by omega⟩
      obtain ⟨ds, hdrain, hlength, hds, hvalue⟩ :=
        ih n (by omega) (out ++ [symbol ((acc >>> n) &&& 0x1f)])
      rw [and_31, Nat.shiftRight_eq_div_pow] at hdrain
      refine ⟨acc / 2 ^ n % 32 :: ds, ?_, ?_, ?_, ?_⟩
      · rw [drain, and_31, Nat.shiftRight_eq_div_pow, hdrain]
        simp
      · simp [hlength]
      · simp only [List.mem_cons, forall_eq_or_imp]
        exact ⟨Nat.mod_lt _ (by decide), hds⟩
      · have hpow : (32 : ℕ) ^ (n / 5) * 2 ^ (n % 5) = 2 ^ n := by
          rw [show (32 : ℕ) = 2 ^ 5 from rfl, ← pow_mul, ← pow_add, Nat.div_add_mod]
        have hmod : acc % 2 ^ (n + 5) = acc % 2 ^ n + 2 ^ n * (acc / 2 ^ n % 32) := by
          rw [pow_add, Nat.mod_mul]
          rfl
        rw [Nat.add_mod_right, bigEndian_cons, hlength, hmod, ← hvalue, ← hpow]
        ring

/-- What the encoder has after some bytes: the symbols and the buffer make the number of the
bytes. -/
structure Encodes (s : Buffer Char) (data : List UInt8) : Prop where
  bits : s.bits < 5
  acc : s.acc < 2 ^ s.bits
  length : 5 * s.out.length + s.bits = 8 * data.length
  symbols : ∃ ds : List ℕ, s.out = ds.map symbol ∧ (∀ d ∈ ds, d < 32) ∧
    bigEndian 32 ds * 2 ^ s.bits + s.acc = value data

theorem encodes_start : Encodes ⟨[], 0, 0⟩ [] where
  bits := by decide
  acc := by decide
  length := rfl
  symbols := ⟨[], rfl, by simp, rfl⟩

theorem Encodes.shift {s : Buffer Char} {data : List UInt8} (h : Encodes s data) (b : UInt8) :
    s.acc <<< 8 < 2 ^ 16 ∧ (shl16 s.acc 8 ||| b.toNat) = s.acc * 2 ^ 8 + b.toNat ∧
      s.acc * 2 ^ 8 + b.toNat < 2 ^ (s.bits + 8) :=
  shl16_or h.acc (by have := h.bits; omega) (toNat_lt b)

/-- One more byte. -/
theorem Encodes.encodeByte {s : Buffer Char} {data : List UInt8} (h : Encodes s data)
    (b : UInt8) : Encodes (encodeByte s b) (data ++ [b]) := by
  obtain ⟨-, hor, hlt⟩ := h.shift b
  obtain ⟨ds, hdrain, hlength, hds, hvalue⟩ := drain_spec (s.acc * 2 ^ 8 + b.toNat) (s.bits + 8) s.out
  rw [Nat.mod_eq_of_lt hlt] at hvalue
  have hstep : Format.encodeByte s b = ⟨s.out ++ ds.map symbol,
      (s.acc * 2 ^ 8 + b.toNat) % 2 ^ ((s.bits + 8) % 5), (s.bits + 8) % 5⟩ := by
    simp only [Format.encodeByte, hor, hdrain, mask_eq]
  obtain ⟨es, hes, hlt32, hold⟩ := h.symbols
  have hold_length := h.length
  rw [hstep]
  refine ⟨Nat.mod_lt _ (by decide), Nat.mod_lt _ (by positivity), ?_, es ++ ds, ?_, ?_, ?_⟩
  · simp only [List.length_append, List.length_map, hlength, List.length_singleton]
    omega
  · rw [hes, List.map_append]
  · intro d hd
    rcases List.mem_append.mp hd with hd | hd
    · exact hlt32 d hd
    · exact hds d hd
  · have hpow : (32 : ℕ) ^ ((s.bits + 8) / 5) * 2 ^ ((s.bits + 8) % 5) = 2 ^ s.bits * 2 ^ 8 := by
      rw [show (32 : ℕ) = 2 ^ 5 from rfl, ← pow_mul, ← pow_add, Nat.div_add_mod, pow_add]
    simp only [bigEndian_append, hlength, value_snoc, ← hold]
    calc (bigEndian 32 es * 32 ^ ((s.bits + 8) / 5) + bigEndian 32 ds) * 2 ^ ((s.bits + 8) % 5) +
          (s.acc * 2 ^ 8 + b.toNat) % 2 ^ ((s.bits + 8) % 5)
        = bigEndian 32 es * (32 ^ ((s.bits + 8) / 5) * 2 ^ ((s.bits + 8) % 5)) +
          (bigEndian 32 ds * 2 ^ ((s.bits + 8) % 5) +
            (s.acc * 2 ^ 8 + b.toNat) % 2 ^ ((s.bits + 8) % 5)) := by ring
      _ = bigEndian 32 es * (2 ^ s.bits * 2 ^ 8) + (s.acc * 2 ^ 8 + b.toNat) := by
          rw [hpow, hvalue]
      _ = (bigEndian 32 es * 2 ^ s.bits + s.acc) * 256 + b.toNat := by ring

theorem encodes_foldl (data : List UInt8) :
    Encodes (data.foldl encodeByte ⟨[], 0, 0⟩) data := by
  induction data using List.reverseRecOn with
  | nil => exact encodes_start
  | append_singleton data b ih =>
    rw [List.foldl_append]
    exact ih.encodeByte b

/-- The symbols of an encoding make the number of the bytes, with bits added to fill up the last
one. -/
theorem encode_spec (data : List UInt8) : ∃ ds : List ℕ, encode data = ds.map symbol ∧
    (∀ d ∈ ds, d < 32) ∧ 5 * ds.length < 8 * data.length + 5 ∧ 8 * data.length ≤ 5 * ds.length ∧
      bigEndian 32 ds = value data * 2 ^ (5 * ds.length - 8 * data.length) := by
  have h := encodes_foldl data
  obtain ⟨ds, hout, hds, hvalue⟩ := h.symbols
  have hlength := h.length
  have hbits := h.bits
  have hacc := h.acc
  unfold encode
  generalize data.foldl encodeByte ⟨[], 0, 0⟩ = s at h hout hvalue hlength hbits hacc
  have hds_length : s.out.length = ds.length := by rw [hout, List.length_map]
  simp only
  split
  case isTrue hpos =>
    obtain ⟨hlt, hshift, hfit⟩ := shl16_or (k := 5 - s.bits) (b := 0) hacc (by omega) (by positivity)
    rw [Nat.or_zero, Nat.add_zero] at hshift
    rw [Nat.add_zero, show s.bits + (5 - s.bits) = 5 by omega] at hfit
    have hfit : s.acc * 2 ^ (5 - s.bits) < 32 := hfit
    have hsymbol : shl16 s.acc (5 - s.bits) &&& 0x1f = s.acc * 2 ^ (5 - s.bits) := by
      rw [hshift, and_31, Nat.mod_eq_of_lt hfit]
    refine ⟨ds ++ [s.acc * 2 ^ (5 - s.bits)], ?_, ?_, ?_, ?_, ?_⟩
    · rw [hsymbol, hout, List.map_append, List.map_singleton]
    · intro d hd
      rcases List.mem_append.mp hd with hd | hd
      · exact hds d hd
      · exact List.mem_singleton.mp hd ▸ hfit
    · simp only [List.length_append, List.length_singleton]
      omega
    · simp only [List.length_append, List.length_singleton]
      omega
    · have hexp : 5 * (ds ++ [s.acc * 2 ^ (5 - s.bits)]).length - 8 * data.length = 5 - s.bits := by
        simp only [List.length_append, List.length_singleton]
        omega
      have hpow : (32 : ℕ) = 2 ^ s.bits * 2 ^ (5 - s.bits) := by
        rw [← pow_add, show s.bits + (5 - s.bits) = 5 by omega]
        rfl
      rw [hexp, bigEndian_snoc, ← hvalue]
      calc bigEndian 32 ds * 32 + s.acc * 2 ^ (5 - s.bits)
          = bigEndian 32 ds * (2 ^ s.bits * 2 ^ (5 - s.bits)) + s.acc * 2 ^ (5 - s.bits) := by
            rw [← hpow]
        _ = (bigEndian 32 ds * 2 ^ s.bits + s.acc) * 2 ^ (5 - s.bits) := by ring
  case isFalse hzero =>
    have hbits0 : s.bits = 0 := by omega
    rw [hbits0, pow_zero, mul_one] at hvalue
    rw [hbits0, pow_zero] at hacc
    refine ⟨ds, hout, hds, by omega, by omega, ?_⟩
    rw [show 5 * ds.length - 8 * data.length = 0 by omega, pow_zero, mul_one]
    omega

/-- What the decoder has after some symbols: the bytes and the buffer make their number. -/
structure Decodes (s : Buffer UInt8) (vs : List ℕ) : Prop where
  bits : s.bits < 8
  acc : s.acc < 2 ^ s.bits
  length : 8 * s.out.length + s.bits = 5 * vs.length
  bytes : value s.out * 2 ^ s.bits + s.acc = bigEndian 32 vs

theorem decodes_start : Decodes ⟨[], 0, 0⟩ [] where
  bits := by decide
  acc := by decide
  length := rfl
  bytes := rfl

theorem Decodes.shift {s : Buffer UInt8} {vs : List ℕ} (h : Decodes s vs) {v : ℕ} (hv : v < 32) :
    s.acc <<< 5 < 2 ^ 16 ∧ (shl16 s.acc 5 ||| v) = s.acc * 2 ^ 5 + v ∧
      s.acc * 2 ^ 5 + v < 2 ^ (s.bits + 5) :=
  shl16_or h.acc (by have := h.bits; omega) hv

/-- One more symbol. -/
theorem Decodes.decodeValue {s : Buffer UInt8} {vs : List ℕ} (h : Decodes s vs) {v : ℕ}
    (hv : v < 32) : Decodes (decodeValue s v) (vs ++ [v]) := by
  obtain ⟨-, hor, hlt⟩ := h.shift hv
  have hlength := h.length
  have hbits := h.bits
  unfold Format.decodeValue
  simp only [hor]
  split
  case isTrue hle =>
    have hexp : s.bits + 5 = 8 + (s.bits + 5 - 8) := by omega
    have hbyte : (s.acc * 2 ^ 5 + v) / 2 ^ (s.bits + 5 - 8) < 256 := by
      refine Nat.div_lt_of_lt_mul ?_
      rw [hexp, pow_add, mul_comm (2 ^ 8)] at hlt
      exact hlt
    have htoNat : (UInt8.ofNat ((s.acc * 2 ^ 5 + v) >>> (s.bits + 5 - 8))).toNat =
        (s.acc * 2 ^ 5 + v) / 2 ^ (s.bits + 5 - 8) := by
      rw [Nat.shiftRight_eq_div_pow, UInt8.toNat_ofNat_of_lt' hbyte]
    refine ⟨by simp only; omega, ?_, ?_, ?_⟩
    · simp only [mask_eq]
      exact Nat.mod_lt _ (by positivity)
    · simp only [List.length_append, List.length_singleton]
      omega
    · simp only [mask_eq, value_snoc, htoNat, bigEndian_snoc, ← h.bytes]
      have hdiv := Nat.div_add_mod (s.acc * 2 ^ 5 + v) (2 ^ (s.bits + 5 - 8))
      have hpow : 256 * 2 ^ (s.bits + 5 - 8) = 2 ^ s.bits * 32 := by
        rw [show (256 : ℕ) = 2 ^ 8 from rfl, ← pow_add, ← hexp, pow_add]
        rfl
      calc (value s.out * 256 + (s.acc * 2 ^ 5 + v) / 2 ^ (s.bits + 5 - 8)) * 2 ^ (s.bits + 5 - 8) +
            (s.acc * 2 ^ 5 + v) % 2 ^ (s.bits + 5 - 8)
          = value s.out * (256 * 2 ^ (s.bits + 5 - 8)) +
            (2 ^ (s.bits + 5 - 8) * ((s.acc * 2 ^ 5 + v) / 2 ^ (s.bits + 5 - 8)) +
              (s.acc * 2 ^ 5 + v) % 2 ^ (s.bits + 5 - 8)) := by ring
        _ = value s.out * (2 ^ s.bits * 32) + (s.acc * 2 ^ 5 + v) := by rw [hpow, hdiv]
        _ = (value s.out * 2 ^ s.bits + s.acc) * 32 + v := by ring
  case isFalse hgt =>
    refine ⟨by simp only; omega, hlt, ?_, ?_⟩
    · simp only [List.length_append, List.length_singleton]
      omega
    · simp only [bigEndian_snoc, ← h.bytes, pow_add]
      ring

theorem decodes_foldl {vs : List ℕ} (hvs : ∀ v ∈ vs, v < 32) :
    Decodes (vs.foldl decodeValue ⟨[], 0, 0⟩) vs := by
  induction vs using List.reverseRecOn with
  | nil => exact decodes_start
  | append_singleton vs v ih =>
    rw [List.foldl_append]
    exact (ih fun w hw => hvs w (List.mem_append_left _ hw)).decodeValue (hvs v (by simp))

/-- The bytes that symbols make. -/
def decodedValues (vs : List ℕ) : List UInt8 :=
  (vs.foldl decodeValue ⟨[], 0, 0⟩).out

/-- Decoding leaves out the bits that do not fill a byte. -/
theorem decodedValues_spec {vs : List ℕ} (hvs : ∀ v ∈ vs, v < 32) :
    (decodedValues vs).length = 5 * vs.length / 8 ∧
      value (decodedValues vs) =
        bigEndian 32 vs / 2 ^ (5 * vs.length - 8 * (5 * vs.length / 8)) := by
  have h := decodes_foldl hvs
  have hlength := h.length
  have hbits := h.bits
  have hout : (decodedValues vs).length = 5 * vs.length / 8 := by
    unfold decodedValues
    omega
  have hexp : 5 * vs.length - 8 * (5 * vs.length / 8) =
      (vs.foldl decodeValue ⟨[], 0, 0⟩).bits := by omega
  refine ⟨hout, ?_⟩
  rw [hexp, ← h.bytes, Nat.add_div_of_dvd_right (Dvd.intro_left _ rfl),
    Nat.mul_div_cancel _ (by positivity), Nat.div_eq_of_lt h.acc, Nat.add_zero]
  rfl

/-- Decoding the symbols of an encoding gives the bytes. -/
theorem decodedValues_of_encode {data : List UInt8} {ds : List ℕ} (hds : ∀ d ∈ ds, d < 32)
    (hlt : 5 * ds.length < 8 * data.length + 5) (hle : 8 * data.length ≤ 5 * ds.length)
    (h : bigEndian 32 ds = value data * 2 ^ (5 * ds.length - 8 * data.length)) :
    decodedValues ds = data := by
  obtain ⟨hlength, hvalue⟩ := decodedValues_spec hds
  have hdiv : 5 * ds.length / 8 = data.length := by omega
  rw [hdiv] at hlength hvalue
  refine value_inj hlength ?_
  rw [hvalue, h, Nat.mul_div_cancel _ (by positivity)]

theorem symbol_spec : ∀ d < 32, decodeSymbol (symbol d) = some d ∧ symbol d ≠ '-' ∧
    symbol d ∈ crockfordAlphabet := by
  decide +kernel

theorem decodeSymbol_lt {c : Char} {v : ℕ} (h : decodeSymbol c = some v) : v < 32 := by
  unfold decodeSymbol inRange at h
  simp only [Bool.and_eq_true, decide_eq_true_eq] at h
  split_ifs at h
  · obtain rfl := Option.some.inj h
    decide
  · obtain rfl := Option.some.inj h
    decide
  all_goals
    obtain rfl := Option.some.inj h
    simp at *
    omega

/-- What is not ASCII is no symbol. -/
theorem decodeSymbol_eq_none {c : Char} (h : 128 ≤ c.toNat) : decodeSymbol c = none := by
  have hupper : c.toUpper = c := by
    unfold Char.toUpper
    rw [dif_neg]
    rintro ⟨-, hle⟩
    have hle : c.toNat ≤ 122 := hle
    omega
  have hne : ∀ d : Char, d.toNat < 128 → c ≠ d := by
    rintro d hd rfl
    omega
  have hout : ∀ low high : Char, high.toNat < 128 →
      ¬ (low.toNat ≤ c.toNat ∧ c.toNat ≤ high.toNat) := by
    intro low high hhigh
    omega
  simp only [decodeSymbol, hupper, inRange, Bool.and_eq_true, decide_eq_true_eq]
  rw [if_neg (hne 'O' (by decide)),
    if_neg (not_or.mpr ⟨hne 'I' (by decide), hne 'L' (by decide)⟩),
    if_neg (hout '0' '9' (by decide)), if_neg (hout 'A' 'H' (by decide)),
    if_neg (hout 'J' 'K' (by decide)), if_neg (hout 'M' 'N' (by decide)),
    if_neg (hout 'P' 'T' (by decide)), if_neg (hout 'V' 'Z' (by decide))]

/-- Take one character of a text. -/
def decodeChar (s : Buffer UInt8) (c : Char) : Except Error (Buffer UInt8) :=
  if c = '-' then .ok s
  else match decodeSymbol c with
    | none => .error (.malformed "invalid base32 symbol")
    | some v => .ok (decodeValue s v)

theorem decodeByte_eq_error {s : Buffer UInt8} {b : UInt8} (h : 128 ≤ b.toNat) :
    decodeByte s b = .error (.malformed "invalid base32 symbol") := by
  have hvalid : (Char.ofNat b.toNat).toNat = b.toNat := by
    have hlt := toNat_lt b
    have hchar : b.toNat.isValidChar := Or.inl (by omega)
    rw [Char.ofNat, dif_pos hchar]
    exact UInt32.toNat_ofNatLT
  have hne : Char.ofNat b.toNat ≠ '-' := by
    intro heq
    rw [heq] at hvalid
    have : '-'.toNat = 45 := rfl
    omega
  simp only [decodeByte, if_neg hne, decodeSymbol_eq_none (hvalid.symm ▸ h)]

/-- The decoder takes the bytes of a character as the character. -/
theorem foldlM_utf8EncodeChar (s : Buffer UInt8) (c : Char) :
    (String.utf8EncodeChar c).foldlM decodeByte s = decodeChar s c := by
  by_cases hascii : c.toNat ≤ 127
  · have hbytes : String.utf8EncodeChar c = [UInt8.ofNat c.toNat] := by
      unfold String.utf8EncodeChar
      exact if_pos hascii
    have hbyte : (UInt8.ofNat c.toNat).toNat = c.toNat :=
      UInt8.toNat_ofNat_of_lt' (by have : UInt8.size = 256 := rfl; omega)
    rw [hbytes, List.foldlM_cons]
    simp only [decodeByte, hbyte, Char.ofNat_toNat, List.foldlM_nil, bind_pure]
    rfl
  · have hwide : 128 ≤ c.toNat := by omega
    have hchar : decodeChar s c = .error (.malformed "invalid base32 symbol") := by
      have hne : c ≠ '-' := by
        rintro rfl
        exact absurd hwide (by decide)
      simp only [decodeChar, if_neg hne, decodeSymbol_eq_none hwide]
    obtain ⟨b, l, hbytes, hb⟩ : ∃ b l, String.utf8EncodeChar c = b :: l ∧ 128 ≤ b.toNat := by
      have hval : ¬ c.val.toNat ≤ 0x7f := hascii
      simp only [String.utf8EncodeChar, if_neg hval]
      split_ifs
      all_goals
        refine ⟨_, _, rfl, ?_⟩
        rw [UInt8.toNat_ofNat']
        omega
    rw [hbytes, List.foldlM_cons, decodeByte_eq_error hb, hchar]
    rfl

theorem foldlM_utf8 (l : List Char) (s : Buffer UInt8) :
    (utf8 l).foldlM decodeByte s = l.foldlM decodeChar s := by
  induction l generalizing s with
  | nil => rfl
  | cons c l ih =>
    rw [utf8, List.flatMap_cons, List.foldlM_append, List.foldlM_cons, foldlM_utf8EncodeChar]
    exact bind_congr fun s' => ih s'

/-- The symbols of a text, hyphens left out. -/
def symbols (s : List Char) : Option (List ℕ) :=
  (s.filter (· ≠ '-')).mapM decodeSymbol

/-- A text is decoded from its symbols, or is refused for a character that is none. -/
theorem decode_eq (s : List Char) : decode s = match symbols s with
    | none => .error (.malformed "invalid base32 symbol")
    | some vs => .ok (decodedValues vs) := by
  have hfold : ∀ (l : List Char) (s : Buffer UInt8), l.foldlM decodeChar s =
      match symbols l with
      | none => .error (.malformed "invalid base32 symbol")
      | some vs => .ok (vs.foldl decodeValue s) := by
    intro l
    induction l with
    | nil => exact fun s => rfl
    | cons c l ih =>
      intro s
      rw [List.foldlM_cons]
      by_cases hc : c = '-'
      · have hsymbols : symbols (c :: l) = symbols l := by simp [symbols, hc]
        rw [hsymbols, decodeChar, if_pos hc]
        exact ih s
      · have hsymbols : symbols (c :: l) = (decodeSymbol c).bind fun v =>
            (symbols l).bind fun vs => some (v :: vs) := by
          simp [symbols, hc, List.mapM_cons]
        rw [hsymbols, decodeChar, if_neg hc]
        cases decodeSymbol c with
        | none => rfl
        | some v =>
          refine (ih _).trans ?_
          cases symbols l <;> rfl
  rw [decode, foldlM_utf8, hfold]
  cases symbols s <;> rfl

/-- The bits with zeros after them, up to a multiple of `w`. -/
def fillUp (w : ℕ) (l : List Bool) : List Bool :=
  l ++ List.replicate ((w - l.length % w) % w) false

/-- The bits of bytes, in groups of five. -/
def referenceEncode (data : List UInt8) : List Char :=
  (groupsOf 5 (fillUp 5 (data.flatMap fun b => bitsOf 8 b.toNat))).map fun g =>
    symbol (ofBits g)

/-- The bits of symbols, in groups of eight. -/
def referenceDecode (s : List Char) : Except Error (List UInt8) :=
  match symbols s with
  | none => .error (.malformed "invalid base32 symbol")
  | some vs => .ok ((groupsOf 8 (vs.flatMap (bitsOf 5))).map fun g => UInt8.ofNat (ofBits g))

theorem ofBits_bytes (data : List UInt8) :
    ofBits (data.flatMap fun b => bitsOf 8 b.toNat) = value data := by
  have h := ofBits_flatMap_bitsOf (w := 8) (l := data.map UInt8.toNat) fun d hd => by
    obtain ⟨b, -, rfl⟩ := List.mem_map.mp hd
    exact toNat_lt b
  rw [List.flatMap_map] at h
  exact h

theorem length_bytes (data : List UInt8) :
    (data.flatMap fun b => bitsOf 8 b.toNat).length = 8 * data.length := by
  have h := length_flatMap_bitsOf 8 (data.map UInt8.toNat)
  rwa [List.flatMap_map, List.length_map] at h

theorem encode_eq_reference (data : List UInt8) : encode data = referenceEncode data := by
  obtain ⟨ds, hencode, hds, hlt, hle, hvalue⟩ := encode_spec data
  have hbits := length_bytes data
  have hfill : (fillUp 5 (data.flatMap fun b => bitsOf 8 b.toNat)).length = 5 * ds.length := by
    rw [fillUp, List.length_append, List.length_replicate, hbits]
    omega
  have hgroups : ds = (groupsOf 5 (fillUp 5 (data.flatMap fun b => bitsOf 8 b.toNat))).map
      ofBits := by
    refine bigEndian_inj (b := 32) (by decide) ?_ hds ?_ ?_
    · rw [List.length_map, length_groupsOf, hfill]
      omega
    · intro d hd
      obtain ⟨g, hg, rfl⟩ := List.mem_map.mp hd
      have hlt := ofBits_lt g
      rwa [length_of_mem_groupsOf hg] at hlt
    · have hfull := bigEndian_groupsOf 5 (fillUp 5 (data.flatMap fun b => bitsOf 8 b.toNat))
      rw [hfill, Nat.mul_div_cancel_left _ (by decide), Nat.sub_self, pow_zero, Nat.div_one]
        at hfull
      have hzeros : (5 - 8 * data.length % 5) % 5 = 5 * ds.length - 8 * data.length := by omega
      rw [hvalue, show (32 : ℕ) = 2 ^ 5 from rfl, hfull, fillUp, ofBits_append, ofBits_bytes,
        ofBits_replicate, List.length_replicate, hbits, hzeros, Nat.add_zero]
  rw [hencode, hgroups, List.map_map]
  rfl

theorem symbols_eq_some {s : List Char} {vs : List ℕ} : symbols s = some vs ↔
    List.Forall₂ (fun c v => decodeSymbol c = some v) (s.filter (· ≠ '-')) vs :=
  Checked.mapM_eq_some

theorem lt_of_symbols {s : List Char} {vs : List ℕ} (h : symbols s = some vs) :
    ∀ v ∈ vs, v < 32 := by
  have hall := symbols_eq_some.mp h
  clear h
  generalize s.filter (· ≠ '-') = l at hall
  induction hall with
  | nil => exact fun v hv => absurd hv List.not_mem_nil
  | cons hc _ ih => exact List.forall_mem_cons.mpr ⟨decodeSymbol_lt hc, ih⟩

theorem decode_eq_reference (s : List Char) : decode s = referenceDecode s := by
  rw [decode_eq, referenceDecode]
  cases hsymbols : symbols s with
  | none => rfl
  | some vs =>
    have hvs := lt_of_symbols hsymbols
    have hbits := length_flatMap_bitsOf 5 vs
    obtain ⟨hlength, hvalue⟩ := decodedValues_spec hvs
    refine congrArg Except.ok (value_inj ?_ ?_)
    · rw [hlength, List.length_map, length_groupsOf, hbits]
    · have hmap : ((groupsOf 8 (vs.flatMap (bitsOf 5))).map fun g =>
          UInt8.ofNat (ofBits g)).map UInt8.toNat =
            (groupsOf 8 (vs.flatMap (bitsOf 5))).map ofBits := by
        rw [List.map_map]
        refine List.map_congr_left fun g hg => UInt8.toNat_ofNat_of_lt' ?_
        have hlt := ofBits_lt g
        rwa [length_of_mem_groupsOf hg] at hlt
      have hgroups := bigEndian_groupsOf 8 (vs.flatMap (bitsOf 5))
      rw [hbits, ofBits_flatMap_bitsOf hvs] at hgroups
      rw [hvalue, value, hmap]
      exact hgroups.symm

/-- A spelling of a symbol: in any letter case, or as a letter that looks like it. -/
def Spells (symbol c : Char) : Prop :=
  c.toUpper = symbol ∨ symbol = '0' ∧ c.toUpper = 'O' ∨
    symbol = '1' ∧ (c.toUpper = 'I' ∨ c.toUpper = 'L')

instance (symbol c : Char) : Decidable (Spells symbol c) :=
  inferInstanceAs (Decidable (_ ∨ _))

/-- Another text with the same symbols, the hyphens anywhere. -/
def Respells (body body' : List Char) : Prop :=
  List.Forall₂ Spells (body.filter (· ≠ '-')) (body'.filter (· ≠ '-'))

theorem toUpper_symbol : ∀ d < 32, (symbol d).toUpper = symbol d := by
  decide +kernel

theorem decodeSymbol_of_spells {d : ℕ} (hd : d < 32) {c : Char} (h : Spells (symbol d) c) :
    decodeSymbol c = some d := by
  rcases h with h | ⟨hzero, h⟩ | ⟨hone, h⟩
  · have hcase : decodeSymbol c = decodeSymbol (symbol d) := by
      unfold decodeSymbol
      rw [h, toUpper_symbol d hd]
    rw [hcase]
    exact (symbol_spec d hd).1
  · have h0 : d = 0 := by
      have hsymbol := (symbol_spec d hd).1
      rw [hzero] at hsymbol
      exact (Option.some.inj hsymbol).symm
    rw [decodeSymbol, h, h0]
    rfl
  · have h1 : d = 1 := by
      have hsymbol := (symbol_spec d hd).1
      rw [hone] at hsymbol
      exact (Option.some.inj hsymbol).symm
    rcases h with h | h
    · rw [decodeSymbol, h, h1]
      rfl
    · rw [decodeSymbol, h, h1]
      rfl

theorem filter_symbols {ds : List ℕ} (hds : ∀ d ∈ ds, d < 32) :
    (ds.map symbol).filter (· ≠ '-') = ds.map symbol := by
  refine List.filter_eq_self.mpr fun c hc => ?_
  obtain ⟨d, hd, rfl⟩ := List.mem_map.mp hc
  exact decide_eq_true (symbol_spec d (hds d hd)).2.1

theorem flatten_chunksUpTo {n : ℕ} (hn : 0 < n) (count : ℕ) (s : List Char)
    (h : s.length ≤ count) : (chunksUpTo n count s).flatten = s := by
  induction count generalizing s with
  | zero => rw [List.length_eq_zero_iff.mp (Nat.le_zero.mp h)]; rfl
  | succ count ih =>
    cases s with
    | nil => rfl
    | cons c s =>
      rw [chunksUpTo, List.flatten_cons, ih, List.take_append_drop]
      rw [List.length_drop]
      simp only [List.length_cons] at h ⊢
      omega

/-- The groups of a text are the text, up to hyphens. -/
theorem filter_group {n : ℕ} (hn : 0 < n) (s : List Char) :
    (group s n).filter (· ≠ '-') = s.filter (· ≠ '-') := by
  have hjoin : ∀ l : List (List Char), (['-'].intercalate l).filter (· ≠ '-') =
      l.flatten.filter (· ≠ '-') := by
    intro l
    induction l with
    | nil => rfl
    | cons g l ih =>
      cases l with
      | nil => simp [List.intercalate]
      | cons g' l =>
        rw [List.intercalate_cons_cons, List.filter_append, List.filter_append, ih]
        simp
  rw [group, hjoin, chunks, flatten_chunksUpTo hn s.length s le_rfl]

theorem symbols_of_spells {ds : List ℕ} (hds : ∀ d ∈ ds, d < 32) {l : List Char}
    (h : List.Forall₂ Spells (ds.map symbol) l) :
    List.Forall₂ (fun c v => decodeSymbol c = some v) l ds := by
  rw [List.forall₂_map_left_iff] at h
  induction h with
  | nil => exact .nil
  | cons hc _ ih =>
    rw [List.forall_mem_cons] at hds
    exact .cons (decodeSymbol_of_spells hds.1 hc) (ih hds.2)

/-- A spelling of an encoding decodes to the bytes. -/
theorem decode_of_spells {data : List UInt8} {body : List Char}
    (h : List.Forall₂ Spells (encode data) (body.filter (· ≠ '-'))) : decode body = .ok data := by
  obtain ⟨ds, hencode, hds, hlt, hle, hvalue⟩ := encode_spec data
  rw [hencode] at h
  rw [decode_eq, symbols_eq_some.mpr (symbols_of_spells hds h)]
  exact congrArg Except.ok (decodedValues_of_encode hds hlt hle hvalue)

theorem filter_encode (data : List UInt8) :
    (encode data).filter (· ≠ '-') = encode data := by
  obtain ⟨ds, hencode, hds, -⟩ := encode_spec data
  rw [hencode, filter_symbols hds]

theorem spells_encode (data : List UInt8) : List.Forall₂ Spells (encode data) (encode data) := by
  obtain ⟨ds, hencode, hds, -⟩ := encode_spec data
  rw [hencode, List.forall₂_same]
  intro c hc
  obtain ⟨d, hd, rfl⟩ := List.mem_map.mp hc
  exact Or.inl (toUpper_symbol d (hds d hd))

theorem stripPrefix_append (pre s : List Char) : stripPrefix pre (pre ++ s) = some s := by
  simp [stripPrefix]

theorem length_fletcher16 (data : List UInt8) : (fletcher16 data).length = 2 :=
  rfl

theorem verify_checked (pre : List Char) (version : UInt8) (payload : List UInt8) :
    verify pre version (checked pre version payload) = .ok payload := by
  have hlength : (checked pre version payload).length = payload.length + 2 := by
    simp [checked, length_fletcher16]
  rw [verify, hlength, if_neg (by omega), Nat.add_sub_cancel]
  simp [checked]

theorem respells_iff {data : List UInt8} {body : List Char} :
    Respells (group (encode data) 5) body ↔
      List.Forall₂ Spells (encode data) (body.filter (· ≠ '-')) := by
  rw [Respells, filter_group (by decide), filter_encode]

theorem decodeKey_of_respells {pre : List Char} {version : UInt8} {payload : List UInt8}
    {body : List Char} (h : Respells (group (encode (checked pre version payload)) 5) body) :
    decodeKey pre version (head pre version ++ body) = .ok payload := by
  rw [decodeKey, stripPrefix_append]
  simp only [decode_of_spells (respells_iff.mp h), bind, Except.bind]
  exact verify_checked pre version payload

theorem decodes_of_foldlM {bytes : List UInt8} {s : Buffer UInt8}
    (h : bytes.foldlM decodeByte ⟨[], 0, 0⟩ = .ok s) : ∃ vs, Decodes s vs := by
  induction bytes using List.reverseRecOn generalizing s with
  | nil =>
    obtain rfl := Except.ok.inj h
    exact ⟨[], decodes_start⟩
  | append_singleton bytes b ih =>
    rw [List.foldlM_append] at h
    obtain ⟨s₁, h₁, h⟩ := Checked.bind_eq_ok.mp h
    obtain ⟨vs, hvs⟩ := ih h₁
    rw [List.foldlM_cons] at h
    obtain ⟨s₂, h₂, h⟩ := Checked.bind_eq_ok.mp h
    obtain rfl := Checked.pure_eq_ok.mp h
    unfold decodeByte at h₂
    simp only at h₂
    split_ifs at h₂
    · obtain rfl := Except.ok.inj h₂
      exact ⟨vs, hvs⟩
    · cases hv : decodeSymbol (Char.ofNat b.toNat) with
      | none =>
        rw [hv] at h₂
        cases h₂
      | some v =>
        rw [hv] at h₂
        obtain rfl := Except.ok.inj h₂
        exact ⟨vs ++ [v], hvs.decodeValue (decodeSymbol_lt hv)⟩

/-- Key text round trips, and both directions are the bit-level references with no shift out of
the buffer. -/
theorem key_text_round_trips :
    (∀ data, decode (encode data) = .ok data ∧ encode data = referenceEncode data) ∧
    (∀ s, decode s = referenceDecode s) ∧
    (∀ data : List UInt8, (data.foldl encodeByte ⟨[], 0, 0⟩).acc <<< 8 < 2 ^ 16 ∧
      (data.foldl encodeByte ⟨[], 0, 0⟩).acc <<<
        (5 - (data.foldl encodeByte ⟨[], 0, 0⟩).bits) < 2 ^ 16) ∧
    (∀ (bytes : List UInt8) s, bytes.foldlM decodeByte ⟨[], 0, 0⟩ = .ok s → s.acc <<< 5 < 2 ^ 16) ∧
    (∀ pre version payload,
      decodeKey pre version (encodeKey pre version payload) = .ok payload) ∧
    ∀ pre version payload body,
      Respells (group (encode (checked pre version payload)) 5) body →
        decodeKey pre version (head pre version ++ body) = .ok payload := by
  refine ⟨fun data => ⟨?_, encode_eq_reference data⟩, decode_eq_reference, fun data => ⟨?_, ?_⟩,
    fun bytes s h => ?_, fun pre version payload => ?_,
    fun pre version payload body h => decodeKey_of_respells h⟩
  · refine decode_of_spells ?_
    rw [filter_encode]
    exact spells_encode data
  · exact ((encodes_foldl data).shift 0).1
  · have h := encodes_foldl data
    exact (shl16_or (b := 0) h.acc (by have := h.bits; omega) (by positivity)).1
  · obtain ⟨vs, hvs⟩ := decodes_of_foldlM h
    exact (hvs.shift (v := 0) (by decide)).1
  · refine decodeKey_of_respells (respells_iff.mpr ?_)
    rw [filter_group (by decide), filter_encode]
    exact spells_encode _

theorem key_text_round_trips_respelled :
    Respells (group (encode (checked ['S', 'K'] 1 [0, 1])) 5)
      ['o', '-', 'O', 'o', 't', 'l', '-', 'm', '8'] ∧
    decodeKey ['S', 'K'] 1 (head ['S', 'K'] 1 ++ ['o', '-', 'O', 'o', 't', 'l', '-', 'm', '8']) =
      .ok [0, 1] :=
  have hrespells : Respells (group (encode (checked ['S', 'K'] 1 [0, 1])) 5)
      ['o', '-', 'O', 'o', 't', 'l', '-', 'm', '8'] := by
    unfold Respells
    decide +kernel
  ⟨hrespells, key_text_round_trips.2.2.2.2.2 ['S', 'K'] 1 [0, 1] _ hrespells⟩

end Format

end Core

end Sotto
