import Sotto.Cli.Theme
import Sotto.Library.Checked

/-!
# The colours that texts describe

A colour is read from a slice of a text by the numbers at some of its bytes. Reading stops the
program where a slice ends inside a character, and it accepts a plus sign before a digit.
-/

namespace Sotto

namespace Themes

open Text Numbers

/-! ### Numbers of one width -/

/-- Read numbers of `width` bytes each, one after another. -/
def readParts (width : ℕ) : ℕ → List Char → Option (Option (List UInt8))
  | 0, _ => some (some [])
  | k + 1, s =>
    match splitAtByte width s with
    | none => none
    | some (part, rest) =>
      match parseU8 16 part with
      | none => some none
      | some n => (readParts width k rest).map fun l => l.map (n :: ·)

/-- A cut every `width` bytes is inside a character, and the parts before it are numbers. -/
inductive Splits (width : ℕ) : List Char → Prop
  | here {s : List Char} (hne : s ≠ []) (h : splitAtByte width s = none) : Splits width s
  | after {part s : List Char} {n : UInt8} (hpart : parseU8 16 part = some n)
      (hwidth : byteLength part = width) (h : Splits width s) : Splits width (part ++ s)

/-- The text is parts of one width that are the numbers. -/
inductive Parts (width : ℕ) : List Char → List UInt8 → Prop
  | nil : Parts width [] []
  | cons {part s : List Char} {n : UInt8} {l : List UInt8} (hpart : parseU8 16 part = some n)
      (hwidth : byteLength part = width) (h : Parts width s l) : Parts width (part ++ s) (n :: l)

section Widths

variable {width k : ℕ} {s part rest : List Char} {n : UInt8}

theorem splits_append (hpart : parseU8 16 part = some n) (hwidth : byteLength part = width) :
    Splits width (part ++ s) ↔ Splits width s := by
  have hsplit : splitAtByte width (part ++ s) = some (part, s) := hwidth ▸ splitAtByte_append part s
  refine ⟨fun h => ?_, .after hpart hwidth⟩
  generalize htext : part ++ s = text at h
  cases h with
  | here hne hnone =>
    rw [← htext, hsplit] at hnone
    cases hnone
  | @after part' s' _ hpart' hwidth' h =>
    have hsplit' : splitAtByte width (part' ++ s') = some (part', s') :=
      hwidth' ▸ splitAtByte_append part' s'
    rw [← htext, hsplit] at hsplit'
    cases hsplit'
    exact h

/-- A part that is no number comes before every cut inside a character. -/
theorem not_splits_of_none (hsplit : splitAtByte width s = some (part, rest))
    (hpart : parseU8 16 part = none) : ¬ Splits width s := by
  rintro (⟨-, hnone⟩ | ⟨hpart', hwidth', -⟩)
  · rw [hsplit] at hnone
    cases hnone
  · rw [← hwidth', splitAtByte_append] at hsplit
    cases hsplit
    rw [hpart] at hpart'
    cases hpart'

theorem readParts_succ (hsplit : splitAtByte width s = some (part, rest))
    (hpart : parseU8 16 part = some n) :
    readParts width (k + 1) s = (readParts width k rest).map fun l => l.map (n :: ·) := by
  simp only [readParts, hsplit, hpart]

theorem readParts_of_none (hsplit : splitAtByte width s = some (part, rest))
    (hpart : parseU8 16 part = none) : readParts width (k + 1) s = some none := by
  simp only [readParts, hsplit, hpart]

/-- What is left after the first part of a text. -/
theorem byteLength_rest (hlength : byteLength s = (k + 1) * width)
    (hsplit : splitAtByte width s = some (part, rest)) :
    s = part ++ rest ∧ byteLength part = width ∧ byteLength rest = k * width := by
  obtain ⟨hs, hwidth⟩ := splitAtByte_eq_some.mp hsplit
  refine ⟨hs, hwidth, ?_⟩
  rw [hs, byteLength_append, hwidth, Nat.succ_mul] at hlength
  omega

/-- Reading stops the program exactly where a cut is inside a character. -/
theorem readParts_eq_none (hpos : 0 < width) (hlength : byteLength s = k * width) :
    readParts width k s = none ↔ Splits width s := by
  induction k generalizing s with
  | zero =>
    have hnil : s = [] := by
      by_contra hne
      rw [Nat.zero_mul] at hlength
      exact absurd hlength (byteLength_pos hne).ne'
    subst hnil
    refine iff_of_false (fun h => by cases h) fun h => ?_
    generalize htext : ([] : List Char) = text at h
    cases h with
    | here hne => exact hne htext.symm
    | after hpart hwidth h =>
      obtain ⟨rfl, -⟩ := List.append_eq_nil_iff.mp htext.symm
      exact hpos.ne hwidth
  | succ k ih =>
    have hne : s ≠ [] := by
      rintro rfl
      exact absurd hlength (Nat.mul_pos k.succ_pos hpos).ne
    cases hsplit : splitAtByte width s with
    | none => exact iff_of_true (by simp only [readParts, hsplit]) (.here hne hsplit)
    | some p =>
      obtain ⟨part, rest⟩ := p
      obtain ⟨hs, hwidth, hrest⟩ := byteLength_rest hlength hsplit
      cases hpart : parseU8 16 part with
      | none =>
        rw [readParts_of_none hsplit hpart]
        exact iff_of_false (fun h => by cases h) (not_splits_of_none hsplit hpart)
      | some n =>
        rw [readParts_succ hsplit hpart, Option.map_eq_none_iff, ih hrest, hs,
          splits_append hpart hwidth]

theorem readParts_eq_some {l : List UInt8} (hlength : byteLength s = k * width) :
    readParts width k s = some (some l) ↔ Parts width s l ∧ l.length = k := by
  induction k generalizing s l with
  | zero =>
    have hnil : s = [] := by
      by_contra hne
      rw [Nat.zero_mul] at hlength
      exact absurd hlength (byteLength_pos hne).ne'
    subst hnil
    constructor
    · intro h
      cases h
      exact ⟨.nil, rfl⟩
    · rintro ⟨-, h⟩
      rw [List.length_eq_zero_iff.mp h]
      rfl
  | succ k ih =>
    constructor
    · intro h
      cases hsplit : splitAtByte width s with
      | none =>
        simp only [readParts, hsplit] at h
        cases h
      | some p =>
        obtain ⟨part, rest⟩ := p
        obtain ⟨hs, hwidth, hrest⟩ := byteLength_rest hlength hsplit
        cases hpart : parseU8 16 part with
        | none =>
          rw [readParts_of_none hsplit hpart] at h
          cases h
        | some n =>
          rw [readParts_succ hsplit hpart, Option.map_eq_some_iff] at h
          obtain ⟨numbers, hnumbers, h⟩ := h
          rw [Option.map_eq_some_iff] at h
          obtain ⟨l, rfl, rfl⟩ := h
          obtain ⟨hparts, hlength⟩ := (ih hrest).mp hnumbers
          exact ⟨hs ▸ .cons hpart hwidth hparts, congrArg (· + 1) hlength⟩
    · rintro ⟨hparts, hk⟩
      cases hparts with
      | nil => cases hk
      | @cons part rest n l hpart hwidth hparts =>
        have hsplit : splitAtByte width (part ++ rest) = some (part, rest) :=
          hwidth ▸ splitAtByte_append part rest
        rw [readParts_succ hsplit hpart,
          (ih (byteLength_rest hlength hsplit).2.2).mpr ⟨hparts, Nat.succ.inj hk⟩]
        rfl

/-- The number of a first part. -/
theorem readHex_zero (s : List Char) (width : ℕ) :
    readHex s 0 width = (splitAtByte width s).map fun p => parseU8 16 p.1 := by
  simp only [readHex, getBytes, splitAtByte_zero, Option.bind_eq_bind, Option.bind_some,
    Nat.sub_zero]
  cases splitAtByte width s <;> rfl

theorem readHex_append (part rest : List Char) (a b : ℕ) :
    readHex (part ++ rest) (byteLength part + a) (byteLength part + b) = readHex rest a b := by
  rw [readHex, getBytes_append, readHex]

/-- The numbers of a colour are the numbers of three parts. -/
theorem readChannels_eq (s : List Char) (width : ℕ) : readChannels s width =
    (readParts width 3 s).map fun l => l.bind fun
      | [r, g, b] => some (r, g, b)
      | _ => none := by
  unfold readChannels
  rw [readHex_zero]
  cases hsplit : splitAtByte width s with
  | none => simp [readParts, hsplit]
  | some p =>
    obtain ⟨part, rest⟩ := p
    obtain ⟨rfl, hwidth⟩ := splitAtByte_eq_some.mp hsplit
    cases hpart : parseU8 16 part with
    | none => simp [readParts_of_none hsplit hpart, hpart]
    | some r =>
      have hsecond : readHex (part ++ rest) width (2 * width) = readHex rest 0 width := by
        rw [← readHex_append part rest, hwidth, Nat.add_zero, Nat.two_mul]
      have hthird : readHex (part ++ rest) (2 * width) (3 * width) =
          readHex rest width (2 * width) := by
        rw [← readHex_append part rest, hwidth, ← Nat.two_mul,
          show width + 2 * width = 3 * width by omega]
      rw [readParts_succ hsplit hpart, hsecond, hthird, readHex_zero]
      cases hsplit' : splitAtByte width rest with
      | none => simp [readParts, hsplit', hpart]
      | some p =>
        obtain ⟨part', rest'⟩ := p
        obtain ⟨rfl, hwidth'⟩ := splitAtByte_eq_some.mp hsplit'
        cases hpart' : parseU8 16 part' with
        | none => simp [readParts_of_none hsplit' hpart', hpart, hpart']
        | some g =>
          have hlast : readHex (part' ++ rest') width (2 * width) = readHex rest' 0 width := by
            rw [← readHex_append part' rest', hwidth', Nat.add_zero, Nat.two_mul]
          rw [readParts_succ hsplit' hpart', hlast, readHex_zero]
          cases hsplit'' : splitAtByte width rest' with
          | none => simp [readParts, hsplit'', hpart, hpart']
          | some p =>
            obtain ⟨part'', rest''⟩ := p
            cases hpart'' : parseU8 16 part'' with
            | none => simp [readParts_of_none hsplit'' hpart'', hpart, hpart', hpart'']
            | some b => simp [readParts, hsplit'', hpart, hpart', hpart'']

end Widths

/-! ### Hexadecimal colours -/

/-- The text is three or six hexadecimal digits, which are the colour. -/
inductive StrictHex : List Char → Color → Prop
  | short {hex : List Char} {r g b : ℕ} (h : hex.mapM (digitValue 16) = some [r, g, b]) :
      StrictHex hex (.rgb (UInt8.ofNat (17 * r)) (UInt8.ofNat (17 * g)) (UInt8.ofNat (17 * b)))
  | long {hex : List Char} {r r' g g' b b' : ℕ}
      (h : hex.mapM (digitValue 16) = some [r, r', g, g', b, b']) :
      StrictHex hex (.rgb (UInt8.ofNat (16 * r + r')) (UInt8.ofNat (16 * g + g'))
        (UInt8.ofNat (16 * b + b')))

/-- A slice of the text that is read ends inside a character. -/
def JaggedHex (hex : List Char) : Prop :=
  byteLength hex = 6 ∧ Splits 2 hex ∨ byteLength hex = 3 ∧ Splits 1 hex

/-- The text is three numbers of two bytes, one of which has a plus sign. -/
def PlusHex (hex : List Char) : Prop :=
  '+' ∈ hex ∧ ∃ r g b, Parts 2 hex [r, g, b]

section Hex

variable {hex s part : List Char} {width : ℕ} {l : List UInt8} {n r g b : UInt8} {c : Color}

theorem byteLength_of_parts (h : Parts width s l) : byteLength s = l.length * width := by
  induction h with
  | nil => rw [List.length_nil, Nat.zero_mul]; rfl
  | cons hpart hwidth h ih =>
    rw [byteLength_append, hwidth, ih, List.length_cons, Nat.succ_mul, Nat.add_comm]

theorem exists_of_byteLength_one (h : byteLength s = 1) : ∃ c, s = [c] := by
  cases s with
  | nil => cases h
  | cons c s =>
    have hpos := c.utf8Size_pos
    rw [byteLength_cons] at h
    refine ⟨c, ?_⟩
    by_contra hne
    have hrest := byteLength_pos (s := s) fun hs => hne (by rw [hs])
    omega

theorem exists_of_byteLength_two (h : byteLength s = 2) :
    (∃ c, s = [c] ∧ 128 ≤ c.toNat) ∨ ∃ c d, s = [c, d] := by
  cases s with
  | nil => cases h
  | cons c s =>
    rw [byteLength_cons] at h
    rcases Nat.lt_or_ge c.toNat 128 with hc | hc
    · rw [utf8Size_eq_one.mpr hc] at h
      obtain ⟨d, rfl⟩ := exists_of_byteLength_one (s := s) (by omega)
      exact .inr ⟨c, d, rfl⟩
    · have hwide := one_lt_utf8Size hc
      refine .inl ⟨c, ?_, hc⟩
      by_contra hne
      have hrest := byteLength_pos (s := s) fun hs => hne (by rw [hs])
      omega

/-- A number of one byte is a digit. -/
theorem digit_of_parseU8 (hpart : parseU8 16 part = some n) (hwidth : byteLength part = 1) :
    ∃ c v, part = [c] ∧ digitValue 16 c = some v ∧ n = UInt8.ofNat v := by
  obtain ⟨c, rfl⟩ := exists_of_byteLength_one hwidth
  by_cases hc : c = '+'
  · subst hc
    cases hpart
  · rw [parseU8, parseUnsigned_of_ne hc, parseDigits_one, Option.map_eq_some_iff] at hpart
    obtain ⟨v, hv, rfl⟩ := hpart
    exact ⟨c, v, rfl, (Option.filter_eq_some_iff.mp hv).1, rfl⟩

/-- A number of two bytes is two digits, or a plus sign and a digit. -/
theorem pair_of_parseU8 (hpart : parseU8 16 part = some n) (hwidth : byteLength part = 2) :
    ∃ c d high low, part = [c, d] ∧ (digitValue 16 c = some high ∨ c = '+' ∧ high = 0) ∧
      digitValue 16 d = some low ∧ n = UInt8.ofNat (16 * high + low) := by
  rcases exists_of_byteLength_two hwidth with ⟨c, rfl, hc⟩ | ⟨c, d, rfl⟩
  · rw [parseU8_wide hc] at hpart
    cases hpart
  · obtain ⟨high, low, hhigh, hlow, hn⟩ := parseU8_pair.mp hpart
    exact ⟨c, d, high, low, rfl, hhigh, hlow, hn⟩

/-- The characters of a list of digits. -/
theorem exists_digit {base : ℕ} {values : List ℕ} (h : s.mapM (digitValue base) = some values) :
    ∀ c ∈ s, ∃ v, digitValue base c = some v := by
  have hdigits := Checked.mapM_eq_some.mp h
  clear h
  induction hdigits with
  | nil => exact fun c hc => absurd hc List.not_mem_nil
  | cons hvalue _ ih => exact List.forall_mem_cons.mpr ⟨⟨_, hvalue⟩, ih⟩

theorem byteLength_of_digits {values : List ℕ} (h : s.mapM (digitValue 16) = some values) :
    byteLength s = values.length := by
  have hdigits := Checked.mapM_eq_some.mp h
  clear h
  induction hdigits with
  | nil => rfl
  | cons hvalue _ ih =>
    rw [byteLength_cons, utf8Size_eq_one.mpr (digitValue_spec hvalue).2, ih, List.length_cons,
      Nat.add_comm]

theorem not_strictHex_of_plus (h : '+' ∈ hex) : ¬ StrictHex hex c := by
  have hdigits {values : List ℕ} : hex.mapM (digitValue 16) ≠ some values := by
    intro hvalues
    obtain ⟨v, hv⟩ := exists_digit hvalues '+' h
    rw [digitValue_plus] at hv
    cases hv
  rintro (hshort | hlong)
  · exact hdigits hshort
  · exact hdigits hlong

/-- Two digits are a number of two bytes. -/
theorem parseU8_digits {c d : Char} {high low : ℕ} (hc : digitValue 16 c = some high)
    (hd : digitValue 16 d = some low) :
    parseU8 16 [c, d] = some (UInt8.ofNat (16 * high + low)) ∧ byteLength [c, d] = 2 := by
  refine ⟨parseU8_pair.mpr ⟨high, low, .inl hc, hd, rfl⟩, ?_⟩
  rw [byteLength_cons, byteLength_cons, utf8Size_eq_one.mpr (digitValue_spec hc).2,
    utf8Size_eq_one.mpr (digitValue_spec hd).2]
  rfl

/-- A digit is a number of one byte. -/
theorem parseU8_digit {c : Char} {v : ℕ} (hc : digitValue 16 c = some v) :
    parseU8 16 [c] = some (UInt8.ofNat v) ∧ byteLength [c] = 1 := by
  have hne : c ≠ '+' := by
    rintro rfl
    rw [digitValue_plus] at hc
    cases hc
  refine ⟨?_, ?_⟩
  · rw [parseU8, parseUnsigned_of_ne hne, parseDigits_one, hc, Option.filter_some, if_pos]
    · rfl
    · exact decide_eq_true ((digitValue_spec hc).1.trans (by decide))
  · rw [byteLength_cons, utf8Size_eq_one.mpr (digitValue_spec hc).2]
    rfl

/-- The product of a digit is not too large. -/
theorem checkedMul_digit {v : ℕ} (h : v < 16) :
    checkedMul (UInt8.ofNat v) 17 = some (UInt8.ofNat v * 17) ∧
      UInt8.ofNat v * 17 = UInt8.ofNat (17 * v) := by
  have hsize : UInt8.size = 256 := rfl
  have htoNat : (UInt8.ofNat v).toNat = v := UInt8.toNat_ofNat_of_lt' (by omega)
  have hseventeen : (17 : UInt8).toNat = 17 := rfl
  refine ⟨if_pos (by rw [htoNat, hseventeen]; omega), ?_⟩
  rw [Nat.mul_comm]
  exact (UInt8.ofNat_mul v 17).symm

/-- Digits are numbers of two bytes. -/
theorem StrictHex.parts_two (h : StrictHex hex c) (hlength : byteLength hex = 6) :
    ∃ r g b, Parts 2 hex [r, g, b] ∧ c = .rgb r g b := by
  cases h with
  | short h =>
    rw [byteLength_of_digits h] at hlength
    cases hlength
  | long h =>
    rcases Checked.mapM_eq_some.mp h with _ | ⟨hr, _ | ⟨hr', _ | ⟨hg, _ | ⟨hg', _ | ⟨hb, _ |
      ⟨hb', ⟨⟩⟩⟩⟩⟩⟩⟩
    have hred := parseU8_digits hr hr'
    have hgreen := parseU8_digits hg hg'
    have hblue := parseU8_digits hb hb'
    exact ⟨_, _, _, .cons hred.1 hred.2 (.cons hgreen.1 hgreen.2 (.cons hblue.1 hblue.2 .nil)),
      rfl⟩

theorem Parts.strictHex_two (h : Parts 2 hex [r, g, b]) (hplus : '+' ∉ hex) :
    StrictHex hex (.rgb r g b) := by
  have hdigit {c : Char} {v : ℕ} (hmem : c ∈ hex)
      (h : digitValue 16 c = some v ∨ c = '+' ∧ v = 0) : digitValue 16 c = some v :=
    h.resolve_right fun hc => hplus (hc.1 ▸ hmem)
  rcases h with _ | ⟨hred, hr, _ | ⟨hgreen, hg, _ | ⟨hblue, hb, ⟨⟩⟩⟩⟩
  obtain ⟨c₁, d₁, r, r', rfl, hr, hr', rfl⟩ := pair_of_parseU8 hred hr
  obtain ⟨c₂, d₂, g, g', rfl, hg, hg', rfl⟩ := pair_of_parseU8 hgreen hg
  obtain ⟨c₃, d₃, b, b', rfl, hb, hb', rfl⟩ := pair_of_parseU8 hblue hb
  refine .long (Checked.mapM_eq_some.mpr ?_)
  exact .cons (hdigit (by simp) hr) (.cons hr' (.cons (hdigit (by simp) hg) (.cons hg'
    (.cons (hdigit (by simp) hb) (.cons hb' .nil)))))

/-- Digits are numbers of one byte, and their products are not too large. -/
theorem StrictHex.parts_one (h : StrictHex hex c) (hlength : byteLength hex = 3) :
    ∃ r g b, Parts 1 hex [r, g, b] ∧ c = .rgb (r * 17) (g * 17) (b * 17) := by
  cases h with
  | short h =>
    rcases Checked.mapM_eq_some.mp h with _ | ⟨hr, _ | ⟨hg, _ | ⟨hb, ⟨⟩⟩⟩⟩
    have hred := parseU8_digit hr
    have hgreen := parseU8_digit hg
    have hblue := parseU8_digit hb
    refine ⟨_, _, _, .cons hred.1 hred.2 (.cons hgreen.1 hgreen.2 (.cons hblue.1 hblue.2 .nil)),
      ?_⟩
    rw [(checkedMul_digit (digitValue_spec hr).1).2, (checkedMul_digit (digitValue_spec hg).1).2,
      (checkedMul_digit (digitValue_spec hb).1).2]
  | long h =>
    rw [byteLength_of_digits h] at hlength
    cases hlength

theorem Parts.strictHex_one (h : Parts 1 hex [r, g, b]) :
    StrictHex hex (.rgb (r * 17) (g * 17) (b * 17)) ∧ checkedMul r 17 = some (r * 17) ∧
      checkedMul g 17 = some (g * 17) ∧ checkedMul b 17 = some (b * 17) := by
  rcases h with _ | ⟨hred, hr, _ | ⟨hgreen, hg, _ | ⟨hblue, hb, ⟨⟩⟩⟩⟩
  obtain ⟨c₁, r, rfl, hr, rfl⟩ := digit_of_parseU8 hred hr
  obtain ⟨c₂, g, rfl, hg, rfl⟩ := digit_of_parseU8 hgreen hg
  obtain ⟨c₃, b, rfl, hb, rfl⟩ := digit_of_parseU8 hblue hb
  have hred := checkedMul_digit (digitValue_spec hr).1
  have hgreen := checkedMul_digit (digitValue_spec hg).1
  have hblue := checkedMul_digit (digitValue_spec hb).1
  refine ⟨?_, hred.1, hgreen.1, hblue.1⟩
  rw [hred.2, hgreen.2, hblue.2]
  exact .short (Checked.mapM_eq_some.mpr (.cons hr (.cons hg (.cons hb .nil))))

/-- The numbers of three parts, if there is no cut inside a character. -/
theorem parts_iff (hlength : byteLength hex = 3 * width) :
    readParts width 3 hex = some (some [r, g, b]) ↔ Parts width hex [r, g, b] :=
  (readParts_eq_some hlength).trans (and_iff_left rfl)

theorem exists_of_readParts (hlength : byteLength hex = 3 * width)
    (h : readParts width 3 hex = some (some l)) : ∃ r g b, l = [r, g, b] :=
  List.length_eq_three.mp ((readParts_eq_some hlength).mp h).2

/-- Reading is exact if no slice splits a character and each colour that is read is of digits. -/
theorem exact_of_parts (hlength : byteLength hex = 3 * width) (hpos : 0 < width)
    {color : UInt8 → UInt8 → UInt8 → Color}
    (hpanic : readParts width 3 hex = none → parseHex hex = none)
    (hmiss : readParts width 3 hex = some none → parseHex hex = some none)
    (hread : ∀ r g b, readParts width 3 hex = some (some [r, g, b]) →
      parseHex hex = some (some (color r g b)))
    (hstrict : ∀ c, StrictHex hex c → ∃ r g b, Parts width hex [r, g, b] ∧ c = color r g b) :
    (∃ found, parseHex hex = some found ∧ ∀ c, found = some c ↔ StrictHex hex c) ↔
      ¬ Splits width hex ∧
        ∀ r g b, Parts width hex [r, g, b] → StrictHex hex (color r g b) := by
  have hnone := readParts_eq_none hpos hlength
  cases hparts : readParts width 3 hex with
  | none =>
    refine iff_of_false ?_ fun h => h.1 (hnone.mp hparts)
    rintro ⟨found, hfound, -⟩
    rw [hpanic hparts] at hfound
    cases hfound
  | some found =>
    have hwhole : ¬ Splits width hex := fun h => by
      rw [hnone.mpr h] at hparts
      cases hparts
    cases found with
    | none =>
      have hempty (r g b : UInt8) : ¬ Parts width hex [r, g, b] := fun h => by
        rw [(parts_iff hlength).mpr h] at hparts
        cases hparts
      refine iff_of_true ⟨none, hmiss hparts, fun c => ?_⟩
        ⟨hwhole, fun r g b h => absurd h (hempty r g b)⟩
      refine iff_of_false (fun h => by cases h) fun h => ?_
      obtain ⟨r, g, b, hrgb, -⟩ := hstrict c h
      exact hempty r g b hrgb
    | some l =>
      obtain ⟨r, g, b, rfl⟩ := exists_of_readParts hlength hparts
      have honly {r' g' b' : UInt8} (h : Parts width hex [r', g', b']) :
          r' = r ∧ g' = g ∧ b' = b := by
        have heq := hparts.symm.trans ((parts_iff hlength).mpr h)
        simp only [Option.some.injEq, List.cons.injEq, and_true] at heq
        exact ⟨heq.1.symm, heq.2.1.symm, heq.2.2.symm⟩
      constructor
      · rintro ⟨found, hfound, hexact⟩
        rw [hread r g b hparts] at hfound
        refine ⟨hwhole, fun r' g' b' h => ?_⟩
        obtain ⟨rfl, rfl, rfl⟩ := honly h
        exact (hexact _).mp (Option.some.inj hfound).symm
      · rintro ⟨-, hdigits⟩
        refine ⟨some (color r g b), hread r g b hparts, fun c => ⟨?_, fun h => ?_⟩⟩
        · intro hc
          obtain rfl := Option.some.inj hc
          exact hdigits r g b ((parts_iff hlength).mp hparts)
        · obtain ⟨r', g', b', hparts', rfl⟩ := hstrict c h
          obtain ⟨rfl, rfl, rfl⟩ := honly hparts'
          rfl

/-- A text of six bytes. -/
theorem parseHex_exact_six (hlength : byteLength hex = 6) :
    (∃ found, parseHex hex = some found ∧ ∀ c, found = some c ↔ StrictHex hex c) ↔
      ¬ Splits 2 hex ∧ ¬ PlusHex hex := by
  refine (@exact_of_parts hex 2 hlength (by decide) Color.rgb ?_ ?_ ?_
    fun c h => h.parts_two hlength).trans (and_congr_right fun _ => ?_)
  · intro h
    simp [parseHex, hlength, readChannels_eq, h]
  · intro h
    simp [parseHex, hlength, readChannels_eq, h]
  · intro r g b h
    simp [parseHex, hlength, readChannels_eq, h]
  · constructor
    · rintro hdigits ⟨hplus, r, g, b, h⟩
      exact not_strictHex_of_plus hplus (hdigits r g b h)
    · intro hplus r g b h
      exact h.strictHex_two fun hmem => hplus ⟨hmem, r, g, b, h⟩

/-- A text of three bytes. -/
theorem parseHex_exact_three (hlength : byteLength hex = 3) :
    (∃ found, parseHex hex = some found ∧ ∀ c, found = some c ↔ StrictHex hex c) ↔
      ¬ Splits 1 hex := by
  refine (@exact_of_parts hex 1 hlength (by decide)
    (fun r g b => .rgb (r * 17) (g * 17) (b * 17)) ?_ ?_ ?_ fun c h => h.parts_one hlength).trans
    (and_iff_left fun r g b h => h.strictHex_one.1)
  · intro h
    simp [parseHex, hlength, readChannels_eq, h]
  · intro h
    simp [parseHex, hlength, readChannels_eq, h]
  · intro r g b h
    obtain ⟨-, hr, hg, hb⟩ := ((parts_iff hlength).mp h).strictHex_one
    simp [parseHex, hlength, readChannels_eq, h, hr, hg, hb]

/-- A text is read exactly as its digits, unless a slice splits a character or a plus sign is
read. -/
theorem parseHex_exact (hex : List Char) :
    (∃ found, parseHex hex = some found ∧ ∀ c, found = some c ↔ StrictHex hex c) ↔
      ¬ JaggedHex hex ∧ ¬ PlusHex hex := by
  have hplus : PlusHex hex → byteLength hex = 6 := by
    rintro ⟨-, r, g, b, h⟩
    exact byteLength_of_parts h
  by_cases hsix : byteLength hex = 6
  · simp only [parseHex_exact_six hsix, JaggedHex, hsix, true_and, Nat.reduceEqDiff, false_and,
      or_false]
  · have hnotPlus : ¬ PlusHex hex := fun h => hsix (hplus h)
    by_cases hthree : byteLength hex = 3
    · simp only [parseHex_exact_three hthree, JaggedHex, hthree, Nat.reduceEqDiff, false_and,
        true_and, false_or, hnotPlus, not_false_eq_true, and_true]
    · refine iff_of_true ⟨none, by simp [parseHex, hsix, hthree], fun c => ?_⟩ ⟨?_, hnotPlus⟩
      · refine iff_of_false (fun h => by cases h) ?_
        rintro (h | h)
        · exact hthree (byteLength_of_digits h)
        · exact hsix (byteLength_of_digits h)
      · rintro (⟨h, -⟩ | ⟨h, -⟩)
        · exact hsix h
        · exact hthree h

end Hex

/-! ### Texts of colours -/

/-- The text after an optional mark. -/
def hexPart (t : List Char) : List Char :=
  (stripPrefix ['#'] t).getD t

/-- The colour that a text without blanks at its ends describes, in any letter case. -/
inductive Describes (t : List Char) : Color → Prop
  | default (h : asciiLower t = "default".toList ∨ asciiLower t = "none".toList) :
      Describes t .default
  | named {n : UInt8} (h : (asciiLower t, n) ∈ namedColors) : Describes t (.ansi n)
  | ansi {digits : List Char} {n : ℕ} (h : asciiLower t = "ansi(".toList ++ digits ++ [')'])
      (hn : parseDigits 10 digits = some n) (hlt : n < 256) : Describes t (.ansi (UInt8.ofNat n))
  | hex {hex : List Char} {c : Color} (h : t = hex ∨ t = '#' :: hex) (hc : StrictHex hex c) :
      Describes t c

/-- Reading the text stops the program. -/
def Jagged (t : List Char) : Prop :=
  JaggedHex (hexPart t)

/-- The text is read as a colour although it has a plus sign, or blanks in parentheses. -/
def Sloppy (t : List Char) : Prop :=
  (∃ inner, asciiLower t = "ansi(".toList ++ inner ++ [')'] ∧
    (parseU8 10 (trim inner)).isSome ∧ parseDigits 10 inner = none) ∨ PlusHex (hexPart t)

section Texts

variable {t inner : List Char} {c : Color} {n : UInt8}

/-- The texts of colours that are words. -/
def colorWords : List (List Char) :=
  "default".toList :: "none".toList :: namedColors.map Prod.fst

theorem colorWords_ascii : ∀ word ∈ colorWords, ∀ c ∈ word, c.toNat < 128 := by
  have hall : ∀ word ∈ colorWords, word.all (fun c => decide (c.toNat < 128)) = true := by
    decide
  exact fun word hword => forall_mem_of_all (hall word hword)

theorem colorWords_ansi : ∀ word ∈ colorWords, ¬ "ansi(".toList <+: word := by
  decide

/-- A character of a number, or the mark. -/
def isHexLike (c : Char) : Bool :=
  (digitValue 16 c).isSome || c = '+' || c = '#'

theorem colorWords_hex : ∀ word ∈ colorWords, ∃ c ∈ word, isHexLike c = false := by
  have hany : ∀ word ∈ colorWords, word.any (fun c => !isHexLike c) = true := by
    decide
  intro word hword
  simpa using hany word hword

theorem lt_of_isHexLike {c : Char} (h : isHexLike c = true) : c.toNat < 128 := by
  simp only [isHexLike, Bool.or_eq_true, decide_eq_true_eq, Option.isSome_iff_exists] at h
  rcases h with (⟨v, hv⟩ | rfl) | rfl
  · exact (digitValue_spec hv).2
  · decide
  · decide

theorem isHexLike_toLower {c : Char} (h : isHexLike c = true) : isHexLike c.toLower = true := by
  have hall : ∀ n < 128, isHexLike (Char.ofNat n) = true →
      isHexLike (Char.ofNat n).toLower = true := by
    decide
  have hc := hall c.toNat (lt_of_isHexLike h)
  rw [Char.ofNat_toNat] at hc
  exact hc h

theorem asciiLower_hexLike (h : ∀ c ∈ t, isHexLike c = true) :
    ∀ c ∈ asciiLower t, isHexLike c = true := by
  simp only [asciiLower, List.mem_map, forall_exists_index, and_imp]
  rintro _ c hc rfl
  exact isHexLike_toLower (h c hc)

/-- A text of numbers is neither a word nor an index. -/
theorem not_word_of_hexLike (h : ∀ c ∈ t, isHexLike c = true) :
    asciiLower t ∉ colorWords ∧ ∀ inner, asciiLower t ≠ "ansi(".toList ++ inner ++ [')'] := by
  have hlower := asciiLower_hexLike h
  refine ⟨fun hword => ?_, fun inner hansi => ?_⟩
  · obtain ⟨c, hc, hother⟩ := colorWords_hex _ hword
    rw [hlower c hc] at hother
    cases hother
  · have hn : 'n' ∈ asciiLower t := by
      rw [hansi, List.append_assoc]
      exact List.mem_append_left _ (by decide)
    exact absurd (hlower 'n' hn) (by decide)

/-- The characters that are not ASCII stay in lower case. -/
theorem mem_asciiLower {c : Char} (hc : 128 ≤ c.toNat) (hmem : c ∈ t) : c ∈ asciiLower t := by
  refine List.mem_map.mpr ⟨c, hmem, ?_⟩
  have hupper : ¬ (c.val ≥ 'A'.val ∧ c.val ≤ 'Z'.val) := by
    rintro ⟨-, hle⟩
    have hnat : c.toNat ≤ 90 := hle
    omega
  unfold Char.toLower
  rw [dif_neg hupper]

theorem exists_wide_of_splits {width k : ℕ} (h : Splits width t)
    (hlength : byteLength t = k * width) : ∃ c ∈ t, 128 ≤ c.toNat := by
  induction h generalizing k with
  | @here s hne hnone =>
    by_contra hwide
    have hall : ∀ c ∈ s, c.toNat < 128 := fun c hc =>
      Nat.not_le.mp fun hle => hwide ⟨c, hc, hle⟩
    have hlen := byteLength_of_lt hall
    have hk : k ≠ 0 := by
      rintro rfl
      rw [Nat.zero_mul] at hlength
      exact absurd hlength (byteLength_pos hne).ne'
    have hle : width ≤ s.length := by
      rw [← hlen, hlength]
      exact Nat.le_mul_of_pos_left width (Nat.pos_of_ne_zero hk)
    rw [splitAtByte_of_lt hall hle] at hnone
    cases hnone
  | @after part s n hpart hwidth h ih =>
    rw [byteLength_append, hwidth] at hlength
    obtain ⟨c, hc, hwide⟩ : ∃ c ∈ s, 128 ≤ c.toNat := by
      cases k with
      | zero => exact ih (k := 0) (by rw [Nat.zero_mul] at hlength ⊢; omega)
      | succ k => exact ih (k := k) (by rw [Nat.succ_mul] at hlength; omega)
    exact ⟨c, List.mem_append_right _ hc, hwide⟩

/-- A text has its part after the mark, and the mark if the part is not the text. -/
theorem hexPart_cases (t : List Char) : t = hexPart t ∨ t = '#' :: hexPart t := by
  unfold hexPart
  cases h : stripPrefix ['#'] t with
  | none => exact .inl rfl
  | some rest => exact .inr (stripPrefix_eq_some.mp h)

theorem hexPart_subset (t : List Char) : hexPart t ⊆ t := by
  intro d hd
  rcases hexPart_cases t with h | h
  · exact h ▸ hd
  · rw [h]
    exact List.mem_cons_of_mem _ hd

/-- A jagged text has a character that is not ASCII. -/
theorem exists_wide_of_jagged (h : Jagged t) : ∃ d ∈ t, 128 ≤ d.toNat := by
  obtain ⟨d, hd, hwide⟩ : ∃ d ∈ hexPart t, 128 ≤ d.toNat := by
    rcases h with ⟨hlength, h⟩ | ⟨hlength, h⟩
    · exact exists_wide_of_splits (k := 3) h hlength
    · exact exists_wide_of_splits (k := 3) h hlength
  exact ⟨d, hexPart_subset t hd, hwide⟩

/-- A text of a jagged colour is neither a word nor an index. -/
theorem not_word_of_jagged (h : Jagged t) :
    asciiLower t ∉ colorWords ∧ ∀ inner, asciiLower t ≠ "ansi(".toList ++ inner ++ [')'] := by
  obtain ⟨d, hmem, hwide⟩ := exists_wide_of_jagged h
  refine ⟨fun hword => ?_, fun inner hansi => ?_⟩
  · have hascii := colorWords_ascii _ hword d (mem_asciiLower hwide hmem)
    omega
  · have hlength : t.length = 6 + inner.length := by
      have hlower := congrArg List.length hansi
      rw [asciiLower, List.length_map, List.length_append, List.length_append] at hlower
      have hansi : "ansi(".toList.length = 5 := rfl
      rw [hlower, hansi, List.length_singleton]
      omega
    have hpart : hexPart t = t := by
      rcases hexPart_cases t with h | h
      · exact h.symm
      · rw [h] at hansi
        exact absurd (List.cons.inj hansi).1 (by decide)
    have hlt := length_lt_byteLength hmem hwide
    rw [Jagged, JaggedHex, hpart] at h
    omega

theorem hexLike_of_parts {s : List Char} {l : List UInt8} (h : Parts 2 s l) :
    ∀ d ∈ s, isHexLike d = true := by
  induction h with
  | nil => exact fun d hd => absurd hd List.not_mem_nil
  | cons hpart hwidth _ ih =>
    obtain ⟨c, d, high, low, rfl, hc, hd, -⟩ := pair_of_parseU8 hpart hwidth
    intro x hx
    rcases List.mem_append.mp hx with hx | hx
    · simp only [List.mem_cons, List.not_mem_nil, or_false] at hx
      rcases hx with rfl | rfl
      · rcases hc with hc | ⟨rfl, -⟩
        · simp [isHexLike, hc]
        · decide
      · simp [isHexLike, hd]
    · exact ih x hx

theorem hexLike_of_plusHex (h : PlusHex (hexPart t)) : ∀ c ∈ t, isHexLike c = true := by
  obtain ⟨-, r, g, b, hparts⟩ := h
  have hpart : ∀ d ∈ hexPart t, isHexLike d = true := hexLike_of_parts hparts
  intro d hd
  rcases hexPart_cases t with h | h
  · exact hpart d (h ▸ hd)
  · rw [h] at hd
    rcases List.mem_cons.mp hd with rfl | hd
    · decide
    · exact hpart d hd

theorem hexLike_of_strictHex {hex : List Char} (h : t = hex ∨ t = '#' :: hex)
    (hc : StrictHex hex c) : (∀ c ∈ t, isHexLike c = true) ∧ hexPart t = hex := by
  have hdigits : ∀ d ∈ hex, ∃ v, digitValue 16 d = some v := by
    rcases hc with hc | hc
    · exact exists_digit hc
    · exact exists_digit hc
  have hlike : ∀ d ∈ hex, isHexLike d = true := by
    intro d hd
    obtain ⟨v, hv⟩ := hdigits d hd
    simp [isHexLike, hv]
  have hmark : '#' ∉ hex := by
    intro hmem
    obtain ⟨v, hv⟩ := hdigits '#' hmem
    cases hv
  rcases h with rfl | rfl
  · refine ⟨hlike, (hexPart_cases t).elim Eq.symm fun h => ?_⟩
    rw [h] at hmark
    exact absurd List.mem_cons_self hmark
  · refine ⟨List.forall_mem_cons.mpr ⟨by decide, hlike⟩, ?_⟩
    have hstrip : stripPrefix ['#'] ('#' :: hex) = some hex := stripPrefix_eq_some.mpr rfl
    rw [hexPart, hstrip]
    rfl

/-! ### Reading texts -/

theorem lookup_named {word : List Char} :
    namedColors.lookup word = some n ↔ (word, n) ∈ namedColors := by
  have hkeys : ∀ p ∈ namedColors, namedColors.lookup p.1 = some p.2 := by
    decide
  refine ⟨fun h => ?_, hkeys (word, n)⟩
  obtain ⟨before, after, hsplit, -⟩ := List.lookup_eq_some_iff.mp h
  rw [hsplit]
  exact List.mem_append_right _ List.mem_cons_self

theorem colorWords_of_named (h : (asciiLower t, n) ∈ namedColors) : asciiLower t ∈ colorWords :=
  List.mem_cons_of_mem _ (List.mem_cons_of_mem _ (List.mem_map.mpr ⟨_, h, rfl⟩))

theorem colorWords_of_default (h : asciiLower t = "default".toList ∨ asciiLower t = "none".toList) :
    asciiLower t ∈ colorWords := by
  rcases h with h | h
  · exact h ▸ List.mem_cons_self
  · exact h ▸ List.mem_cons_of_mem _ List.mem_cons_self

theorem not_ansi_of_word (h : asciiLower t ∈ colorWords) :
    asciiLower t ≠ "ansi(".toList ++ inner ++ [')'] := by
  intro hansi
  refine colorWords_ansi _ h ?_
  rw [hansi, List.append_assoc]
  exact List.prefix_append _ _

theorem not_default_of_named (h : (asciiLower t, n) ∈ namedColors) :
    ¬ (asciiLower t = "default".toList ∨ asciiLower t = "none".toList) := by
  have hkeys : ∀ p ∈ namedColors, ¬ (p.1 = "default".toList ∨ p.1 = "none".toList) := by
    decide
  exact hkeys _ h

theorem ansi_iff {lower : List Char} :
    (stripPrefix "ansi(".toList lower).bind (stripSuffix [')']) = some inner ↔
      lower = "ansi(".toList ++ inner ++ [')'] := by
  simp only [Option.bind_eq_some_iff, stripPrefix_eq_some, stripSuffix_eq_some]
  constructor
  · rintro ⟨rest, rfl, rfl⟩
    rw [List.append_assoc]
  · rintro rfl
    exact ⟨inner ++ [')'], by rw [List.append_assoc], rfl⟩

variable {s : List Char}

theorem isDefault_iff : (eqIgnoreAsciiCase t "default".toList ||
    eqIgnoreAsciiCase t "none".toList) = true ↔
      (asciiLower t = "default".toList ∨ asciiLower t = "none".toList) := by
  have hdefault : asciiLower "default".toList = "default".toList := by decide
  have hnone : asciiLower "none".toList = "none".toList := by decide
  simp only [eqIgnoreAsciiCase, hdefault, hnone, Bool.or_eq_true, decide_eq_true_eq]

theorem parse_default
    (h : asciiLower (trim s) = "default".toList ∨ asciiLower (trim s) = "none".toList) :
    Color.parse s = some (some .default) :=
  if_pos (isDefault_iff.mpr h)

theorem parse_ansi (h : asciiLower (trim s) = "ansi(".toList ++ inner ++ [')']) :
    Color.parse s = some ((parseU8 10 (trim inner)).map .ansi) := by
  have hdefault := fun hdefault => not_ansi_of_word (colorWords_of_default hdefault) h
  simp only [Color.parse, if_neg (mt isDefault_iff.mp hdefault), ansi_iff.mpr h]

theorem ansi_eq_none (h : ∀ inner, asciiLower (trim s) ≠ "ansi(".toList ++ inner ++ [')']) :
    (stripPrefix "ansi(".toList (asciiLower (trim s))).bind (stripSuffix [')']) = none :=
  Option.eq_none_iff_forall_ne_some.mpr fun inner hinner => h inner (ansi_iff.mp hinner)

theorem parse_named (h : (asciiLower (trim s), n) ∈ namedColors) :
    Color.parse s = some (some (.ansi n)) := by
  have hansi := ansi_eq_none fun inner => not_ansi_of_word (colorWords_of_named h)
  simp only [Color.parse, if_neg (mt isDefault_iff.mp (not_default_of_named h)), hansi,
    lookup_named.mpr h]

theorem parse_hex (hword : asciiLower (trim s) ∉ colorWords)
    (hansi : ∀ inner, asciiLower (trim s) ≠ "ansi(".toList ++ inner ++ [')']) :
    Color.parse s = parseHex (hexPart (trim s)) := by
  have hlookup : namedColors.lookup (asciiLower (trim s)) = none :=
    Option.eq_none_iff_forall_ne_some.mpr fun n hn =>
      hword (colorWords_of_named (lookup_named.mp hn))
  have hdefault := fun hdefault => hword (colorWords_of_default hdefault)
  simp only [Color.parse, if_neg (mt isDefault_iff.mp hdefault), ansi_eq_none hansi, hlookup]
  rfl

/-- A word describes no colour of digits, and nothing stops reading it. -/
theorem word_spec (h : asciiLower t ∈ colorWords) :
    (∀ hex, (t = hex ∨ t = '#' :: hex) → ∀ c, ¬ StrictHex hex c) ∧ ¬ Jagged t ∧ ¬ Sloppy t := by
  refine ⟨fun hex ht c hc => ?_, fun hjagged => ?_, ?_⟩
  · exact (not_word_of_hexLike (hexLike_of_strictHex ht hc).1).1 h
  · exact (not_word_of_jagged hjagged).1 h
  · rintro (⟨inner, hansi, -⟩ | hplus)
    · exact not_ansi_of_word h hansi
    · exact (not_word_of_hexLike (hexLike_of_plusHex hplus)).1 h

theorem parse_exact_default
    (h : asciiLower (trim s) = "default".toList ∨ asciiLower (trim s) = "none".toList) :
    ∀ c, some Color.default = some c ↔ Describes (trim s) c := by
  have hword := colorWords_of_default h
  refine fun c => ⟨?_, fun hc => ?_⟩
  · rintro ⟨⟩
    exact .default h
  · cases hc with
    | default => rfl
    | named hnamed => exact absurd h (not_default_of_named hnamed)
    | ansi hansi => exact absurd hansi (not_ansi_of_word hword)
    | hex ht hc => exact absurd hc ((word_spec hword).1 _ ht c)

theorem parse_exact_named (h : (asciiLower (trim s), n) ∈ namedColors) :
    ∀ c, some (Color.ansi n) = some c ↔ Describes (trim s) c := by
  have hword := colorWords_of_named h
  refine fun c => ⟨?_, fun hc => ?_⟩
  · rintro ⟨⟩
    exact .named h
  · cases hc with
    | default hdefault => exact absurd hdefault (not_default_of_named h)
    | named hnamed =>
      rw [← lookup_named] at h hnamed
      rw [Option.some.inj (h.symm.trans hnamed)]
    | ansi hansi => exact absurd hansi (not_ansi_of_word hword)
    | hex ht hc => exact absurd hc ((word_spec hword).1 _ ht c)

theorem isWhiteSpace_of_digit {base v : ℕ} {c : Char} (h : digitValue base c = some v) :
    isWhiteSpace c = false := by
  have hlt := (digitValue_spec h).2
  simp only [digitValue, Option.filter_eq_some_iff] at h
  have hle (a b : Char) : a ≤ b ↔ a.toNat ≤ b.toNat := Iff.rfl
  obtain ⟨h, -⟩ := h
  refine isWhiteSpace_of_range ?_ hlt
  split_ifs at h with h₁ h₂ h₃
  · exact (hle _ _).mp h₁.1
  · exact le_trans (by decide) ((hle _ _).mp h₂.1)
  · exact le_trans (by decide) ((hle _ _).mp h₃.1)

/-- Digits are read as their number, and have no blanks. -/
theorem parseU8_of_parseDigits {digits : List Char} {v : ℕ} (h : parseDigits 10 digits = some v) :
    parseU8 10 (trim digits) = if v < 256 then some (UInt8.ofNat v) else none := by
  rw [parseDigits] at h
  split at h
  · cases h
  · next hne =>
    obtain ⟨values, hvalues, -⟩ := Option.map_eq_some_iff.mp h
    have hdigits := exists_digit hvalues
    have hblank : ∀ c ∈ digits, isWhiteSpace c = false := fun c hc => by
      obtain ⟨v, hv⟩ := hdigits c hc
      exact isWhiteSpace_of_digit hv
    have htrim : trim digits = digits :=
      trim_eq_self (fun c hc => hblank c (List.mem_of_mem_head? hc))
        fun c hc => hblank c (List.mem_of_mem_getLast? hc)
    have hunsigned : parseUnsigned 10 digits = some v := by
      obtain ⟨c, rest, rfl⟩ := List.exists_cons_of_ne_nil hne
      have hplus : c ≠ '+' := by
        rintro rfl
        obtain ⟨v, hv⟩ := hdigits '+' List.mem_cons_self
        rw [digitValue_plus] at hv
        cases hv
      rw [parseUnsigned_of_ne hplus, parseDigits, if_neg hne, h]
    rw [htrim, parseU8, hunsigned, Option.filter_some]
    by_cases hlt : v < 256
    · simp [hlt]
    · simp [hlt]

theorem describes_ansi_iff (h : asciiLower t = "ansi(".toList ++ inner ++ [')']) :
    Describes t c ↔ ∃ v, parseDigits 10 inner = some v ∧ v < 256 ∧ c = .ansi (UInt8.ofNat v) := by
  have hword : asciiLower t ∉ colorWords := fun hword => not_ansi_of_word hword h
  constructor
  · intro hc
    cases hc with
    | default hdefault => exact absurd (colorWords_of_default hdefault) hword
    | named hnamed => exact absurd (colorWords_of_named hnamed) hword
    | @ansi digits v hansi hv hlt =>
      have hdigits : digits = inner := by
        rw [h] at hansi
        exact (List.append_cancel_left (List.append_cancel_right hansi)).symm
      exact ⟨v, hdigits ▸ hv, hlt, rfl⟩
    | hex ht hc => exact absurd h ((not_word_of_hexLike (hexLike_of_strictHex ht hc).1).2 _)
  · rintro ⟨v, hv, hlt, rfl⟩
    exact .ansi h hv hlt

theorem parse_exact_ansi (h : asciiLower (trim s) = "ansi(".toList ++ inner ++ [')']) :
    (∃ found, Color.parse s = some found ∧ ∀ c, found = some c ↔ Describes (trim s) c) ↔
      ¬ Jagged (trim s) ∧ ¬ Sloppy (trim s) := by
  have hjagged : ¬ Jagged (trim s) := fun hjagged => (not_word_of_jagged hjagged).2 _ h
  have hplus : ¬ PlusHex (hexPart (trim s)) := fun hplus =>
    (not_word_of_hexLike (hexLike_of_plusHex hplus)).2 _ h
  have hsloppy : Sloppy (trim s) ↔
      (parseU8 10 (trim inner)).isSome ∧ parseDigits 10 inner = none := by
    refine ⟨?_, fun hread => .inl ⟨inner, h, hread⟩⟩
    rintro (⟨inner', hinner, hread⟩ | hplus')
    · rw [h] at hinner
      rw [List.append_cancel_left (List.append_cancel_right hinner)]
      exact hread
    · exact absurd hplus' hplus
  simp only [parse_ansi h, Option.some.injEq, exists_eq_left', describes_ansi_iff h, hjagged,
    not_false_eq_true, true_and, hsloppy]
  cases hdigits : parseDigits 10 inner with
  | none =>
    cases hread : parseU8 10 (trim inner) with
    | none => simp
    | some n => simp
  | some v =>
    refine iff_of_true (fun c => ?_) fun h => by cases h.2
    rw [parseU8_of_parseDigits hdigits]
    by_cases hlt : v < 256
    · simp [hlt, eq_comm]
    · simp [hlt]

/-- A text is read exactly as the colour that it describes, unless it is jagged or sloppy. -/
theorem parse_exact (s : List Char) :
    (∃ found, Color.parse s = some found ∧ ∀ c, found = some c ↔ Describes (trim s) c) ↔
      ¬ Jagged (trim s) ∧ ¬ Sloppy (trim s) := by
  by_cases hdefault : asciiLower (trim s) = "default".toList ∨ asciiLower (trim s) = "none".toList
  · exact iff_of_true ⟨_, parse_default hdefault, parse_exact_default hdefault⟩
      (word_spec (colorWords_of_default hdefault)).2
  by_cases hnamed : ∃ n, (asciiLower (trim s), n) ∈ namedColors
  · obtain ⟨n, hn⟩ := hnamed
    exact iff_of_true ⟨_, parse_named hn, parse_exact_named hn⟩
      (word_spec (colorWords_of_named hn)).2
  by_cases hansi : ∃ inner, asciiLower (trim s) = "ansi(".toList ++ inner ++ [')']
  · obtain ⟨inner, hinner⟩ := hansi
    exact parse_exact_ansi hinner
  have hword : asciiLower (trim s) ∉ colorWords := by
    intro hword
    rcases List.mem_cons.mp hword with h | hword
    · exact hdefault (.inl h)
    rcases List.mem_cons.mp hword with h | hword
    · exact hdefault (.inr h)
    · obtain ⟨⟨word, n⟩, hmem, hn⟩ := List.mem_map.mp hword
      exact hnamed ⟨n, hn ▸ hmem⟩
  rw [not_exists] at hansi
  have hdescribes (c : Color) : Describes (trim s) c ↔ StrictHex (hexPart (trim s)) c := by
    refine ⟨fun hc => ?_, fun hc => .hex (hexPart_cases _) hc⟩
    cases hc with
    | default h => exact absurd h hdefault
    | named h => exact absurd ⟨_, h⟩ hnamed
    | ansi h => exact absurd h (hansi _)
    | hex ht hc => rwa [(hexLike_of_strictHex ht hc).2]
  have hsloppy : Sloppy (trim s) ↔ PlusHex (hexPart (trim s)) := by
    refine ⟨?_, .inr⟩
    rintro (⟨inner, h, -⟩ | h)
    · exact absurd h (hansi inner)
    · exact h
  simp only [parse_hex hword hansi, hdescribes, hsloppy]
  exact parseHex_exact _

end Texts

end Themes

end Sotto
