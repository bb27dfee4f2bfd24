import Sotto.Library.Text
import Sotto.Library.Numbers

/-!
# Texts of browsers

The decoder of UTF-8 reads a byte at a time. It gives a sign in place of bytes that are no
character, and drops a byte order mark. A text that is escaped for a URI is read back.
-/

namespace Sotto

namespace Text

/-! ### The decoder of UTF-8 -/

/-- What stands for bytes that are no character. -/
def replacement : Char := Char.ofNat 0xFFFD

/-- The mark that can begin a text. -/
def byteOrderMark : Char := Char.ofNat 0xFEFF

/-- A character that needs more bytes, with the bounds of the next one. -/
structure Pending where
  code : ℕ
  needed : ℕ
  lower : ℕ
  upper : ℕ

/-- What a byte gives at the beginning of a character. -/
def firstByte (b : ℕ) : List Char × Option Pending :=
  if b ≤ 0x7F then ([Char.ofNat b], none)
  else if 0xC2 ≤ b ∧ b ≤ 0xDF then ([], some ⟨b % 0x20, 1, 0x80, 0xBF⟩)
  else if 0xE0 ≤ b ∧ b ≤ 0xEF then
    ([], some ⟨b % 0x10, 2, if b = 0xE0 then 0xA0 else 0x80, if b = 0xED then 0x9F else 0xBF⟩)
  else if 0xF0 ≤ b ∧ b ≤ 0xF4 then
    ([], some ⟨b % 8, 3, if b = 0xF0 then 0x90 else 0x80, if b = 0xF4 then 0x8F else 0xBF⟩)
  else ([replacement], none)

/-- What a byte gives. -/
def nextByte (p : Option Pending) (b : ℕ) : List Char × Option Pending :=
  match p with
  | none => firstByte b
  | some p =>
    if p.lower ≤ b ∧ b ≤ p.upper then
      if p.needed ≤ 1 then ([Char.ofNat (p.code * 64 + b % 64)], none)
      else ([], some ⟨p.code * 64 + b % 64, p.needed - 1, 0x80, 0xBF⟩)
    else (replacement :: (firstByte b).1, (firstByte b).2)

/-- The characters of bytes. -/
def decodeUtf8 (p : Option Pending) : List UInt8 → List Char
  | [] => if p.isSome then [replacement] else []
  | b :: bytes => (nextByte p b.toNat).1 ++ decodeUtf8 (nextByte p b.toNat).2 bytes

/-- `TextDecoder.decode`. -/
def textDecode (bytes : List UInt8) : List Char :=
  decodeUtf8 none (if bytes.take 3 = [0xEF, 0xBB, 0xBF] then bytes.drop 3 else bytes)

section Utf8

variable {n b b₀ b₁ b₂ b₃ code needed lower upper : ℕ}

theorem nextByte_last (hlower : lower ≤ b) (hupper : b ≤ upper) :
    nextByte (some ⟨code, 1, lower, upper⟩) b = ([Char.ofNat (code * 64 + b % 64)], none) := by
  simp only [nextByte, hlower, hupper, and_self, if_true, le_refl]

theorem nextByte_more (hneeded : 1 < needed) (hlower : lower ≤ b) (hupper : b ≤ upper) :
    nextByte (some ⟨code, needed, lower, upper⟩) b =
      ([], some ⟨code * 64 + b % 64, needed - 1, 0x80, 0xBF⟩) := by
  simp only [nextByte, hlower, hupper, and_self, if_true, if_neg (Nat.not_le.2 hneeded)]

theorem firstByte_two (h : 0xC2 ≤ b ∧ b ≤ 0xDF) :
    firstByte b = ([], some ⟨b % 0x20, 1, 0x80, 0xBF⟩) := by
  rw [firstByte, if_neg (by omega), if_pos h]

theorem firstByte_three (h : 0xE0 ≤ b ∧ b ≤ 0xEF) : firstByte b = ([], some ⟨b % 0x10, 2,
    if b = 0xE0 then 0xA0 else 0x80, if b = 0xED then 0x9F else 0xBF⟩) := by
  rw [firstByte, if_neg (by omega), if_neg (by omega), if_pos h]

theorem firstByte_four (h : 0xF0 ≤ b ∧ b ≤ 0xF4) : firstByte b = ([], some ⟨b % 8, 3,
    if b = 0xF0 then 0x90 else 0x80, if b = 0xF4 then 0x8F else 0xBF⟩) := by
  rw [firstByte, if_neg (by omega), if_neg (by omega), if_neg (by omega), if_pos h]

theorem toNat_ofNat {n : ℕ} (h : n < 256) : (UInt8.ofNat n).toNat = n :=
  UInt8.toNat_ofNat_of_lt' h

theorem decodeUtf8_cons (p : Option Pending) (b : UInt8) (bytes : List UInt8) :
    decodeUtf8 p (b :: bytes) =
      (nextByte p b.toNat).1 ++ decodeUtf8 (nextByte p b.toNat).2 bytes := rfl

theorem decodeUtf8_two (h₀ : 0xC2 ≤ b₀ ∧ b₀ ≤ 0xDF) (h₁ : 0x80 ≤ b₁ ∧ b₁ ≤ 0xBF)
    (bytes : List UInt8) : decodeUtf8 none (UInt8.ofNat b₀ :: UInt8.ofNat b₁ :: bytes) =
      Char.ofNat (b₀ % 0x20 * 64 + b₁ % 64) :: decodeUtf8 none bytes := by
  rw [decodeUtf8_cons, toNat_ofNat (by omega), nextByte, firstByte_two h₀, decodeUtf8_cons,
    toNat_ofNat (by omega), nextByte_last h₁.1 h₁.2]
  rfl

theorem decodeUtf8_three (h₀ : 0xE0 ≤ b₀ ∧ b₀ ≤ 0xEF)
    (h₁ : (if b₀ = 0xE0 then 0xA0 else 0x80) ≤ b₁ ∧ b₁ ≤ if b₀ = 0xED then 0x9F else 0xBF)
    (h₂ : 0x80 ≤ b₂ ∧ b₂ ≤ 0xBF) (bytes : List UInt8) :
    decodeUtf8 none (UInt8.ofNat b₀ :: UInt8.ofNat b₁ :: UInt8.ofNat b₂ :: bytes) =
      Char.ofNat ((b₀ % 0x10 * 64 + b₁ % 64) * 64 + b₂ % 64) :: decodeUtf8 none bytes := by
  have hb₁ : b₁ < 256 := by
    have := h₁.2
    split at this <;> omega
  rw [decodeUtf8_cons, toNat_ofNat (by omega), nextByte, firstByte_three h₀, decodeUtf8_cons,
    toNat_ofNat hb₁, nextByte_more Nat.one_lt_two h₁.1 h₁.2, decodeUtf8_cons,
    toNat_ofNat (by omega), nextByte_last h₂.1 h₂.2]
  rfl

theorem decodeUtf8_four (h₀ : 0xF0 ≤ b₀ ∧ b₀ ≤ 0xF4)
    (h₁ : (if b₀ = 0xF0 then 0x90 else 0x80) ≤ b₁ ∧ b₁ ≤ if b₀ = 0xF4 then 0x8F else 0xBF)
    (h₂ : 0x80 ≤ b₂ ∧ b₂ ≤ 0xBF) (h₃ : 0x80 ≤ b₃ ∧ b₃ ≤ 0xBF) (bytes : List UInt8) :
    decodeUtf8 none
        (UInt8.ofNat b₀ :: UInt8.ofNat b₁ :: UInt8.ofNat b₂ :: UInt8.ofNat b₃ :: bytes) =
      Char.ofNat (((b₀ % 8 * 64 + b₁ % 64) * 64 + b₂ % 64) * 64 + b₃ % 64) ::
        decodeUtf8 none bytes := by
  have hb₁ : b₁ < 256 := by
    have := h₁.2
    split at this <;> omega
  rw [decodeUtf8_cons, toNat_ofNat (by omega), nextByte, firstByte_four h₀, decodeUtf8_cons,
    toNat_ofNat hb₁, nextByte_more (by omega) h₁.1 h₁.2, decodeUtf8_cons, toNat_ofNat (by omega),
    nextByte_more Nat.one_lt_two h₂.1 h₂.2, decodeUtf8_cons, toNat_ofNat (by omega),
    nextByte_last h₃.1 h₃.2]
  rfl

/-- The bytes of a character are read as the character. -/
theorem decodeUtf8_char (c : Char) (bytes : List UInt8) :
    decodeUtf8 none (String.utf8EncodeChar c ++ bytes) = c :: decodeUtf8 none bytes := by
  have hc : Char.ofNat c.val.toNat = c := Char.ofNat_toNat c
  have hvalid : c.val.toNat < 0xD800 ∨ 0xDFFF < c.val.toNat ∧ c.val.toNat < 0x110000 := c.valid
  simp only [String.utf8EncodeChar]
  generalize c.val.toNat = n at hc hvalid
  subst hc
  split_ifs with hone htwo hthree
  · rw [List.singleton_append, decodeUtf8_cons, toNat_ofNat (by omega), nextByte, firstByte,
      if_pos hone]
    rfl
  · refine (decodeUtf8_two (by omega) (by omega) bytes).trans ?_
    congr 2
    omega
  · refine (decodeUtf8_three (by omega) (by split_ifs <;> omega) (by omega) bytes).trans ?_
    congr 2
    omega
  · refine (decodeUtf8_four (by omega) (by split_ifs <;> omega) (by omega) (by omega)
      bytes).trans ?_
    congr 2
    omega

/-- The bytes of a text are read as the text. -/
theorem decodeUtf8_utf8 (s : List Char) : decodeUtf8 none (utf8 s) = s := by
  induction s with
  | nil => rfl
  | cons c s ih => rw [utf8_cons, decodeUtf8_char, ih]

theorem utf8_byteOrderMark : String.utf8EncodeChar byteOrderMark = [0xEF, 0xBB, 0xBF] := by decide

/-- A text is read as it is, except that a byte order mark is dropped. -/
theorem textDecode_utf8 (s : List Char) :
    textDecode (utf8 s) = if s.head? = some byteOrderMark then s.tail else s := by
  cases s with
  | nil => rfl
  | cons c s =>
    simp only [List.head?_cons, Option.some.injEq, List.tail_cons]
    split
    · next hc =>
      subst hc
      rw [textDecode, utf8_cons, utf8_byteOrderMark]
      exact (congrArg _ (if_pos rfl)).trans (decodeUtf8_utf8 s)
    · next hc =>
      rw [textDecode, if_neg, decodeUtf8_utf8]
      intro hmark
      have hbytes : utf8 (c :: s) =
          String.utf8EncodeChar byteOrderMark ++ (utf8 (c :: s)).drop 3 := by
        rw [utf8_byteOrderMark, ← hmark, List.take_append_drop]
      have hread := decodeUtf8_utf8 (c :: s)
      rw [hbytes, decodeUtf8_char] at hread
      exact hc (List.cons.inj hread).1.symm

end Utf8

/-! ### Components of a URI -/

/-- The characters that a component keeps as they are. -/
def isUnreserved (c : Char) : Bool :=
  c.toNat < 128 && (c.isAlphanum || "-_.!~*'()".toList.contains c)

/-- The escape of a byte. -/
def percentEncode (b : UInt8) : List Char :=
  ['%', (b.toNat / 16).digitChar.toUpper, (b.toNat % 16).digitChar.toUpper]

def encodeURIComponent (s : List Char) : List Char :=
  s.flatMap fun c => if isUnreserved c then [c] else (String.utf8EncodeChar c).flatMap percentEncode

/-- The bytes of a text with escapes. -/
def percentDecode : List Char → Option (List UInt8)
  | [] => some []
  | '%' :: high :: low :: s => do
    let h ← Numbers.digitValue 16 high
    let l ← Numbers.digitValue 16 low
    let bytes ← percentDecode s
    return UInt8.ofNat (16 * h + l) :: bytes
  | '%' :: _ => none
  | c :: s => (percentDecode s).map (String.utf8EncodeChar c ++ ·)

/-- The bytes of a text with escapes, where what is no escape is kept. -/
def unescape : List Char → List UInt8
  | [] => []
  | '%' :: high :: low :: s =>
    match Numbers.digitValue 16 high, Numbers.digitValue 16 low with
    | some h, some l => UInt8.ofNat (16 * h + l) :: unescape s
    | _, _ => String.utf8EncodeChar '%' ++ unescape (high :: low :: s)
  | c :: s => String.utf8EncodeChar c ++ unescape s

/-- The text of bytes, if they are one. -/
def fromUtf8 (bytes : List UInt8) : Option (List Char) :=
  if utf8 (decodeUtf8 none bytes) = bytes then some (decodeUtf8 none bytes) else none

def decodeURIComponent (s : List Char) : Option (List Char) :=
  (percentDecode s).bind fromUtf8

theorem fromUtf8_utf8 (s : List Char) : fromUtf8 (utf8 s) = some s := by
  rw [fromUtf8, decodeUtf8_utf8, if_pos rfl]

theorem fromUtf8_eq_some {bytes : List UInt8} {s : List Char} :
    fromUtf8 bytes = some s ↔ bytes = utf8 s := by
  refine ⟨fun h => ?_, fun h => h ▸ fromUtf8_utf8 s⟩
  rw [fromUtf8] at h
  split at h
  · next hbytes => rw [← Option.some.inj h, hbytes]
  · cases h

theorem percentDecode_cons {c : Char} (h : c ≠ '%') (s : List Char) :
    percentDecode (c :: s) = (percentDecode s).map (String.utf8EncodeChar c ++ ·) := by
  rw [percentDecode]
  · exact fun _ _ _ heq => absurd heq h
  · exact h

/-- A text with no escapes is read as it is. -/
theorem percentDecode_of_not_mem {s : List Char} (h : '%' ∉ s) :
    percentDecode s = some (utf8 s) := by
  induction s with
  | nil => rfl
  | cons c s ih =>
    simp only [List.mem_cons, not_or] at h
    rw [percentDecode_cons (Ne.symm h.1), ih h.2]
    rfl

theorem decodeURIComponent_of_not_mem {s : List Char} (h : '%' ∉ s) :
    decodeURIComponent s = some s := by
  rw [decodeURIComponent, percentDecode_of_not_mem h, Option.bind_some, fromUtf8_utf8]

theorem digitValue_toUpper {n : ℕ} (h : n < 16) :
    Numbers.digitValue 16 n.digitChar.toUpper = some n := by
  have hall : ∀ n < 16, Numbers.digitValue 16 n.digitChar.toUpper = some n := by
    decide
  exact hall n h

theorem percentDecode_percentEncode (b : UInt8) (s : List Char) :
    percentDecode (percentEncode b ++ s) = (percentDecode s).map (b :: ·) := by
  have hb := b.toNat_lt
  have hbyte : UInt8.ofNat (16 * (b.toNat / 16) + b.toNat % 16) = b := by
    rw [Nat.div_add_mod, UInt8.ofNat_toNat]
  simp only [percentEncode, List.cons_append, List.nil_append, percentDecode,
    digitValue_toUpper (show b.toNat / 16 < 16 by omega),
    digitValue_toUpper (show b.toNat % 16 < 16 by omega), Option.bind_eq_bind, Option.bind_some,
    hbyte]
  cases percentDecode s <;> rfl

theorem percentDecode_flatMap (bytes : List UInt8) (s : List Char) :
    percentDecode (bytes.flatMap percentEncode ++ s) = (percentDecode s).map (bytes ++ ·) := by
  induction bytes with
  | nil => simp
  | cons b bytes ih =>
    rw [List.flatMap_cons, List.append_assoc, percentDecode_percentEncode, ih, Option.map_map]
    rfl

/-- A text that is escaped is read back. -/
theorem percentDecode_encodeURIComponent (s : List Char) :
    percentDecode (encodeURIComponent s) = some (utf8 s) := by
  induction s with
  | nil => rfl
  | cons c s ih =>
    rw [encodeURIComponent, List.flatMap_cons, utf8_cons]
    split
    · next hc =>
      have hne : c ≠ '%' := by
        rintro rfl
        exact absurd hc (by decide)
      rw [List.singleton_append, percentDecode_cons hne]
      exact congrArg _ ih
    · rw [percentDecode_flatMap]
      exact congrArg _ ih

theorem unescape_cons {c : Char} (h : c ≠ '%') (s : List Char) :
    unescape (c :: s) = String.utf8EncodeChar c ++ unescape s := by
  rw [unescape]
  exact fun _ _ _ heq => absurd heq h

/-- A text of escapes that are whole is read in the same way. -/
theorem unescape_of_percentDecode {s : List Char} {bytes : List UInt8}
    (h : percentDecode s = some bytes) : unescape s = bytes := by
  fun_induction percentDecode s generalizing bytes with
  | case1 => exact Option.some.inj h
  | case2 high low s ih =>
    simp only [Option.bind_eq_bind, Option.bind_eq_some_iff, Option.pure_def,
      Option.some.injEq] at h
    obtain ⟨h, hhigh, l, hlow, rest, hrest, rfl⟩ := h
    rw [unescape, hhigh, hlow, ih hrest]
  | case3 => cases h
  | case4 c s hescape hpercent ih =>
    obtain ⟨rest, hrest, rfl⟩ := Option.map_eq_some_iff.1 h
    rw [unescape_cons hpercent, ih hrest]

theorem unescape_encodeURIComponent (s : List Char) : unescape (encodeURIComponent s) = utf8 s :=
  unescape_of_percentDecode (percentDecode_encodeURIComponent s)

end Text

end Sotto
