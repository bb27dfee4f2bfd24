import Mathlib.Algebra.Ring.Nat
import Mathlib.Data.List.Forall2
import Mathlib.Data.List.DropRight

/-!
# Texts and their bytes

Texts are lists of characters. Slices and indices are checked, and an index that is out of bounds
has no value. The bytes of a text below 128 are its characters below 128.
-/

namespace Sotto

namespace Text

variable {α : Type*}

/-- The elements from `a` up to `b`, if there are as many. -/
def slice (l : List α) (a b : ℕ) : Option (List α) :=
  if a ≤ b ∧ b ≤ l.length then some ((l.drop a).take (b - a)) else none

/-- The difference, if it is not negative. -/
def checkedSub (a b : ℕ) : Option ℕ :=
  if b ≤ a then some (a - b) else none

/-- The characters with the Unicode property `White_Space`. -/
def isWhiteSpace (c : Char) : Bool :=
  (9 ≤ c.toNat && c.toNat ≤ 13) || (0x2000 ≤ c.toNat && c.toNat ≤ 0x200A) ||
    [0x20, 0x85, 0xA0, 0x1680, 0x2028, 0x2029, 0x202F, 0x205F, 0x3000].contains c.toNat

def trimStart (s : List Char) : List Char :=
  s.dropWhile isWhiteSpace

def trim (s : List Char) : List Char :=
  (trimStart s).rdropWhile isWhiteSpace

def stripPrefix (pre s : List Char) : Option (List Char) :=
  if pre.isPrefixOf s then some (s.drop pre.length) else none

def stripSuffix (suffix s : List Char) : Option (List Char) :=
  if suffix.isSuffixOf s then some (s.take (s.length - suffix.length)) else none

/-- The parts of a text that each `c` ends. -/
def splitInclusive (c : Char) : List Char → List (List Char)
  | [] => []
  | d :: s =>
    if d = c then [d] :: splitInclusive c s
    else
      match splitInclusive c s with
      | [] => [[d]]
      | part :: rest => (d :: part) :: rest

/-- The lines of a text, without their ends. -/
def lines (s : List Char) : List (List Char) :=
  (splitInclusive '\n' s).map fun part =>
    match stripSuffix ['\n'] part with
    | none => part
    | some line => (stripSuffix ['\r'] line).getD line

/-- What is before and after the first `c`. -/
def splitOnce (c : Char) (s : List Char) : Option (List Char × List Char) :=
  if c ∈ s then some (s.takeWhile (· ≠ c), (s.dropWhile (· ≠ c)).drop 1) else none

/-- The number of bytes of a text. -/
def byteLength (s : List Char) : ℕ :=
  (s.map Char.utf8Size).sum

/-- Split a text at a number of bytes, if it is a boundary of characters. -/
def splitAtByte : ℕ → List Char → Option (List Char × List Char)
  | 0, s => some ([], s)
  | _ + 1, [] => none
  | n + 1, c :: s =>
    if c.utf8Size ≤ n + 1 then
      (splitAtByte (n + 1 - c.utf8Size) s).map fun p => (c :: p.1, p.2)
    else none

/-- The characters from the byte `a` up to the byte `b`, if both are boundaries of characters. -/
def getBytes (s : List Char) (a b : ℕ) : Option (List Char) := do
  let (_, rest) ← splitAtByte a s
  let (found, _) ← splitAtByte (b - a) rest
  return found

/-- The UTF-8 bytes of a text. -/
def utf8 (s : List Char) : List UInt8 :=
  s.flatMap String.utf8EncodeChar

/-- The byte of an ASCII character. -/
def ascii (c : Char) : UInt8 :=
  UInt8.ofNat c.toNat

def isAsciiDigit (b : UInt8) : Bool :=
  48 ≤ b.toNat && b.toNat ≤ 57

/-- What is checked of every character of a text. -/
theorem forall_mem_of_all {p : Char → Prop} [DecidablePred p] {s : List Char}
    (h : s.all (fun c => decide (p c)) = true) : ∀ c ∈ s, p c := by
  simpa using h

@[simp]
theorem utf8_nil : utf8 [] = [] := rfl

@[simp]
theorem utf8_cons (c : Char) (s : List Char) :
    utf8 (c :: s) = String.utf8EncodeChar c ++ utf8 s := rfl

theorem toNat_ascii {c : Char} (h : c.toNat < 128) : (ascii c).toNat = c.toNat :=
  UInt8.toNat_ofNat_of_lt' (by have : UInt8.size = 256 := rfl; omega)

theorem utf8EncodeChar_of_lt {c : Char} (h : c.toNat < 128) :
    String.utf8EncodeChar c = [ascii c] := by
  unfold String.utf8EncodeChar
  exact if_pos (Nat.le_of_lt_succ h)

/-- The bytes of a character that is not below 128 are not, and there is one. -/
theorem utf8EncodeChar_of_le {c : Char} (h : 128 ≤ c.toNat) :
    ∃ b l, String.utf8EncodeChar c = b :: l ∧ 128 ≤ b.toNat := by
  have hval : ¬ c.val.toNat ≤ 0x7f := Nat.not_le.mpr h
  simp only [String.utf8EncodeChar, if_neg hval]
  split_ifs
  all_goals
    refine ⟨_, _, rfl, ?_⟩
    rw [UInt8.toNat_ofNat']
    omega

theorem ascii_inj {c d : Char} (hc : c.toNat < 128) (hd : d.toNat < 128) :
    ascii c = ascii d ↔ c = d := by
  constructor
  · intro h
    have hnat := congrArg UInt8.toNat h
    rw [toNat_ascii hc, toNat_ascii hd] at hnat
    exact Char.toNat_inj.mp hnat
  · rintro rfl
    rfl

theorem utf8_of_lt {s : List Char} (h : ∀ c ∈ s, c.toNat < 128) : utf8 s = s.map ascii := by
  induction s with
  | nil => rfl
  | cons c s ih =>
    simp only [List.mem_cons, forall_eq_or_imp] at h
    rw [utf8_cons, utf8EncodeChar_of_lt h.1, ih h.2]
    rfl

theorem lt_of_utf8 {s : List Char} (h : ∀ b ∈ utf8 s, b.toNat < 128) : ∀ c ∈ s, c.toNat < 128 := by
  induction s with
  | nil => exact fun c hc => absurd hc List.not_mem_nil
  | cons c s ih =>
    simp only [utf8_cons, List.mem_append, or_imp, forall_and] at h
    simp only [List.mem_cons, forall_eq_or_imp]
    refine ⟨Nat.not_le.mp fun hc => ?_, ih h.2⟩
    obtain ⟨b, l, hbytes, hb⟩ := utf8EncodeChar_of_le hc
    exact absurd (h.1 b (hbytes ▸ List.mem_cons_self)) (Nat.not_lt.mpr hb)

/-- A text is determined by its bytes. -/
theorem utf8_injective : Function.Injective utf8 := by
  intro s t h
  have hbytes : s.utf8Encode = t.utf8Encode := congrArg List.toByteArray h
  have hstring : String.ofList s = String.ofList t := String.toByteArray_inj.mp hbytes
  rw [← String.toList_ofList (l := s), hstring, String.toList_ofList]

/-! ### Positions in bytes -/

theorem utf8Size_eq_one {c : Char} : c.utf8Size = 1 ↔ c.toNat < 128 := by
  have hle (v : UInt32) : c.val ≤ v ↔ c.toNat ≤ v.toNat := Iff.rfl
  simp only [Char.utf8Size, hle]
  constructor
  · intro h
    split_ifs at h with hascii
    · exact Nat.lt_succ_of_le hascii
    all_goals exact absurd h (by decide)
  · exact fun h => if_pos (Nat.le_of_lt_succ h)

theorem one_lt_utf8Size {c : Char} (h : 128 ≤ c.toNat) : 1 < c.utf8Size := by
  have hpos := c.utf8Size_pos
  have hne : c.utf8Size ≠ 1 := fun hone => absurd (utf8Size_eq_one.mp hone) (Nat.not_lt.mpr h)
  omega

theorem byteLength_cons (c : Char) (s : List Char) :
    byteLength (c :: s) = c.utf8Size + byteLength s := by
  simp [byteLength]

theorem splitAtByte_zero (s : List Char) : splitAtByte 0 s = some ([], s) := by
  cases s <;> rfl

theorem splitAtByte_ascii {c : Char} (h : c.toNat < 128) (n : ℕ) (s : List Char) :
    splitAtByte (n + 1) (c :: s) = (splitAtByte n s).map fun p => (c :: p.1, p.2) := by
  have hsize := utf8Size_eq_one.mpr h
  rw [splitAtByte, if_pos (by omega), hsize, Nat.add_sub_cancel]

theorem byteLength_append (s t : List Char) :
    byteLength (s ++ t) = byteLength s + byteLength t := by
  simp [byteLength]

theorem byteLength_pos {s : List Char} (h : s ≠ []) : 0 < byteLength s := by
  obtain ⟨c, s, rfl⟩ := List.exists_cons_of_ne_nil h
  rw [byteLength_cons]
  exact Nat.add_pos_left c.utf8Size_pos _

/-- A position after a part. -/
theorem splitAtByte_add (part s : List Char) (n : ℕ) :
    splitAtByte (byteLength part + n) (part ++ s) =
      (splitAtByte n s).map fun p => (part ++ p.1, p.2) := by
  induction part with
  | nil =>
    rw [byteLength, List.map_nil, List.sum_nil, Nat.zero_add, List.nil_append]
    exact Option.map_id'.symm
  | cons c part ih =>
    obtain ⟨m, hm⟩ : ∃ m, c.utf8Size + byteLength part + n = m + 1 :=
      ⟨c.utf8Size + byteLength part + n - 1, by have := c.utf8Size_pos; omega⟩
    rw [byteLength_cons, hm, List.cons_append, splitAtByte, if_pos (by omega),
      show m + 1 - c.utf8Size = byteLength part + n by omega, ih, Option.map_map]
    rfl

/-- A text is split where a part of it ends. -/
theorem splitAtByte_append (part s : List Char) :
    splitAtByte (byteLength part) (part ++ s) = some (part, s) := by
  have h := splitAtByte_add part s 0
  rwa [splitAtByte_zero, Nat.add_zero, Option.map_some, List.append_nil] at h

theorem splitAtByte_eq_some {n : ℕ} {s part rest : List Char} :
    splitAtByte n s = some (part, rest) ↔ s = part ++ rest ∧ byteLength part = n := by
  constructor
  · intro h
    induction s generalizing n part with
    | nil =>
      cases n with
      | zero =>
        cases h
        exact ⟨rfl, rfl⟩
      | succ n => cases h
    | cons c s ih =>
      cases n with
      | zero =>
        cases h
        exact ⟨rfl, rfl⟩
      | succ n =>
        rw [splitAtByte] at h
        split at h
        · next hsize =>
          rw [Option.map_eq_some_iff] at h
          obtain ⟨p, hsplit, hp⟩ := h
          obtain ⟨rfl, rfl⟩ := Prod.mk.inj hp
          obtain ⟨hs, hlength⟩ := ih hsplit
          refine ⟨by rw [List.cons_append, ← hs], ?_⟩
          rw [byteLength_cons, hlength]
          omega
        · cases h
  · rintro ⟨rfl, rfl⟩
    exact splitAtByte_append part rest

theorem getBytes_zero (s : List Char) : getBytes s 0 0 = some [] := by
  simp [getBytes, splitAtByte_zero]

/-- The bytes after an ASCII character. -/
theorem getBytes_ascii {c : Char} (h : c.toNat < 128) (s : List Char) (a b : ℕ) :
    getBytes (c :: s) (a + 1) (b + 1) = getBytes s a b := by
  simp only [getBytes, splitAtByte_ascii h, Option.bind_eq_bind, Nat.add_sub_add_right]
  cases splitAtByte a s <;> rfl

/-- The bytes from an ASCII character on. -/
theorem getBytes_zero_ascii {c : Char} (h : c.toNat < 128) (s : List Char) (b : ℕ) :
    getBytes (c :: s) 0 (b + 1) = (getBytes s 0 b).map (c :: ·) := by
  simp only [getBytes, splitAtByte_zero, Option.bind_eq_bind, Option.bind_some, Nat.sub_zero,
    splitAtByte_ascii h]
  cases splitAtByte b s <;> rfl

/-- Bytes that end inside a character have no value. -/
theorem getBytes_zero_inside {c : Char} {b : ℕ} (h : b + 1 < c.utf8Size) (s : List Char) :
    getBytes (c :: s) 0 (b + 1) = none := by
  simp only [getBytes, Option.bind_eq_bind, Option.bind_some, Nat.sub_zero,
    splitAtByte, if_neg (Nat.not_le.mpr h), Option.bind_none]

theorem splitAtByte_of_lt {s : List Char} (h : ∀ c ∈ s, c.toNat < 128) {n : ℕ}
    (hn : n ≤ s.length) : splitAtByte n s = some (s.take n, s.drop n) := by
  induction s generalizing n with
  | nil =>
    rw [List.length_nil, Nat.le_zero] at hn
    rw [hn]
    rfl
  | cons c s ih =>
    rw [List.forall_mem_cons] at h
    cases n with
    | zero => rfl
    | succ n =>
      rw [splitAtByte_ascii h.1, ih h.2 (Nat.le_of_succ_le_succ hn)]
      rfl

theorem length_le_byteLength (s : List Char) : s.length ≤ byteLength s := by
  induction s with
  | nil => exact Nat.zero_le _
  | cons c s ih =>
    have hpos := c.utf8Size_pos
    rw [byteLength_cons, List.length_cons]
    omega

/-- A text with a character that is not ASCII has more bytes than characters. -/
theorem length_lt_byteLength {s : List Char} {c : Char} (hmem : c ∈ s) (h : 128 ≤ c.toNat) :
    s.length < byteLength s := by
  induction s with
  | nil => exact absurd hmem List.not_mem_nil
  | cons d s ih =>
    rw [byteLength_cons, List.length_cons]
    rcases List.mem_cons.mp hmem with rfl | hmem
    · have hwide := one_lt_utf8Size h
      have hle := length_le_byteLength s
      omega
    · have hpos := d.utf8Size_pos
      have hlt := ih hmem
      omega

theorem byteLength_of_lt {s : List Char} (h : ∀ c ∈ s, c.toNat < 128) :
    byteLength s = s.length := by
  induction s with
  | nil => rfl
  | cons c s ih =>
    rw [List.forall_mem_cons] at h
    rw [byteLength_cons, utf8Size_eq_one.mpr h.1, ih h.2, List.length_cons, Nat.add_comm]

/-- The bytes after a part. -/
theorem getBytes_append (part s : List Char) (a b : ℕ) :
    getBytes (part ++ s) (byteLength part + a) (byteLength part + b) = getBytes s a b := by
  simp only [getBytes, splitAtByte_add, Option.bind_eq_bind, Nat.add_sub_add_left]
  cases splitAtByte a s <;> rfl

theorem slice_eq_some {l k : List α} {a b : ℕ} :
    slice l a b = some k ↔ (a ≤ b ∧ b ≤ l.length) ∧ k = (l.drop a).take (b - a) := by
  unfold slice
  split
  · next h => simp only [h, and_self, true_and, Option.some.injEq, eq_comm]
  · next h => simp only [h, false_and, reduceCtorEq]

theorem slice_append_left {l r : List α} {a b : ℕ} (h : a ≤ b ∧ b ≤ l.length) :
    slice (l ++ r) a b = some ((l.drop a).take (b - a)) := by
  rw [slice, if_pos ⟨h.1, by rw [List.length_append]; omega⟩, List.drop_append_of_le_length
    (by omega), List.take_append_of_le_length (by rw [List.length_drop]; omega)]

theorem slice_append (l m r : List α) :
    slice (l ++ (m ++ r)) l.length (l.length + m.length) = some m := by
  rw [slice, if_pos ⟨by omega, by simp only [List.length_append]; omega⟩, List.drop_left,
    Nat.add_sub_cancel_left, List.take_left]

/-! ### Lines -/

theorem splitInclusive_append {c : Char} {l : List Char} (h : c ∉ l) (s : List Char) :
    splitInclusive c (l ++ c :: s) = (l ++ [c]) :: splitInclusive c s := by
  induction l with
  | nil => simp [splitInclusive]
  | cons d l ih =>
    rw [List.mem_cons, not_or] at h
    rw [List.cons_append, splitInclusive, if_neg (Ne.symm h.1), ih h.2]
    rfl

theorem stripSuffix_append (s suffix : List Char) : stripSuffix suffix (s ++ suffix) = some s := by
  have h : suffix.isSuffixOf (s ++ suffix) := List.isSuffixOf_iff_suffix.mpr ⟨s, rfl⟩
  rw [stripSuffix, if_pos h, List.length_append, Nat.add_sub_cancel, List.take_left]

theorem stripSuffix_eq_none {suffix s : List Char} (h : ¬ suffix <:+ s) :
    stripSuffix suffix s = none :=
  if_neg (mt List.isSuffixOf_iff_suffix.mp h)

/-- A line that has no line break and does not end with a carriage return. -/
theorem lines_append {l : List Char} (hbreak : '\n' ∉ l) (hreturn : ¬ ['\r'] <:+ l)
    (s : List Char) : lines (l ++ '\n' :: s) = l :: lines s := by
  simp only [lines, splitInclusive_append hbreak, List.map_cons, stripSuffix_append,
    stripSuffix_eq_none hreturn, Option.getD_none]

theorem stripPrefix_eq_some {pre s rest : List Char} :
    stripPrefix pre s = some rest ↔ s = pre ++ rest := by
  unfold stripPrefix
  constructor
  · intro h
    split at h
    · next hprefix =>
      obtain ⟨t, rfl⟩ := List.isPrefixOf_iff_prefix.mp hprefix
      rw [List.drop_left] at h
      rw [Option.some.inj h]
    · cases h
  · rintro rfl
    rw [if_pos (List.isPrefixOf_iff_prefix.mpr ⟨rest, rfl⟩), List.drop_left]

theorem stripSuffix_eq_some {suffix s rest : List Char} :
    stripSuffix suffix s = some rest ↔ s = rest ++ suffix := by
  constructor
  · intro h
    by_cases hsuffix : suffix <:+ s
    · obtain ⟨t, rfl⟩ := hsuffix
      rw [stripSuffix_append] at h
      rw [Option.some.inj h]
    · rw [stripSuffix_eq_none hsuffix] at h
      cases h
  · rintro rfl
    exact stripSuffix_append rest suffix

theorem stripPrefix_eq_none {pre s : List Char} (h : ¬ pre <+: s) : stripPrefix pre s = none :=
  if_neg (mt List.isPrefixOf_iff_prefix.mp h)

theorem splitOnce_append {c : Char} {l : List Char} (h : c ∉ l) (s : List Char) :
    splitOnce c (l ++ c :: s) = some (l, s) := by
  have hne : ∀ d ∈ l, decide (d ≠ c) = true := fun d hd =>
    decide_eq_true fun he => h (he ▸ hd)
  rw [splitOnce, if_pos (by simp), List.takeWhile_append_of_pos hne,
    List.dropWhile_append_of_pos hne]
  simp

/-! ### Blanks at the ends -/

/-- The characters of names and of numbers are not white space. -/
theorem isWhiteSpace_of_range {c : Char} (h : 48 ≤ c.toNat) (hlt : c.toNat < 128) :
    isWhiteSpace c = false := by
  simp only [isWhiteSpace, List.contains_cons, List.contains_nil, Bool.or_false,
    Bool.or_eq_false_iff, Bool.and_eq_false_iff, decide_eq_false_iff_not, beq_eq_false_iff_ne]
  omega

theorem trimStart_eq_self {s : List Char} (h : ∀ c ∈ s.head?, isWhiteSpace c = false) :
    trimStart s = s := by
  cases s with
  | nil => rfl
  | cons c s => simp [trimStart, h c rfl]

theorem trim_eq_self {s : List Char} (hfirst : ∀ c ∈ s.head?, isWhiteSpace c = false)
    (hlast : ∀ c ∈ s.getLast?, isWhiteSpace c = false) : trim s = s := by
  rw [trim, trimStart_eq_self hfirst, List.rdropWhile_eq_self_iff]
  intro hne
  rw [hlast _ (List.getLast?_eq_some_getLast hne)]
  exact Bool.false_ne_true

/-- Blanks around a text without blanks at its ends are trimmed. -/
theorem trim_between {before s after : List Char} (hne : s ≠ [])
    (hs : ∀ c ∈ s, isWhiteSpace c = false)
    (hbefore : ∀ c ∈ before, isWhiteSpace c = true) (hafter : ∀ c ∈ after, isWhiteSpace c = true) :
    trim (before ++ s ++ after) = s := by
  have hfirst : trimStart (before ++ s ++ after) = s ++ after := by
    rw [List.append_assoc, trimStart, List.dropWhile_append_of_pos hbefore]
    refine trimStart_eq_self fun c hc => hs c ?_
    rw [List.head?_append_of_ne_nil _ hne] at hc
    exact List.mem_of_mem_head? hc
  have hlast : s.reverse.dropWhile isWhiteSpace = s.reverse := by
    refine trimStart_eq_self fun c hc => hs c ?_
    exact List.mem_reverse.mp (List.mem_of_mem_head? hc)
  rw [trim, hfirst, List.rdropWhile, List.reverse_append,
    List.dropWhile_append_of_pos fun c hc => hafter c (List.mem_reverse.mp hc), hlast,
    List.reverse_reverse]

end Text

end Sotto
