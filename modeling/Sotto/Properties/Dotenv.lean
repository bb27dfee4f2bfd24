import Sotto.Cli.Dotenv
import Mathlib.Tactic.Common

/-!
# Dotenv exports read back

A rendered value has neither line breaks nor carriage returns and is between double quotes, and
a valid name has no character that means something at its place. So a line of the rendered text
is one line of the parser, which reads the entry.
-/

namespace Sotto

namespace Dotenv

open Text Export

variable {key value : List Char}

/-! ### Names -/

/-- What the characters of a valid name are. -/
theorem isValidKey_mem (h : isValidKey key = true) :
    ∀ c ∈ key, c.isAlphanum = true ∨ c = '_' := by
  cases key with
  | nil => exact fun c hc => absurd hc List.not_mem_nil
  | cons c key =>
    simp only [isValidKey, isIdentifier, Bool.and_eq_true, Bool.or_eq_true, beq_iff_eq, List.all_eq_true] at h
    intro d hd
    rcases List.mem_cons.mp hd with rfl | hd
    · exact h.1.imp_left fun halpha => by simp [Char.isAlphanum, halpha]
    · exact h.2 d hd

theorem not_mem_of_isValidKey (h : isValidKey key = true) {c : Char}
    (hc : c.isAlphanum = false) (hne : c ≠ '_') : c ∉ key := by
  intro hmem
  rcases isValidKey_mem h c hmem with hword | rfl
  · rw [hc] at hword
    cases hword
  · exact hne rfl

theorem ne_nil_of_isValidKey (h : isValidKey key = true) : key ≠ [] := by
  rintro rfl
  cases h

theorem toNat_of_isAlphanum {c : Char} (h : c.isAlphanum = true) :
    48 ≤ c.toNat ∧ c.toNat ≤ 122 := by
  unfold Char.isAlphanum Char.isAlpha Char.isUpper Char.isLower Char.isDigit at h
  simp only [Bool.or_eq_true, Bool.and_eq_true, decide_eq_true_eq, ge_iff_le,
    UInt32.le_iff_toNat_le] at h
  change ((65 ≤ c.toNat ∧ c.toNat ≤ 90) ∨ (97 ≤ c.toNat ∧ c.toNat ≤ 122)) ∨
    (48 ≤ c.toNat ∧ c.toNat ≤ 57) at h
  omega

/-- The characters of names are not white space. -/
theorem isWhiteSpace_of_word {c : Char} (h : c.isAlphanum = true ∨ c = '_') :
    isWhiteSpace c = false := by
  rcases h with h | rfl
  · have hrange := toNat_of_isAlphanum h
    exact isWhiteSpace_of_range hrange.1 (by omega)
  · rfl

/-! ### Values -/

theorem not_mem_dotenvEscape (c : Char) : '\n' ∉ dotenvEscape c ∧ '\r' ∉ dotenvEscape c := by
  unfold dotenvEscape
  split
  any_goals decide
  next hslash hquote hbreak hreturn =>
    simp only [List.mem_singleton]
    exact ⟨fun h => hbreak h.symm, fun h => hreturn h.symm⟩

theorem not_mem_dotenvQuote (value : List Char) : '\n' ∉ dotenvQuote value := by
  simp [dotenvQuote, fun c => (not_mem_dotenvEscape c).1]

/-- Escaped characters are read back. -/
theorem unescapeDouble_escape (c : Char) (s : List Char) :
    unescapeDouble (dotenvEscape c ++ s) = c :: unescapeDouble s := by
  unfold dotenvEscape
  split
  any_goals rfl
  next hslash hquote hbreak hreturn =>
    rw [List.singleton_append, unescapeDouble.eq_def]
    exact if_pos hslash

theorem unescapeDouble_flatMap (value : List Char) :
    unescapeDouble (value.flatMap dotenvEscape) = value := by
  induction value with
  | nil => rfl
  | cons c value ih => rw [List.flatMap_cons, unescapeDouble_escape, ih]

theorem trim_dotenvQuote (value : List Char) : trim (dotenvQuote value) = dotenvQuote value := by
  refine trim_eq_self ?_ ?_
  · intro c hc
    obtain rfl := Option.some.inj hc
    rfl
  · intro c hc
    rw [dotenvQuote, List.getLast?_concat] at hc
    obtain rfl := Option.some.inj hc
    rfl

/-- A rendered value is read back. -/
theorem parseValue_dotenvQuote (value : List Char) : parseValue (dotenvQuote value) = value := by
  have hsingle : stripPair (dotenvQuote value) '\'' = none := by
    simp [stripPair, dotenvQuote]
  have hdouble : stripPair (dotenvQuote value) '"' = some (value.flatMap dotenvEscape) := by
    simp [stripPair, dotenvQuote]
  rw [parseValue, trim_dotenvQuote]
  simp only [hsingle, hdouble, unescapeDouble_flatMap]

/-! ### Lines -/

/-- A rendered line is read as its entry. -/
theorem parseLine_dotenvLine (h : isValidKey key = true) (value : List Char) (number : ℕ) :
    parseLine number (dotenvLine (key, value)) = .ok (some (key, value)) := by
  obtain ⟨c, rest, rfl⟩ := List.exists_cons_of_ne_nil (ne_nil_of_isValidKey h)
  have hword := isValidKey_mem h c List.mem_cons_self
  have hstart : trimStart (dotenvLine (c :: rest, value)) = dotenvLine (c :: rest, value) := by
    refine trimStart_eq_self fun d hd => ?_
    obtain rfl := Option.some.inj hd
    exact isWhiteSpace_of_word hword
  have hline : ¬ (dotenvLine (c :: rest, value) = [] ∨
      (dotenvLine (c :: rest, value)).head? = some '#') := by
    rintro (hnil | hcomment)
    · cases hnil
    · obtain rfl := Option.some.inj hcomment
      exact absurd hword (by decide)
  have hexport : stripPrefix "export ".toList (dotenvLine (c :: rest, value)) = none := by
    refine stripPrefix_eq_none fun hprefix => ?_
    have hname : (c :: rest) ++ ['='] <+: dotenvLine (c :: rest, value) :=
      ⟨dotenvQuote value, by simp [dotenvLine]⟩
    rcases List.prefix_or_prefix_of_prefix hprefix hname with hwithin | hwithin
    · have hblank : ' ' ∈ (c :: rest) ++ ['='] := hwithin.subset (by decide)
      simp only [List.mem_append, List.mem_singleton, Char.reduceEq, or_false] at hblank
      exact not_mem_of_isValidKey h (by decide) (by decide) hblank
    · have hequals : '=' ∈ "export ".toList := hwithin.subset (by simp)
      exact absurd hequals (by decide)
  have hsplit : splitOnce '=' (dotenvLine (c :: rest, value)) =
      some (c :: rest, dotenvQuote value) :=
    splitOnce_append (not_mem_of_isValidKey h (by decide) (by decide)) _
  have htrim : trim (c :: rest) = c :: rest :=
    trim_eq_self (fun d hd => isWhiteSpace_of_word (isValidKey_mem h d (List.mem_of_mem_head? hd)))
      fun d hd => isWhiteSpace_of_word (isValidKey_mem h d (List.mem_of_mem_getLast? hd))
  simp only [parseLine, hstart, if_neg hline, hexport, Option.getD_none, hsplit, htrim, h,
    if_true, parseValue_dotenvQuote]

theorem lines_dotenv_cons {entry : Entry} (h : isValidKey entry.1 = true) (entries : List Entry) :
    lines (dotenv (entry :: entries)) = dotenvLine entry :: lines (dotenv entries) := by
  have hbreak : '\n' ∉ dotenvLine entry := by
    simp only [dotenvLine, List.mem_append, List.mem_cons, Char.reduceEq, false_or, not_or]
    exact ⟨not_mem_of_isValidKey h (by decide) (by decide), not_mem_dotenvQuote entry.2⟩
  have hreturn : ¬ ['\r'] <:+ dotenvLine entry := by
    rintro ⟨line, hline⟩
    have hlast : (dotenvLine entry).getLast? = some '"' := by
      rw [dotenvLine, dotenvQuote, ← List.cons_append, ← List.append_assoc, List.getLast?_concat]
    rw [← hline, List.getLast?_concat] at hlast
    exact absurd (Option.some.inj hlast) (by decide)
  rw [dotenv, List.flatMap_cons, List.append_assoc]
  exact lines_append hbreak hreturn _

theorem parseLines_dotenv {entries : List Entry} (h : ∀ entry ∈ entries, isValidKey entry.1 = true)
    (number : ℕ) : parseLines number (lines (dotenv entries)) = .ok entries := by
  induction entries generalizing number with
  | nil => rfl
  | cons entry entries ih =>
    rw [List.forall_mem_cons] at h
    rw [lines_dotenv_cons h.1, parseLines, parseLine_dotenvLine h.1, ih h.2]
    rfl

/-- Rendered entries with valid names are read back in their order. -/
theorem parse_dotenv {entries : List Entry} (h : ∀ entry ∈ entries, isValidKey entry.1 = true) :
    parse (dotenv entries) = .ok entries := by
  have hmark : stripPrefix ['\uFEFF'] (dotenv entries) = none := by
    refine stripPrefix_eq_none ?_
    cases entries with
    | nil => decide
    | cons entry entries =>
      rw [List.forall_mem_cons] at h
      obtain ⟨c, rest, hkey⟩ := List.exists_cons_of_ne_nil (ne_nil_of_isValidKey h.1)
      rintro ⟨text, htext⟩
      rw [dotenv, List.flatMap_cons, dotenvLine, hkey] at htext
      obtain rfl := (List.cons.inj htext).1
      have hword := isValidKey_mem h.1 '\uFEFF' (hkey ▸ List.mem_cons_self)
      exact absurd hword (by decide)
  rw [parse, hmark, Option.getD_none]
  exact parseLines_dotenv h 0

/-- A value with each character that is escaped, and one with blanks at its ends. -/
theorem parse_dotenv_escapes :
    parse (dotenv [("A_1".toList, "\"\\\n\r#".toList), ("_b".toList, " x = ".toList)]) =
      .ok [("A_1".toList, "\"\\\n\r#".toList), ("_b".toList, " x = ".toList)] :=
  parse_dotenv (by decide)

end Dotenv

end Sotto
