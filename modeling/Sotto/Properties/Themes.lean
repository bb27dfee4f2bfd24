import Sotto.Properties.Colors

/-!
# Themes are resolved

A colour that is written is read back. A theme file stops the program exactly if its first field
that cannot be read is a jagged colour, and a file that is used has only colours that are
described, unless one of its colours is sloppy.
-/

namespace Sotto

namespace Themes

open Text Numbers

/-! ### Colours that are written -/

section Written

variable {s : List Char} {c : Color}

/-- A described colour without a plus sign in a text of ASCII is read. -/
theorem parse_of_describes (h : Describes (trim s) c) (hascii : ∀ d ∈ trim s, d.toNat < 128)
    (hplus : '+' ∉ trim s) : Color.parse s = some (some c) := by
  have hjagged : ¬ Jagged (trim s) := by
    intro hjagged
    obtain ⟨d, hd, hwide⟩ := exists_wide_of_jagged hjagged
    exact absurd (hascii d hd) (Nat.not_lt.mpr hwide)
  have hsloppy : ¬ Sloppy (trim s) := by
    rintro (⟨inner, hansi, -, hnone⟩ | ⟨hmem, -⟩)
    · obtain ⟨v, hv, -⟩ := (describes_ansi_iff hansi).mp h
      rw [hnone] at hv
      cases hv
    · exact hplus (hexPart_subset _ hmem)
  obtain ⟨found, hfound, hexact⟩ := (parse_exact s).mpr ⟨hjagged, hsloppy⟩
  rw [hfound, (hexact c).mpr h]

theorem parse_of_chars (hchars : ∀ d ∈ s, isWhiteSpace d = false ∧ d.toNat < 128 ∧ d ≠ '+')
    (h : Describes s c) : Color.parse s = some (some c) := by
  have htrim : trim s = s :=
    trim_eq_self (fun d hd => (hchars d (List.mem_of_mem_head? hd)).1)
      fun d hd => (hchars d (List.mem_of_mem_getLast? hd)).1
  refine parse_of_describes (htrim.symm ▸ h) ?_ ?_
  · rw [htrim]
    exact fun d hd => (hchars d hd).2.1
  · rw [htrim]
    exact fun hplus => (hchars _ hplus).2.2 rfl

theorem plain_of_digit {base v : ℕ} {d : Char} (h : digitValue base d = some v) :
    isWhiteSpace d = false ∧ d.toNat < 128 ∧ d ≠ '+' := by
  refine ⟨isWhiteSpace_of_digit h, (digitValue_spec h).2, ?_⟩
  rintro rfl
  rw [digitValue_plus] at h
  cases h

theorem asciiLower_digits (h : ∀ d ∈ s, d.isDigit = true) : asciiLower s = s := by
  refine (List.map_congr_left fun d hd => ?_).trans (List.map_id s)
  have hdigit := h d hd
  simp only [Char.isDigit, Bool.and_eq_true, decide_eq_true_eq] at hdigit
  have hle : d.toNat ≤ 57 := hdigit.2
  refine dif_neg fun hupper => ?_
  have hge : 65 ≤ d.toNat := hupper.1
  omega

theorem digitValue_digitChar {n : ℕ} (h : n < 16) : digitValue 16 n.digitChar = some n := by
  have hall : ∀ n < 16, digitValue 16 n.digitChar = some n := by
    decide
  exact hall n h

theorem parse_serialize_rgb (r g b : UInt8) :
    Color.parse (Color.serialize (.rgb r g b)) = some (some (.rgb r g b)) := by
  have hdigits : (hexByte r ++ hexByte g ++ hexByte b).mapM (digitValue 16) =
      some [r.toNat / 16, r.toNat % 16, g.toNat / 16, g.toNat % 16, b.toNat / 16,
        b.toNat % 16] := by
    have hbyte (n : UInt8) : digitValue 16 (n.toNat / 16).digitChar = some (n.toNat / 16) ∧
        digitValue 16 (n.toNat % 16).digitChar = some (n.toNat % 16) := by
      have hlt := n.toNat_lt
      exact ⟨digitValue_digitChar (by omega), digitValue_digitChar (by omega)⟩
    exact Checked.mapM_eq_some.mpr (.cons (hbyte r).1 (.cons (hbyte r).2 (.cons (hbyte g).1
      (.cons (hbyte g).2 (.cons (hbyte b).1 (.cons (hbyte b).2 .nil))))))
  have hstrict : StrictHex (hexByte r ++ hexByte g ++ hexByte b) (.rgb r g b) := by
    have hbyte (n : UInt8) : UInt8.ofNat (16 * (n.toNat / 16) + n.toNat % 16) = n := by
      rw [Nat.div_add_mod, UInt8.ofNat_toNat]
    have h := StrictHex.long hdigits
    rwa [hbyte, hbyte, hbyte] at h
  have hchars : ∀ d ∈ (Color.rgb r g b).serialize,
      isWhiteSpace d = false ∧ d.toNat < 128 ∧ d ≠ '+' := by
    refine List.forall_mem_cons.mpr ⟨by decide, fun d hd => ?_⟩
    obtain ⟨v, hv⟩ := exists_digit hdigits d hd
    exact plain_of_digit hv
  exact parse_of_chars hchars (.hex (.inr rfl) hstrict)

theorem parse_serialize_ansi (n : UInt8) :
    Color.parse (Color.serialize (.ansi n)) = some (some (.ansi n)) := by
  have hnamed : ∀ k < 16, Color.parse (Color.serialize (.ansi (UInt8.ofNat k))) =
      some (some (.ansi (UInt8.ofNat k))) := by
    decide
  by_cases hlt : n.toNat < 16
  · have hn := hnamed n.toNat hlt
    rwa [UInt8.ofNat_toNat] at hn
  · have hserialize : (Color.ansi n).serialize =
        "ansi(".toList ++ Nat.toDigits 10 n.toNat ++ [')'] := by
      simp only [Color.serialize]
      split
      case h_17 => rfl
      all_goals exact absurd (by omega) hlt
    have hlower : asciiLower (Nat.toDigits 10 n.toNat) = Nat.toDigits 10 n.toNat :=
      asciiLower_digits (isDigit_toDigits _)
    have hchars : ∀ d ∈ (Color.ansi n).serialize,
        isWhiteSpace d = false ∧ d.toNat < 128 ∧ d ≠ '+' := by
      rw [hserialize, List.forall_mem_append, List.forall_mem_append]
      exact ⟨⟨forall_mem_of_all (by decide), fun d hd => plain_of_digit (digitValue_of_isDigit
        (isDigit_toDigits _ d hd))⟩, forall_mem_of_all (by decide)⟩
    refine parse_of_chars hchars ?_
    have hword : asciiLower (Color.ansi n).serialize =
        "ansi(".toList ++ Nat.toDigits 10 n.toNat ++ [')'] := by
      have hansi : asciiLower "ansi(".toList = "ansi(".toList := by decide
      rw [hserialize, asciiLower, List.map_append, List.map_append, ← asciiLower, ← asciiLower,
        hansi, hlower]
      rfl
    have hdescribes := Describes.ansi hword (parseDigits_toDigits _) n.toNat_lt
    rwa [UInt8.ofNat_toNat] at hdescribes

/-- A colour that is written is read back. -/
theorem parse_serialize (c : Color) : Color.parse c.serialize = some (some c) := by
  cases c with
  | rgb r g b => exact parse_serialize_rgb r g b
  | ansi n => exact parse_serialize_ansi n
  | default => decide

end Written

/-! ### Which texts are read -/

section Read

variable {s : List Char} {c : Color}

/-- The text is read as a colour. -/
def Readable (t : List Char) : Prop :=
  (∃ c, Describes t c) ∨ Sloppy t

theorem parse_of_sloppy (h : Sloppy (trim s)) : ∃ c, Color.parse s = some (some c) := by
  rcases h with ⟨inner, hansi, hread, -⟩ | hplus
  · obtain ⟨n, hn⟩ := Option.isSome_iff_exists.mp hread
    exact ⟨.ansi n, by rw [parse_ansi hansi, hn]; rfl⟩
  · have hother := hexLike_of_plusHex hplus
    obtain ⟨-, r, g, b, hparts⟩ := hplus
    have hlength := byteLength_of_parts hparts
    have hread := (readParts_eq_some (k := 3) hlength).mpr ⟨hparts, rfl⟩
    refine ⟨.rgb r g b, ?_⟩
    rw [parse_hex (not_word_of_hexLike hother).1 (not_word_of_hexLike hother).2]
    have hsix : byteLength (hexPart (trim s)) = 6 := hlength
    simp [parseHex, hsix, readChannels_eq, hread]

theorem parse_of_jagged (h : Jagged (trim s)) : Color.parse s = none := by
  rw [parse_hex (not_word_of_jagged h).1 (not_word_of_jagged h).2]
  rcases h with ⟨hlength, hsplits⟩ | ⟨hlength, hsplits⟩
  · have hread := (readParts_eq_none (k := 3) (by decide) hlength).mpr hsplits
    simp [parseHex, hlength, readChannels_eq, hread]
  · have hread := (readParts_eq_none (k := 3) (by decide) hlength).mpr hsplits
    simp [parseHex, hlength, readChannels_eq, hread]

/-- Reading stops the program exactly on the jagged texts. -/
theorem parse_eq_none : Color.parse s = none ↔ Jagged (trim s) := by
  refine ⟨fun hnone => ?_, parse_of_jagged⟩
  by_contra hjagged
  by_cases hsloppy : Sloppy (trim s)
  · obtain ⟨c, hc⟩ := parse_of_sloppy hsloppy
    rw [hnone] at hc
    cases hc
  · obtain ⟨found, hfound, -⟩ := (parse_exact s).mpr ⟨hjagged, hsloppy⟩
    rw [hnone] at hfound
    cases hfound

theorem not_jagged_of_describes {t : List Char} (h : Describes t c) : ¬ Jagged t := by
  intro hjagged
  cases h with
  | default h => exact (word_spec (colorWords_of_default h)).2.1 hjagged
  | named h => exact (word_spec (colorWords_of_named h)).2.1 hjagged
  | ansi h => exact (not_word_of_jagged hjagged).2 _ h
  | hex ht hc =>
    obtain ⟨d, hd, hwide⟩ := exists_wide_of_jagged hjagged
    have hlt := lt_of_isHexLike ((hexLike_of_strictHex ht hc).1 d hd)
    omega

/-- A sloppy text describes no colour. -/
theorem not_describes_of_sloppy {t : List Char} (h : Sloppy t) : ¬ Describes t c := by
  intro hc
  rcases h with ⟨inner, hansi, -, hnone⟩ | hplus
  · obtain ⟨v, hv, -⟩ := (describes_ansi_iff hansi).mp hc
    rw [hnone] at hv
    cases hv
  · have hlike := hexLike_of_plusHex hplus
    have hword := (not_word_of_hexLike hlike).1
    cases hc with
    | default h => exact hword (colorWords_of_default h)
    | named h => exact hword (colorWords_of_named h)
    | ansi h => exact (not_word_of_hexLike hlike).2 _ h
    | hex ht hc =>
      have hpart := (hexLike_of_strictHex ht hc).2
      exact not_strictHex_of_plus (hpart ▸ hplus.1) hc

theorem parse_isSome : (∃ c, Color.parse s = some (some c)) ↔ Readable (trim s) := by
  by_cases hsloppy : Sloppy (trim s)
  · exact iff_of_true (parse_of_sloppy hsloppy) (.inr hsloppy)
  by_cases hjagged : Jagged (trim s)
  · refine iff_of_false ?_ ?_
    · rintro ⟨c, hc⟩
      rw [parse_of_jagged hjagged] at hc
      cases hc
    · rintro (⟨c, hc⟩ | h)
      · exact not_jagged_of_describes hc hjagged
      · exact hsloppy h
  · obtain ⟨found, hfound, hexact⟩ := (parse_exact s).mpr ⟨hjagged, hsloppy⟩
    simp only [hfound, Option.some.injEq, hexact, Readable, hsloppy, or_false]

end Read

/-! ### Entries of a theme file -/

/-- An entry that is read, or skipped. -/
def FineEntry (entry : List Char × TomlValue) : Prop :=
  (entry.1 = nameKey → ∃ s, entry.2 = .string s) ∧
    ((ColorField.ofKey entry.1).isSome → ∃ s, entry.2 = .string s ∧ Readable (trim s))

/-- A colour that stops the program. -/
def JaggedEntry (entry : List Char × TomlValue) : Prop :=
  (ColorField.ofKey entry.1).isSome ∧ ∃ s, entry.2 = .string s ∧ Jagged (trim s)

/-- The first entry that cannot be read stops the program. -/
def Breaks (entries : List (List Char × TomlValue)) : Prop :=
  ∃ before entry after, entries = before ++ entry :: after ∧ (∀ e ∈ before, FineEntry e) ∧
    JaggedEntry entry

section Entries

variable {fields fields' : Fields} {entry : List Char × TomlValue}
  {entries : List (List Char × TomlValue)}

theorem ofKey_name : ColorField.ofKey nameKey = none := by
  decide

theorem read_eq_panic : fields.read entry = .error .panic ↔ JaggedEntry entry := by
  obtain ⟨key, value⟩ := entry
  by_cases hname : key = nameKey
  · subst hname
    cases value <;> simp [Fields.read, JaggedEntry, ofKey_name]
  · cases hkey : ColorField.ofKey key with
    | none => simp [Fields.read, JaggedEntry, hname, hkey]
    | some field =>
      cases value with
      | other => simp [Fields.read, JaggedEntry, hname, hkey, deserializeColor, Except.map]
      | string s =>
        simp only [Fields.read, JaggedEntry, if_neg hname, hkey, deserializeColor,
          Option.isSome_some, true_and, TomlValue.string.injEq, exists_eq_left', ← parse_eq_none]
        cases hparse : Color.parse s with
        | none => simp [Except.map]
        | some found => cases found <;> simp [Except.map]

theorem read_eq_ok : (∃ fields', fields.read entry = .ok fields') ↔ FineEntry entry := by
  obtain ⟨key, value⟩ := entry
  by_cases hname : key = nameKey
  · subst hname
    cases value <;> simp [Fields.read, FineEntry, ofKey_name]
  · cases hkey : ColorField.ofKey key with
    | none => simp [Fields.read, FineEntry, hname, hkey]
    | some field =>
      cases value with
      | other => simp [Fields.read, FineEntry, hname, hkey, deserializeColor, Except.map]
      | string s =>
        simp only [Fields.read, FineEntry, hname, false_imp_iff, true_and, hkey,
          deserializeColor, Option.isSome_some, true_imp_iff, TomlValue.string.injEq,
          exists_eq_left', ← parse_isSome]
        cases hparse : Color.parse s with
        | none => simp [Except.map]
        | some found => cases found <;> simp [Except.map]

/-- What reading an entry changes. -/
theorem read_spec (h : fields.read entry = .ok fields') :
    (∀ s, entry = (nameKey, .string s) → fields'.name = some s) ∧
    (entry.1 ≠ nameKey → fields'.name = fields.name) ∧
    ∀ f, (fields'.color f).isSome ↔
      (fields.color f).isSome ∨ ColorField.ofKey entry.1 = some f := by
  obtain ⟨key, value⟩ := entry
  by_cases hname : key = nameKey
  · subst hname
    cases value with
    | other => simp [Fields.read] at h
    | string s =>
      simp only [Fields.read, if_true, Except.ok.injEq] at h
      subst h
      simp [ofKey_name]
  · simp only [Fields.read, if_neg hname] at h
    cases hkey : ColorField.ofKey key with
    | none =>
      simp only [hkey, Except.ok.injEq] at h
      subst h
      simp [hname]
    | some field =>
      simp only [hkey] at h
      cases hvalue : deserializeColor value with
      | error e =>
        rw [hvalue] at h
        cases h
      | ok c =>
        rw [hvalue] at h
        obtain rfl := Except.ok.inj h
        refine ⟨fun s hs => absurd (Prod.mk.inj hs).1 hname, fun _ => rfl, fun f => ?_⟩
        by_cases hf : f = field
        · simp [hf]
        · simp [hf, Ne.symm hf]

theorem breaks_cons :
    Breaks (entry :: entries) ↔ JaggedEntry entry ∨ FineEntry entry ∧ Breaks entries := by
  constructor
  · rintro ⟨_ | ⟨first, before⟩, found, after, hsplit, hfine, hjagged⟩
    · obtain ⟨rfl, -⟩ := List.cons.inj hsplit
      exact .inl hjagged
    · obtain ⟨rfl, rfl⟩ := List.cons.inj hsplit
      rw [List.forall_mem_cons] at hfine
      exact .inr ⟨hfine.1, before, found, after, rfl, hfine.2, hjagged⟩
  · rintro (hjagged | ⟨hfine, before, found, after, rfl, hbefore, hjagged⟩)
    · exact ⟨[], entry, entries, rfl, fun e he => absurd he List.not_mem_nil, hjagged⟩
    · exact ⟨entry :: before, found, after, rfl, List.forall_mem_cons.mpr ⟨hfine, hbefore⟩, hjagged⟩

theorem foldlM_eq_panic : entries.foldlM Fields.read fields = .error .panic ↔ Breaks entries := by
  induction entries generalizing fields with
  | nil =>
    refine iff_of_false (fun h => by cases h) ?_
    rintro ⟨before, entry, after, hnil, -⟩
    exact absurd hnil.symm (by simp)
  | cons entry entries ih =>
    rw [List.foldlM_cons, breaks_cons]
    cases hread : fields.read entry with
    | ok fields' =>
      have hfine := read_eq_ok.mp ⟨fields', hread⟩
      have hjagged : ¬ JaggedEntry entry := fun h => by
        rw [read_eq_panic.mpr h] at hread
        cases hread
      simp only [hfine, hjagged, false_or, true_and]
      exact ih
    | error e =>
      have hfine : ¬ FineEntry entry := fun h => by
        obtain ⟨fields', hok⟩ := read_eq_ok.mpr h
        rw [hread] at hok
        cases hok
      rw [← @read_eq_panic fields, hread]
      simp only [hfine, false_and, or_false]
      rfl

theorem foldlM_eq_ok : (∃ fields', entries.foldlM Fields.read fields = .ok fields') ↔
    ∀ entry ∈ entries, FineEntry entry := by
  induction entries generalizing fields with
  | nil => exact iff_of_true ⟨fields, rfl⟩ fun entry h => absurd h List.not_mem_nil
  | cons entry entries ih =>
    rw [List.forall_mem_cons, ← @read_eq_ok fields]
    simp only [List.foldlM_cons, Checked.bind_eq_ok]
    constructor
    · rintro ⟨fields', next, hread, hrest⟩
      exact ⟨⟨next, hread⟩, ih.mp ⟨fields', hrest⟩⟩
    · rintro ⟨⟨next, hread⟩, hrest⟩
      obtain ⟨fields', hfields⟩ := ih.mpr hrest
      exact ⟨fields', next, hread, hfields⟩

theorem foldlM_spec (hnodup : (entries.map Prod.fst).Nodup)
    (h : entries.foldlM Fields.read fields = .ok fields') :
    (∀ s, (nameKey, .string s) ∈ entries → fields'.name = some s) ∧
    (nameKey ∉ entries.map Prod.fst → fields'.name = fields.name) ∧
    ∀ f, (fields'.color f).isSome ↔
      (fields.color f).isSome ∨ ∃ entry ∈ entries, ColorField.ofKey entry.1 = some f := by
  induction entries generalizing fields with
  | nil =>
    obtain rfl := Except.ok.inj h
    simp
  | cons entry entries ih =>
    rw [List.map_cons, List.nodup_cons] at hnodup
    rw [List.foldlM_cons, Checked.bind_eq_ok] at h
    obtain ⟨next, hread, hrest⟩ := h
    obtain ⟨hstring, hother, hcolor⟩ := read_spec hread
    obtain ⟨hstring', hother', hcolor'⟩ := ih hnodup.2 hrest
    refine ⟨fun s hs => ?_, fun hname => ?_, fun f => ?_⟩
    · rcases List.mem_cons.mp hs with hs | hs
      · subst hs
        rw [hother' hnodup.1, hstring s rfl]
      · exact hstring' s hs
    · rw [List.map_cons, List.mem_cons, not_or] at hname
      rw [hother' hname.2, hother (Ne.symm hname.1)]
    · simp only [hcolor', hcolor, List.mem_cons, exists_eq_or_imp, or_assoc]

end Entries

/-! ### Theme files -/

/-- The fields that a theme must have. -/
def Required (table : TomlTable) : Prop :=
  ∀ field ≠ ColorField.bg, ∃ entry ∈ table.entries, ColorField.ofKey entry.1 = some field

/-- A theme of the table has a name, its own or the one of its file. -/
def Named (table : TomlTable) (stem : Option (List Char)) : Prop :=
  (∃ s, s ≠ [] ∧ (nameKey, .string s) ∈ table.entries) ∨ ∃ s, s ≠ [] ∧ stem = some s

/-- The colours of the table are described. -/
def AllDescribed (table : TomlTable) : Prop :=
  ∀ entry ∈ table.entries, (ColorField.ofKey entry.1).isSome →
    ∃ s c, entry.2 = .string s ∧ Describes (trim s) c

/-- A colour of the table is read although it is sloppy. -/
def HasSloppy (table : TomlTable) : Prop :=
  ∃ entry ∈ table.entries, (ColorField.ofKey entry.1).isSome ∧
    ∃ s, entry.2 = .string s ∧ Sloppy (trim s)

section Files

variable {parseToml : List Char → Option TomlTable} {parseConfig : List Char → Option GlobalConfig}
  {file : ThemeFile} {table : TomlTable} {fields : Fields}

/-- The table of a file that is a theme file. -/
def tableOf (parseToml : List Char → Option TomlTable) (file : ThemeFile) : Option TomlTable :=
  if file.extension.any fun extension => eqIgnoreAsciiCase extension "toml".toList then
    file.content.bind parseToml
  else none

theorem theme_isSome : fields.theme.isSome ↔ ∀ field ≠ ColorField.bg, (fields.color field).isSome := by
  rw [Option.isSome_iff_exists]
  simp only [Fields.theme, Option.bind_eq_bind, Option.bind_eq_some_iff]
  constructor
  · rintro ⟨_, fg, hfg, accent, haccent, success, hsuccess, warning, hwarning, error, herror,
      muted, hmuted, border, hborder, -⟩ field hne
    cases field with
    | bg => exact absurd rfl hne
    | fg => exact Option.isSome_of_eq_some hfg
    | accent => exact Option.isSome_of_eq_some haccent
    | success => exact Option.isSome_of_eq_some hsuccess
    | warning => exact Option.isSome_of_eq_some hwarning
    | error => exact Option.isSome_of_eq_some herror
    | muted => exact Option.isSome_of_eq_some hmuted
    | border => exact Option.isSome_of_eq_some hborder
  · intro h
    obtain ⟨fg, hfg⟩ := Option.isSome_iff_exists.mp (h .fg (by decide))
    obtain ⟨accent, haccent⟩ := Option.isSome_iff_exists.mp (h .accent (by decide))
    obtain ⟨success, hsuccess⟩ := Option.isSome_iff_exists.mp (h .success (by decide))
    obtain ⟨warning, hwarning⟩ := Option.isSome_iff_exists.mp (h .warning (by decide))
    obtain ⟨error, herror⟩ := Option.isSome_iff_exists.mp (h .error (by decide))
    obtain ⟨muted, hmuted⟩ := Option.isSome_iff_exists.mp (h .muted (by decide))
    obtain ⟨border, hborder⟩ := Option.isSome_iff_exists.mp (h .border (by decide))
    exact ⟨_, fg, hfg, accent, haccent, success, hsuccess, warning, hwarning, error, herror,
      muted, hmuted, border, hborder, rfl⟩

theorem theme_name {theme : Theme} (h : fields.theme = some theme) :
    theme.name = fields.name.getD [] := by
  simp only [Fields.theme, Option.bind_eq_bind, Option.bind_eq_some_iff] at h
  obtain ⟨fg, -, accent, -, success, -, warning, -, error, -, muted, -, border, -, h⟩ := h
  obtain rfl := Option.some.inj h
  rfl

theorem deserializeTheme_eq_panic :
    deserializeTheme table = .error .panic ↔ Breaks table.entries := by
  rw [← @foldlM_eq_panic ⟨none, fun _ => none⟩]
  unfold deserializeTheme
  cases hfold : table.entries.foldlM Fields.read ⟨none, fun _ => none⟩ with
  | error e => cases e <;> simp [bind, Except.bind]
  | ok fields =>
    refine iff_of_false (fun h => ?_) fun h => by cases h
    cases htheme : fields.theme <;> simp [bind, Except.bind, htheme] at h

theorem deserializeTheme_spec {theme : Theme} : deserializeTheme table = .ok theme ↔
    ∃ fields, table.entries.foldlM Fields.read ⟨none, fun _ => none⟩ = .ok fields ∧
      fields.theme = some theme := by
  unfold deserializeTheme
  rw [Checked.bind_eq_ok]
  refine exists_congr fun fields => and_congr_right fun _ => ?_
  cases fields.theme <;> simp

/-- The name of a theme that has been read. -/
theorem deserializeTheme_name {theme : Theme} (h : deserializeTheme table = .ok theme) :
    (∀ s, (nameKey, .string s) ∈ table.entries → theme.name = s) ∧
      (nameKey ∉ table.entries.map Prod.fst → theme.name = []) := by
  obtain ⟨fields, hfold, htheme⟩ := deserializeTheme_spec.mp h
  obtain ⟨hstring, hother, -⟩ := foldlM_spec table.nodup hfold
  rw [theme_name htheme]
  refine ⟨fun s hs => ?_, fun hname => ?_⟩
  · rw [hstring s hs, Option.getD_some]
  · rw [hother hname, Option.getD_none]

theorem deserializeTheme_eq_ok : (∃ theme, deserializeTheme table = .ok theme) ↔
    (∀ entry ∈ table.entries, FineEntry entry) ∧ Required table := by
  constructor
  · rintro ⟨theme, htheme⟩
    obtain ⟨fields, hfold, hfields⟩ := deserializeTheme_spec.mp htheme
    refine ⟨foldlM_eq_ok.mp ⟨fields, hfold⟩, fun field hne => ?_⟩
    have hsome := theme_isSome.mp (Option.isSome_of_eq_some hfields) field hne
    simpa using ((foldlM_spec table.nodup hfold).2.2 field).mp hsome
  · rintro ⟨hfine, hrequired⟩
    obtain ⟨fields, hfold⟩ := foldlM_eq_ok.mpr hfine
    have hsome : fields.theme.isSome := theme_isSome.mpr fun field hne =>
      ((foldlM_spec table.nodup hfold).2.2 field).mpr (.inr (hrequired field hne))
    obtain ⟨theme, htheme⟩ := Option.isSome_iff_exists.mp hsome
    exact ⟨theme, deserializeTheme_spec.mpr ⟨fields, hfold, htheme⟩⟩

theorem loadTheme_eq_none :
    loadTheme parseToml file = none ↔ ∃ table, tableOf parseToml file = some table ∧
      Breaks table.entries := by
  unfold loadTheme tableOf
  split
  · cases file.content.bind parseToml with
    | none => simp
    | some table =>
      simp only [Option.some.injEq, exists_eq_left', ← deserializeTheme_eq_panic]
      cases deserializeTheme table with
      | ok theme => simp
      | error e => cases e <;> simp
  · simp

/-- Whether a theme that has been read gets a name. -/
theorem named_iff {theme : Theme} (h : deserializeTheme table = .ok theme)
    (stem : Option (List Char)) :
    Named table stem ↔ theme.name ≠ [] ∨ ∃ s, s ≠ [] ∧ stem = some s := by
  obtain ⟨hstring, hother⟩ := deserializeTheme_name h
  refine or_congr_left ⟨?_, fun hname => ?_⟩
  · rintro ⟨s, hs, hmem⟩
    rw [hstring s hmem]
    exact hs
  · have hkey : nameKey ∈ table.entries.map Prod.fst := by
      by_contra hkey
      exact hname (hother hkey)
    obtain ⟨⟨key, value⟩, hmem, rfl⟩ := List.mem_map.mp hkey
    obtain ⟨s, hs⟩ := ((deserializeTheme_eq_ok.mp ⟨theme, h⟩).1 _ hmem).1 rfl
    obtain rfl : value = .string s := hs
    exact ⟨s, hstring s hmem ▸ hname, hmem⟩

theorem loadTheme_eq_some : (∃ theme, loadTheme parseToml file = some (some theme)) ↔
    ∃ table, tableOf parseToml file = some table ∧
      ((∀ entry ∈ table.entries, FineEntry entry) ∧ Required table) ∧ Named table file.stem := by
  simp only [← deserializeTheme_eq_ok]
  unfold loadTheme tableOf
  split
  · cases file.content.bind parseToml with
    | none => simp
    | some table =>
      simp only [Option.some.injEq, exists_eq_left']
      cases htheme : deserializeTheme table with
      | ok theme =>
        simp only [Except.ok.injEq, exists_eq', true_and, named_iff htheme]
        by_cases hname : theme.name = []
        · cases hstem : file.stem with
          | none => simp [hname]
          | some stem => by_cases hempty : stem = [] <;> simp [hname, hempty]
        · simp [hname]
      | error e => cases e <;> simp
  · simp

/-- A theme file that is complete has described colours unless it has a sloppy one. -/
theorem allDescribed_iff (hfine : ∀ entry ∈ table.entries, FineEntry entry) :
    AllDescribed table ↔ ¬ HasSloppy table := by
  constructor
  · rintro hall ⟨entry, hmem, hcolor, s, hs, hsloppy⟩
    obtain ⟨s', c, hs', hc⟩ := hall entry hmem hcolor
    rw [hs] at hs'
    obtain rfl := TomlValue.string.inj hs'
    exact not_describes_of_sloppy hsloppy hc
  · intro hsloppy entry hmem hcolor
    obtain ⟨s, hs, ⟨c, hc⟩ | h⟩ := (hfine entry hmem).2 hcolor
    · exact ⟨s, c, hs, hc⟩
    · exact absurd ⟨entry, hmem, hcolor, s, hs, h⟩ hsloppy

/-- The program stops at the file. -/
def Stops (parseToml : List Char → Option TomlTable) (file : ThemeFile) : Prop :=
  ∃ table, tableOf parseToml file = some table ∧ Breaks table.entries

/-- The file has a theme of the table, if every text that is read is a colour. -/
def Complete (parseToml : List Char → Option TomlTable) (file : ThemeFile) (table : TomlTable) :
    Prop :=
  tableOf parseToml file = some table ∧
    ((∀ entry ∈ table.entries, FineEntry entry) ∧ Required table) ∧ Named table file.stem

/-- The file has no theme unless all its colours are described. -/
def UsedIfDescribed (parseToml : List Char → Option TomlTable) (file : ThemeFile) : Prop :=
  (∃ theme, loadTheme parseToml file = some (some theme)) →
    ∃ table, tableOf parseToml file = some table ∧ AllDescribed table

theorem usedIfDescribed_iff : UsedIfDescribed parseToml file ↔
    ∀ table, Complete parseToml file table → ¬ HasSloppy table := by
  rw [UsedIfDescribed, loadTheme_eq_some]
  constructor
  · rintro hused table ⟨htable, hcomplete⟩
    obtain ⟨table', htable', hall⟩ := hused ⟨table, htable, hcomplete⟩
    obtain rfl := Option.some.inj (htable.symm.trans htable')
    exact (allDescribed_iff hcomplete.1.1).mp hall
  · rintro hsloppy ⟨table, htable, hcomplete⟩
    exact ⟨table, htable, (allDescribed_iff hcomplete.1.1).mpr (hsloppy table ⟨htable, hcomplete⟩)⟩

/-! ### The theme that is resolved -/

/-- The files of a directory, if there is one that can be read. -/
def filesOf (themesDir : Option (Option (List ThemeFile))) : List ThemeFile :=
  (themesDir.getD none).getD []

variable {overrideName envName : Option (List Char)} {config : Option ConfigFile}
  {themesDir : Option (Option (List ThemeFile))} {plain : Bool} {terminal : Terminal}

theorem mapM_eq_none {α β : Type} {f : α → Option β} {l : List α} :
    l.mapM f = none ↔ ∃ a ∈ l, f a = none := by
  induction l with
  | nil => simp
  | cons a l ih =>
    rw [List.mapM_cons]
    cases ha : f a with
    | none => simp [ha]
    | some b =>
      simp only [List.mem_cons, exists_eq_or_imp, ha, reduceCtorEq, false_or, ← ih]
      cases l.mapM f <;> simp

theorem availableThemes_eq_none : availableThemes parseToml themesDir = none ↔
    ∃ file ∈ filesOf themesDir, Stops parseToml file := by
  cases themesDir with
  | none => simp [availableThemes, filesOf]
  | some directory =>
    simp only [availableThemes, loadCustomThemes, Option.map_eq_none_iff, mapM_eq_none,
      loadTheme_eq_none, filesOf, Option.getD_some, Stops]

/-- A theme is resolved unless one is named and the program stops at a file. -/
theorem resolveThemeWith_isSome :
    (resolveThemeWith parseToml parseConfig overrideName envName config themesDir plain
      terminal).isSome ↔
      (pickThemeName overrideName envName (configuredName parseConfig config) ≠ none →
        ∀ file ∈ filesOf themesDir, ¬ Stops parseToml file) := by
  have hstops : (∀ file ∈ filesOf themesDir, ¬ Stops parseToml file) ↔
      availableThemes parseToml themesDir ≠ none := by
    rw [Ne, availableThemes_eq_none]
    exact ⟨fun h ⟨file, hfile, hstops⟩ => h file hfile hstops, fun h file hfile hstops =>
      h ⟨file, hfile, hstops⟩⟩
  unfold resolveThemeWith
  cases pickThemeName overrideName envName (configuredName parseConfig config) with
  | none => simp
  | some name =>
    rw [hstops]
    cases hthemes : availableThemes parseToml themesDir <;> simp [findTheme, hthemes]

/-- A theme is resolved, and a file is used only if all its colours are described, unless a theme
is named and a file stops the program, or a complete file has a sloppy colour. A colour is read
exactly from the texts that describe it unless they are jagged or sloppy, and it is read back from
its text. -/
theorem resolveThemeWith_exact :
    (((resolveThemeWith parseToml parseConfig overrideName envName config themesDir plain
        terminal).isSome ∧ ∀ file ∈ filesOf themesDir, UsedIfDescribed parseToml file) ↔
      (pickThemeName overrideName envName (configuredName parseConfig config) ≠ none →
        ∀ file ∈ filesOf themesDir, ¬ Stops parseToml file) ∧
        ∀ file ∈ filesOf themesDir, ∀ table, Complete parseToml file table →
          ¬ HasSloppy table) ∧
    (∀ s, (∃ found, Color.parse s = some found ∧ ∀ c, found = some c ↔ Describes (trim s) c) ↔
      ¬ Jagged (trim s) ∧ ¬ Sloppy (trim s)) ∧
    ∀ c, Color.parse c.serialize = some (some c) := by
  refine ⟨and_congr resolveThemeWith_isSome ?_, parse_exact, parse_serialize⟩
  exact forall₂_congr fun file _ => usedIfDescribed_iff

/-- A theme file whose text is two characters of three bytes each. -/
theorem resolveThemeWith_stops :
    ¬ (resolveThemeWith (fun _ => some ⟨[("fg".toList, .string "€€".toList)], by decide⟩)
      (fun _ => none) (some "nord".toList) none none
      (some (some [⟨some "broken".toList, some "toml".toList, some []⟩])) false
      ⟨none, none, true, true⟩).isSome := by
  decide

end Files

end Themes

end Sotto
