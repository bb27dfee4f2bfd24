import Sotto.Library.Numbers

/-!
# Colours and themes

Custom themes are files of a directory. A slice of a text that would split a character, and a
product that is too large, have no value: the program stops there. The parsers of the two kinds
of files are parameters. A table has its fields in the order in which the parser gives them.
-/

namespace Sotto

namespace Themes

open Text Numbers

/-- A colour of 24 bits, an index of the palette, or the default of the terminal. -/
inductive Color
  | rgb (r g b : UInt8)
  | ansi (n : UInt8)
  | default
deriving DecidableEq

def asciiLower (s : List Char) : List Char :=
  s.map Char.toLower

def eqIgnoreAsciiCase (s t : List Char) : Bool :=
  asciiLower s = asciiLower t

def namedColors : List (List Char × UInt8) :=
  [("black".toList, 0), ("red".toList, 1), ("green".toList, 2), ("yellow".toList, 3),
    ("blue".toList, 4), ("magenta".toList, 5), ("cyan".toList, 6), ("white".toList, 7),
    ("gray".toList, 8), ("dark_gray".toList, 8), ("bright_black".toList, 8),
    ("light_red".toList, 9), ("bright_red".toList, 9), ("light_green".toList, 10),
    ("bright_green".toList, 10), ("light_yellow".toList, 11), ("bright_yellow".toList, 11),
    ("light_blue".toList, 12), ("bright_blue".toList, 12), ("light_magenta".toList, 13),
    ("bright_magenta".toList, 13), ("light_cyan".toList, 14), ("bright_cyan".toList, 14),
    ("bright_white".toList, 15)]

/-- The hexadecimal number from the byte `a` up to the byte `b`. -/
def readHex (hex : List Char) (a b : ℕ) : Option (Option UInt8) :=
  (getBytes hex a b).map (parseU8 16)

/-- Read three numbers of `width` bytes each. -/
def readChannels (hex : List Char) (width : ℕ) : Option (Option (UInt8 × UInt8 × UInt8)) := do
  let some r ← readHex hex 0 width | return none
  let some g ← readHex hex width (2 * width) | return none
  let some b ← readHex hex (2 * width) (3 * width) | return none
  return some (r, g, b)

def checkedMul (a b : UInt8) : Option UInt8 :=
  if a.toNat * b.toNat < 256 then some (a * b) else none

def parseHex (hex : List Char) : Option (Option Color) := do
  if byteLength hex = 6 then
    let some (r, g, b) ← readChannels hex 2 | return none
    return some (.rgb r g b)
  else if byteLength hex = 3 then
    let some (r, g, b) ← readChannels hex 1 | return none
    return some (.rgb (← checkedMul r 17) (← checkedMul g 17) (← checkedMul b 17))
  else return none

/-- Read a colour, unless the program stops. -/
def Color.parse (s : List Char) : Option (Option Color) :=
  let trimmed := trim s
  if eqIgnoreAsciiCase trimmed "default".toList || eqIgnoreAsciiCase trimmed "none".toList then
    some (some .default)
  else
    let lower := asciiLower trimmed
    match (stripPrefix "ansi(".toList lower).bind (stripSuffix [')']) with
    | some inner => some ((parseU8 10 (trim inner)).map .ansi)
    | none =>
      match namedColors.lookup lower with
      | some n => some (some (.ansi n))
      | none => parseHex ((stripPrefix ['#'] trimmed).getD trimmed)

/-- Two hexadecimal digits. -/
def hexByte (n : UInt8) : List Char :=
  [Nat.digitChar (n.toNat / 16), Nat.digitChar (n.toNat % 16)]

def Color.serialize : Color → List Char
  | .rgb r g b => '#' :: (hexByte r ++ hexByte g ++ hexByte b)
  | .ansi c =>
    match c.toNat with
    | 0 => "black".toList
    | 1 => "red".toList
    | 2 => "green".toList
    | 3 => "yellow".toList
    | 4 => "blue".toList
    | 5 => "magenta".toList
    | 6 => "cyan".toList
    | 7 => "white".toList
    | 8 => "gray".toList
    | 9 => "light_red".toList
    | 10 => "light_green".toList
    | 11 => "light_yellow".toList
    | 12 => "light_blue".toList
    | 13 => "light_magenta".toList
    | 14 => "light_cyan".toList
    | 15 => "bright_white".toList
    | other => "ansi(".toList ++ Nat.toDigits 10 other ++ [')']
  | .default => "default".toList

structure Theme where
  name : List Char
  bg : Option Color
  fg : Color
  accent : Color
  success : Color
  warning : Color
  error : Color
  muted : Color
  border : Color
  active : Bool
deriving DecidableEq

namespace Theme

def nord : Theme :=
  { name := "nord".toList
    bg := some (.rgb 0x24 0x29 0x33)
    fg := .rgb 0xEC 0xEF 0xF4
    accent := .rgb 0x88 0xC0 0xD0
    success := .rgb 0xA3 0xBE 0x8C
    warning := .rgb 0xEB 0xCB 0x8B
    error := .rgb 0xBF 0x61 0x6A
    muted := .rgb 0x4C 0x56 0x6A
    border := .rgb 0x3B 0x42 0x52
    active := true }

def sordino : Theme :=
  { name := "sordino".toList
    bg := some (.rgb 0x16 0x15 0x0f)
    fg := .rgb 0xd9 0xd4 0xc6
    accent := .rgb 0xc7 0xb4 0x7e
    success := .rgb 0x86 0xb5 0x7e
    warning := .rgb 0xc7 0xb4 0x7e
    error := .rgb 0xe0 0x70 0x5f
    muted := .rgb 0x85 0x7f 0x6d
    border := .rgb 0x20 0x1e 0x17
    active := true }

def terminal : Theme :=
  { name := "terminal".toList
    bg := none
    fg := .default
    accent := .ansi 6
    success := .ansi 2
    warning := .ansi 3
    error := .ansi 1
    muted := .ansi 8
    border := .ansi 8
    active := true }

def monochrome : Theme :=
  { name := "monochrome".toList
    bg := some (.rgb 0x00 0x00 0x00)
    fg := .rgb 0xFF 0xFF 0xFF
    accent := .rgb 0xFF 0xFF 0xFF
    success := .rgb 0xFF 0xFF 0xFF
    warning := .rgb 0xAA 0xAA 0xAA
    error := .rgb 0xFF 0xFF 0xFF
    muted := .rgb 0x66 0x66 0x66
    border := .rgb 0x44 0x44 0x44
    active := true }

def tokyoNight : Theme :=
  { name := "tokyo-night".toList
    bg := some (.rgb 0x1a 0x1b 0x26)
    fg := .rgb 0xc0 0xca 0xf5
    accent := .rgb 0x7d 0xcf 0xff
    success := .rgb 0x9e 0xce 0x6a
    warning := .rgb 0xe0 0xaf 0x68
    error := .rgb 0xf7 0x76 0x8e
    muted := .rgb 0x56 0x5f 0x89
    border := .rgb 0x29 0x2e 0x42
    active := true }

def presets : List Theme :=
  [nord, sordino, terminal, monochrome, tokyoNight]

end Theme

/-! ### Theme files -/

inductive TomlValue
  | string (s : List Char)
  | other

/-- Reading a theme stops the program, or fails. -/
inductive Failure
  | panic
  | invalid
deriving DecidableEq

/-- The fields of a theme that are colours. -/
inductive ColorField
  | bg
  | fg
  | accent
  | success
  | warning
  | error
  | muted
  | border
deriving DecidableEq

def ColorField.ofKey (key : List Char) : Option ColorField :=
  [("bg".toList, ColorField.bg), ("fg".toList, .fg), ("accent".toList, .accent),
    ("success".toList, .success), ("warning".toList, .warning), ("error".toList, .error),
    ("muted".toList, .muted), ("border".toList, .border)].lookup key

/-- The fields of a theme that have been read. -/
structure Fields where
  name : Option (List Char)
  color : ColorField → Option Color

/-- Read a colour of a file. -/
def deserializeColor : TomlValue → Except Failure Color
  | .string s =>
    match Color.parse s with
    | none => .error .panic
    | some none => .error .invalid
    | some (some c) => .ok c
  | .other => .error .invalid

def nameKey : List Char :=
  "name".toList

/-- Read a field; the fields that a theme does not have are skipped. -/
def Fields.read (fields : Fields) (entry : List Char × TomlValue) : Except Failure Fields :=
  if entry.1 = nameKey then
    match entry.2 with
    | .string s => .ok { fields with name := some s }
    | .other => .error .invalid
  else
    match ColorField.ofKey entry.1 with
    | none => .ok fields
    | some field =>
      (deserializeColor entry.2).map fun c =>
        { fields with color := fun f => if f = field then some c else fields.color f }

/-- A theme of the fields, if no required one is missing. -/
def Fields.theme (fields : Fields) : Option Theme := do
  return {
    name := fields.name.getD []
    bg := fields.color .bg
    fg := ← fields.color .fg
    accent := ← fields.color .accent
    success := ← fields.color .success
    warning := ← fields.color .warning
    error := ← fields.color .error
    muted := ← fields.color .muted
    border := ← fields.color .border
    active := true }

/-- A table of a file, in which no field occurs twice. -/
structure TomlTable where
  entries : List (List Char × TomlValue)
  nodup : (entries.map Prod.fst).Nodup

def deserializeTheme (table : TomlTable) : Except Failure Theme := do
  let fields ← table.entries.foldlM Fields.read ⟨none, fun _ => none⟩
  match fields.theme with
  | some theme => .ok theme
  | none => .error .invalid

/-- An entry of the themes directory; a name or a content that is no text is not there. -/
structure ThemeFile where
  stem : Option (List Char)
  extension : Option (List Char)
  content : Option (List Char)

section Directory

variable (parseToml : List Char → Option TomlTable)

/-- The theme of a file, if it has one, unless the program stops. -/
def loadTheme (file : ThemeFile) : Option (Option Theme) :=
  if file.extension.any fun extension => eqIgnoreAsciiCase extension "toml".toList then
    match file.content.bind parseToml with
    | none => some none
    | some table =>
      match deserializeTheme table with
      | .error .panic => none
      | .error .invalid => some none
      | .ok theme =>
        let theme :=
          if theme.name = [] then { theme with name := file.stem.getD theme.name } else theme
        some (if theme.name = [] then none else some theme)
  else some none

/-- The themes of a directory, which may be one that cannot be read. -/
def loadCustomThemes (directory : Option (List ThemeFile)) : Option (List Theme) :=
  ((directory.getD []).mapM (loadTheme parseToml)).map fun themes => themes.filterMap id

/-- The presets and the custom themes whose names are not taken. -/
def availableThemes (themesDir : Option (Option (List ThemeFile))) : Option (List Theme) :=
  match themesDir with
  | none => some Theme.presets
  | some directory =>
    (loadCustomThemes parseToml directory).map fun customs =>
      customs.foldl (fun all custom =>
        if all.any fun t => eqIgnoreAsciiCase t.name custom.name then all else all ++ [custom])
        Theme.presets

def findTheme (name : List Char) (themesDir : Option (Option (List ThemeFile))) :
    Option (Option Theme) :=
  (availableThemes parseToml themesDir).map fun themes =>
    themes.find? fun t => eqIgnoreAsciiCase t.name (trim name)

def pickThemeName (overrideName envName configuredName : Option (List Char)) :
    Option (List Char) :=
  (([overrideName, envName, configuredName].filterMap id).map trim).find? fun name => name ≠ []

def stylingActive (plain noColor ci stdoutTty stdinTty : Bool) : Bool :=
  !plain && !noColor && !ci && stdoutTty && stdinTty

def ciEnabled (value : Option (List Char)) : Bool :=
  match value with
  | none => false
  | some v =>
    let v := asciiLower (trim v)
    v ≠ [] && v ≠ ['0'] && v ≠ "false".toList

/-- What reading the configuration file gives. -/
inductive ConfigFile
  | text (s : List Char)
  | notFound
  | failed

structure GlobalConfig where
  theme : Option (List Char)

/-- What the environment of the process decides about styling. -/
structure Terminal where
  noColor : Option (List Char)
  ci : Option (List Char)
  stdoutTty : Bool
  stdinTty : Bool

variable (parseConfig : List Char → Option GlobalConfig)

/-- The configuration of a file; an error is that the file cannot be read or parsed. -/
def loadConfig : ConfigFile → Except Unit (Option GlobalConfig)
  | .text s =>
    match parseConfig s with
    | some config => .ok (some config)
    | none => .error ()
  | .notFound => .ok none
  | .failed => .error ()

/-- The theme of the configuration; one that cannot be read names no theme. -/
def configuredName (config : Option ConfigFile) : Option (List Char) :=
  config.bind fun file =>
    match loadConfig parseConfig file with
    | .ok (some config) => config.theme
    | _ => none

/-- The theme that is named, or the default theme. -/
def resolveThemeWith (overrideName envName : Option (List Char)) (config : Option ConfigFile)
    (themesDir : Option (Option (List ThemeFile))) (plain : Bool) (terminal : Terminal) :
    Option Theme := do
  let theme ←
    match pickThemeName overrideName envName (configuredName parseConfig config) with
    | some name => (findTheme parseToml name themesDir).map fun found => found.getD .nord
    | none => some .nord
  let active := stylingActive plain (terminal.noColor.any fun v => v ≠ []) (ciEnabled terminal.ci)
    terminal.stdoutTty terminal.stdinTty
  return { theme with active := active }

end Directory

end Themes

end Sotto
