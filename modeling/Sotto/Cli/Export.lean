import Mathlib.Data.List.Basic

/-!
# Export formats

Renderers of the names and values of secrets, and the export, which refuses names that are no
identifiers. Texts are lists of characters. The rendering of a text in an error is a parameter.
-/

namespace Sotto

namespace Export

abbrev Entry := List Char × List Char

inductive Error
  | input (message : String)
deriving DecidableEq

inductive ExportFormat
  | dotenv
  | shell
  | json
deriving DecidableEq

/-- What a character of a value is written as between double quotes. -/
def dotenvEscape : Char → List Char
  | '\\' => ['\\', '\\']
  | '"' => ['\\', '"']
  | '\n' => ['\\', 'n']
  | '\r' => ['\\', 'r']
  | c => [c]

def dotenvQuote (value : List Char) : List Char :=
  '"' :: value.flatMap dotenvEscape ++ ['"']

def dotenvLine (entry : Entry) : List Char :=
  entry.1 ++ '=' :: dotenvQuote entry.2

/-- A line `KEY="value"` for each entry. -/
def dotenv (entries : List Entry) : List Char :=
  entries.flatMap fun entry => dotenvLine entry ++ ['\n']

/-- What a character of a value is written as between single quotes. -/
def shellEscape : Char → List Char
  | '\'' => ['\'', '\\', '\'', '\'']
  | c => [c]

def shellQuote (value : List Char) : List Char :=
  '\'' :: value.flatMap shellEscape ++ ['\'']

def shellLine (entry : Entry) : List Char :=
  "export ".toList ++ entry.1 ++ '=' :: shellQuote entry.2

/-- A line `export KEY='value'` for each entry. -/
def shell (entries : List Entry) : List Char :=
  entries.flatMap fun entry => shellLine entry ++ ['\n']

/-- What a character is written as in a string of JSON. -/
def jsonEscape (c : Char) : List Char :=
  match c with
  | '"' => ['\\', '"']
  | '\\' => ['\\', '\\']
  | '\x08' => ['\\', 'b']
  | '\t' => ['\\', 't']
  | '\n' => ['\\', 'n']
  | '\x0c' => ['\\', 'f']
  | '\r' => ['\\', 'r']
  | c =>
    if c.toNat < 32 then
      "\\u00".toList ++ [Nat.digitChar (c.toNat / 16), Nat.digitChar (c.toNat % 16)]
    else [c]

def jsonQuote (s : List Char) : List Char :=
  '"' :: s.flatMap jsonEscape ++ ['"']

/-- Insert into a map whose names ascend; a name that is there gets the new value. -/
def insertEntry (entry : Entry) : List Entry → List Entry
  | [] => [entry]
  | first :: rest =>
    if entry.1 = first.1 then entry :: rest
    else if entry.1 < first.1 then entry :: first :: rest
    else first :: insertEntry entry rest

/-- An object with the value of each name. -/
def json (entries : List Entry) : List Char :=
  let map := entries.foldl (fun map entry => insertEntry entry map) []
  let line := fun entry : Entry =>
    "  ".toList ++ jsonQuote entry.1 ++ ": ".toList ++ jsonQuote entry.2
  if map = [] then "{}".toList
  else "\x7b\n".toList ++ List.intercalate ",\n".toList (map.map line) ++ "\n\x7d".toList

def render : ExportFormat → List Entry → List Char
  | .dotenv => dotenv
  | .shell => shell
  | .json => json

/-- A letter or an underscore, and then letters, digits and underscores. -/
def isIdentifier : List Char → Bool
  | [] => false
  | c :: key => (c.isAlpha || c == '_') && key.all fun c => c.isAlphanum || c == '_'

/-- A name is usable as an environment variable only if it is an identifier. -/
def validateEnvKey (debug : List Char → String) (key : List Char) : Except Error Unit :=
  if isIdentifier key then .ok ()
  else
    let name := debug key
    .error (.input (s!"secret name {name} is not a usable environment variable name " ++
      "(expected [A-Za-z_][A-Za-z0-9_]*)"))

/-- What is written to the output, which may be a terminal. -/
def exportWithEntries (debug : List Char → String) (terminal : Bool) (entries : List Entry)
    (format : ExportFormat) (reveal : Bool) : Except Error (List Char) := do
  if terminal && !reveal then
    throw (.input "refusing to write secrets to a terminal; redirect to a file or use --reveal")
  entries.forM fun entry => validateEnvKey debug entry.1
  return render format entries

end Export

end Sotto
