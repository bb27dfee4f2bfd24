import Sotto.Cli.Export
import Sotto.Library.Text

/-!
# The dotenv parser

A line is one assignment, blank or a comment. Values are not expanded, and escapes are read
between double quotes only.
-/

namespace Sotto

namespace Dotenv

open Text Export

def isValidKey (key : List Char) : Bool :=
  isIdentifier key

/-- What is between a pair of quotes. The quotes are single bytes and so whole characters. -/
def stripPair (s : List Char) (quote : Char) : Option (List Char) :=
  match s with
  | [] => none
  | c :: inner => if c = quote ∧ inner.getLast? = some quote then some inner.dropLast else none

/-- What a backslash and a character stand for. -/
def unescape : Char → List Char
  | 'n' => ['\n']
  | 'r' => ['\r']
  | 't' => ['\t']
  | '\\' => ['\\']
  | '"' => ['"']
  | other => ['\\', other]

def unescapeDouble : List Char → List Char
  | [] => []
  | c :: s =>
    if c ≠ '\\' then c :: unescapeDouble s
    else
      match s with
      | [] => ['\\']
      | d :: s => unescape d ++ unescapeDouble s

def parseValue (raw : List Char) : List Char :=
  let trimmed := trim raw
  match stripPair trimmed '\'' with
  | some inner => inner
  | none =>
    match stripPair trimmed '"' with
    | some inner => unescapeDouble inner
    | none => trimmed

/-- The assignment of a line, if it is neither blank nor a comment. -/
def parseLine (number : ℕ) (raw : List Char) : Except Error (Option Entry) :=
  let line := trimStart raw
  if line = [] ∨ line.head? = some '#' then .ok none
  else
    let line := (stripPrefix "export ".toList line).getD line
    match splitOnce '=' line with
    | none => .error (.input s!"invalid .env line {number + 1}: expected KEY=value")
    | some (key, value) =>
      let key := trim key
      if isValidKey key then .ok (some (key, parseValue value))
      else
        let name := String.ofList key
        .error (.input s!"invalid .env line {number + 1}: `{name}` is not a valid name")

/-- Read the assignments of the lines, from a number on. -/
def parseLines (number : ℕ) : List (List Char) → Except Error (List Entry)
  | [] => .ok []
  | raw :: rest =>
    match parseLine number raw with
    | .error e => .error e
    | .ok entry => (parseLines (number + 1) rest).map (entry.toList ++ ·)

/-- Read a text, whose first character may be a byte-order mark. -/
def parse (text : List Char) : Except Error (List Entry) :=
  parseLines 0 (lines ((stripPrefix ['\uFEFF'] text).getD text))

end Dotenv

end Sotto
