import Mathlib.Data.List.Basic

/-!
# The words of a shell

A reader of the commands in a text by the rules of the POSIX shell for tokens and quoting. It
reads simple commands of literal words only: a text has no commands if it has an operator, an
expansion, a character that may begin one, an open quotation or a null character.
-/

namespace Sotto

namespace Shell

/-- What the next character is read in. -/
inductive Mode
  | bare
  | escape
  | single
  | double
  | doubleEscape
  | comment
deriving DecidableEq

/-- The commands that have ended, the words of the command that has not, and the word that has
not, if one has begun. A tilde in the place `mark` may begin an expansion. -/
structure Reader where
  commands : List (List (List Char))
  words : List (List Char)
  word : Option (List Char)
  mark : Bool
  mode : Mode
deriving DecidableEq

def isBlank (c : Char) : Bool :=
  c = ' ' || c = '\t'

def isOperator (c : Char) : Bool :=
  ['&', ';', '|', '<', '>', '(', ')'].contains c

/-- The characters that begin an expansion, or a pattern, in a place with the mark. -/
def isExpansion (mark : Bool) (c : Char) : Bool :=
  ['$', '`', '*', '?', '['].contains c || c = '~' && mark

namespace Reader

def start : Reader :=
  ⟨[], [], none, true, .bare⟩

def append (r : Reader) (c : Char) (mark : Bool) : Reader :=
  { r with word := some (r.word.getD [] ++ [c]), mark := mark, mode := .bare }

/-- A quotation begins or goes on with the word. -/
def quoted (r : Reader) (s : List Char) (mode : Mode) : Reader :=
  { r with word := some (r.word.getD [] ++ s), mark := false, mode := mode }

def endWord (r : Reader) : Reader :=
  { r with words := r.words ++ r.word.toList, word := none, mark := true }

def endCommand (r : Reader) : Reader :=
  let words := r.words ++ r.word.toList
  let commands := if words = [] then r.commands else r.commands ++ [words]
  ⟨commands, [], none, true, .bare⟩

def stepBare (r : Reader) (c : Char) : Option Reader :=
  if c = '\n' then some r.endCommand
  else if isBlank c then some r.endWord
  else if c = '\\' then some { r with mode := .escape }
  else if c = '\'' then some (r.quoted [] .single)
  else if c = '"' then some (r.quoted [] .double)
  else if c = '#' ∧ r.word = none then some { r with mode := .comment }
  else if isOperator c || isExpansion r.mark c then none
  else some (r.append c (c = '=' || c = ':'))

/-- A line break after a backslash is no character of the word. -/
def stepEscape (r : Reader) (c : Char) : Reader :=
  if c = '\n' then { r with mode := .bare } else r.append c false

def stepSingle (r : Reader) (c : Char) : Reader :=
  if c = '\'' then r.quoted [] .bare else r.quoted [c] .single

def stepDouble (r : Reader) (c : Char) : Option Reader :=
  if c = '"' then some (r.quoted [] .bare)
  else if c = '\\' then some (r.quoted [] .doubleEscape)
  else if c = '$' ∨ c = '`' then none
  else some (r.quoted [c] .double)

/-- A backslash between double quotes stands for itself before most characters. -/
def stepDoubleEscape (r : Reader) (c : Char) : Reader :=
  if c = '\n' then r.quoted [] .double
  else if ['$', '`', '"', '\\'].contains c then r.quoted [c] .double
  else r.quoted ['\\', c] .double

def step (r : Reader) (c : Char) : Option Reader :=
  if c = '\x00' then none
  else
    match r.mode with
    | .bare => r.stepBare c
    | .escape => some (r.stepEscape c)
    | .single => some (r.stepSingle c)
    | .double => r.stepDouble c
    | .doubleEscape => some (r.stepDoubleEscape c)
    | .comment => some (if c = '\n' then r.endCommand else r)

def run (r : Reader) (s : List Char) : Option Reader :=
  s.foldlM step r

/-- The commands at the end of the text. -/
def finish (r : Reader) : Option (List (List (List Char))) :=
  if r.mode = .bare ∨ r.mode = .comment then some r.endCommand.commands else none

end Reader

/-- The commands of a text, each with its words. -/
def read (s : List Char) : Option (List (List (List Char))) :=
  (Reader.start.run s).bind Reader.finish

example : read "export A='b'\\''c' \"d\\e\" # f".toList =
    some [["export".toList, "A=b'c".toList, "d\\e".toList]] := by
  decide

example : read "export A='b'; id".toList = none := by
  decide

/-- The characters that stand for themselves in every place. -/
def isLiteral (c : Char) : Bool :=
  !(['\x00', '\n', '\\', '\'', '"', '#'].contains c || isBlank c || isOperator c ||
    isExpansion true c)

namespace Reader

theorem run_append (r : Reader) (s t : List Char) :
    r.run (s ++ t) = (r.run s).bind fun r => r.run t :=
  List.foldlM_append

theorem run_cons (r : Reader) (c : Char) (s : List Char) :
    r.run (c :: s) = (r.step c).bind fun r => r.run s :=
  List.foldlM_cons

/-- A literal character goes on with the word. -/
theorem step_literal {r : Reader} (hmode : r.mode = .bare) {c : Char} (h : isLiteral c = true) :
    ∃ mark, r.step c = some (r.append c mark) := by
  refine ⟨c = '=' || c = ':', ?_⟩
  simp only [isLiteral, Bool.not_eq_true', Bool.or_eq_false_iff, List.contains_cons,
    List.contains_nil, beq_eq_false_iff_ne] at h
  obtain ⟨⟨⟨⟨hnull, hbreak, hescape, hsingle, hdouble, hcomment, -⟩, hblank⟩, hoperator⟩,
    hexpansion⟩ := h
  have hplace : isExpansion r.mark c = false := by
    simp only [isExpansion, Bool.or_eq_false_iff, Bool.and_true] at hexpansion ⊢
    exact ⟨hexpansion.1, by rw [hexpansion.2, Bool.false_and]⟩
  simp only [step, if_neg hnull, hmode, stepBare, if_neg hbreak, hblank, Bool.false_eq_true,
    if_false, if_neg hescape, if_neg hsingle, if_neg hdouble, hcomment, false_and, hoperator,
    hplace, Bool.or_self]

/-- Literal characters go on with the word. -/
theorem run_literal {s : List Char} (h : ∀ c ∈ s, isLiteral c = true) {r : Reader}
    (hmode : r.mode = .bare) (hs : s ≠ []) :
    ∃ mark, r.run s = some ⟨r.commands, r.words, some (r.word.getD [] ++ s), mark, .bare⟩ := by
  induction s generalizing r with
  | nil => exact absurd rfl hs
  | cons c s ih =>
    rw [List.forall_mem_cons] at h
    obtain ⟨mark, hstep⟩ := step_literal hmode h.1
    rw [run_cons, hstep, Option.bind_some]
    by_cases hrest : s = []
    · subst hrest
      exact ⟨mark, rfl⟩
    · obtain ⟨mark', hrun⟩ := ih h.2 (r := r.append c mark) rfl hrest
      refine ⟨mark', hrun.trans ?_⟩
      simp only [append, Option.getD_some, List.append_assoc, List.singleton_append]

end Reader

end Shell

end Sotto
