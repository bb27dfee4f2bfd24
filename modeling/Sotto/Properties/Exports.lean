import Sotto.Library.Checked
import Sotto.Library.Shell
import Sotto.Properties.Dotenv

/-!
# Shell exports assign their entries

A value between single quotes is one word with what is before it, and a name of literal characters
stands for itself. So a shell reads a rendered line as one command with one argument. The export
refuses every name that is no identifier.
-/

namespace Sotto

namespace Export

open Shell Dotenv

variable {entries : List Entry} {debug : List Char → String} {terminal reveal : Bool}

/-- The command that exports an entry. -/
def exportCommand (entry : Entry) : List (List Char) :=
  ["export".toList, entry.1 ++ '=' :: entry.2]

/-- A shell reads the text as one command for each entry. -/
def Assigns (text : List Char) (entries : List Entry) : Prop :=
  Shell.read text = some (entries.map exportCommand)

instance (text : List Char) (entries : List Entry) : Decidable (Assigns text entries) :=
  inferInstanceAs (Decidable (_ = _))

/-! ### Identifiers -/

/-- The characters of identifiers are literal. -/
theorem isLiteral_of_isIdentifier {key : List Char} (h : isIdentifier key = true) :
    ∀ c ∈ key, isLiteral c = true := by
  intro c hc
  have hother {d : Char} (hd : d.isAlphanum = false) (hne : d ≠ '_') : c ≠ d := by
    rintro rfl
    exact not_mem_of_isValidKey h hd hne hc
  simp only [isLiteral, isBlank, isOperator, isExpansion, List.contains_cons, List.contains_nil,
    Bool.or_false, Bool.and_true, Bool.not_eq_true', Bool.or_eq_false_iff, beq_eq_false_iff_ne,
    decide_eq_false_iff_not]
  refine ⟨⟨⟨?_, ?_⟩, ?_⟩, ?_⟩
  all_goals
    repeat' apply And.intro
    all_goals exact hother (by decide) (by decide)

/-! ### Lines -/

/-- What is between the quotes of a value is read as the value. -/
theorem run_shellEscape {value : List Char} (h : '\x00' ∉ value)
    (commands : List (List (List Char))) (words : List (List Char)) (word : List Char) :
    Reader.run ⟨commands, words, some word, false, .single⟩ (value.flatMap shellEscape) =
      some ⟨commands, words, some (word ++ value), false, .single⟩ := by
  induction value generalizing word with
  | nil =>
    rw [List.append_nil]
    rfl
  | cons c value ih =>
    rw [List.mem_cons, not_or] at h
    have hescape : Reader.run ⟨commands, words, some word, false, .single⟩ (shellEscape c) =
        some ⟨commands, words, some (word ++ [c]), false, .single⟩ := by
      unfold shellEscape
      split
      · simp [Reader.run, Reader.step, Reader.stepSingle, Reader.stepBare, Reader.stepEscape,
          Reader.quoted, Reader.append, isBlank]
      next hquote =>
        have hne : c ≠ '\'' := hquote
        simp [Reader.run, Reader.step, Reader.stepSingle, Reader.quoted, Ne.symm h.1, hne]
    rw [List.flatMap_cons, Reader.run_append, hescape, Option.bind_some, ih h.2,
      List.append_assoc, List.singleton_append]

/-- A line is read as one command. -/
theorem run_shellLine {entry : Entry} (hname : ∀ c ∈ entry.1, isLiteral c = true)
    (hvalue : '\x00' ∉ entry.2) (commands : List (List (List Char))) :
    Reader.run ⟨commands, [], none, true, .bare⟩ (shellLine entry ++ ['\n']) =
      some ⟨commands ++ [exportCommand entry], [], none, true, .bare⟩ := by
  have hsplit : shellLine entry ++ ['\n'] = "export".toList ++ ([' '] ++ ((entry.1 ++ ['=']) ++
      (['\''] ++ (entry.2.flatMap shellEscape ++ ['\'', '\n'])))) := by
    have hword : "export ".toList = "export".toList ++ [' '] := rfl
    unfold shellLine
    simp only [hword]
    generalize "export".toList = word
    simp [shellQuote]
  obtain ⟨mark, hexport⟩ := Reader.run_literal (s := "export".toList)
    (isLiteral_of_isIdentifier (by decide)) (r := ⟨commands, [], none, true, .bare⟩) rfl (by decide)
  have hblank : Reader.run ⟨commands, [], some "export".toList, mark, .bare⟩ [' '] =
      some ⟨commands, ["export".toList], none, true, .bare⟩ := rfl
  have hliteral : ∀ c ∈ entry.1 ++ ['='], isLiteral c = true := by
    simp only [List.mem_append, List.mem_singleton, or_imp, forall_and, forall_eq]
    exact ⟨hname, by decide⟩
  obtain ⟨mark', hequals⟩ := Reader.run_literal hliteral
    (r := ⟨commands, ["export".toList], none, true, .bare⟩) rfl (by simp)
  have hopen : Reader.run ⟨commands, ["export".toList], some (entry.1 ++ ['=']), mark', .bare⟩
      ['\''] = some ⟨commands, ["export".toList], some (entry.1 ++ ['=']), false, .single⟩ := by
    simp [Reader.run, Reader.step, Reader.stepBare, Reader.quoted, isBlank]
  have hclose (word : List Char) :
      Reader.run ⟨commands, ["export".toList], some word, false, .single⟩ ['\'', '\n'] =
        some ⟨commands ++ [["export".toList, word]], [], none, true, .bare⟩ := by
    simp [Reader.run, Reader.step, Reader.stepBare, Reader.stepSingle, Reader.quoted,
      Reader.endCommand]
  rw [hsplit, Reader.run_append, hexport, Option.bind_some, Reader.run_append]
  simp only [Option.getD_none, List.nil_append]
  rw [hblank, Option.bind_some, Reader.run_append, hequals, Option.bind_some, Reader.run_append]
  simp only [Option.getD_none, List.nil_append]
  rw [hopen, Option.bind_some, Reader.run_append, run_shellEscape hvalue, Option.bind_some, hclose,
    exportCommand, List.append_assoc, List.singleton_append]

theorem run_shell (hname : ∀ entry ∈ entries, ∀ c ∈ entry.1, isLiteral c = true)
    (hvalue : ∀ entry ∈ entries, '\x00' ∉ entry.2) (commands : List (List (List Char))) :
    Reader.run ⟨commands, [], none, true, .bare⟩ (shell entries) =
      some ⟨commands ++ entries.map exportCommand, [], none, true, .bare⟩ := by
  induction entries generalizing commands with
  | nil =>
    rw [List.map_nil, List.append_nil]
    rfl
  | cons entry entries ih =>
    rw [List.forall_mem_cons] at hname hvalue
    rw [shell, List.flatMap_cons, Reader.run_append, run_shellLine hname.1 hvalue.1,
      Option.bind_some]
    refine (ih hname.2 hvalue.2 _).trans ?_
    rw [List.map_cons, List.append_assoc, List.singleton_append]

/-- Entries whose names consist of literal characters. -/
theorem assigns_shell (hname : ∀ entry ∈ entries, ∀ c ∈ entry.1, isLiteral c = true)
    (hvalue : ∀ entry ∈ entries, '\x00' ∉ entry.2) : Assigns (shell entries) entries := by
  rw [Assigns, Shell.read, Reader.start, run_shell hname hvalue]
  rfl

/-! ### The export -/

/-- The export fails, and writes nothing, if a name is no identifier. -/
theorem exportWithEntries_eq_ok {format : ExportFormat} {text : List Char} :
    exportWithEntries debug terminal entries format reveal = .ok text ↔
      ((terminal = true → reveal = true) ∧ ∀ entry ∈ entries, isIdentifier entry.1 = true) ∧
        text = render format entries := by
  have hkeys : entries.forM (fun entry => validateEnvKey debug entry.1) = .ok () ↔
      ∀ entry ∈ entries, isIdentifier entry.1 = true := by
    induction entries with
    | nil => exact iff_of_true rfl fun entry h => absurd h List.not_mem_nil
    | cons entry entries ih =>
      rw [List.forM_eq_forM, List.forM_cons, Checked.bind_eq_ok, List.forall_mem_cons, ← ih]
      by_cases hkey : isIdentifier entry.1 = true
      · simp [validateEnvKey, hkey]
      · simp [validateEnvKey, hkey]
  have hrender : (do
        entries.forM fun entry => validateEnvKey debug entry.1
        return render format entries : Except Error (List Char)) = .ok text ↔
      (∀ entry ∈ entries, isIdentifier entry.1 = true) ∧ text = render format entries := by
    rw [Checked.bind_eq_ok, ← hkeys]
    constructor
    · rintro ⟨_, hforM, htext⟩
      exact ⟨hforM, (Checked.pure_eq_ok.mp htext).symm⟩
    · rintro ⟨hforM, rfl⟩
      exact ⟨(), hforM, rfl⟩
  cases terminal <;> cases reveal
  case true.false => simp [exportWithEntries]
  case false.false => exact hrender.trans (and_congr_left' ⟨fun h => ⟨id, h⟩, And.right⟩)
  case false.true => exact hrender.trans (and_congr_left' ⟨fun h => ⟨fun _ => rfl, h⟩, And.right⟩)
  case true.true => exact hrender.trans (and_congr_left' ⟨fun h => ⟨id, h⟩, And.right⟩)

/-- The export writes the entries if and only if it may write to its output and each name is an
identifier, and a shell reads what it writes as one command for each entry. The same holds of a
rendered text whose names consist of literal characters. -/
theorem exportWithEntries_assigns (hvalue : ∀ entry ∈ entries, '\x00' ∉ entry.2) :
    ((∃ text, exportWithEntries debug terminal entries .shell reveal = .ok text) ↔
      (terminal = true → reveal = true) ∧ ∀ entry ∈ entries, isIdentifier entry.1 = true) ∧
    (∀ text, exportWithEntries debug terminal entries .shell reveal = .ok text →
      Assigns text entries) ∧
    ((∀ entry ∈ entries, ∀ c ∈ entry.1, isLiteral c = true) →
      Assigns (render .shell entries) entries) := by
  refine ⟨?_, ?_, fun hname => assigns_shell hname hvalue⟩
  · simp only [exportWithEntries_eq_ok, exists_eq_right]
  · intro text htext
    obtain ⟨⟨-, hkeys⟩, rfl⟩ := exportWithEntries_eq_ok.mp htext
    exact assigns_shell (fun entry h => isLiteral_of_isIdentifier (hkeys entry h)) hvalue

/-- A name with two operators, which a shell does not read as one command. -/
theorem not_assigns_operator :
    ¬ ∀ entries : List Entry, (∀ entry ∈ entries, '\x00' ∉ entry.2) →
      Assigns (render .shell entries) entries := by
  intro h
  exact absurd (h [("x;id;y".toList, ['1'])] (by decide)) (by decide)

/-- An entry whose value has each kind of quote. -/
theorem exportWithEntries_assigns_quotes :
    Assigns (render .shell [("A_1".toList, "it's \"$x\"".toList)])
      [("A_1".toList, "it's \"$x\"".toList)] :=
  (@exportWithEntries_assigns _ (fun _ => "") false false (by decide)).2.2 (fun entry h => by
      obtain rfl := List.mem_singleton.mp h
      exact isLiteral_of_isIdentifier (by decide))

end Export

end Sotto
