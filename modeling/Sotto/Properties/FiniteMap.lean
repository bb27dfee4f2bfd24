import Sotto.Cli.Lookup
import Sotto.Team
import Mathlib.Data.Finmap
import Mathlib.Data.Finset.Sort
import Mathlib.Data.String.Basic

/-!
# The local vault is a finite map

What a user sees of an opened environment that is only edited locally is a finite map from names to
byte strings. Behind it, a name belongs to one secret for good: setting it again, live or deleted,
writes the next version of the same secret, and the history of a secret holds its versions from the
first to the current one.
-/

namespace Sotto

namespace Cli

open Core

namespace Vault

/-- An operation on an opened environment. -/
inductive Op
  | set (name : String) (value : Bytes)
  | delete (name : String)
  | get (name : String)
  | list

/-- What an operation shows when it succeeds. -/
inductive Reply
  | done
  | value (bytes : Bytes)
  | names (names : List String)
deriving DecidableEq

/-- A finite map from names to byte strings. -/
abbrev Contents := Finmap fun _ : String => Bytes

namespace Op

/-- What an operation does to a finite map. -/
def spec : Op → Contents → Except Error Reply × Contents
  | set name value, m => (.ok .done, m.insert name value)
  | delete name, m =>
      if name ∈ m then (.ok .done, m.erase name) else (.error (.notFound name), m)
  | get name, m =>
      match m.lookup name with
      | some value => (.ok (.value value), m)
      | none => (.error (.notFound name), m)
  | list, m => (.ok (.names (m.keys.sort (· ≤ ·))), m)

theorem spec_get (name : String) (m : Contents) :
    (get name).spec m = ((match m.lookup name with
      | some value => .ok (.value value)
      | none => .error (.notFound name)), m) := by
  dsimp only [spec]
  cases m.lookup name <;> rfl

/-- What an operation does to the store. -/
def perform (vault : Vault) (idSeed seed : Seed) : Op → Store → Except Error Reply × Store
  | set name value, store =>
      match vault.set idSeed seed name value store with
      | .ok store' => (.ok .done, store')
      | .error e => (.error e, store)
  | delete name, store =>
      match vault.delete name store with
      | .ok store' => (.ok .done, store')
      | .error e => (.error e, store)
  | get name, store => ((vault.get name store).map .value, store)
  | list, store => ((vault.listNames store).map .names, store)

/-- Whether an operation sets a name. -/
def isSet (name : String) : Op → Bool
  | set name' _ => name' = name
  | _ => false

end Op

/-- Random draws that a store knows nothing of. -/
structure Draws (store : Store) where
  seed : Nat → Seed
  injective : Function.Injective seed
  noSecret : ∀ n, store.secrets.lookup (.uuid (seed n)) = none
  noHistory : ∀ n version, store.secretVersions.lookup (.uuid (seed n), version) = none

/-- A sequence of operations so far: what they showed, and the store. -/
structure Trace where
  replies : List (Except Error Reply)
  store : Store

/-- One operation more; the draws that it uses are numbered by the operations before it. -/
def Trace.next (vault : Vault) (seed : Nat → Seed) (trace : Trace) (op : Op) : Trace :=
  let drawn := 2 * trace.replies.length
  let r := op.perform vault (seed drawn) (seed (drawn + 1)) trace.store
  ⟨trace.replies ++ [r.1], r.2⟩

/-- A sequence of operations on the vault. -/
def run (vault : Vault) (seed : Nat → Seed) (store : Store) (ops : List Op) : Trace :=
  ops.foldl (Trace.next vault seed) ⟨[], store⟩

/-- A sequence of operations on the empty finite map. -/
def specRun (ops : List Op) : List (Except Error Reply) × Contents :=
  ops.foldl (fun t op => (t.1 ++ [(op.spec t.2).1], (op.spec t.2).2)) ([], ∅)

/-- A secret of the environment that shows a name. -/
structure Names (vault : Vault) (store : Store) (id : Ident) (row : SecretRow) (name : String) :
    Prop where
  stored : store.secrets.lookup id = some row
  env : row.envId = vault.envId
  shows : vault.Shows name (id, row)

/-- How a store stands for a finite map, with the number of times each name was set. -/
structure Simulates (vault : Vault) (m : Contents) (times : String → Nat) (store : Store) :
    Prop where
  environment : store.environments.lookup vault.envId ≠ none
  shown : vault.AllShown store
  unique : ∀ {id row id' row' name}, vault.Names store id row name →
    vault.Names store id' row' name → id' = id
  carried : ∀ {name}, times name ≠ 0 ↔ ∃ id row, vault.Names store id row name
  version : ∀ {id row name}, vault.Names store id row name → row.version = times name
  live : ∀ {id row name}, vault.Names store id row name → row.deleted = false →
    ∃ value, vault.decryptValue id row = .ok value ∧ m.lookup name = some value
  present : ∀ {name value}, m.lookup name = some value →
    ∃ id row, vault.Names store id row name ∧ row.deleted = false
  history : ∀ {id row name}, vault.Names store id row name → ∀ version,
    (store.secretVersions.lookup (id, version)).isSome ↔ 1 ≤ version ∧ version ≤ row.version

section Simulates

variable {vault : Vault} {m : Contents} {times : String → Nat} {store store' : Store}
  {id : Ident} {row : SecretRow} {name : String} {value : Bytes} {idSeed seed : Seed}

theorem Names.name_unique {name' : String} (h : vault.Names store id row name)
    (h' : vault.Shows name' (id, row)) : name' = name := by
  have hshows : vault.decryptName id row = .ok name := h.shows
  have hshows' : vault.decryptName id row = .ok name' := h'
  rw [hshows] at hshows'
  exact (Except.ok.inj hshows').symm

theorem Names.row_unique {row' : SecretRow} {name' : String} (h : vault.Names store id row name)
    (h' : vault.Names store id row' name') : row' = row ∧ name' = name := by
  obtain rfl : row' = row := Option.some.inj (h'.stored.symm.trans h.stored)
  exact ⟨rfl, h.name_unique h'.shows⟩

namespace Simulates

/-! ### Finding a name -/

/-- The search of the live rows finds the live secret of a name. -/
theorem findByName_of_live (h : Simulates vault m times store) (hn : vault.Names store id row name)
    (hlive : row.deleted = false) : vault.findByName name store = .ok (some (id, row)) := by
  rw [h.shown.findByName]
  congr 1
  refine find?_eq_some_of_unique (Store.mem_secretRows.2 ⟨hn.stored, hn.env, hlive⟩)
    (by simpa using hn.shows) ?_
  rintro ⟨id', row'⟩ hmem hshows
  obtain ⟨hrow', henv', -⟩ := Store.mem_secretRows.1 hmem
  have hn' : vault.Names store id' row' name := ⟨hrow', henv', by simpa using hshows⟩
  obtain rfl := h.unique hn hn'
  rw [(hn.row_unique hn').1]

/-- The search of the live rows finds nothing for another name. -/
theorem findByName_of_none (h : Simulates vault m times store)
    (hnone : ∀ id row, vault.Names store id row name → row.deleted = true) :
    vault.findByName name store = .ok none := by
  rw [h.shown.findByName]
  congr 1
  refine List.find?_eq_none.2 ?_
  rintro ⟨id', row'⟩ hmem hshows
  obtain ⟨hrow', henv', hlive⟩ := Store.mem_secretRows.1 hmem
  have hdeleted := hnone id' row' ⟨hrow', henv', by simpa using hshows⟩
  rw [hlive] at hdeleted
  cases hdeleted

theorem existing_some (h : Simulates vault m times store) (hn : vault.Names store id row name) :
    vault.existing name store = .ok (some (id, row)) := by
  unfold existing
  cases hdel : row.deleted with
  | false =>
      rw [h.findByName_of_live hn hdel]
      rfl
  | true =>
      have hnone : ∀ id' row', vault.Names store id' row' name → row'.deleted = true := by
        intro id' row' hn'
        obtain rfl := h.unique hn hn'
        rw [(hn.row_unique hn').1]
        exact hdel
      rw [h.findByName_of_none hnone]
      refine h.shown.findDeletedByName.trans ?_
      congr 1
      refine find?_eq_some_of_unique (Store.mem_secretRows.2 ⟨hn.stored, hn.env, hdel⟩)
        (by simpa using hn.shows) ?_
      rintro ⟨id', row'⟩ hmem hshows
      obtain ⟨hrow', henv', -⟩ := Store.mem_secretRows.1 hmem
      have hn' : vault.Names store id' row' name := ⟨hrow', henv', by simpa using hshows⟩
      obtain rfl := h.unique hn hn'
      rw [(hn.row_unique hn').1]

theorem existing_none (h : Simulates vault m times store)
    (hnone : ∀ id row, ¬ vault.Names store id row name) :
    vault.existing name store = .ok none := by
  unfold existing
  rw [h.findByName_of_none fun id row hn => absurd hn (hnone id row)]
  refine h.shown.findDeletedByName.trans ?_
  congr 1
  refine List.find?_eq_none.2 ?_
  rintro ⟨id', row'⟩ hmem hshows
  obtain ⟨hrow', henv', -⟩ := Store.mem_secretRows.1 hmem
  exact hnone id' row' ⟨hrow', henv', by simpa using hshows⟩

/-! ### Writing a version -/

/-- The store after a write of one secret of a name. -/
structure Written (vault : Vault) (name : String) (value : Bytes) (id : Ident) (new : SecretRow)
    (store store' : Store) : Prop where
  environment : store'.environments = store.environments
  other : ∀ id', id' ≠ id → store'.secrets.lookup id' = store.secrets.lookup id'
  names : vault.Names store' id new name
  live : new.deleted = false
  value : vault.decryptValue id new = .ok value
  history : ∀ id' version, (store'.secretVersions.lookup (id', version)).isSome ↔
    (id' = id ∧ version = new.version) ∨ (store.secretVersions.lookup (id', version)).isSome

/-- A write of the next version of a name keeps the simulation. -/
theorem written {new : SecretRow} (h : Simulates vault m times store)
    (hw : Written vault name value id new store store')
    (hold : ∀ id' row', vault.Names store id' row' name → id' = id)
    (hown : ∀ row', store.secrets.lookup id = some row' → vault.Names store id row' name)
    (hversion : new.version = times name + 1)
    (hhistory : ∀ version, (store.secretVersions.lookup (id, version)).isSome ↔
      1 ≤ version ∧ version ≤ (times name : Int)) :
    Simulates vault (m.insert name value) (Function.update times name (times name + 1)) store' := by
  -- a secret that shows a name is the one that was written, or was there with another name
  have hcases : ∀ {id' row' n}, vault.Names store' id' row' n →
      (id' = id ∧ row' = new ∧ n = name) ∨ (id' ≠ id ∧ n ≠ name ∧ vault.Names store id' row' n) := by
    intro id' row' n hn
    by_cases hid : id' = id
    · subst hid
      exact Or.inl ⟨rfl, hw.names.row_unique hn⟩
    · have hrow := hn.stored
      rw [hw.other id' hid] at hrow
      have hn' : vault.Names store id' row' n := ⟨hrow, hn.env, hn.shows⟩
      refine Or.inr ⟨hid, ?_, hn'⟩
      rintro rfl
      exact hid (hold id' row' hn')
  have hkept : ∀ {id' row' n}, vault.Names store id' row' n → n ≠ name →
      vault.Names store' id' row' n := by
    intro id' row' n hn hne
    have hid : id' ≠ id := by
      rintro rfl
      exact hne ((hown row' hn.stored).row_unique hn).2
    exact ⟨(hw.other id' hid).trans hn.stored, hn.env, hn.shows⟩
  refine ⟨?_, h.shown.of_written hw.other hw.names.stored hw.names.shows, ?_, ?_, ?_, ?_, ?_, ?_⟩
  · rw [hw.environment]
    exact h.environment
  · intro id₁ row₁ id₂ row₂ n h₁ h₂
    rcases hcases h₁ with ⟨rfl, -, rfl⟩ | ⟨-, hne, h₁⟩
    · rcases hcases h₂ with ⟨rfl, -, -⟩ | ⟨-, hne, -⟩
      · rfl
      · exact absurd rfl hne
    · rcases hcases h₂ with ⟨-, -, rfl⟩ | ⟨-, -, h₂⟩
      · exact absurd rfl hne
      · exact h.unique h₁ h₂
  · intro n
    by_cases hne : n = name
    · subst hne
      simp only [Function.update_self]
      exact ⟨fun _ => ⟨id, new, hw.names⟩, fun _ => Nat.succ_ne_zero _⟩
    · rw [Function.update_of_ne hne, h.carried]
      constructor
      · rintro ⟨id', row', hn⟩
        exact ⟨id', row', hkept hn hne⟩
      · rintro ⟨id', row', hn⟩
        rcases hcases hn with ⟨-, -, heq⟩ | ⟨-, -, hn⟩
        · exact absurd heq hne
        · exact ⟨id', row', hn⟩
  · intro id' row' n hn
    rcases hcases hn with ⟨-, rfl, rfl⟩ | ⟨-, hne, hn⟩
    · rw [Function.update_self, hversion]
      push_cast
      rfl
    · rw [Function.update_of_ne hne]
      exact h.version hn
  · intro id' row' n hn hlive
    rcases hcases hn with ⟨rfl, rfl, rfl⟩ | ⟨-, hne, hn⟩
    · exact ⟨value, hw.value, Finmap.lookup_insert m⟩
    · rw [Finmap.lookup_insert_of_ne m hne]
      exact h.live hn hlive
  · intro n v hv
    by_cases hne : n = name
    · subst hne
      exact ⟨id, new, hw.names, hw.live⟩
    · rw [Finmap.lookup_insert_of_ne m hne] at hv
      obtain ⟨id', row', hn, hlive⟩ := h.present hv
      exact ⟨id', row', hkept hn hne, hlive⟩
  · intro id' row' n hn version
    rw [hw.history]
    rcases hcases hn with ⟨rfl, rfl, rfl⟩ | ⟨hid, -, hn⟩
    · rw [hhistory, hversion]
      simp only [true_and]
      omega
    · simp only [hid, false_and, false_or]
      exact h.history hn version

/-- Where every row is as it should be, the next version of a name can be written. -/
theorem set_some (h : Simulates vault m times store) (hn : vault.Names store id row name)
    (hmax : (times name : Int) < i64Max) :
    ∃ store', vault.set idSeed seed name value store = .ok store' ∧
      Written vault name value id (Store.newVersion (row.version + 1)
        (vault.encrypt seed id (row.version + 1) name value) row) store store' := by
  have hsucc : i64Succ row.version = row.version + 1 := i64Succ_of_lt (by rw [h.version hn]; exact hmax)
  have hfree : store.secretVersions.lookup (id, i64Succ row.version) = none := by
    rw [hsucc, ← Option.not_isSome_iff_eq_none, h.history hn]
    omega
  have hset : vault.set idSeed seed name value store =
      .ok (store.withVersion id (i64Succ row.version)
        (vault.encrypt seed id (i64Succ row.version) name value)) := by
    rw [set, h.existing_some hn]
    exact (Store.updateSecret_eq_ok hn.stored).2 ⟨hfree, rfl⟩
  rw [hsucc] at hset
  obtain ⟨hshows, hvalue⟩ := @decrypts_encrypt vault name seed id (row.version + 1) value
    (Store.newVersion (row.version + 1) (vault.encrypt seed id (row.version + 1) name value) row)
    rfl rfl
  refine ⟨_, hset, rfl, fun id' hid => Table.lookup_modify_of_ne hid _ _, ⟨?_, hn.env, hshows⟩, rfl,
    hvalue, ?_⟩
  · simp [Store.withVersion, hn.stored]
  · intro id' version
    simp only [Store.withVersion, Table.lookup_insert, Store.newVersion, Prod.mk.injEq]
    split
    · next heq => simp [heq]
    · next hne => simp [hne]

/-- A name that no secret shows is inserted. -/
theorem set_none (h : Simulates vault m times store)
    (hnone : ∀ id row, ¬ vault.Names store id row name)
    (hsecret : store.secrets.lookup (.uuid idSeed) = none)
    (hhistory : ∀ version, store.secretVersions.lookup (.uuid idSeed, version) = none) :
    ∃ new store', vault.set idSeed seed name value store = .ok store' ∧ new.version = 1 ∧
      Written vault name value (.uuid idSeed) new store store' := by
  obtain ⟨enc, henc⟩ : ∃ enc, vault.encrypt seed (.uuid idSeed) 1 name value = enc := ⟨_, rfl⟩
  have hset : vault.set idSeed seed name value store =
      .ok (store.withSecret (.uuid idSeed) vault.envId enc) := by
    rw [set, h.existing_none hnone, ← henc]
    exact Store.insertSecret_eq_ok.2 ⟨h.environment, hsecret, hhistory 1, rfl⟩
  obtain ⟨hshows, hvalue⟩ := @decrypts_encrypt vault name seed (.uuid idSeed) 1 value
    ⟨vault.envId, enc.encName, enc.encValue, enc.encDataKey, 1, false⟩ henc.symm rfl
  refine ⟨_, _, hset, rfl, rfl, fun id' hid => AList.lookup_insert_ne hid,
    ⟨AList.lookup_insert _, rfl, hshows⟩, rfl, hvalue, ?_⟩
  intro id' version
  simp only [Store.withSecret, Table.lookup_insert, Prod.mk.injEq]
  split
  · next heq => simp [heq]
  · next hne => simp [hne]

/-- A set of a name writes its next version. -/
theorem set (h : Simulates vault m times store) (hmax : (times name : Int) < i64Max)
    (hsecret : store.secrets.lookup (.uuid idSeed) = none)
    (hhistory : ∀ version, store.secretVersions.lookup (.uuid idSeed, version) = none) :
    ∃ id new store', vault.set idSeed seed name value store = .ok store' ∧
      Written vault name value id new store store' ∧
      (∀ id' row', vault.Names store id' row' name → id' = id ∧ new.version = row'.version + 1) ∧
      (id = .uuid idSeed ∨ ∃ row, vault.Names store id row name) ∧
      Simulates vault (m.insert name value) (Function.update times name (times name + 1)) store' := by
  by_cases hfound : ∃ id row, vault.Names store id row name
  · obtain ⟨id, row, hn⟩ := hfound
    obtain ⟨store', hset, hw⟩ := @set_some vault m times store id row name value idSeed seed h hn hmax
    refine ⟨id, _, store', hset, hw, ?_, Or.inr ⟨row, hn⟩, ?_⟩
    · intro id' row' hn'
      obtain rfl := h.unique hn hn'
      rw [(hn.row_unique hn').1]
      exact ⟨rfl, rfl⟩
    · refine h.written hw (fun id' row' hn' => h.unique hn hn') ?_ ?_ ?_
      · intro row' hrow'
        rw [hn.stored] at hrow'
        cases hrow'
        exact hn
      · show row.version + 1 = _
        rw [h.version hn]
      · intro version
        rw [h.history hn, h.version hn]
  · have hnone : ∀ id row, ¬ vault.Names store id row name :=
      fun id row hn => hfound ⟨id, row, hn⟩
    have htimes : times name = 0 := by
      by_contra hne
      exact hfound (h.carried.1 hne)
    obtain ⟨new, store', hset, hversion, hw⟩ := @set_none vault m times store name value idSeed seed h
      hnone hsecret hhistory
    refine ⟨_, new, store', hset, hw, fun id' row' hn' => absurd hn' (hnone id' row'), Or.inl rfl, ?_⟩
    refine h.written hw (fun id' row' hn' => absurd hn' (hnone id' row')) ?_ ?_ ?_
    · intro row' hrow'
      rw [hsecret] at hrow'
      cases hrow'
    · rw [hversion, htimes]
      rfl
    · intro version
      rw [hhistory, htimes]
      simp
      omega

/-! ### Deleting, getting and listing -/

theorem lookup_of_names (h : Simulates vault m times store) (hn : vault.Names store id row name) :
    row.deleted = false ↔ ∃ v, m.lookup name = some v := by
  constructor
  · intro hlive
    obtain ⟨v, -, hv⟩ := h.live hn hlive
    exact ⟨v, hv⟩
  · rintro ⟨v, hv⟩
    obtain ⟨id', row', hn', hlive⟩ := h.present hv
    obtain rfl := h.unique hn hn'
    rw [← (hn.row_unique hn').1]
    exact hlive

theorem findByName_eq (name : String) (h : Simulates vault m times store) :
    (∃ id row v, vault.findByName name store = .ok (some (id, row)) ∧
      vault.Names store id row name ∧ row.deleted = false ∧
      vault.decryptValue id row = .ok v ∧ m.lookup name = some v) ∨
    (vault.findByName name store = .ok none ∧ m.lookup name = none) := by
  cases hm : m.lookup name with
  | some v =>
      obtain ⟨id, row, hn, hlive⟩ := h.present hm
      obtain ⟨v', hvalue, hv'⟩ := h.live hn hlive
      rw [hm] at hv'
      cases hv'
      exact Or.inl ⟨id, row, v, h.findByName_of_live hn hlive, hn, hlive, hvalue, rfl⟩
  | none =>
      refine Or.inr ⟨h.findByName_of_none ?_, rfl⟩
      intro id row hn
      by_contra hlive
      obtain ⟨v, hv⟩ := (h.lookup_of_names hn).1 (by simpa using hlive)
      rw [hm] at hv
      cases hv

theorem get_eq (h : Simulates vault m times store) :
    vault.get name store = match m.lookup name with
      | some v => .ok v
      | none => .error (.notFound name) := by
  rcases h.findByName_eq name with ⟨id, row, v, hfind, -, -, hvalue, hm⟩ | ⟨hfind, hm⟩
  · rw [get, hfind, hm]
    exact hvalue
  · rw [get, hfind, hm]
    rfl

/-- A deletion keeps the simulation. -/
theorem delete (h : Simulates vault m times store) (hm : m.lookup name ≠ none) :
    ∃ store', vault.delete name store = .ok store' ∧
      store'.secretVersions = store.secretVersions ∧
      (∀ id', (store'.secrets.lookup id').isSome = (store.secrets.lookup id').isSome) ∧
      Simulates vault (m.erase name) times store' := by
  rcases h.findByName_eq name with ⟨id, row, v, hfind, hn, hlive, -, -⟩ | ⟨-, hnone⟩
  swap
  · exact absurd hnone hm
  have hdelete : vault.delete name store = .ok (store.withTombstone id) := by
    rw [Vault.delete, hfind]
    exact Store.deleteSecret_eq_ok.2 ⟨⟨row, hn.stored, hlive⟩, rfl⟩
  have hlookup : ∀ id', (store.withTombstone id).secrets.lookup id' =
      if id' = id then (store.secrets.lookup id').map fun row => { row with deleted := true }
      else store.secrets.lookup id' := fun id' => Table.lookup_modify _ _ _ _
  -- a tombstone shows the name that its row showed
  have hcases : ∀ {id' row' n}, vault.Names (store.withTombstone id) id' row' n →
      (id' = id ∧ n = name ∧ row' = { row with deleted := true }) ∨
        (id' ≠ id ∧ n ≠ name ∧ vault.Names store id' row' n) := by
    intro id' row' n hn'
    have hrow' := hn'.stored
    rw [hlookup] at hrow'
    by_cases hid : id' = id
    · subst hid
      rw [if_pos rfl, hn.stored] at hrow'
      cases hrow'
      exact Or.inl ⟨rfl, hn.name_unique hn'.shows, rfl⟩
    · rw [if_neg hid] at hrow'
      have hn'' : vault.Names store id' row' n := ⟨hrow', hn'.env, hn'.shows⟩
      refine Or.inr ⟨hid, ?_, hn''⟩
      rintro rfl
      exact hid (h.unique hn hn'')
  have hkept : ∀ {id' row' n}, vault.Names store id' row' n → ∃ row'',
      vault.Names (store.withTombstone id) id' row'' n ∧ row''.version = row'.version ∧
      (n ≠ name → row'' = row') := by
    intro id' row' n hn'
    by_cases hid : id' = id
    · subst hid
      obtain ⟨rfl, rfl⟩ := hn.row_unique hn'
      refine ⟨{ row' with deleted := true }, ⟨?_, hn.env, hn.shows⟩, rfl, fun hne => absurd rfl hne⟩
      rw [hlookup, if_pos rfl, hn.stored]
      rfl
    · refine ⟨row', ⟨?_, hn'.env, hn'.shows⟩, rfl, fun _ => rfl⟩
      rw [hlookup, if_neg hid]
      exact hn'.stored
  refine ⟨_, hdelete, rfl, ?_, h.environment, ?_, ?_, ?_, ?_, ?_, ?_, ?_⟩
  · intro id'
    rw [hlookup]
    split <;> simp
  · intro id' row' hrow' henv'
    rw [hlookup] at hrow'
    split at hrow'
    · next hid =>
        subst hid
        rw [hn.stored] at hrow'
        cases hrow'
        exact ⟨name, hn.shows⟩
    · exact h.shown id' row' hrow' henv'
  · intro id₁ row₁ id₂ row₂ n h₁ h₂
    rcases hcases h₁ with ⟨rfl, rfl, -⟩ | ⟨-, hne, h₁⟩
    · rcases hcases h₂ with ⟨rfl, -, -⟩ | ⟨-, hne, -⟩
      · rfl
      · exact absurd rfl hne
    · rcases hcases h₂ with ⟨-, rfl, -⟩ | ⟨-, -, h₂⟩
      · exact absurd rfl hne
      · exact h.unique h₁ h₂
  · intro n
    rw [h.carried]
    constructor
    · rintro ⟨id', row', hn'⟩
      obtain ⟨row'', hn'', -⟩ := hkept hn'
      exact ⟨id', row'', hn''⟩
    · rintro ⟨id', row', hn'⟩
      rcases hcases hn' with ⟨-, rfl, -⟩ | ⟨-, -, hn'⟩
      · exact ⟨id, row, hn⟩
      · exact ⟨id', row', hn'⟩
  · intro id' row' n hn'
    rcases hcases hn' with ⟨-, rfl, rfl⟩ | ⟨-, -, hn'⟩
    · exact (h.version hn : row.version = _)
    · exact h.version hn'
  · intro id' row' n hn' hlive'
    rcases hcases hn' with ⟨-, -, rfl⟩ | ⟨-, hne, hn'⟩
    · cases hlive'
    · rw [Finmap.lookup_erase_ne hne]
      exact h.live hn' hlive'
  · intro n v hv
    have hne : n ≠ name := by
      rintro rfl
      rw [Finmap.lookup_erase] at hv
      cases hv
    rw [Finmap.lookup_erase_ne hne] at hv
    obtain ⟨id', row', hn', hlive'⟩ := h.present hv
    obtain ⟨row'', hn'', -, hsame⟩ := hkept hn'
    refine ⟨id', row'', hn'', ?_⟩
    rw [hsame hne]
    exact hlive'
  · intro id' row' n hn' version
    rcases hcases hn' with ⟨rfl, rfl, rfl⟩ | ⟨-, -, hn'⟩
    · exact h.history hn version
    · exact h.history hn' version

theorem mapM_eq_ok {rows : List (Ident × SecretRow)} {f : Ident × SecretRow → Except Error String}
    {g : Ident × SecretRow → String} (h : ∀ row ∈ rows, f row = .ok (g row)) :
    rows.mapM f = .ok (rows.map g) := by
  induction rows with
  | nil => rfl
  | cons row rows ih =>
      rw [List.mapM_cons, h row List.mem_cons_self,
        ih fun row' hrow' => h row' (List.mem_cons_of_mem row hrow')]
      rfl

/-- The live secrets show the names of the map, each once. -/
theorem listNames_eq (h : Simulates vault m times store) :
    vault.listNames store = .ok (m.keys.sort (· ≤ ·)) := by
  classical
  let nameOf (row : Ident × SecretRow) : String :=
    ((vault.decryptName row.1 row.2).toOption).getD ""
  have hnames : ∀ row ∈ store.listSecrets vault.envId, vault.Names store row.1 row.2 (nameOf row) ∧
      row.2.deleted = false := by
    rintro ⟨id, row⟩ hmem
    obtain ⟨hrow, henv, hlive⟩ := Store.mem_secretRows.1 hmem
    obtain ⟨n, hn⟩ := h.shown id row hrow henv
    have hn' : vault.decryptName id row = .ok n := hn
    have hnameOf : nameOf (id, row) = n := by simp [nameOf, hn', Except.toOption]
    rw [hnameOf]
    exact ⟨⟨hrow, henv, hn⟩, hlive⟩
  have hmap : (store.listSecrets vault.envId).mapM (fun row => vault.decryptName row.1 row.2) =
      .ok ((store.listSecrets vault.envId).map nameOf) :=
    mapM_eq_ok fun row hrow => (hnames row hrow).1.shows
  have hnodup : ((store.listSecrets vault.envId).map nameOf).Nodup := by
    refine List.Nodup.map_on ?_ ((List.Nodup.of_map _ (Table.nodup_rows store.secrets)).filter _)
    intro row hrow row' hrow' heq
    have hid := h.unique (hnames row hrow).1 (heq ▸ (hnames row' hrow').1)
    have hstored := (hnames row' hrow').1.stored
    rw [hid, (hnames row hrow).1.stored] at hstored
    exact Prod.ext hid.symm (Option.some.inj hstored)
  have hmem : ∀ n, n ∈ (store.listSecrets vault.envId).map nameOf ↔ n ∈ m.keys := by
    intro n
    rw [List.mem_map, Finmap.mem_keys, Finmap.mem_iff]
    constructor
    · rintro ⟨row, hrow, rfl⟩
      exact (h.lookup_of_names (hnames row hrow).1).1 (hnames row hrow).2
    · rintro ⟨v, hv⟩
      obtain ⟨id, row, hn, hlive⟩ := h.present hv
      have hlisted : (id, row) ∈ store.listSecrets vault.envId :=
        Store.mem_secretRows.2 ⟨hn.stored, hn.env, hlive⟩
      exact ⟨(id, row), hlisted, hn.name_unique (hnames _ hlisted).1.shows⟩
  have hperm : ((store.listSecrets vault.envId).map nameOf).Perm (m.keys.sort (· ≤ ·)) :=
    (List.perm_ext_iff_of_nodup hnodup (Finset.sort_nodup _ _)).2 fun n => by
      rw [hmem, Finset.mem_sort]
  rw [listNames, hmap]
  refine congrArg Except.ok ?_
  exact ((List.mergeSort_perm _ _).trans hperm).eq_of_pairwise' (List.pairwise_mergeSort' (· ≤ ·) _)
    (Finset.pairwise_sort _ _)

end Simulates

end Simulates

/-! ### Sequences of operations -/

/-- How often a name is set. -/
def timesSet (ops : List Op) (name : String) : Nat := ops.countP (Op.isSet name)

section Run

variable {vault : Vault} {store : Store}

/-- What holds after a sequence of operations. -/
structure Traced (vault : Vault) (seed : Nat → Seed) (store : Store) (ops : List Op) : Prop where
  replies : (run vault seed store ops).replies = (specRun ops).1
  length : (run vault seed store ops).replies.length = ops.length
  simulates : Simulates vault (specRun ops).2 (timesSet ops) (run vault seed store ops).store
  unused : ∀ n, 2 * ops.length ≤ n →
    (run vault seed store ops).store.secrets.lookup (.uuid (seed n)) = none ∧
    ∀ version, (run vault seed store ops).store.secretVersions.lookup (.uuid (seed n), version) =
      none

theorem run_append (seed : Nat → Seed) (ops : List Op) (op : Op) :
    run vault seed store (ops ++ [op]) = (run vault seed store ops).next vault seed op := by
  simp [run]

theorem specRun_append (ops : List Op) (op : Op) :
    specRun (ops ++ [op]) = ((specRun ops).1 ++ [(op.spec (specRun ops).2).1],
      (op.spec (specRun ops).2).2) := by
  simp [specRun]

theorem timesSet_append (ops : List Op) (op : Op) (name : String) :
    timesSet (ops ++ [op]) name = timesSet ops name + if op.isSet name then 1 else 0 := by
  simp [timesSet, List.countP_append, List.countP_singleton]

theorem timesSet_set (ops : List Op) (name : String) (value : Bytes) :
    timesSet (ops ++ [.set name value]) =
      Function.update (timesSet ops) name (timesSet ops name + 1) := by
  funext n
  rw [timesSet_append]
  by_cases hn : n = name
  · subst hn
    simp [Op.isSet]
  · have hn' : name ≠ n := fun heq => hn heq.symm
    simp [Op.isSet, Function.update_of_ne hn, hn']

theorem timesSet_other {ops : List Op} {op : Op} (h : ∀ name, op.isSet name = false) :
    timesSet (ops ++ [op]) = timesSet ops := by
  funext n
  rw [timesSet_append, h n]
  rfl

/-- An operation that leaves the store and the map as they are. -/
theorem Traced.reads {seed : Nat → Seed} {ops : List Op} {op : Op} (h : Traced vault seed store ops)
    (hset : ∀ name, op.isSet name = false) (hspec : (op.spec (specRun ops).2).2 = (specRun ops).2)
    (hperform : ∀ idSeed seed', op.perform vault idSeed seed' (run vault seed store ops).store =
      ((op.spec (specRun ops).2).1, (run vault seed store ops).store)) :
    Traced vault seed store (ops ++ [op]) := by
  have hrun : run vault seed store (ops ++ [op]) =
      ⟨(run vault seed store ops).replies ++ [(op.spec (specRun ops).2).1],
        (run vault seed store ops).store⟩ := by
    rw [run_append, Trace.next, hperform]
  refine ⟨?_, ?_, ?_, ?_⟩
  · rw [hrun, specRun_append, h.replies]
  · rw [hrun, List.length_append, List.length_append, h.length]
    rfl
  · rw [hrun, specRun_append, hspec, timesSet_other hset]
    exact h.simulates
  · intro n hn
    rw [hrun]
    refine h.unused n ?_
    rw [List.length_append] at hn
    omega

/-- An operation that succeeds, with what it leaves. -/
theorem Traced.writes {seed : Nat → Seed} {ops : List Op} {op : Op} {store' : Store}
    (h : Traced vault seed store ops) (hreply : (op.spec (specRun ops).2).1 = .ok .done)
    (hperform : op.perform vault (seed (2 * ops.length)) (seed (2 * ops.length + 1))
      (run vault seed store ops).store = (.ok .done, store'))
    (hsim : Simulates vault (op.spec (specRun ops).2).2 (timesSet (ops ++ [op])) store')
    (hunused : ∀ n, 2 * ops.length + 2 ≤ n → store'.secrets.lookup (.uuid (seed n)) = none ∧
      ∀ version, store'.secretVersions.lookup (.uuid (seed n), version) = none) :
    Traced vault seed store (ops ++ [op]) := by
  have hrun : run vault seed store (ops ++ [op]) =
      ⟨(run vault seed store ops).replies ++ [.ok .done], store'⟩ := by
    rw [run_append, Trace.next, h.length, hperform]
  refine ⟨?_, ?_, ?_, ?_⟩
  · rw [hrun, specRun_append, h.replies, hreply]
  · rw [hrun, List.length_append, List.length_append, h.length]
    rfl
  · rw [hrun, specRun_append]
    exact hsim
  · intro n hn
    rw [hrun]
    refine hunused n ?_
    rw [List.length_append] at hn
    simpa [Nat.mul_add] using hn

/-- What a write leaves unused. -/
theorem Simulates.Written.unused {name : String} {value : Bytes} {id : Ident} {new : SecretRow}
    {s s' : Store} (hw : Simulates.Written vault name value id new s s') {id' : Ident}
    (hne : id' ≠ id) (h : s.secrets.lookup id' = none ∧
      ∀ version, s.secretVersions.lookup (id', version) = none) :
    s'.secrets.lookup id' = none ∧ ∀ version, s'.secretVersions.lookup (id', version) = none := by
  refine ⟨(hw.other id' hne).trans h.1, ?_⟩
  intro version
  rw [← Option.not_isSome_iff_eq_none, hw.history]
  simp [hne, h.2 version]

theorem Traced.set {draws : Draws store} {ops : List Op} {name : String} {value : Bytes}
    (h : Traced vault draws.seed store ops) (hmax : (timesSet ops name : Int) < i64Max) :
    Traced vault draws.seed store (ops ++ [.set name value]) ∧
      ∀ id row, vault.Names (run vault draws.seed store ops).store id row name → ∃ row',
        vault.Names (run vault draws.seed store (ops ++ [.set name value])).store id row' name ∧
          row'.version = row.version + 1 := by
  obtain ⟨hsecret, hhistory⟩ := h.unused (2 * ops.length) (Nat.le_refl _)
  obtain ⟨id, new, store', hset, hw, hnext, hid, hsim⟩ := @Simulates.set vault _ _ _ name value
    (draws.seed (2 * ops.length)) (draws.seed (2 * ops.length + 1)) h.simulates hmax hsecret hhistory
  have hperform : Op.perform vault (draws.seed (2 * ops.length)) (draws.seed (2 * ops.length + 1))
      (.set name value) (run vault draws.seed store ops).store = (.ok .done, store') := by
    rw [Op.perform, hset]
  constructor
  · refine h.writes rfl hperform ?_ ?_
    · rw [timesSet_set]
      exact hsim
    · intro n hn
      refine hw.unused ?_ (h.unused n (by omega))
      -- the secret that was written has an id of an earlier draw
      rintro rfl
      rcases hid with heq | ⟨row, hrow⟩
      · injection heq with heq
        have := draws.injective heq
        omega
      · have hnone := (h.unused n (by omega)).1
        rw [hrow.stored] at hnone
        cases hnone
  · intro id' row' hn
    obtain ⟨rfl, hversion⟩ := hnext id' row' hn
    refine ⟨new, ?_, hversion⟩
    rw [run_append, Trace.next, h.length]
    dsimp only
    rw [hperform]
    exact hw.names

theorem Traced.delete {seed : Nat → Seed} {ops : List Op} (name : String)
    (h : Traced vault seed store ops) : Traced vault seed store (ops ++ [.delete name]) := by
  by_cases hm : name ∈ (specRun ops).2
  · have hspec : Op.spec (.delete name) (specRun ops).2 = (.ok .done, (specRun ops).2.erase name) :=
      if_pos hm
    obtain ⟨store', hdelete, hversions, hsecrets, hsim⟩ := h.simulates.delete
      (fun hnone => (Finmap.lookup_eq_none.1 hnone) hm)
    have hperform : ∀ idSeed seed', Op.perform vault idSeed seed' (.delete name)
        (run vault seed store ops).store = (.ok .done, store') := by
      intro idSeed seed'
      rw [Op.perform, hdelete]
    refine h.writes (by rw [hspec]) (hperform _ _) ?_ ?_
    · rw [hspec, timesSet_other fun _ => rfl]
      exact hsim
    · intro n hn
      obtain ⟨hsecret, hhistory⟩ := h.unused n (by omega)
      refine ⟨?_, ?_⟩
      · rw [← Option.not_isSome_iff_eq_none, hsecrets, hsecret]
        simp
      · intro version
        rw [hversions]
        exact hhistory version
  · have hspec : Op.spec (.delete name) (specRun ops).2 =
        (.error (.notFound name), (specRun ops).2) := if_neg hm
    have hnone : (specRun ops).2.lookup name = none := Finmap.lookup_eq_none.2 hm
    refine h.reads (fun _ => rfl) (by rw [hspec]) ?_
    intro idSeed seed'
    rcases h.simulates.findByName_eq name with ⟨_, _, _, -, -, -, -, hsome⟩ | ⟨hfind, -⟩
    · rw [hnone] at hsome
      cases hsome
    · rw [hspec, Op.perform, Vault.delete, hfind]
      rfl

theorem Traced.get {seed : Nat → Seed} {ops : List Op} (name : String)
    (h : Traced vault seed store ops) : Traced vault seed store (ops ++ [.get name]) := by
  refine h.reads (fun _ => rfl) (by rw [Op.spec_get]) ?_
  intro idSeed seed'
  rw [Op.perform, h.simulates.get_eq, Op.spec_get]
  dsimp only
  cases (specRun ops).2.lookup name <;> rfl

theorem Traced.list {seed : Nat → Seed} {ops : List Op} (h : Traced vault seed store ops) :
    Traced vault seed store (ops ++ [.list]) := by
  refine h.reads (fun _ => rfl) rfl ?_
  intro idSeed seed'
  rw [Op.perform, h.simulates.listNames_eq]
  rfl

/-- An opened environment without secrets stands for the empty map. -/
theorem traced_nil {keypair : Keypair} {projectId : Ident} {envName : String} (draws : Draws store)
    (hopen : Vault.open store keypair projectId envName = .ok vault)
    (hempty : ∀ id row, store.secrets.lookup id = some row → row.envId ≠ vault.envId) :
    Traced vault draws.seed store [] := by
  have hnames : ∀ {id row name}, ¬ vault.Names store id row name :=
    fun h => hempty _ _ h.stored h.env
  obtain ⟨env, henv, -⟩ := open_eq_ok hopen
  have hlookup : store.environments.lookup vault.envId = some env :=
    Table.mem_rows.1 (List.mem_of_find?_eq_some henv)
  refine ⟨rfl, rfl, ⟨?_, ?_, ?_, ?_, ?_, ?_, ?_, ?_⟩, ?_⟩
  · show store.environments.lookup vault.envId ≠ none
    rw [hlookup]
    simp
  · intro id row hrow henv'
    exact absurd henv' (hempty id row hrow)
  · intro _ _ _ _ _ h
    exact absurd h hnames
  · intro name
    constructor
    · intro hne
      exact absurd rfl hne
    · rintro ⟨id, row, h⟩
      exact absurd h hnames
  · intro _ _ _ h
    exact absurd h hnames
  · intro _ _ _ h
    exact absurd h hnames
  · intro name value h
    rw [show (specRun []).2 = ∅ from rfl, Finmap.lookup_empty] at h
    cases h
  · intro _ _ _ h
    exact absurd h hnames
  · intro n _
    exact ⟨draws.noSecret n, draws.noHistory n⟩

/-- The simulation is kept by every operation, as long as no name runs out of versions. -/
theorem traced_run {keypair : Keypair} {projectId : Ident} {envName : String} (draws : Draws store)
    (hopen : Vault.open store keypair projectId envName = .ok vault)
    (hempty : ∀ id row, store.secrets.lookup id = some row → row.envId ≠ vault.envId)
    (ops : List Op) (hmax : ∀ name, (timesSet ops name : Int) ≤ i64Max) :
    Traced vault draws.seed store ops := by
  induction ops using List.reverseRecOn with
  | nil => exact traced_nil draws hopen hempty
  | append_singleton ops op ih =>
      have hle : ∀ name, (timesSet ops name : Int) ≤ i64Max := by
        intro name
        have := hmax name
        rw [timesSet_append] at this
        push_cast at this
        split at this <;> omega
      have hops := ih hle
      cases op with
      | set name value =>
          refine (hops.set ?_).1
          have := hmax name
          rw [timesSet_set, Function.update_self] at this
          push_cast at this
          omega
      | delete name => exact hops.delete name
      | get name => exact hops.get name
      | list => exact hops.list

end Run

/-- A sequence of operations shows what the finite map shows; a set of a name that was set before
keeps the secret and raises its version by one, and the history holds every version up to the
current one, of which there is one for each set of the name. -/
structure RefinesMap (vault : Vault) (seed : Nat → Seed) (store : Store) (ops : List Op) : Prop where
  replies : (run vault seed store ops).replies = (specRun ops).1
  keeps : ∀ ops' name value, ops = ops' ++ [.set name value] →
    ∀ id row, vault.Names (run vault seed store ops').store id row name → ∃ row',
      vault.Names (run vault seed store ops).store id row' name ∧ row'.version = row.version + 1
  history : ∀ id row, (run vault seed store ops).store.secrets.lookup id = some row →
    row.envId = vault.envId → ∃ name, vault.Names (run vault seed store ops).store id row name ∧
      row.version = timesSet ops name ∧
      ∀ version, ((run vault seed store ops).store.secretVersions.lookup (id, version)).isSome ↔
        1 ≤ version ∧ version ≤ row.version

/-- The local vault refines a finite map, in every sequence of operations that sets no name more
often than there are versions. -/
theorem refines_map {vault : Vault} {store : Store} {keypair : Keypair} {projectId : Ident}
    {envName : String} (draws : Draws store)
    (hopen : Vault.open store keypair projectId envName = .ok vault)
    (hempty : ∀ id row, store.secrets.lookup id = some row → row.envId ≠ vault.envId)
    (ops : List Op) (hmax : ∀ name, (timesSet ops name : Int) ≤ i64Max) :
    RefinesMap vault draws.seed store ops := by
  have htraced := traced_run draws hopen hempty ops hmax
  refine ⟨htraced.replies, ?_, ?_⟩
  · rintro ops' name value rfl
    have hle : ∀ n, (timesSet ops' n : Int) ≤ i64Max := by
      intro n
      have := hmax n
      rw [timesSet_append] at this
      push_cast at this
      split at this <;> omega
    have hlt : (timesSet ops' name : Int) < i64Max := by
      have := hmax name
      rw [timesSet_set, Function.update_self] at this
      push_cast at this
      omega
    exact ((traced_run draws hopen hempty ops' hle).set hlt).2
  · intro id row hrow henv
    obtain ⟨name, hshows⟩ := htraced.simulates.shown id row hrow henv
    have hn : vault.Names _ id row name := ⟨hrow, henv, hshows⟩
    exact ⟨name, hn, htraced.simulates.version hn, htraced.simulates.history hn⟩

/-! ### Runs on a device of the team -/

/-- The environment of the team, opened on a device of its first member. -/
def opened : Vault := ⟨Team.envId, .random Team.vaultKey 0⟩

theorem open_opened :
    Vault.open (Team.store Team.alice) (Team.keypair Team.alice) Team.projectId "dev" =
      .ok opened := by
  rfl

theorem no_secrets_of_team (id : Ident) (row : SecretRow)
    (h : (Team.store Team.alice).secrets.lookup id = some row) : row.envId ≠ opened.envId := by
  cases h

/-- The draws of another device. -/
def draws : Draws (Team.store Team.alice) where
  seed n := ⟨1, n⟩
  injective _ _ h := congrArg Seed.draw h
  noSecret _ := rfl
  noHistory _ _ := rfl

/-- A name is set, deleted and set again. -/
theorem refines_map_resurrection : RefinesMap opened draws.seed (Team.store Team.alice)
    [.set "TOKEN" Team.value, .delete "TOKEN", .get "TOKEN", .set "TOKEN" Team.value, .list] := by
  refine refines_map draws open_opened no_secrets_of_team _ fun name => ?_
  have hle := @List.countP_le_length Op (Op.isSet name)
    [.set "TOKEN" Team.value, .delete "TOKEN", .get "TOKEN", .set "TOKEN" Team.value, .list]
  simp only [timesSet, i64Max]
  simp only [List.length_cons, List.length_nil] at hle
  omega

theorem timesSet_replicate (n : Nat) (name name' : String) (value : Bytes) :
    timesSet (List.replicate n (.set name value)) name' = if name' = name then n else 0 := by
  unfold timesSet
  rw [List.countP_replicate]
  by_cases h : name' = name
  · subst h
    simp [Op.isSet]
  · have h' : name ≠ name' := fun heq => h heq.symm
    simp [Op.isSet, h, h']

/-- A name that is set once more than there are versions gets a version that is not the next. -/
theorem not_refines_map : ¬ ∀ ops, RefinesMap opened draws.seed (Team.store Team.alice) ops := by
  intro h
  obtain ⟨n, hn⟩ : ∃ n : Nat, (n : Int) = i64Max := ⟨0x7fffffffffffffff, rfl⟩
  have htraced := traced_run draws open_opened no_secrets_of_team
    (List.replicate n (.set "TOKEN" Team.value)) fun name => by
      rw [timesSet_replicate]
      split
      · exact hn.le
      · decide
  have htimes : timesSet (List.replicate n (.set "TOKEN" Team.value)) "TOKEN" = n := by
    rw [timesSet_replicate, if_pos rfl]
  have hne : n ≠ 0 := by
    rintro rfl
    cases hn
  obtain ⟨id, row, hrow⟩ := htraced.simulates.carried.1 (by rw [htimes]; exact hne)
  have hversion : row.version = i64Max := by
    rw [htraced.simulates.version hrow, htimes, hn]
  -- the version wraps, and the store accepts it
  have hfree : (run opened draws.seed (Team.store Team.alice)
      (List.replicate n (.set "TOKEN" Team.value))).store.secretVersions.lookup
        (id, i64Succ row.version) = none := by
    rw [← Option.not_isSome_iff_eq_none, htraced.simulates.history hrow, hversion]
    decide
  obtain ⟨row', hrow', hnext⟩ := (h _).keeps (List.replicate n (.set "TOKEN" Team.value)) "TOKEN"
    Team.value rfl id row hrow
  have hset : ∀ idSeed seed, opened.set idSeed seed "TOKEN" Team.value (run opened draws.seed
      (Team.store Team.alice) (List.replicate n (.set "TOKEN" Team.value))).store =
      .ok ((run opened draws.seed (Team.store Team.alice)
        (List.replicate n (.set "TOKEN" Team.value))).store.withVersion id (i64Succ row.version)
          (opened.encrypt seed id (i64Succ row.version) "TOKEN" Team.value)) := by
    intro idSeed seed
    rw [set, htraced.simulates.existing_some hrow]
    exact (Store.updateSecret_eq_ok hrow.stored).2 ⟨hfree, rfl⟩
  have hstored := hrow'.stored
  rw [run_append, Trace.next] at hstored
  dsimp only at hstored
  rw [Op.perform, hset] at hstored
  simp only [Store.withVersion, Table.lookup_modify_self, hrow.stored, Option.map_some,
    Option.some.injEq] at hstored
  subst hstored
  simp only [Store.newVersion, hversion] at hnext
  exact absurd hnext (by decide)

end Vault

end Cli

end Sotto
