import Sotto.Cli.Vault

/-!
# What an edit does to the store

An edit through the vault changes one row of its environment. Setting a name
writes a new version over the row that carries it, live or tombstoned, or inserts
a first version under a fresh id when every row decrypts to another name;
deleting marks the row that carries the name.
-/

namespace Sotto

open Cli in
theorem fromUtf8_nameBytes (name : String) : Vault.fromUtf8 (Vault.nameBytes name) = .ok name := by
  have hutf : String.fromUTF8? name.toByteArray = some name := by
    unfold String.fromUTF8?
    rw [dif_pos name.isValidUTF8]
    rfl
  simp [Vault.fromUtf8, Vault.nameBytes, hutf]

namespace Cli

open Core

theorem Error.ofCore_eq_ok {α : Type} {x : Except Core.Error α} {a : α} :
    Error.ofCore x = .ok a ↔ x = .ok a := by
  cases x <;> simp [Error.ofCore]

theorem bind_eq_ok {α β : Type} {x : Except Error α} {f : α → Except Error β} {b : β} :
    (x >>= f) = .ok b ↔ ∃ a, x = .ok a ∧ f a = .ok b := by
  cases x <;> simp [bind, Except.bind]

namespace Store

theorem mem_secretRows {envId : Ident} {deleted : Bool} {store : Store} {id : Ident}
    {row : SecretRow} :
    (id, row) ∈ store.secretRows envId deleted ↔
      store.secrets.lookup id = some row ∧ row.envId = envId ∧ row.deleted = deleted := by
  simp [secretRows, Table.mem_rows]

/-- The row that a new version of a secret leaves. -/
def newVersion (version : Int) (enc : SecretVersion) (row : SecretRow) : SecretRow :=
  { row with
    encName := enc.encName
    encValue := enc.encValue
    encDataKey := enc.encDataKey
    version := version
    deleted := false }

/-- The store after a new version of a secret. -/
def withVersion (id : Ident) (version : Int) (enc : SecretVersion) (store : Store) : Store :=
  { store with
    secrets := store.secrets.modify id (newVersion version enc)
    secretVersions := AList.insert (id, version) enc store.secretVersions }

/-- The store after the first version of a secret. -/
def withSecret (id envId : Ident) (enc : SecretVersion) (store : Store) : Store :=
  { store with
    secrets := AList.insert id ⟨envId, enc.encName, enc.encValue, enc.encDataKey, 1, false⟩
      store.secrets
    secretVersions := AList.insert (id, 1) enc store.secretVersions }

/-- The store after a deletion. -/
def withTombstone (id : Ident) (store : Store) : Store :=
  { store with secrets := store.secrets.modify id fun row => { row with deleted := true } }

theorem snapshot_eq_ok {id : Ident} {version : Int} {enc : SecretVersion} {store store' : Store} :
    snapshot id version enc store = .ok store' ↔
      store.secretVersions.lookup (id, version) = none ∧
        { store with secretVersions := AList.insert (id, version) enc store.secretVersions } =
          store' := by
  unfold snapshot
  cases h : store.secretVersions.lookup (id, version) <;> simp

theorem updateSecret_eq_ok {id : Ident} {enc : SecretVersion} {store store' : Store}
    {row : SecretRow} (hrow : store.secrets.lookup id = some row) :
    store.updateSecret id (i64Succ row.version) enc = .ok store' ↔
      store.secretVersions.lookup (id, i64Succ row.version) = none ∧
        store.withVersion id (i64Succ row.version) enc = store' := by
  simp only [updateSecret, hrow, ne_eq, not_true_eq_false, if_false, snapshot_eq_ok]
  rfl

theorem insertSecret_eq_ok {id envId : Ident} {enc : SecretVersion} {store store' : Store} :
    store.insertSecret id envId enc = .ok store' ↔
      store.environments.lookup envId ≠ none ∧ store.secrets.lookup id = none ∧
        store.secretVersions.lookup (id, 1) = none ∧ store.withSecret id envId enc = store' := by
  unfold insertSecret
  cases he : store.environments.lookup envId with
  | none => simp
  | some env =>
      cases hs : store.secrets.lookup id with
      | some row => simp
      | none =>
          simp only [snapshot_eq_ok]
          simp [withSecret]

/-- The environment that a configuration names in a store. -/
theorem lookup_of_getEnvironment {store : Store} {projectId : Ident} {name : String}
    {envId : Ident} {env : Environment}
    (h : store.getEnvironment projectId name = some (envId, env)) :
    store.environments.lookup envId = some env ∧ env.projectId = projectId ∧ env.name = name := by
  have hmem := Table.mem_rows.1 (List.mem_of_find?_eq_some h)
  have hnamed := List.find?_some h
  simp only [Bool.decide_and, Bool.and_eq_true, decide_eq_true_eq] at hnamed
  exact ⟨hmem, hnamed⟩

theorem deleteSecret_eq_ok {id : Ident} {store store' : Store} :
    store.deleteSecret id = .ok store' ↔
      (∃ row, store.secrets.lookup id = some row ∧ row.deleted = false) ∧
        store.withTombstone id = store' := by
  unfold deleteSecret
  cases hs : store.secrets.lookup id with
  | none => simp
  | some row => cases hd : row.deleted <;> simp [withTombstone, hd]

end Store

namespace Vault

variable {vault : Vault} {name : String} {store store' : Store}

theorem resolveName_eq_some {rows : List (Ident × SecretRow)} {found : Ident × SecretRow}
    (h : vault.resolveName name rows = .ok (some found)) :
    found ∈ rows ∧ vault.decryptName found.1 found.2 = .ok name := by
  induction rows with
  | nil => cases h
  | cons row rows ih =>
      rw [resolveName, bind_eq_ok] at h
      obtain ⟨n, hn, h⟩ := h
      split at h
      · next hname =>
          obtain rfl : row = found := by simpa [pure, Except.pure] using h
          exact ⟨List.mem_cons_self, by rw [hn, hname]⟩
      · exact ⟨List.mem_cons_of_mem _ (ih h).1, (ih h).2⟩

theorem resolveName_eq_none {rows : List (Ident × SecretRow)}
    (h : vault.resolveName name rows = .ok none) :
    ∀ row ∈ rows, ∃ n, vault.decryptName row.1 row.2 = .ok n ∧ n ≠ name := by
  induction rows with
  | nil => simp
  | cons row rows ih =>
      rw [resolveName, bind_eq_ok] at h
      obtain ⟨n, hn, h⟩ := h
      split at h
      · simp [pure, Except.pure] at h
      · next hname =>
          intro r hr
          rcases List.mem_cons.1 hr with rfl | hr
          · exact ⟨n, hn, hname⟩
          · exact ih h r hr

/-- The row that a `set` writes over carries the name. -/
theorem existing_eq_some {found : Ident × SecretRow}
    (h : vault.existing name store = .ok (some found)) :
    store.secrets.lookup found.1 = some found.2 ∧ found.2.envId = vault.envId ∧
      vault.decryptName found.1 found.2 = .ok name := by
  rw [existing, bind_eq_ok] at h
  obtain ⟨live, hlive, h⟩ := h
  cases live with
  | some row =>
      obtain rfl : row = found := by simpa [pure, Except.pure] using h
      obtain ⟨hmem, hname⟩ := resolveName_eq_some hlive
      have := Store.mem_secretRows.1 hmem
      exact ⟨this.1, this.2.1, hname⟩
  | none =>
      obtain ⟨hmem, hname⟩ := resolveName_eq_some h
      have := Store.mem_secretRows.1 hmem
      exact ⟨this.1, this.2.1, hname⟩

/-- A `set` inserts only when every row decrypts to another name. -/
theorem existing_eq_none (h : vault.existing name store = .ok none) :
    ∀ id row, store.secrets.lookup id = some row → row.envId = vault.envId →
      ∃ n, vault.decryptName id row = .ok n ∧ n ≠ name := by
  rw [existing, bind_eq_ok] at h
  obtain ⟨live, hlive, h⟩ := h
  cases live with
  | some row => simp [pure, Except.pure] at h
  | none =>
      intro id row hrow henv
      cases hd : row.deleted with
      | false => exact resolveName_eq_none hlive (id, row) (Store.mem_secretRows.2 ⟨hrow, henv, hd⟩)
      | true => exact resolveName_eq_none h (id, row) (Store.mem_secretRows.2 ⟨hrow, henv, hd⟩)

/-- The two ways a `set` succeeds. -/
theorem set_eq_ok {idSeed seed : Seed} {value : Bytes}
    (h : vault.set idSeed seed name value store = .ok store') :
    (∃ id row, vault.existing name store = .ok (some (id, row)) ∧
      store.secretVersions.lookup (id, i64Succ row.version) = none ∧
      store' = store.withVersion id (i64Succ row.version)
        (vault.encrypt seed id (i64Succ row.version) name value)) ∨
    (vault.existing name store = .ok none ∧
      store.secrets.lookup (.uuid idSeed) = none ∧
      store' = store.withSecret (.uuid idSeed) vault.envId
        (vault.encrypt seed (.uuid idSeed) 1 name value)) := by
  rw [set, bind_eq_ok] at h
  obtain ⟨found, hfound, h⟩ := h
  cases found with
  | some found =>
      obtain ⟨id, row⟩ := found
      obtain ⟨hrow, -, -⟩ := existing_eq_some hfound
      obtain ⟨hfree, hstore⟩ := (Store.updateSecret_eq_ok hrow).1 h
      exact Or.inl ⟨id, row, hfound, hfree, hstore.symm⟩
  | none =>
      obtain ⟨-, hnew, -, hstore⟩ := Store.insertSecret_eq_ok.1 h
      exact Or.inr ⟨hfound, hnew, hstore.symm⟩

/-- A deletion marks a live row that carries the name. -/
theorem delete_eq_ok (h : vault.delete name store = .ok store') :
    ∃ id row, store.secrets.lookup id = some row ∧ row.envId = vault.envId ∧
      row.deleted = false ∧ vault.decryptName id row = .ok name ∧
      store' = store.withTombstone id := by
  rw [delete, bind_eq_ok] at h
  obtain ⟨found, hfound, h⟩ := h
  cases found with
  | none => cases h
  | some found =>
      obtain ⟨id, row⟩ := found
      obtain ⟨hmem, hname⟩ := resolveName_eq_some hfound
      obtain ⟨hrow, henv, hdel⟩ := Store.mem_secretRows.1 hmem
      obtain ⟨-, hstore⟩ := Store.deleteSecret_eq_ok.1 h
      exact ⟨id, row, hrow, henv, hdel, hname, hstore.symm⟩

theorem open_eq_ok {keypair : Keypair} {projectId : Ident} {envName : String}
    (h : Vault.open store keypair projectId envName = .ok vault) :
    ∃ env, store.getEnvironment projectId envName = some (vault.envId, env) ∧
      Core.Vault.openVaultKey keypair env.encVaultKey = .ok vault.vaultKey := by
  unfold Vault.open at h
  cases he : store.getEnvironment projectId envName with
  | none => simp [he] at h
  | some found =>
      obtain ⟨id, env⟩ := found
      simp only [he, bind_eq_ok, Error.ofCore_eq_ok, pure, Except.pure, Except.ok.injEq] at h
      obtain ⟨key, hkey, rfl⟩ := h
      exact ⟨env, rfl, hkey⟩

end Vault

end Cli

end Sotto
