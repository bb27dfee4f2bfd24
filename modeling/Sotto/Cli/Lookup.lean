import Sotto.Cli.Edits
import Mathlib.Data.List.Find

/-!
# Setting and getting where every name opens

In a store whose rows all show a name, resolving a name is a search. A set of the name then
succeeds as long as the history has a free place for the version it writes, and the value
it wrote is what a get finds: rows listed before the one that a set updates have other
names, and no other row has the name of one that it inserts or resurrects.
-/

namespace Sotto

namespace Cli

open Core

namespace Vault

variable {vault : Vault} {name : String} {store : Store}

/-- A row shows a name. -/
def Shows (vault : Vault) (name : String) (row : Ident × SecretRow) : Prop :=
  vault.decryptName row.1 row.2 = .ok name

instance : DecidablePred (vault.Shows name) :=
  fun row => inferInstanceAs (Decidable (vault.decryptName row.1 row.2 = .ok name))

theorem resolveName_eq_find {rows : List (Ident × SecretRow)}
    (h : ∀ row ∈ rows, ∃ n, vault.Shows n row) :
    vault.resolveName name rows = .ok (rows.find? fun row => vault.Shows name row) := by
  induction rows with
  | nil => rfl
  | cons row rows ih =>
      obtain ⟨n, hn⟩ := h row List.mem_cons_self
      have ih := ih fun row' hrow' => h row' (List.mem_cons_of_mem row hrow')
      have hn' : vault.decryptName row.1 row.2 = .ok n := hn
      rw [resolveName, hn', List.find?_cons]
      by_cases hname : n = name
      · subst hname
        simp [bind, Except.bind, pure, Except.pure, hn]
      · have hnot : ¬ vault.Shows name row := by
          intro hshows
          rw [Shows, hn'] at hshows
          exact hname (Except.ok.inj hshows)
        simp [bind, Except.bind, hname, hnot, ih]

/-- The one element that satisfies a condition is found. -/
theorem find?_eq_some_of_unique {α : Type} {p : α → Bool} {a : α} {l : List α} (ha : a ∈ l)
    (hp : p a = true) (h : ∀ b ∈ l, p b = true → b = a) : l.find? p = some a := by
  cases hfind : l.find? p with
  | none =>
      have := List.find?_eq_none.1 hfind a ha
      exact absurd hp this
  | some b => rw [h b (List.mem_of_find?_eq_some hfind) (List.find?_some hfind)]

/-- A row with the content of an encryption shows its name and its value. -/
theorem decrypts_encrypt {seed : Seed} {id : Ident} {version : Int} {value : Bytes}
    {row : SecretRow}
    (hrow : (⟨row.encName, row.encValue, row.encDataKey⟩ : SecretVersion) =
      vault.encrypt seed id version name value)
    (hversion : row.version = version) :
    vault.Shows name (id, row) ∧ vault.decryptValue id row = .ok value := by
  have hopens : Core.Vault.Opens vault.vaultKey vault.envId id version (nameBytes name) value
      (Core.Vault.encryptSecret seed vault.vaultKey vault.envId id version (nameBytes name)
        value) := Core.Vault.opens_encryptSecret seed
  have hname := hopens.decryptName_eq
  have hvalue := hopens.decryptValue_eq
  injection hrow with hn hv hk
  constructor
  · simp only [Shows, decryptName, hn, hk, hversion, hname]
    exact fromUtf8_nameBytes name
  · simp only [decryptValue, hv, hk, hversion, hvalue]
    rfl

/-- Every row of the vault's environment shows a name. -/
def AllShown (vault : Vault) (store : Store) : Prop :=
  ∀ id row, store.secrets.lookup id = some row → row.envId = vault.envId →
    ∃ n, vault.Shows n (id, row)

theorem AllShown.secretRows (h : vault.AllShown store) {deleted : Bool} :
    ∀ row ∈ store.secretRows vault.envId deleted, ∃ n, vault.Shows n row := by
  rintro ⟨id, row⟩ hmem
  obtain ⟨hrow, henv, -⟩ := Store.mem_secretRows.1 hmem
  exact h id row hrow henv

theorem AllShown.findByName (h : vault.AllShown store) :
    vault.findByName name store =
      .ok ((store.listSecrets vault.envId).find? fun row => vault.Shows name row) :=
  resolveName_eq_find h.secretRows

theorem AllShown.findDeletedByName (h : vault.AllShown store) :
    vault.findDeletedByName name store =
      .ok ((store.listDeletedSecrets vault.envId).find? fun row => vault.Shows name row) :=
  resolveName_eq_find h.secretRows

/-- A get finds what the search of the live rows finds. -/
theorem AllShown.get_eq {id : Ident} {row : SecretRow} {value : Bytes} (h : vault.AllShown store)
    (hfind : (store.listSecrets vault.envId).find? (fun row => vault.Shows name row) =
      some (id, row)) (hvalue : vault.decryptValue id row = .ok value) :
    vault.get name store = .ok value := by
  rw [get, h.findByName, hfind]
  exact hvalue

section Written

variable {id : Ident} {row new : SecretRow} {value : Bytes} {store' : Store}

/-- All rows are shown after one was written. -/
theorem AllShown.of_written (h : vault.AllShown store)
    (hother : ∀ id', id' ≠ id → store'.secrets.lookup id' = store.secrets.lookup id')
    (hnew : store'.secrets.lookup id = some new) (hshows : vault.Shows name (id, new)) :
    vault.AllShown store' := by
  intro id' row' hrow' henv
  by_cases hid : id' = id
  · subst hid
    rw [hnew] at hrow'
    cases hrow'
    exact ⟨name, hshows⟩
  · rw [hother id' hid] at hrow'
    exact h id' row' hrow' henv

/-- When no live row had the name, the one that was written is found. -/
theorem find_written (hnew : store'.secrets.lookup id = some new)
    (henv : new.envId = vault.envId) (hlive : new.deleted = false)
    (hother : ∀ id', id' ≠ id → store'.secrets.lookup id' = store.secrets.lookup id')
    (hshows : vault.Shows name (id, new))
    (hnone : ∀ row ∈ store.listSecrets vault.envId, ¬ vault.Shows name row) :
    (store'.listSecrets vault.envId).find? (fun row => vault.Shows name row) = some (id, new) := by
  refine find?_eq_some_of_unique (Store.mem_secretRows.2 ⟨hnew, henv, hlive⟩) (by simpa) ?_
  rintro ⟨id', row'⟩ hmem hshows'
  obtain ⟨hrow', henv', hlive'⟩ := Store.mem_secretRows.1 hmem
  by_cases hid : id' = id
  · subst hid
    rw [hnew] at hrow'
    cases hrow'
    rfl
  · rw [hother id' hid] at hrow'
    exact absurd (by simpa using hshows')
      (hnone (id', row') (Store.mem_secretRows.2 ⟨hrow', henv', hlive'⟩))

/-- A live row that is found by its name is found after it was updated. -/
theorem find_updated {version : Int} {enc : SecretVersion}
    (hfind : (store.listSecrets vault.envId).find? (fun row => vault.Shows name row) =
      some (id, row))
    (hshows : vault.Shows name (id, Store.newVersion version enc row)) :
    ((store.withVersion id version enc).listSecrets vault.envId).find?
        (fun row => vault.Shows name row) = some (id, Store.newVersion version enc row) := by
  obtain ⟨hrow, henv, hlive⟩ := Store.mem_secretRows.1 (List.mem_of_find?_eq_some hfind)
  have hrows : ∀ e ∈ store.secrets.rows, e.1 = id → e.2 = row := by
    rintro ⟨id', row'⟩ hmem rfl
    have := Table.mem_rows.1 hmem
    rw [hrow] at this
    exact (Option.some.inj this).symm
  -- the list is the one before with one row changed in its place
  have hlist : (store.withVersion id version enc).listSecrets vault.envId =
      (store.listSecrets vault.envId).map fun e =>
        if e.1 = id then (e.1, Store.newVersion version enc e.2) else e := by
    simp only [Store.listSecrets, Store.secretRows, Store.withVersion, Table.rows_modify,
      List.filter_map]
    congr 1
    apply List.filter_congr
    intro e he
    simp only [Function.comp_apply]
    split
    · next hid =>
        rw [hrows e he hid]
        simp [Store.newVersion, henv, hlive]
    · rfl
  have hagree : ∀ e ∈ store.listSecrets vault.envId,
      decide (vault.Shows name (if e.1 = id then (e.1, Store.newVersion version enc e.2) else e)) =
        decide (vault.Shows name e) := by
    intro e he
    have hmem : e ∈ store.secrets.rows := (List.mem_filter.1 he).1
    split
    · next hid =>
        have hfound := List.find?_some hfind
        obtain rfl : e = (id, row) := Prod.ext hid (hrows e hmem hid)
        rw [decide_eq_true hshows, hfound]
    · rfl
  rw [hlist, List.find?_map]
  have hsame : (store.listSecrets vault.envId).find?
      ((fun row => decide (vault.Shows name row)) ∘ fun e =>
        if e.1 = id then (e.1, Store.newVersion version enc e.2) else e) = some (id, row) := by
    rw [← hfind]
    exact List.find?_congr hagree
  rw [hsame]
  simp

end Written

/-- A set succeeds where every row shows a name and the history has a place for the version it
writes, and a get of the name then returns the value. -/
theorem set_get (idSeed seed : Seed) (name : String) (value : Bytes) (h : vault.AllShown store)
    (henv : store.environments.lookup vault.envId ≠ none)
    (hfresh : store.secrets.lookup (.uuid idSeed) = none ∧
      store.secretVersions.lookup (.uuid idSeed, 1) = none)
    (hfree : ∀ id row, store.secrets.lookup id = some row → row.envId = vault.envId →
      store.secretVersions.lookup (id, i64Succ row.version) = none) :
    ∃ store', vault.set idSeed seed name value store = .ok store' ∧
      vault.get name store' = .ok value := by
  have hupdate : ∀ id row, vault.existing name store = .ok (some (id, row)) →
      store.secrets.lookup id = some row → row.envId = vault.envId →
      vault.set idSeed seed name value store =
        .ok (store.withVersion id (i64Succ row.version)
          (vault.encrypt seed id (i64Succ row.version) name value)) := by
    intro id row hfound hrow henv'
    rw [set, hfound]
    exact (Store.updateSecret_eq_ok hrow).2 ⟨hfree id row hrow henv', rfl⟩
  have hwritten : ∀ id row,
      (Store.newVersion (i64Succ row.version)
        (vault.encrypt seed id (i64Succ row.version) name value) row).deleted = false ∧
      vault.Shows name (id, Store.newVersion (i64Succ row.version)
        (vault.encrypt seed id (i64Succ row.version) name value) row) ∧
      vault.decryptValue id (Store.newVersion (i64Succ row.version)
        (vault.encrypt seed id (i64Succ row.version) name value) row) = .ok value := by
    intro id row
    exact ⟨rfl, decrypts_encrypt rfl rfl⟩
  have hother : ∀ {id : Ident} {version : Int} {enc : SecretVersion} id', id' ≠ id →
      (store.withVersion id version enc).secrets.lookup id' = store.secrets.lookup id' :=
    fun id' hid => Table.lookup_modify_of_ne hid _ _
  have hnew : ∀ {id : Ident} {row : SecretRow} {version : Int} {enc : SecretVersion},
      store.secrets.lookup id = some row →
      (store.withVersion id version enc).secrets.lookup id =
        some (Store.newVersion version enc row) := by
    intro id row version enc hrow
    simp [Store.withVersion, hrow]
  cases hlive : (store.listSecrets vault.envId).find? fun row => vault.Shows name row with
  | some found =>
      obtain ⟨id, row⟩ := found
      obtain ⟨hrow, henv', -⟩ := Store.mem_secretRows.1 (List.mem_of_find?_eq_some hlive)
      have hfound : vault.existing name store = .ok (some (id, row)) := by
        rw [existing, h.findByName, hlive]
        rfl
      obtain ⟨-, hshows, hvalue⟩ := hwritten id row
      refine ⟨_, hupdate id row hfound hrow henv', ?_⟩
      exact (h.of_written hother (hnew hrow) hshows).get_eq (find_updated hlive hshows) hvalue
  | none =>
      have hnone : ∀ row ∈ store.listSecrets vault.envId, ¬ vault.Shows name row := by
        intro row hmem hshows
        exact List.find?_eq_none.1 hlive row hmem (by simpa using hshows)
      cases hdeleted : (store.listDeletedSecrets vault.envId).find? fun row =>
          vault.Shows name row with
      | some found =>
          obtain ⟨id, row⟩ := found
          obtain ⟨hrow, henv', -⟩ := Store.mem_secretRows.1 (List.mem_of_find?_eq_some hdeleted)
          have hfound : vault.existing name store = .ok (some (id, row)) := by
            rw [existing, h.findByName, hlive]
            exact h.findDeletedByName.trans (by rw [hdeleted])
          obtain ⟨hlive', hshows, hvalue⟩ := hwritten id row
          refine ⟨_, hupdate id row hfound hrow henv', ?_⟩
          exact (h.of_written hother (hnew hrow) hshows).get_eq
            (find_written (hnew hrow) henv' hlive' hother hshows hnone) hvalue
      | none =>
          have hfound : vault.existing name store = .ok none := by
            rw [existing, h.findByName, hlive]
            exact h.findDeletedByName.trans (by rw [hdeleted])
          obtain ⟨enc, henc⟩ : ∃ enc, vault.encrypt seed (.uuid idSeed) 1 name value = enc :=
            ⟨_, rfl⟩
          have hset : vault.set idSeed seed name value store =
              .ok (store.withSecret (.uuid idSeed) vault.envId enc) := by
            rw [set, hfound, ← henc]
            exact Store.insertSecret_eq_ok.2 ⟨henv, hfresh.1, hfresh.2, rfl⟩
          have hinserted : (store.withSecret (.uuid idSeed) vault.envId enc).secrets.lookup
              (.uuid idSeed) =
                some ⟨vault.envId, enc.encName, enc.encValue, enc.encDataKey, 1, false⟩ :=
            AList.lookup_insert _
          have hkept : ∀ id', id' ≠ .uuid idSeed →
              (store.withSecret (.uuid idSeed) vault.envId enc).secrets.lookup id' =
                store.secrets.lookup id' := fun id' hid => AList.lookup_insert_ne hid
          obtain ⟨hshows, hvalue⟩ : vault.Shows name (.uuid idSeed,
                ⟨vault.envId, enc.encName, enc.encValue, enc.encDataKey, 1, false⟩) ∧
              vault.decryptValue (.uuid idSeed)
                ⟨vault.envId, enc.encName, enc.encValue, enc.encDataKey, 1, false⟩ = .ok value :=
            decrypts_encrypt henc.symm rfl
          refine ⟨_, hset, ?_⟩
          exact (h.of_written hkept hinserted hshows).get_eq
            (find_written hinserted rfl rfl hkept hshows hnone) hvalue

end Vault

end Cli

end Sotto
