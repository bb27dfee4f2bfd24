import Sotto.Cli.Lookup
import Sotto.Library.Checked
import Sotto.Library.Overriding
import Mathlib.Data.String.Basic

/-!
# The entries of an environment

The entries that a vault lists are those of its live rows, in the order of the names. A set of a
name writes one row: it adds its entry to the list, or writes it over the one of that name, and
leaves what a search for any other name finds.
-/

namespace Sotto

namespace Cli

open Core

namespace Vault

variable {vault : Vault} {store store' : Store} {l : List (String × Bytes)} {e : String × Bytes}
  {id : Ident} {row new : SecretRow} {name : String} {value : Bytes} {idSeed seed : Seed}

theorem shows_of_decryptEntry (h : vault.decryptEntry id row = .ok e) :
    vault.Shows e.1 (id, row) := by
  obtain ⟨⟨nameBytes, value⟩, hsecret, h⟩ := bind_eq_ok.1 h
  obtain ⟨name, hname, h⟩ := bind_eq_ok.1 h
  obtain rfl : (name, value) = e := Except.ok.inj h
  rw [Error.ofCore_eq_ok] at hsecret
  obtain ⟨dataKey, hkey, hsecret⟩ := Checked.bind_eq_ok.1 hsecret
  obtain ⟨nameBytes', hopen, hsecret⟩ := Checked.bind_eq_ok.1 hsecret
  obtain ⟨value', -, hsecret⟩ := Checked.bind_eq_ok.1 hsecret
  obtain ⟨rfl, -⟩ := Prod.mk.inj (Except.ok.inj hsecret)
  have hdecrypt : Core.Vault.decryptName vault.vaultKey vault.envId id row.version row.encName
      row.encDataKey = .ok nameBytes' := Checked.bind_eq_ok.2 ⟨dataKey, hkey, hopen⟩
  exact bind_eq_ok.2 ⟨nameBytes', Error.ofCore_eq_ok.2 hdecrypt, hname⟩

/-- A row with the content of an encryption has its entry. -/
theorem decryptEntry_encrypt {version : Int}
    (hrow : (⟨row.encName, row.encValue, row.encDataKey⟩ : SecretVersion) =
      vault.encrypt seed id version name value)
    (hversion : row.version = version) : vault.decryptEntry id row = .ok (name, value) := by
  have hopens : Core.Vault.Opens vault.vaultKey vault.envId id version (nameBytes name) value
      (Core.Vault.encryptSecret seed vault.vaultKey vault.envId id version (nameBytes name)
        value) := Core.Vault.opens_encryptSecret seed
  have hsecret := hopens.decryptSecret_eq
  injection hrow with hn hv hk
  rw [decryptEntry, hn, hv, hk, hversion, hsecret]
  exact bind_eq_ok.2 ⟨_, rfl, bind_eq_ok.2 ⟨name, fromUtf8_nameBytes name, rfl⟩⟩

/-! ### Listing -/

/-- The live rows of the environment have the entries, each name once. -/
structure Lists (vault : Vault) (store : Store) (l : List (String × Bytes)) : Prop where
  ascends : Ascends Prod.fst l
  decrypts : ∀ row ∈ store.listSecrets vault.envId, ∃ e ∈ l, vault.decryptEntry row.1 row.2 = .ok e
  listed : ∀ e ∈ l, ∃ row ∈ store.listSecrets vault.envId, vault.decryptEntry row.1 row.2 = .ok e
  unique : ∀ row ∈ store.listSecrets vault.envId, ∀ row' ∈ store.listSecrets vault.envId,
    ∀ name, vault.Shows name row → vault.Shows name row' → row = row'

/-- The entry of a row. -/
def entryOf (vault : Vault) (row : Ident × SecretRow) : String × Bytes :=
  (vault.decryptEntry row.1 row.2).toOption.getD ("", .raw .empty)

theorem entryOf_eq {row : Ident × SecretRow} (h : vault.decryptEntry row.1 row.2 = .ok e) :
    vault.entryOf row = e := by
  rw [entryOf, h]
  rfl

theorem entries_of_decrypts
    (h : ∀ row ∈ store.listSecrets vault.envId, ∃ e, vault.decryptEntry row.1 row.2 = .ok e) :
    vault.entries store = .ok (((store.listSecrets vault.envId).map vault.entryOf).mergeSort
      fun a b => decide (a.1 ≤ b.1)) := by
  have hmap : (store.listSecrets vault.envId).mapM
      (fun row => vault.decryptEntry row.1 row.2) =
        .ok ((store.listSecrets vault.envId).map vault.entryOf) := by
    refine Checked.mapM_eq_ok fun row hrow => ?_
    obtain ⟨e, he⟩ := h row hrow
    rw [he, entryOf_eq he]
  rw [entries, hmap]
  rfl

theorem decrypts_of_entries (h : vault.entries store = .ok l) :
    ∀ row ∈ store.listSecrets vault.envId, ∃ e, vault.decryptEntry row.1 row.2 = .ok e := by
  obtain ⟨k, hk, -⟩ := bind_eq_ok.1 h
  intro row hrow
  obtain ⟨e, -, he⟩ := Checked.exists_of_mapM hk hrow
  exact ⟨e, he⟩

theorem nodup_secretRows {envId : Ident} {deleted : Bool} :
    (store.secretRows envId deleted).Nodup :=
  (List.Nodup.of_map _ (Table.nodup_rows store.secrets)).filter _

theorem ascends_mergeSort {l : List (String × Bytes)} (h : (l.map Prod.fst).Nodup) :
    Ascends Prod.fst (l.mergeSort fun a b => decide (a.1 ≤ b.1)) := by
  have hsorted : (l.mergeSort fun a b => decide (a.1 ≤ b.1)).Pairwise fun a b => a.1 ≤ b.1 := by
    refine (List.pairwise_mergeSort (fun a b c hab hbc => ?_) (fun a b => ?_) l).imp
      of_decide_eq_true
    · simpa using le_trans (of_decide_eq_true hab) (of_decide_eq_true hbc)
    · simpa using le_total a.1 b.1
  have hnodup : ((l.mergeSort fun a b => decide (a.1 ≤ b.1)).map Prod.fst).Nodup :=
    ((List.mergeSort_perm _ _).map Prod.fst).nodup_iff.mpr h
  exact (hsorted.and (List.pairwise_map.mp hnodup)).imp fun h => lt_of_le_of_ne h.1 h.2

theorem lists_of_entries (h : vault.entries store = .ok l) (hnodup : (l.map Prod.fst).Nodup) :
    vault.Lists store l := by
  have hdecrypts := decrypts_of_entries h
  rw [entries_of_decrypts hdecrypts] at h
  obtain rfl := Except.ok.inj h
  have hperm := List.mergeSort_perm ((store.listSecrets vault.envId).map vault.entryOf)
    fun a b => decide (a.1 ≤ b.1)
  rw [(hperm.map Prod.fst).nodup_iff] at hnodup
  refine ⟨ascends_mergeSort hnodup, fun row hrow => ?_, fun e he => ?_, ?_⟩
  · obtain ⟨e, he⟩ := hdecrypts row hrow
    rw [← entryOf_eq he] at he
    exact ⟨_, hperm.mem_iff.mpr (List.mem_map_of_mem hrow), he⟩
  · obtain ⟨row, hrow, rfl⟩ := List.mem_map.mp (hperm.mem_iff.mp he)
    obtain ⟨e, he⟩ := hdecrypts row hrow
    exact ⟨row, hrow, he.trans (congrArg _ (entryOf_eq he).symm)⟩
  · intro row hrow row' hrow' name hshows hshows'
    have hfirst : ∀ r ∈ store.listSecrets vault.envId, vault.Shows name r →
        (vault.entryOf r).1 = name := by
      intro r hr hshows
      obtain ⟨e, he⟩ := hdecrypts r hr
      have hown := shows_of_decryptEntry he
      rw [Shows] at hown hshows
      rw [entryOf_eq he]
      exact Except.ok.inj (hown.symm.trans hshows)
    rw [List.map_map] at hnodup
    refine List.inj_on_of_nodup_map hnodup hrow hrow' ?_
    exact (hfirst row hrow hshows).trans (hfirst row' hrow' hshows').symm

theorem Lists.entries (h : vault.Lists store l) : vault.entries store = .ok l := by
  have hdecrypts : ∀ row ∈ store.listSecrets vault.envId,
      ∃ e, vault.decryptEntry row.1 row.2 = .ok e := fun row hrow => by
    obtain ⟨e, -, he⟩ := h.decrypts row hrow
    exact ⟨e, he⟩
  have hnodup : (((store.listSecrets vault.envId).map vault.entryOf).map Prod.fst).Nodup := by
    rw [List.map_map]
    refine List.Nodup.map_on (fun row hrow row' hrow' heq => ?_) nodup_secretRows
    obtain ⟨e, he⟩ := hdecrypts row hrow
    obtain ⟨e', he'⟩ := hdecrypts row' hrow'
    rw [Function.comp_apply, Function.comp_apply, entryOf_eq he, entryOf_eq he'] at heq
    exact h.unique row hrow row' hrow' e.1 (shows_of_decryptEntry he)
      (heq ▸ shows_of_decryptEntry he')
  rw [entries_of_decrypts hdecrypts]
  refine congrArg Except.ok ((ascends_mergeSort hnodup).eq_of_mem_iff h.ascends fun e => ?_)
  rw [List.mem_mergeSort, List.mem_map]
  constructor
  · rintro ⟨row, hrow, rfl⟩
    obtain ⟨e, hmem, he⟩ := h.decrypts row hrow
    rwa [entryOf_eq he]
  · intro hmem
    obtain ⟨row, hrow, he⟩ := h.listed e hmem
    exact ⟨row, hrow, entryOf_eq he⟩

theorem entries_singleton {row : Ident × SecretRow}
    (h : store.listSecrets vault.envId = [row]) (he : vault.decryptEntry row.1 row.2 = .ok e) :
    vault.entries store = .ok [e] := by
  rw [entries_of_decrypts, h, List.map_singleton, List.mergeSort_singleton, entryOf_eq he]
  intro row' hrow'
  rw [h, List.mem_singleton] at hrow'
  exact ⟨e, hrow' ▸ he⟩

/-! ### Searching -/

/-- The search for a name goes past a row. -/
def passes (vault : Vault) (name : String) (row : Ident × SecretRow) : Bool :=
  match vault.decryptName row.1 row.2 with
  | .ok n => n ≠ name
  | .error _ => false

/-- A search depends on the rows that it does not go past. -/
theorem resolveName_filter (rows : List (Ident × SecretRow)) :
    vault.resolveName name (rows.filter fun row => !vault.passes name row) =
      vault.resolveName name rows := by
  induction rows with
  | nil => rfl
  | cons row rows ih =>
    cases hname : vault.decryptName row.1 row.2 with
    | error err =>
      have hpasses : vault.passes name row = false := by simp [passes, hname]
      simp [hpasses, hname, resolveName, bind, Except.bind]
    | ok n =>
      by_cases heq : n = name
      · have hpasses : vault.passes name row = false := by simp [passes, hname, heq]
        simp [hpasses, hname, resolveName, bind, Except.bind, heq]
      · have hpasses : vault.passes name row = true := by simp [passes, hname, heq]
        simp [hpasses, hname, resolveName, bind, Except.bind, heq, ih]

theorem passes_of_shows {row : Ident × SecretRow} {name' : String} (h : vault.Shows name' row)
    (hne : name' ≠ name) : vault.passes name row = true := by
  rw [Shows] at h
  rw [passes, h]
  exact decide_eq_true hne

theorem existing_singleton {row : Ident × SecretRow}
    (h : store.listSecrets vault.envId = [row]) (hshows : vault.Shows name row) :
    vault.existing name store = .ok (some row) := by
  have hfound : vault.findByName name store = .ok (some row) := by
    rw [Shows] at hshows
    simp [findByName, h, resolveName, hshows, bind, Except.bind, pure, Except.pure]
  rw [existing, hfound]
  rfl

/-! ### Setting -/

/-- What a set of a name writes: the row `new` of the secret `id`. -/
structure Sets (vault : Vault) (name : String) (value : Bytes) (id : Ident) (new : SecretRow)
    (store store' : Store) : Prop where
  tables : store' = { store with
    secrets := store'.secrets
    secretVersions := store'.secretVersions }
  stored : store'.secrets.lookup id = some new
  other : ∀ id', id' ≠ id → store'.secrets.lookup id' = store.secrets.lookup id'
  kept : ∀ p : Ident × SecretRow → Bool, p (id, new) = false →
    (∀ row, store.secrets.lookup id = some row → p (id, row) = false) →
    store'.secrets.rows.filter p = store.secrets.rows.filter p
  env : new.envId = vault.envId
  live : new.deleted = false
  entry : vault.decryptEntry id new = .ok (name, value)
  old : ∀ row, store.secrets.lookup id = some row →
    row.envId = vault.envId ∧ vault.Shows name (id, row) ∧ new.version = i64Succ row.version
  first : store.secrets.lookup id = none → new.version = 1
  free : store.secretVersions.lookup (id, new.version) = none
  history : store'.secretVersions =
    AList.insert (id, new.version) ⟨new.encName, new.encValue, new.encDataKey⟩
      store.secretVersions
  chosen : ∀ row ∈ store.listSecrets vault.envId, vault.Shows name row →
    ∃ row' ∈ store.listSecrets vault.envId, row'.1 = id

/-- A name can be set: the search for it ends, and the version after that of the row that it
finds is not in the history. -/
def Settable (vault : Vault) (name : String) (store : Store) : Prop :=
  ∃ found, vault.existing name store = .ok found ∧ ∀ row ∈ found,
    store.secretVersions.lookup (row.1, i64Succ row.2.version) = none

theorem sets_of_update (hfound : vault.existing name store = .ok (some (id, row)))
    (hfree : store.secretVersions.lookup (id, i64Succ row.version) = none) :
    vault.Sets name value id (Store.newVersion (i64Succ row.version)
        (vault.encrypt seed id (i64Succ row.version) name value) row) store
      (store.withVersion id (i64Succ row.version)
        (vault.encrypt seed id (i64Succ row.version) name value)) where
  tables := rfl
  stored := by
    have hrow := (existing_eq_some hfound).1
    simp [Store.withVersion, hrow]
  other id' hid := Table.lookup_modify_of_ne hid _ _
  kept p hnew hold := by
    refine Table.filter_rows_modify fun v hv => ⟨hold v hv, ?_⟩
    obtain rfl : row = v := Option.some.inj ((existing_eq_some hfound).1.symm.trans hv)
    exact hnew
  env := (existing_eq_some hfound).2.1
  live := rfl
  entry := decryptEntry_encrypt rfl rfl
  old v hv := by
    obtain ⟨hrow, henv, hshows⟩ := existing_eq_some hfound
    obtain rfl : row = v := Option.some.inj (hrow.symm.trans hv)
    exact ⟨henv, hshows, rfl⟩
  first h := by
    rw [(existing_eq_some hfound).1] at h
    cases h
  free := hfree
  history := rfl
  chosen row' hmem hshows := by
    obtain ⟨live, hlive, h⟩ := bind_eq_ok.1 hfound
    cases live with
    | none =>
      obtain ⟨n, hn, hne⟩ := resolveName_eq_none hlive row' hmem
      rw [Shows, hn] at hshows
      exact absurd (Except.ok.inj hshows) hne
    | some found =>
      obtain rfl : found = (id, row) := Option.some.inj (Except.ok.inj h)
      exact ⟨_, (resolveName_eq_some hlive).1, rfl⟩

theorem sets_of_insert (hfound : vault.existing name store = .ok none)
    (hsecret : store.secrets.lookup (.uuid idSeed) = none)
    (hhistory : store.secretVersions.lookup (.uuid idSeed, 1) = none) :
    ∃ new, vault.Sets name value (.uuid idSeed) new store
      (store.withSecret (.uuid idSeed) vault.envId
        (vault.encrypt seed (.uuid idSeed) 1 name value)) := by
  generalize henc : vault.encrypt seed (.uuid idSeed) 1 name value = enc
  refine ⟨⟨vault.envId, enc.encName, enc.encValue, enc.encDataKey, 1, false⟩, ?_⟩
  exact {
    tables := rfl
    stored := AList.lookup_insert _
    other := fun id' hid => AList.lookup_insert_ne hid
    kept := fun p hnew _ => by
      rw [Store.withSecret, Table.rows_insert hsecret, List.filter_append]
      simp [hnew]
    env := rfl
    live := rfl
    entry := decryptEntry_encrypt henc.symm rfl
    old := fun row hrow => by
      rw [hsecret] at hrow
      cases hrow
    first := fun _ => rfl
    free := hhistory
    history := rfl
    chosen := fun row hmem hshows => by
      obtain ⟨hrow, henv, -⟩ := Store.mem_secretRows.1 hmem
      obtain ⟨n, hn, hne⟩ := existing_eq_none hfound row.1 row.2 hrow henv
      rw [Shows, hn] at hshows
      exact absurd (Except.ok.inj hshows) hne }

/-- A set that succeeds writes one row. -/
theorem sets_of_set
    (hhistory : store.secretVersions.lookup (.uuid idSeed, 1) = none)
    (h : vault.set idSeed seed name value store = .ok store') :
    ∃ id new, vault.Sets name value id new store store' ∧
      (id = .uuid idSeed ∨ store.secrets.lookup id ≠ none) := by
  rcases set_eq_ok h with ⟨id, row, hfound, hfree, rfl⟩ | ⟨hfound, hsecret, rfl⟩
  · refine ⟨id, _, sets_of_update hfound hfree, .inr ?_⟩
    rw [(existing_eq_some hfound).1]
    exact Option.some_ne_none row
  · obtain ⟨new, hsets⟩ := sets_of_insert hfound hsecret hhistory
    exact ⟨_, new, hsets, .inl rfl⟩

/-- A set succeeds when the name can be set. -/
theorem set_isOk_iff (henv : store.environments.lookup vault.envId ≠ none)
    (hsecret : store.secrets.lookup (.uuid idSeed) = none)
    (hhistory : store.secretVersions.lookup (.uuid idSeed, 1) = none) :
    (∃ store', vault.set idSeed seed name value store = .ok store') ↔
      vault.Settable name store := by
  constructor
  · rintro ⟨store', h⟩
    rcases set_eq_ok h with ⟨id, row, hfound, hfree, -⟩ | ⟨hfound, -, -⟩
    · exact ⟨some (id, row), hfound, by simpa using hfree⟩
    · exact ⟨none, hfound, by simp⟩
  · rintro ⟨found, hfound, hfree⟩
    rw [set, hfound]
    cases found with
    | none => exact ⟨_, Store.insertSecret_eq_ok.2 ⟨henv, hsecret, hhistory, rfl⟩⟩
    | some found =>
      obtain ⟨id, row⟩ := found
      have hrow := (existing_eq_some hfound).1
      exact ⟨_, (Store.updateSecret_eq_ok hrow).2 ⟨hfree _ rfl, rfl⟩⟩

namespace Sets

theorem shows (h : vault.Sets name value id new store store') : vault.Shows name (id, new) :=
  shows_of_decryptEntry h.entry

theorem secretRows (h : vault.Sets name value id new store store') {envId : Ident}
    (hne : envId ≠ vault.envId) {deleted : Bool} :
    store'.secretRows envId deleted = store.secretRows envId deleted := by
  refine h.kept _ ?_ fun row hrow => ?_
  · simp [h.env, hne.symm]
  · simp [(h.old row hrow).1, hne.symm]

/-- The search for another name finds the same. -/
theorem resolveName_secretRows (h : vault.Sets name value id new store store') {name' : String}
    (hne : name ≠ name') (deleted : Bool) :
    vault.resolveName name' (store'.secretRows vault.envId deleted) =
      vault.resolveName name' (store.secretRows vault.envId deleted) := by
  rw [← resolveName_filter (store'.secretRows vault.envId deleted),
    ← resolveName_filter (store.secretRows vault.envId deleted)]
  unfold Store.secretRows
  rw [List.filter_filter, List.filter_filter]
  congr 1
  refine h.kept _ ?_ fun row hrow => ?_
  · rw [passes_of_shows h.shows hne]
    rfl
  · rw [passes_of_shows (h.old row hrow).2.1 hne]
    rfl

theorem existing_eq (h : vault.Sets name value id new store store') {name' : String}
    (hne : name ≠ name') : vault.existing name' store' = vault.existing name' store := by
  unfold existing findByName findDeletedByName Store.listSecrets Store.listDeletedSecrets
  rw [h.resolveName_secretRows hne, h.resolveName_secretRows hne]

/-- A secret that shows another name is not the one that was written. -/
theorem ne_of_shows (h : vault.Sets name value id new store store') {name' : String}
    (hne : name ≠ name') {row : Ident × SecretRow}
    (hrow : store.secrets.lookup row.1 = some row.2) (hshows : vault.Shows name' row) :
    row.1 ≠ id := by
  rintro rfl
  have hold := (h.old row.2 hrow).2.1
  rw [Shows] at hold hshows
  exact hne (Except.ok.inj (hold.symm.trans hshows))

theorem settable_iff (h : vault.Sets name value id new store store') {name' : String}
    (hne : name ≠ name') : vault.Settable name' store' ↔ vault.Settable name' store := by
  unfold Settable
  rw [h.existing_eq hne]
  refine exists_congr fun found => and_congr_right fun hfound => forall₂_congr fun row hrow => ?_
  obtain rfl : found = some row := hrow
  obtain ⟨hstored, -, hshows⟩ := existing_eq_some hfound
  have hid := h.ne_of_shows hne hstored hshows
  rw [h.history, AList.lookup_insert_ne fun heq => hid (Prod.mk.inj heq).1]

theorem mem_listSecrets (h : vault.Sets name value id new store store') {row : Ident × SecretRow} :
    row ∈ store'.listSecrets vault.envId ↔
      row = (id, new) ∨ row ∈ store.listSecrets vault.envId ∧ row.1 ≠ id := by
  obtain ⟨id', row⟩ := row
  rw [Store.listSecrets, Store.listSecrets, Store.mem_secretRows, Store.mem_secretRows]
  by_cases hid : id' = id
  · subst hid
    rw [h.stored]
    constructor
    · rintro ⟨hrow, -⟩
      exact .inl (by rw [Option.some.inj hrow])
    · rintro (hrow | ⟨-, hne⟩)
      · obtain rfl := (Prod.mk.inj hrow).2
        exact ⟨rfl, h.env, h.live⟩
      · exact absurd rfl hne
  · rw [h.other id' hid]
    constructor
    · exact fun hrow => .inr ⟨hrow, hid⟩
    · rintro (hrow | ⟨hrow, -⟩)
      · exact absurd (Prod.mk.inj hrow).1 hid
      · exact hrow

/-- A live row other than the one that was written shows another name. -/
theorem not_shows (h : vault.Sets name value id new store store') (hl : vault.Lists store l)
    {row : Ident × SecretRow} (hrow : row ∈ store.listSecrets vault.envId) (hid : row.1 ≠ id) :
    ¬ vault.Shows name row := by
  intro hshows
  obtain ⟨row', hrow', rfl⟩ := h.chosen row hrow hshows
  have hold := (h.old row'.2 (Store.mem_secretRows.1 hrow').1).2.1
  exact hid (congrArg Prod.fst (hl.unique row hrow row' hrow' name hshows hold))

/-- A set writes its entry over the one of its name. -/
theorem lists (h : vault.Sets name value id new store store') (hl : vault.Lists store l) :
    vault.Lists store' (overriding [(name, value)] l) where
  ascends := ascends_overriding (by simp) hl.ascends
  decrypts row hrow := by
    rcases h.mem_listSecrets.mp hrow with rfl | ⟨hrow, hid⟩
    · exact ⟨_, mem_overriding.mpr (.inl List.mem_cons_self), h.entry⟩
    · obtain ⟨e, hmem, he⟩ := hl.decrypts row hrow
      refine ⟨e, mem_overriding.mpr (.inr ⟨hmem, ?_⟩), he⟩
      rw [List.map_cons, List.map_nil, List.mem_singleton]
      intro hname
      have hshows := shows_of_decryptEntry he
      rw [hname] at hshows
      exact h.not_shows hl hrow hid hshows
  listed e he := by
    rcases mem_overriding.mp he with he | ⟨he, hname⟩
    · obtain rfl := List.mem_singleton.mp he
      exact ⟨_, h.mem_listSecrets.mpr (.inl rfl), h.entry⟩
    · obtain ⟨row, hrow, hentry⟩ := hl.listed e he
      refine ⟨row, h.mem_listSecrets.mpr (.inr ⟨hrow, ?_⟩), hentry⟩
      refine h.ne_of_shows (fun heq => hname ?_) (Store.mem_secretRows.1 hrow).1
        (shows_of_decryptEntry hentry)
      simp [heq]
  unique row hrow row' hrow' n hn hn' := by
    have hnew : ∀ r ∈ store.listSecrets vault.envId, r.1 ≠ id → vault.Shows n r →
        ¬ vault.Shows n (id, new) := by
      intro r hr hid hshows hshows'
      have hname := h.shows
      rw [Shows] at hname hshows'
      obtain rfl : name = n := Except.ok.inj (hname.symm.trans hshows')
      exact h.not_shows hl hr hid hshows
    rcases h.mem_listSecrets.mp hrow with rfl | ⟨hrow, hid⟩
    · rcases h.mem_listSecrets.mp hrow' with rfl | ⟨hrow', hid'⟩
      · rfl
      · exact absurd hn (hnew row' hrow' hid' hn')
    · rcases h.mem_listSecrets.mp hrow' with rfl | ⟨hrow', hid'⟩
      · exact absurd hn' (hnew row hrow hid hn)
      · exact hl.unique row hrow row' hrow' n hn hn'

end Sets

end Vault

end Cli

end Sotto
