import Sotto.Base.Effects

/-!
# Edits of a sound device

A set or a deletion that succeeds has opened the rows it resolved the name with, so
the row it changes is sealed under the vault key the device holds and carries the
name. The row that a set writes is sealed under that key; a new secret's id was
never used.
-/

namespace Sotto

open Core Cli

section Names

variable {S : Setup} {created : List (Ident × String)} {id : Ident} {row : SecretRow}
  {vault : Vault} {name : String}

/-- A row sealed under a vault key shows its name under that key. -/
theorem decryptName_of_sealedUnder (henv : vault.envId = S.envId)
    (h : SealedUnder S created vault.vaultKey id row.version row.enc) :
    ∃ name, (id, name) ∈ created ∧ vault.decryptName id row = .ok name := by
  obtain ⟨name, value, hname, hopens⟩ := h
  refine ⟨name, hname, ?_⟩
  have := hopens.decryptName_eq
  simp only [SecretRow.enc] at this
  simp [Cli.Vault.decryptName, henv, this, Error.ofCore, bind, Except.bind, fromUtf8_nameBytes]

/-- A sealed row that shows a name under a vault key is sealed under that key, and the
name is the one its secret was created with. -/
theorem sealedUnder_of_decryptName (henv : vault.envId = S.envId)
    (h : Sealed S created id row.version row.enc) (hname : vault.decryptName id row = .ok name) :
    (id, name) ∈ created ∧ SealedUnder S created vault.vaultKey id row.version row.enc := by
  obtain ⟨key, name', value, hcreated, hopens⟩ := h
  simp only [Cli.Vault.decryptName, henv, Cli.bind_eq_ok, Cli.Error.ofCore_eq_ok] at hname
  obtain ⟨bytes, hbytes, hutf⟩ := hname
  have hkey : vault.vaultKey = key := by
    unfold Core.Vault.decryptName at hbytes
    cases hu : Core.Vault.unwrapDataKey vault.vaultKey S.envId id row.version row.encDataKey with
    | error e => simp [hu, bind, Except.bind] at hbytes
    | ok dataKey => exact hopens.unwrapDataKey_eq_ok hu
  have hdecrypt := hopens.decryptName_eq
  simp only [SecretRow.enc] at hdecrypt
  rw [hkey, hdecrypt] at hbytes
  obtain rfl := Except.ok.inj hbytes
  rw [fromUtf8_nameBytes] at hutf
  obtain rfl := Except.ok.inj hutf
  rw [hkey]
  exact ⟨hcreated, name', value, hcreated, hopens⟩

end Names

/-! ### New ids -/

theorem mem_newIds {before after : Store} {id : Ident} :
    id ∈ newIds before after ↔
      after.secrets.lookup id ≠ none ∧ before.secrets.lookup id = none := by
  simp only [newIds, List.mem_map, List.mem_filter, Prod.exists, Table.mem_rows]
  constructor
  · rintro ⟨id', row, ⟨hrow, hnone⟩, rfl⟩
    exact ⟨by simp [hrow], by simpa using hnone⟩
  · rintro ⟨hsome, hnone⟩
    obtain ⟨row, hrow⟩ := Option.ne_none_iff_exists'.1 hsome
    exact ⟨id, row, ⟨hrow, by simp [hnone]⟩, rfl⟩

theorem nodup_newIds (before after : Store) : (newIds before after).Nodup :=
  (Table.nodup_rows after.secrets).sublist (List.filter_sublist.map _)

theorem newIds_withVersion {store : Store} {id : Ident} {version : Int} {enc : SecretVersion} :
    newIds store (store.withVersion id version enc) = [] := by
  rw [List.eq_nil_iff_forall_not_mem]
  intro x hx
  obtain ⟨hsome, hnone⟩ := mem_newIds.1 hx
  simp only [Store.withVersion, Table.lookup_modify, hnone] at hsome
  split at hsome <;> simp at hsome

theorem mem_newIds_withSecret {store : Store} {id envId x : Ident} {enc : SecretVersion}
    (hid : store.secrets.lookup id = none) :
    x ∈ newIds store (store.withSecret id envId enc) ↔ x = id := by
  rw [mem_newIds]
  simp only [Store.withSecret, Table.lookup_insert]
  constructor
  · rintro ⟨hsome, hnone⟩
    by_contra hne
    rw [if_neg hne] at hsome
    exact hsome hnone
  · rintro rfl
    simp [hid]

/-! ### Sets and deletions -/

/-- The ciphertext of a history row. -/
def Cli.SecretVersion.enc (v : SecretVersion) : Core.Vault.EncryptedSecret :=
  ⟨v.encName, v.encValue, v.encDataKey⟩

/-- The two ways a set succeeds on a sound device: over the row of the name, or as a new
secret of a name that no row has. Both seal what they write under the held key. -/
inductive SetBy (S : Setup) (d : Nat) (s : Shared) (l : Device) (key : Bytes) (name : String)
    (value : Bytes) (store : Store) : Prop
  | update {id : Ident} {row : SecretRow} {enc : SecretVersion} :
      l.store.secrets.lookup id = some row → (id, name) ∈ s.created →
      SealedUnder S s.created key id row.version row.enc →
      l.store.secretVersions.lookup (id, i64Succ row.version) = none →
      Core.Vault.Opens key S.envId id (i64Succ row.version) (Vault.nameBytes name) value enc.enc →
      store = l.store.withVersion id (i64Succ row.version) enc → SetBy S d s l key name value store
  | insert {enc : SecretVersion} :
      l.store.secrets.lookup (.uuid ⟨d + 1, l.draws⟩) = none →
      (∀ id row, l.store.secrets.lookup id = some row →
        SealedUnder S s.created key id row.version row.enc) →
      Core.Vault.Opens key S.envId (.uuid ⟨d + 1, l.draws⟩) 1 (Vault.nameBytes name) value enc.enc →
      store = l.store.withSecret (.uuid ⟨d + 1, l.draws⟩) S.envId enc →
      SetBy S d s l key name value store

section Edits

variable {S : Setup} {d : Nat} {s : Shared} {l : Device} {grant key : Bytes} {name : String}
  {value : Bytes} {store : Store}

/-- Opening a device's environment gives the vault key of its grant. -/
theorem open_of_opened (ho : Opened S l.store grant) (hg : Holds S d s grant key) {vault : Vault}
    (h : Vault.open l.store (S.keypair (S.user d)) S.projectId S.envName = .ok vault) :
    vault = ⟨S.envId, key⟩ := by
  obtain ⟨env, henv, hkey⟩ := Vault.open_eq_ok h
  rw [ho.getEnvironment] at henv
  obtain ⟨hid, rfl⟩ := Prod.mk.inj (Option.some.inj henv)
  obtain ⟨ephemeral, rfl⟩ := hg.sealedTo
  have hvault : vault.vaultKey = key := by
    simp only [Core.Vault.openVaultKey, Wrap.openSealed, if_true, bind, Except.bind] at hkey
    split at hkey
    · exact (Except.ok.inj hkey).symm
    · cases hkey
  cases vault
  simp only at hid hvault
  rw [hid, hvault]

theorem setBy_of_setTo (hl : l.Sound S d s) (ho : Opened S l.store grant)
    (hg : Holds S d s grant key) (h : SetTo S d l name value store) :
    SetBy S d s l key name value store := by
  obtain ⟨vault, hopen, hset⟩ := h
  obtain rfl := open_of_opened ho hg hopen
  rcases Vault.set_eq_ok hset with ⟨id, row, hfound, hfree, rfl⟩ | ⟨hfound, hnew, rfl⟩
  · obtain ⟨hrow, -, hname⟩ := Vault.existing_eq_some hfound
    obtain ⟨-, hsealed, -⟩ := hl.rows id row hrow
    obtain ⟨hcreated, hunder⟩ := sealedUnder_of_decryptName rfl hsealed hname
    exact .update hrow hcreated hunder hfree (Core.Vault.opens_encryptSecret _) rfl
  · refine .insert hnew ?_ (Core.Vault.opens_encryptSecret _) rfl
    intro id row hrow
    obtain ⟨henv, hsealed, -⟩ := hl.rows id row hrow
    obtain ⟨n, hname, -⟩ := Vault.existing_eq_none hfound id row hrow henv
    exact (sealedUnder_of_decryptName rfl hsealed hname).2

/-- A deletion that succeeds on a sound device marks a live row of the name. -/
theorem deleteBy_of_deleteTo (hl : l.Sound S d s) (ho : Opened S l.store grant)
    (hg : Holds S d s grant key) (h : DeleteTo S d l name store) :
    ∃ id row, l.store.secrets.lookup id = some row ∧ row.deleted = false ∧
      (id, name) ∈ s.created ∧ SealedUnder S s.created key id row.version row.enc ∧
      store = l.store.withTombstone id := by
  obtain ⟨vault, hopen, hdelete⟩ := h
  obtain rfl := open_of_opened ho hg hopen
  obtain ⟨id, row, hrow, -, hlive, hname, hstore⟩ := Vault.delete_eq_ok hdelete
  obtain ⟨-, hsealed, -⟩ := hl.rows id row hrow
  obtain ⟨hcreated, hunder⟩ := sealedUnder_of_decryptName rfl hsealed hname
  exact ⟨id, row, hrow, hlive, hcreated, hunder, hstore⟩

/-- The ids that a set records as created: none, or the new secret's. -/
theorem SetBy.created (h : SetBy S d s l key name value store) :
    (∀ x ∈ (newIds l.store store).map (·, name), x = (.uuid ⟨d + 1, l.draws⟩, name)) := by
  cases h with
  | update _ _ _ _ _ hstore =>
      rw [hstore, newIds_withVersion]
      simp
  | insert hnew _ _ hstore =>
      intro x hx
      obtain ⟨id, hid, rfl⟩ := List.mem_map.1 hx
      rw [hstore, mem_newIds_withSecret hnew] at hid
      rw [hid]

/-- The row of an id after a set: the one before, or one the set sealed. -/
theorem SetBy.lookup (h : SetBy S d s l key name value store) {id : Ident} {row : SecretRow}
    (hrow : store.secrets.lookup id = some row) :
    l.store.secrets.lookup id = some row ∨
      (row.deleted = false ∧
        SealedUnder S (afterSet name l.store store s).created key id row.version row.enc ∧
        ((∃ row₀, l.store.secrets.lookup id = some row₀ ∧ row.envId = row₀.envId ∧
            row.version = i64Succ row₀.version ∧
            SealedUnder S s.created key id row₀.version row₀.enc) ∨
          (l.store.secrets.lookup id = none ∧ id = .uuid ⟨d + 1, l.draws⟩ ∧
            row.envId = S.envId ∧ row.version = 1))) := by
  cases h with
  | @update id' row₀ enc hrow₀ hcreated hunder _ hopens hstore =>
      subst hstore
      by_cases hid : id = id'
      · subst hid
        have hnew : Store.newVersion (i64Succ row₀.version) enc row₀ = row := by
          simpa [Store.withVersion, hrow₀] using hrow
        subst hnew
        refine Or.inr ⟨rfl, ?_, Or.inl ⟨row₀, hrow₀, rfl, rfl, hunder⟩⟩
        exact ⟨name, value, List.mem_append_right _ hcreated, hopens⟩
      · left
        simpa [Store.withVersion, Table.lookup_modify_of_ne hid] using hrow
  | @insert enc hnew _ hopens hstore =>
      by_cases hid : id = .uuid ⟨d + 1, l.draws⟩
      · right
        subst hid
        have hmem : Ident.uuid ⟨d + 1, l.draws⟩ ∈ newIds l.store store := by
          rw [hstore]
          exact (mem_newIds_withSecret hnew).2 rfl
        have hrow' : row = ⟨S.envId, enc.encName, enc.encValue, enc.encDataKey, 1, false⟩ := by
          rw [hstore] at hrow
          simpa [Store.withSecret] using hrow.symm
        subst hrow'
        refine ⟨rfl, ?_, Or.inr ⟨hnew, rfl, rfl, rfl⟩⟩
        exact ⟨name, value, List.mem_append_left _ (List.mem_map.2 ⟨_, hmem, rfl⟩), hopens⟩
      · left
        rw [hstore] at hrow
        simpa [Store.withSecret, Table.lookup_insert, hid] using hrow

/-- The row of an id after a deletion: the one before, or it marked as deleted. -/
theorem lookup_withTombstone {id id' : Ident} {row : SecretRow}
    (hrow : (l.store.withTombstone id).secrets.lookup id' = some row) :
    l.store.secrets.lookup id' = some row ∨
      ∃ row₀, id' = id ∧ l.store.secrets.lookup id = some row₀ ∧ row = { row₀ with deleted := true } := by
  by_cases hid : id' = id
  · subst hid
    right
    cases hrow₀ : l.store.secrets.lookup id' with
    | none => simp [Store.withTombstone, hrow₀] at hrow
    | some row₀ =>
        refine ⟨row₀, rfl, rfl, ?_⟩
        simpa [Store.withTombstone, hrow₀] using hrow.symm
  · left
    simpa [Store.withTombstone, Table.lookup_modify_of_ne hid] using hrow

/-- A set removes no row. -/
theorem SetBy.exists_lookup (h : SetBy S d s l key name value store) {id : Ident} {row : SecretRow}
    (hrow : l.store.secrets.lookup id = some row) :
    ∃ row', store.secrets.lookup id = some row' := by
  cases h with
  | @update id' row₀ enc _ _ _ _ _ hstore =>
      subst hstore
      by_cases hid : id = id'
      · subst hid
        simp [Store.withVersion, hrow]
      · exact ⟨row, by simpa [Store.withVersion, Table.lookup_modify_of_ne hid] using hrow⟩
  | @insert enc _ _ _ hstore =>
      subst hstore
      by_cases hid : id = .uuid ⟨d + 1, l.draws⟩
      · subst hid
        simp [Store.withSecret]
      · exact ⟨row, by simpa [Store.withSecret, Table.lookup_insert, hid] using hrow⟩

/-- A deletion removes no row. -/
theorem exists_lookup_withTombstone (id : Ident) {id' : Ident} {row : SecretRow}
    (hrow : l.store.secrets.lookup id' = some row) :
    ∃ row', (l.store.withTombstone id).secrets.lookup id' = some row' := by
  by_cases hid : id' = id
  · subst hid
    simp [Store.withTombstone, hrow]
  · exact ⟨row, by simpa [Store.withTombstone, Table.lookup_modify_of_ne hid] using hrow⟩

theorem SetBy.syncedRevision (h : SetBy S d s l key name value store) (envId : Ident) :
    store.syncedRevision envId = l.store.syncedRevision envId := by
  cases h with
  | update _ _ _ _ _ hstore => rw [hstore]; rfl
  | insert _ _ _ hstore => rw [hstore]; rfl

theorem SetBy.environments (h : SetBy S d s l key name value store) :
    store.environments = l.store.environments := by
  cases h with
  | update _ _ _ _ _ hstore => rw [hstore]; rfl
  | insert _ _ _ hstore => rw [hstore]; rfl

end Edits

/-! ### The shared state after a set -/

section AfterSet

variable {S : Setup} {d : Nat} {s : Shared} {l : Device} {grant key : Bytes} {name : String}
  {value : Bytes} {store : Store}

theorem evolves_afterSet : Evolves S s (afterSet name l.store store s) :=
  ⟨Or.inl ⟨rfl, rfl⟩, fun _ r hr => ⟨r, hr, RowLater.refl _ r⟩, List.suffix_rfl, fun _ _ => rfl,
    List.suffix_append _ _, fun _ => rfl⟩

theorem later_afterSet (h : SetBy S d s l key name value store) {i : Nat} (hne : i ≠ d) :
    Later S i s (afterSet name l.store store s) := by
  refine ⟨evolves_afterSet, fun _ hn => hn, fun _ hn => hn, ?_⟩
  intro n name' hmem
  rcases List.mem_append.1 hmem with hnew | hold
  · have := h.created _ hnew
    simp only [Prod.mk.injEq, Ident.uuid.injEq, Seed.mk.injEq] at this
    omega
  · exact hold

theorem sound_afterSet (h : SetBy S d s l key name value store) (hi : s.Sound S)
    (hl : l.Sound S d s) : (afterSet name l.store store s).Sound S := by
  have hevolves : Evolves S s (afterSet name l.store store s) := evolves_afterSet
  refine ⟨hi.linked, hi.keys, hi.nodup, hi.grants, ?_, ?_⟩
  · intro id r hr
    obtain ⟨henv, hsealed⟩ := hi.rows id r hr
    exact ⟨henv, hsealed.mono hevolves.created⟩
  · simp only [afterSet, List.map_append, List.map_map, Function.comp_def, List.map_id']
    rw [List.nodup_append']
    refine ⟨nodup_newIds _ _, hi.names, ?_⟩
    intro id hid hold
    have hnew := h.created (id, name) (List.mem_map.2 ⟨id, hid, rfl⟩)
    obtain ⟨⟨id', name'⟩, hmem, rfl⟩ := List.mem_map.1 hold
    simp only [Prod.mk.injEq] at hnew
    rw [hnew.1] at hmem
    exact (hl.fresh l.draws le_rfl).1 name' hmem

/-- A set keeps a device sound. -/
theorem Device.Sound.set (hl : l.Sound S d s) (h : SetBy S d s l key name value store) :
    ({ l.edited store with draws := l.draws + 2 } : Device).Sound S d
      (afterSet name l.store store s) := by
  have hevolves : Evolves S s (afterSet name l.store store s) := evolves_afterSet
  obtain ⟨grant, key', hopen, hholds⟩ := hl.grant
  refine ⟨⟨grant, key', hopen.of_environments h.environments, ⟨hholds.sealedTo, hholds.known,
    hholds.live⟩⟩, ?_, ?_⟩
  · intro id row hrow
    rcases h.lookup hrow with hold | ⟨-, hunder, hcases⟩
    · obtain ⟨henv, hsealed, horigin⟩ := hl.rows id row hold
      exact ⟨henv, hsealed.mono hevolves.created, horigin⟩
    · rcases hcases with ⟨row₀, hrow₀, henv, -, -⟩ | ⟨-, hid, henv, -⟩
      · obtain ⟨henv₀, -, horigin⟩ := hl.rows id row₀ hrow₀
        exact ⟨henv.trans henv₀, ⟨key, hunder⟩, horigin⟩
      · exact ⟨henv, ⟨key, hunder⟩, Or.inr ⟨_, hid⟩⟩
  · intro n hn
    have hn : l.draws + 2 ≤ n := hn
    obtain ⟨hcreated, hkey⟩ := hl.fresh n (by omega)
    refine ⟨?_, hkey⟩
    intro name' hmem
    rcases List.mem_append.1 hmem with hnew | hold
    · have := h.created _ hnew
      simp only [Prod.mk.injEq, Ident.uuid.injEq, Seed.mk.injEq] at this
      omega
    · exact hcreated name' hold

/-- A deletion keeps a device sound. -/
theorem Device.Sound.delete (hl : l.Sound S d s) {id : Ident} :
    (l.edited (l.store.withTombstone id)).Sound S d s := by
  obtain ⟨grant, key', hopen, hholds⟩ := hl.grant
  refine ⟨⟨grant, key', hopen.of_environments rfl, hholds⟩, ?_, hl.fresh⟩
  intro id' row hrow
  rcases lookup_withTombstone hrow with hold | ⟨row₀, rfl, hrow₀, rfl⟩
  · exact hl.rows id' row hold
  · exact hl.rows _ row₀ hrow₀

end AfterSet

end Sotto
