import Sotto.Cli.Writes
import Sotto.Rules
import Sotto.Team

/-!
# The local history of a secret

An edit appends the version it writes to the history; a row that comes from the server
overwrites the current row, and is recorded only if the history does not have its version.
The current version is the one in the history as long as no row is applied at a version
that the device has written with other content.
-/

namespace Sotto

open Core Cli

/-- The current version of every secret is in the history, with the row's name and value. -/
def HistoryAgrees (store : Store) : Prop :=
  ∀ id row, store.secrets.lookup id = some row →
    ∃ v, store.secretVersions.lookup (id, row.version) = some v ∧
      v.encName = row.encName ∧ v.encValue = row.encValue

/-- No row of the server is applied at a version that the history has with other content. -/
def noForks : Limit where
  start _ _ _ _ := True
  exec _ c _ l _ _ _ :=
    match c with
    | .store (.putRemoteSecret _ secret) =>
        ∀ v, l.store.secretVersions.lookup (secret.id, secret.version) = some v →
          v.encName = secret.encName ∧ v.encValue = secret.encValue
    | _ => True
  finish _ _ _ _ _ := True

namespace HistoryAgrees

variable {store store' : Store}

theorem of_tables (h : HistoryAgrees store) (hs : store'.secrets = store.secrets)
    (hv : store'.secretVersions = store.secretVersions) : HistoryAgrees store' := by
  intro id row hrow
  rw [hs] at hrow
  rw [hv]
  exact h id row hrow

theorem withVersion (h : HistoryAgrees store) {id : Ident} {version : Int} {enc : SecretVersion}
    (hfree : store.secretVersions.lookup (id, version) = none) :
    HistoryAgrees (store.withVersion id version enc) := by
  intro id' row' hrow'
  by_cases hid : id' = id
  · subst hid
    simp only [Store.withVersion, Table.lookup_modify_self, Option.map_eq_some_iff] at hrow' ⊢
    obtain ⟨row, -, rfl⟩ := hrow'
    exact ⟨enc, AList.lookup_insert _, rfl, rfl⟩
  · simp only [Store.withVersion, Table.lookup_modify_of_ne hid] at hrow' ⊢
    obtain ⟨v, hv, hagree⟩ := h id' row' hrow'
    refine ⟨v, ?_, hagree⟩
    rw [Table.lookup_insert, if_neg, hv]
    rintro heq
    rw [heq, hfree] at hv
    cases hv

theorem withSecret (h : HistoryAgrees store) {id envId : Ident} {enc : SecretVersion} :
    HistoryAgrees (store.withSecret id envId enc) := by
  intro id' row' hrow'
  by_cases hid : id' = id
  · subst hid
    simp only [Store.withSecret, AList.lookup_insert, Option.some.injEq] at hrow' ⊢
    subst hrow'
    exact ⟨enc, AList.lookup_insert _, rfl, rfl⟩
  · simp only [Store.withSecret, AList.lookup_insert_ne hid] at hrow' ⊢
    obtain ⟨v, hv, hagree⟩ := h id' row' hrow'
    refine ⟨v, ?_, hagree⟩
    rw [Table.lookup_insert, if_neg, hv]
    rintro heq
    exact hid (congrArg Prod.fst heq)

theorem withTombstone (h : HistoryAgrees store) {id : Ident} :
    HistoryAgrees (store.withTombstone id) := by
  intro id' row' hrow'
  simp only [Store.withTombstone, Table.lookup_modify] at hrow' ⊢
  split at hrow'
  · obtain ⟨row, hrow, rfl⟩ := Option.map_eq_some_iff.1 hrow'
    exact h id' row hrow
  · exact h id' row' hrow'

theorem replaceSecret (h : HistoryAgrees store) {envId : Ident} {secret : SyncSecret}
    (hfork : ∀ v, store.secretVersions.lookup (secret.id, secret.version) = some v →
      v.encName = secret.encName ∧ v.encValue = secret.encValue) :
    HistoryAgrees (store.replaceSecret envId secret) := by
  intro id' row' hrow'
  simp only [Store.replaceSecret] at hrow' ⊢
  by_cases hid : id' = secret.id
  · subst hid
    rw [AList.lookup_insert] at hrow'
    cases hrow'
    cases hv : store.secretVersions.lookup (secret.id, secret.version) with
    | some v => exact ⟨v, hv, hfork v hv⟩
    | none => exact ⟨_, AList.lookup_insert _, rfl, rfl⟩
  · rw [AList.lookup_insert_ne hid] at hrow'
    obtain ⟨v, hv, hagree⟩ := h id' row' hrow'
    refine ⟨v, ?_, hagree⟩
    split
    · exact hv
    · rw [Table.lookup_insert, if_neg, hv]
      intro heq
      exact hid (congrArg Prod.fst heq)

/-- A call of the store keeps the agreement, unless it applies a forked version. -/
theorem writes (h : HistoryAgrees store) {c : StoreCmd} (hw : c.Writes store store')
    (hfork : ∀ envId secret, c = .putRemoteSecret envId secret →
      ∀ v, store.secretVersions.lookup (secret.id, secret.version) = some v →
        v.encName = secret.encName ∧ v.encValue = secret.encValue) :
    HistoryAgrees store' := by
  cases hw with
  | nothing => exact h
  | granted => exact h.of_tables rfl rfl
  | replaced => exact h.replaceSecret (hfork _ _ rfl)
  | synced => exact h.of_tables rfl rfl
  | updated _ hfree => exact h.withVersion hfree
  | inserted _ => exact h.withSecret
  | deleted => exact h.withTombstone
  | identified => exact h.of_tables rfl rfl
  | projectCreated _ => exact h.of_tables rfl rfl
  | environmentCreated _ => exact h.of_tables rfl rfl

end HistoryAgrees

/-- A command of a device writes what one call of its store does, or leaves the store. -/
theorem Executes.writes {d : Nat} {c : Cmd} {s : Shared} {l : Device} {r : c.Reply}
    {s' : Shared} {l' : Device} (h : Executes d c s l r s' l') :
    l'.store = l.store ∨ ∃ c', c = .store c' ∧ c'.Writes l.store l'.store := by
  rcases h with h | ⟨-, -, rfl⟩
  · obtain rfl : (perform d c s l).2.2 = l' := congrArg (fun r => r.2.2) h
    cases c with
    | server stmt =>
        exact Or.inl (observe_same stmt (s.callServer stmt).1.toBool s.db (s.callServer stmt).2.db
          l).store
    | store c =>
        have hstore : (perform d (.store c) s l).2.2.store = (c.exec l.store).2 := by
          simp only [perform, Device.record]
          split <;> rfl
        refine Or.inr ⟨c, rfl, ?_⟩
        rw [hstore]
        exact StoreCmd.writes_exec c l.store
    | _ => exact Or.inl rfl
  · exact Or.inl rfl

theorem HistoryAgrees.executes {d : Nat} {c : Cmd} {s : Shared} {l : Device} {r : c.Reply}
    {s' : Shared} {l' : Device} (h : HistoryAgrees l.store) (he : Executes d c s l r s' l')
    (hlimit : noForks.exec d c s l r s' l') : HistoryAgrees l'.store := by
  rcases he.writes with hstore | ⟨c', rfl, hw⟩
  · rw [hstore]
    exact h
  · refine h.writes hw ?_
    rintro envId secret rfl
    exact hlimit

/-- The value that `get` returns is what the history's entry of the current version decrypts to
with the data key of the row. -/
theorem HistoryAgrees.get {store : Store} (h : HistoryAgrees store) {vault : Vault} {name : String}
    {value : Bytes} (hget : vault.get name store = .ok value) :
    ∃ id row v, store.secrets.lookup id = some row ∧
      store.secretVersions.lookup (id, row.version) = some v ∧
      vault.decryptName id ⟨row.envId, v.encName, v.encValue, row.encDataKey, row.version,
        row.deleted⟩ = .ok name ∧
      vault.decryptValue id ⟨row.envId, v.encName, v.encValue, row.encDataKey, row.version,
        row.deleted⟩ = .ok value := by
  rw [Vault.get, Cli.bind_eq_ok] at hget
  obtain ⟨found, hfound, hget⟩ := hget
  cases found with
  | none => cases hget
  | some found =>
      obtain ⟨id, row⟩ := found
      obtain ⟨hmem, hname⟩ := Vault.resolveName_eq_some hfound
      obtain ⟨hrow, -, -⟩ := Store.mem_secretRows.1 hmem
      obtain ⟨v, hv, hn, hval⟩ := h id row hrow
      refine ⟨id, row, v, hrow, hv, ?_, ?_⟩
      · rw [hn, hval]
        exact hname
      · rw [hn, hval]
        exact hget

/-- In every run in which no forked version is applied, the local history agrees with the local
rows, and its entry of the current version decrypts to what `get` returns. -/
theorem history_agrees (S : Setup) {w : Setup.World}
    (hw : (S.system.restrict noForks).Reaches S.init w) (d : Nat) :
    HistoryAgrees (w.threads d).own.store ∧
      ∀ (vault : Vault) name value, vault.get name (w.threads d).own.store = .ok value →
        ∃ id row v, (w.threads d).own.store.secrets.lookup id = some row ∧
          (w.threads d).own.store.secretVersions.lookup (id, row.version) = some v ∧
          vault.decryptName id ⟨row.envId, v.encName, v.encValue, row.encDataKey, row.version,
            row.deleted⟩ = .ok name ∧
          vault.decryptValue id ⟨row.envId, v.encName, v.encValue, row.encDataKey, row.version,
            row.deleted⟩ = .ok value := by
  have h : HistoryAgrees (w.threads d).own.store := by
    refine System.Reaches.own (I := fun l => HistoryAgrees l.store) ?_ ?_ ?_ ?_ hw
    · intro op s l l' h hs
      rw [hs.1]
      exact h
    · intro c s l r s' l' h he
      exact h.executes he.1 he.2
    · intro op a s l l' h hf
      rw [hf.1]
      exact h
    · intro id row hrow
      have hrow : (S.store d).secrets.lookup id = some row := hrow
      rw [(S.noSecrets d).1] at hrow
      cases hrow
  exact ⟨h, fun vault name value hget => h.get hget⟩

/-! ### Runs of the team -/

/-- Whether a store's history has other content for the current version of a live secret. -/
def historyDiffers (store : Store) : Bool :=
  store.secrets.rows.any fun e => !e.2.deleted &&
    (store.secretVersions.lookup (e.1, e.2.version)).all fun v => v.encValue ≠ e.2.encValue

theorem not_historyAgrees {store : Store} (h : historyDiffers store = true) :
    ¬ HistoryAgrees store := by
  simp only [historyDiffers, List.any_eq_true, Bool.and_eq_true] at h
  obtain ⟨⟨id, row⟩, hrow, -, hall⟩ := h
  intro hagrees
  obtain ⟨v, hv, -, hvalue⟩ := hagrees id row (Table.mem_rows.1 hrow)
  rw [hv, Option.all_some, decide_eq_true_eq] at hall
  exact hall hvalue

/-- Two devices write the next version of a secret with different values, one pushes its own
and rotates the key, and the other pulls. -/
def forkRun : List Move :=
  Team.whole 0 (.set "X" Team.value) ++ Team.whole 0 .push ++ Team.whole 1 .pull ++
  Team.whole 0 (.set "X" (.raw "2".toUTF8)) ++ Team.whole 1 (.set "X" (.raw "3".toUTF8)) ++
  Team.whole 1 .push ++ Team.whole 1 .rotate ++ Team.whole 0 .pull

set_option maxRecDepth 10000 in
/-- After a fork the history has another value for the current version of a live secret. -/
theorem history_disagrees : ∃ w, Team.setup.system.Reaches Team.setup.init w ∧
    (w.threads 0).running = none ∧ ¬ HistoryAgrees (w.threads 0).own.store := by
  refine ⟨Team.setup.run forkRun Team.setup.init, Setup.reaches_run, ?_, not_historyAgrees ?_⟩
  · refine Option.isNone_iff_eq_none.1 ?_
    decide +kernel
  · decide +kernel

/-- The check that no row of the server is applied to a store with history of its secret. -/
def firstVersions : Check where
  start _ _ _ _ := true
  exec _ c _ l :=
    match c with
    | .store (.putRemoteSecret _ secret) =>
        (l.store.secretVersions.lookup (secret.id, secret.version)).isNone
    | _ => true
  finish _ _ _ _ _ := true

theorem firstVersions_le : firstVersions.limit.Le noForks where
  start := fun _ => trivial
  exec := by
    rintro d c s l r s' l' ⟨h, -⟩
    simp only [noForks]
    split
    · intro v hv
      simp [firstVersions, hv] at h
    · trivial
  finish := fun _ => trivial

set_option maxRecDepth 10000 in
/-- A run under the condition: a device pulls two versions of a secret. -/
theorem history_agrees_pulled : ∃ store : Store, store.secretVersions.rows.length = 2 ∧
    HistoryAgrees store := by
  have hreaches : (Team.setup.system.restrict noForks).Reaches Team.setup.init
      (Team.setup.run (Team.whole 0 (.set "X" Team.value) ++ Team.whole 0 .push ++
        Team.whole 1 .pull ++ Team.whole 0 (.set "X" (.raw "2".toUTF8)) ++ Team.whole 0 .push ++
        Team.whole 1 .pull) Team.setup.init) :=
    (Setup.run_reaches (C := firstVersions) (by decide +kernel)).restrict_mono firstVersions_le
  refine ⟨_, ?_, (history_agrees Team.setup hreaches 1).1⟩
  decide +kernel

end Sotto
