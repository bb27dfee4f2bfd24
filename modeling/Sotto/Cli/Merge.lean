import Sotto.Cli.Sync

/-!
# Merging a snapshot into the store

The effect of `applySnapshot` on the store, as a fold over the server's rows. The
rows of a snapshot have distinct ids, so the local row of an id is decided by the
server's row of that id alone: it is kept, or it becomes a copy of the server's.
Everything else in the store but the history is left alone.
-/

namespace Sotto

namespace Cli

open Core Api

/-- The local row that a server row becomes. -/
def localRow (envId : Ident) (r : Server.Secret) : SecretRow :=
  ⟨envId, r.encName, r.encValue, r.encDataKey, r.version, r.deleted⟩

/-- The sync engine's view of a server row. -/
def remoteSecret (remote : Ident × Server.Secret) : SyncSecret :=
  ⟨remote.1, remote.2.encName, remote.2.encValue, remote.2.encDataKey, remote.2.version,
    remote.2.deleted⟩

namespace Store

/-- Whether a server row is applied to the store. -/
def takes (envId : Ident) (force : Bool) (remote : Ident × Server.Secret) (store : Store) : Bool :=
  force || remoteWins (Server.secretView remote) (store.findSecret envId remote.1)

/-- A server row replaces a local row if it is newer, or a tombstone of the same version. -/
theorem takes_iff {store : Store} {envId id : Ident} {r : Server.Secret} {row : SecretRow}
    (hrow : store.secrets.lookup id = some row) (henv : row.envId = envId) :
    store.takes envId false (id, r) = true ↔
      row.version < r.version ∨ r.version = row.version ∧ r.deleted = true ∧ row.deleted = false := by
  by_cases hv : r.version = row.version
  · simp [takes, findSecret, hrow, henv, remoteWins, syncSecret, Server.secretView, hv]
  · simp [takes, findSecret, hrow, henv, remoteWins, syncSecret, Server.secretView, hv]

/-- Apply one server row. -/
def mergeRow (envId : Ident) (force : Bool) (remote : Ident × Server.Secret) (store : Store) :
    Store :=
  if store.takes envId force remote then store.replaceSecret envId (remoteSecret remote) else store

/-- Apply server rows in order. -/
def mergeAll (envId : Ident) (force : Bool) (rows : List (Ident × Server.Secret)) (store : Store) :
    Store :=
  rows.foldl (fun store remote => store.mergeRow envId force remote) store

variable {envId : Ident} {force : Bool} {remote : Ident × Server.Secret}
  {rows : List (Ident × Server.Secret)} {store : Store}

@[simp] theorem mergeAll_nil : mergeAll envId force [] store = store := rfl

@[simp] theorem mergeAll_cons :
    mergeAll envId force (remote :: rows) store =
      mergeAll envId force rows (store.mergeRow envId force remote) := rfl

theorem mergeAll_append (rows' : List (Ident × Server.Secret)) :
    mergeAll envId force (rows ++ rows') store =
      mergeAll envId force rows' (mergeAll envId force rows store) :=
  List.foldl_append

/-- The parts of a store that a merge leaves alone. -/
structure SameFrame (store store' : Store) : Prop where
  accountKeys : store'.accountKeys = store.accountKeys
  projects : store'.projects = store.projects
  environments : store'.environments = store.environments
  syncState : store'.syncState = store.syncState

theorem sameFrame_mergeRow : SameFrame store (store.mergeRow envId force remote) := by
  unfold mergeRow
  split <;> exact ⟨rfl, rfl, rfl, rfl⟩

theorem sameFrame_mergeAll : SameFrame store (mergeAll envId force rows store) := by
  induction rows generalizing store with
  | nil => exact ⟨rfl, rfl, rfl, rfl⟩
  | cons remote rows ih =>
      rw [mergeAll_cons]
      have h := @ih (store.mergeRow envId force remote)
      have h₁ : SameFrame store (store.mergeRow envId force remote) := sameFrame_mergeRow
      exact ⟨h.accountKeys.trans h₁.accountKeys, h.projects.trans h₁.projects,
        h.environments.trans h₁.environments, h.syncState.trans h₁.syncState⟩

/-! ### Rows -/

theorem lookup_mergeRow (id : Ident) :
    (store.mergeRow envId force remote).secrets.lookup id =
      if id = remote.1 ∧ store.takes envId force remote then some (localRow envId remote.2)
      else store.secrets.lookup id := by
  unfold mergeRow
  split
  · next ht =>
      rw [replaceSecret, Table.lookup_insert]
      by_cases hid : id = remote.1
      · rw [if_pos (show id = (remoteSecret remote).id from hid), if_pos ⟨hid, ht⟩]
        rfl
      · rw [if_neg (show ¬ id = (remoteSecret remote).id from hid), if_neg (fun h => hid h.1)]
  · next ht => rw [if_neg (fun h => ht h.2)]

theorem lookup_mergeAll_of_notMem {id : Ident} (h : id ∉ rows.map Prod.fst) :
    (mergeAll envId force rows store).secrets.lookup id = store.secrets.lookup id := by
  induction rows generalizing store with
  | nil => rfl
  | cons remote rows ih =>
      rw [List.map_cons, List.mem_cons, not_or] at h
      rw [mergeAll_cons, ih h.2, lookup_mergeRow, if_neg]
      simp [h.1]

theorem findSecret_congr {store' : Store} {id : Ident}
    (h : store'.secrets.lookup id = store.secrets.lookup id) :
    store'.findSecret envId id = store.findSecret envId id := by
  simp only [findSecret, h]

/-- The row of an id is a copy of the server's row if that is applied, and the
local one otherwise. -/
theorem lookup_mergeAll {id : Ident} {r : Server.Secret} (hnodup : (rows.map Prod.fst).Nodup)
    (h : (id, r) ∈ rows) :
    (mergeAll envId force rows store).secrets.lookup id =
      if store.takes envId force (id, r) then some (localRow envId r)
      else store.secrets.lookup id := by
  induction rows generalizing store with
  | nil => cases h
  | cons remote rows ih =>
      rw [List.map_cons, List.nodup_cons] at hnodup
      rw [mergeAll_cons]
      rcases List.mem_cons.1 h with rfl | h
      · rw [lookup_mergeAll_of_notMem hnodup.1, lookup_mergeRow]
        simp
      · have hne : id ≠ remote.1 := by
          rintro rfl
          exact hnodup.1 (List.mem_map.2 ⟨_, h, rfl⟩)
        have hlookup : (store.mergeRow envId force remote).secrets.lookup id =
            store.secrets.lookup id := by
          rw [lookup_mergeRow, if_neg]
          simp [hne]
        have htakes : (store.mergeRow envId force remote).takes envId force (id, r) =
            store.takes envId force (id, r) := by
          rw [takes, takes, findSecret_congr hlookup]
        rw [ih hnodup.2 h, hlookup, htakes]

/-- After a merge the row of an id is the one before, or a copy of the server's. -/
theorem lookup_mergeAll_cases (id : Ident) :
    (mergeAll envId force rows store).secrets.lookup id = store.secrets.lookup id ∨
      ∃ r, (id, r) ∈ rows ∧
        (mergeAll envId force rows store).secrets.lookup id = some (localRow envId r) := by
  induction rows generalizing store with
  | nil => exact Or.inl rfl
  | cons remote rows ih =>
      rw [mergeAll_cons]
      rcases @ih (store.mergeRow envId force remote) with h | ⟨r, hr, h⟩
      · rw [h, lookup_mergeRow]
        split
        · next hid =>
            refine Or.inr ⟨remote.2, ?_, rfl⟩
            rw [hid.1]
            exact List.mem_cons_self
        · exact Or.inl rfl
      · exact Or.inr ⟨r, List.mem_cons_of_mem _ hr, h⟩

/-! ### History -/

theorem lookup_secretVersions_mergeRow {key : Ident × Int} {v : SecretVersion}
    (h : (store.mergeRow envId force remote).secretVersions.lookup key = some v) :
    store.secretVersions.lookup key = some v ∨ key = (remote.1, remote.2.version) := by
  unfold mergeRow at h
  split at h
  · simp only [replaceSecret, remoteSecret] at h
    split at h
    · exact Or.inl h
    · rw [Table.lookup_insert] at h
      split at h
      · next hk => exact Or.inr hk
      · exact Or.inl h
  · exact Or.inl h

/-- A history row after a merge was there before, or is of the version of a server
row. -/
theorem lookup_secretVersions_mergeAll {key : Ident × Int} {v : SecretVersion}
    (h : (mergeAll envId force rows store).secretVersions.lookup key = some v) :
    store.secretVersions.lookup key = some v ∨ ∃ r, (key.1, r) ∈ rows ∧ key.2 = r.version := by
  induction rows generalizing store with
  | nil => exact Or.inl h
  | cons remote rows ih =>
      rw [mergeAll_cons] at h
      rcases ih h with h | ⟨r, hr, hv⟩
      · rcases lookup_secretVersions_mergeRow h with h | rfl
        · exact Or.inl h
        · exact Or.inr ⟨remote.2, List.mem_cons_self, rfl⟩
      · exact Or.inr ⟨r, List.mem_cons_of_mem _ hr, hv⟩

end Store

end Cli

end Sotto
