import Sotto.Cli.Merge
import Sotto.Server.Effects

/-!
# The batch of a push

A push compares its rows with the rows of a snapshot by id. When the batch is accepted, the
server's row of each id is `pushed`: a live local row that is new or newer is uploaded, a local
tombstone deletes a live row, and every other row stays.
-/

namespace Sotto

open Core Cli

/-- The server row that a live local row becomes. -/
def upload (envId : Ident) (row : SecretRow) : Server.Secret :=
  ⟨envId, row.encName, row.encValue, row.encDataKey, row.version, false⟩

/-- The server's row of an id after a push, from the local row and the row before. -/
def pushed (envId : Ident) : Option SecretRow → Option Server.Secret → Option Server.Secret
  | none, remote => remote
  | some row, none => if row.deleted then none else some (upload envId row)
  | some row, some remote =>
      if row.deleted = false ∧ remote.version < row.version then some (upload envId row)
      else if row.deleted = true ∧ remote.deleted = false then some { remote with deleted := true }
      else some remote

/-- A live local row that is new or newer is uploaded. -/
theorem pushed_of_new {envId : Ident} {row : SecretRow} {remote : Option Server.Secret}
    (hlive : row.deleted = false) (hnew : ∀ r ∈ remote, r.version < row.version) :
    pushed envId (some row) remote = some (upload envId row) := by
  cases remote with
  | none => simp [pushed, hlive]
  | some r => simp [pushed, hlive, hnew r rfl]

/-- The changes that a store needs to write over the rows of a snapshot. -/
def changesFor (envId : Ident) (rows : List (Ident × Server.Secret)) (store : Store) :
    List Api.SecretChange :=
  (store.allSecrets envId).filterMap fun l =>
    changeOf l (serverEntry (rows.map Server.secretView) l.id)

/-- The row of a secret of an environment. -/
def Server.Db.secretIn (db : Server.Db) (envId id : Ident) : Option Server.Secret :=
  (db.secrets.lookup id).filter fun r => r.envId = envId

/-- The local row of a secret of an environment. -/
def Cli.Store.secretIn (store : Store) (envId id : Ident) : Option SecretRow :=
  (store.secrets.lookup id).filter fun row => row.envId = envId

section Entries

variable {envId id : Ident} {db : Server.Db} {store : Store}

theorem mem_secretsOf {r : Server.Secret} :
    (id, r) ∈ db.secretsOf envId ↔ db.secrets.lookup id = some r ∧ r.envId = envId := by
  simp [Server.Db.secretsOf, Table.mem_rows]

theorem nodup_secretsOf (db : Server.Db) (envId : Ident) :
    ((db.secretsOf envId).map Prod.fst).Nodup :=
  (Table.nodup_rows db.secrets).sublist (List.filter_sublist.map _)

theorem notMem_secretsOf (h : db.secrets.lookup id = none) :
    id ∉ (db.secretsOf envId).map Prod.fst := by
  intro hmem
  obtain ⟨⟨id', r⟩, hr, rfl⟩ := List.mem_map.1 hmem
  have := (mem_secretsOf.1 hr).1
  rw [h] at this
  cases this

theorem secretIn_eq_some {r : Server.Secret} :
    db.secretIn envId id = some r ↔ (id, r) ∈ db.secretsOf envId := by
  rw [mem_secretsOf, Server.Db.secretIn, Option.filter_eq_some_iff]
  simp

theorem secretIn_eq_lookup (hrows : ∀ r, db.secrets.lookup id = some r → r.envId = envId) :
    db.secretIn envId id = db.secrets.lookup id := by
  unfold Server.Db.secretIn
  cases hr : db.secrets.lookup id with
  | none => rfl
  | some r => simp [Option.filter, hrows r hr]

theorem store_secretIn_eq_some {row : SecretRow} :
    store.secretIn envId id = some row ↔
      store.secrets.lookup id = some row ∧ row.envId = envId := by
  rw [Store.secretIn, Option.filter_eq_some_iff]
  simp

theorem store_secretIn_eq_lookup
    (hlocal : ∀ row, store.secrets.lookup id = some row → row.envId = envId) :
    store.secretIn envId id = store.secrets.lookup id := by
  unfold Store.secretIn
  cases hr : store.secrets.lookup id with
  | none => rfl
  | some r => simp [Option.filter, hlocal r hr]

/-- The entry of an id in the snapshot of a database is its row in the environment. -/
theorem serverEntry_secretIn :
    serverEntry ((db.secretsOf envId).map Server.secretView) id =
      (db.secretIn envId id).map fun r => Server.secretView (id, r) := by
  unfold serverEntry
  cases hlookup : db.secretIn envId id with
  | none =>
      rw [Option.map_none, List.find?_eq_none]
      intro e he
      rw [List.mem_reverse, List.mem_map] at he
      obtain ⟨⟨id', r⟩, hmem, rfl⟩ := he
      intro hid
      obtain rfl : id' = id := of_decide_eq_true hid
      rw [secretIn_eq_some.2 hmem] at hlookup
      cases hlookup
  | some r =>
      have hmem : Server.secretView (id, r) ∈
          ((db.secretsOf envId).map Server.secretView).reverse := by
        rw [List.mem_reverse]
        exact List.mem_map_of_mem (secretIn_eq_some.1 hlookup)
      cases hfind : (((db.secretsOf envId).map Server.secretView).reverse.find?
          fun s => decide (s.id = id)) with
      | none =>
          have := List.find?_eq_none.1 hfind _ hmem
          simp [Server.secretView] at this
      | some e =>
          have he := List.mem_of_find?_eq_some hfind
          have hid : e.id = id := by simpa using List.find?_some hfind
          rw [List.mem_reverse, List.mem_map] at he
          obtain ⟨⟨id', r'⟩, hmem', rfl⟩ := he
          obtain rfl : id' = id := hid
          have hr' := secretIn_eq_some.2 hmem'
          rw [hlookup] at hr'
          cases hr'
          rfl

theorem changeOf_id {l : SyncSecret} {entry : Option Api.SecretEntry} {c : Api.SecretChange}
    (h : changeOf l entry = some c) : c.id = l.id := by
  unfold changeOf at h
  split at h
  · split at h
    · cases h
    · cases h
      rfl
  · split at h
    · cases h
      rfl
    · split at h
      · cases h
        rfl
      · cases h

theorem mem_changesFor {c : Api.SecretChange} :
    c ∈ changesFor envId (db.secretsOf envId) store ↔
      ∃ row, store.secretIn envId c.id = some row ∧
        changeOf (Store.syncSecret c.id row)
          ((db.secretIn envId c.id).map fun r => Server.secretView (c.id, r)) = some c := by
  simp only [changesFor, List.mem_filterMap, Store.allSecrets, List.mem_map, List.mem_filter,
    decide_eq_true_eq, store_secretIn_eq_some]
  constructor
  · rintro ⟨_, ⟨⟨id, row⟩, ⟨hmem, henv⟩, rfl⟩, hc⟩
    obtain rfl : c.id = id := changeOf_id hc
    rw [serverEntry_secretIn] at hc
    exact ⟨row, ⟨Table.mem_rows.1 hmem, henv⟩, hc⟩
  · rintro ⟨row, ⟨hrow, henv⟩, hc⟩
    refine ⟨_, ⟨(c.id, row), ⟨Table.mem_rows.2 hrow, henv⟩, rfl⟩, ?_⟩
    rw [serverEntry_secretIn]
    exact hc

theorem changeOf_of_new {row : SecretRow} {remote : Option Server.Secret}
    (hlive : row.deleted = false) (hnew : ∀ r ∈ remote, r.version < row.version) :
    changeOf (Store.syncSecret id row) (remote.map fun r => Server.secretView (id, r)) =
      some (setChange (Store.syncSecret id row)) := by
  cases remote with
  | none => simp [changeOf, Store.syncSecret, hlive]
  | some r => simp [changeOf, Store.syncSecret, Server.secretView, hlive, hnew r rfl]

/-- A `set` among the changes writes a live local row that is new or newer. -/
theorem set_of_mem_changesFor {c : Api.SecretChange}
    (hc : c ∈ changesFor envId (db.secretsOf envId) store) (hop : c.op = .set) :
    ∃ row, store.secretIn envId c.id = some row ∧ row.deleted = false ∧
      (∀ r ∈ db.secretIn envId c.id, r.version < row.version) ∧
      c = Api.SecretChange.set c.id row.version (.valid row.encName) (.valid row.encValue)
        (.valid row.encDataKey) := by
  obtain ⟨row, hrow, hchange⟩ := mem_changesFor.1 hc
  refine ⟨row, hrow, ?_⟩
  cases hr : db.secretIn envId c.id with
  | none =>
      rw [hr] at hchange
      simp only [Option.map_none, changeOf, Store.syncSecret] at hchange
      cases hd : row.deleted with
      | true => simp [hd] at hchange
      | false =>
          simp only [hd, Bool.false_eq_true, if_false, Option.some.injEq] at hchange
          exact ⟨rfl, by simp, hchange.symm⟩
  | some r =>
      rw [hr] at hchange
      simp only [Option.map_some, changeOf, Store.syncSecret, Server.secretView,
        Bool.and_eq_true, Bool.not_eq_true', decide_eq_true_eq, gt_iff_lt] at hchange
      split at hchange
      · next hnew => exact ⟨hnew.1, by simpa using hnew.2, (Option.some.inj hchange).symm⟩
      · split at hchange
        · rw [← Option.some.inj hchange] at hop
          cases hop
        · cases hchange

theorem nodup_changesFor (rows : List (Ident × Server.Secret)) :
    ((changesFor envId rows store).map Api.SecretChange.id).Nodup := by
  have hlocals : ((store.allSecrets envId).map SyncSecret.id).Nodup := by
    have hmap : (store.allSecrets envId).map SyncSecret.id =
        (store.secrets.rows.filter fun s => s.2.envId = envId).map Prod.fst := by
      simp [Store.allSecrets, Store.syncSecret, Function.comp_def]
    rw [hmap]
    exact (Table.nodup_rows store.secrets).sublist (List.filter_sublist.map _)
  refine hlocals.sublist ?_
  unfold changesFor
  generalize store.allSecrets envId = locals
  induction locals with
  | nil => exact List.Sublist.slnil
  | cons l locals ih =>
      rw [List.filterMap_cons]
      split
      · exact ih.cons _
      · next c hc =>
          rw [List.map_cons, List.map_cons, changeOf_id hc]
          exact ih.cons_cons _

/-- What a change makes of the server's row of its id. -/
theorem pushed_of_changeOf (id : Ident) {row : SecretRow} {remote : Option Server.Secret}
    (hremote : ∀ r ∈ remote, r.envId = envId) :
    pushed envId (some row) remote =
      match changeOf (Store.syncSecret id row)
          (remote.map fun r => Server.secretView (id, r)) with
      | none => remote
      | some c => if c.op = .set then some (upload envId row)
          else remote.map (Server.deleteRow envId) := by
  cases remote with
  | none =>
      cases hd : row.deleted with
      | true => simp [pushed, changeOf, Store.syncSecret, hd]
      | false => simp [pushed, changeOf, Store.syncSecret, hd, setChange, Api.SecretChange.set]
  | some r =>
      have henv : r.envId = envId := hremote r rfl
      simp only [pushed, Option.map_some, changeOf, Store.syncSecret, Server.secretView,
        Bool.and_eq_true, Bool.not_eq_true', decide_eq_true_eq, gt_iff_lt]
      split
      · simp [setChange, Api.SecretChange.set]
      · next h =>
          split
          · next h' =>
              simp [Api.SecretChange.delete, Server.deleteRow, henv]
          · rfl

/-- What the changes of a push make of the rows of the database they compare with. -/
theorem secretIn_of_applied {db' : Server.Db}
    (h : Server.BatchApplied envId (changesFor envId (db.secretsOf envId) store) db db') :
    db'.secretIn envId id =
      pushed envId (store.secretIn envId id) (db.secretIn envId id) := by
  have hremote : ∀ r ∈ db.secretIn envId id, r.envId = envId := by
    intro r hr
    exact (mem_secretsOf.1 (secretIn_eq_some.1 hr)).2
  by_cases hmem : id ∈ (changesFor envId (db.secretsOf envId) store).map Api.SecretChange.id
  · obtain ⟨c, hc, rfl⟩ := List.mem_map.1 hmem
    obtain ⟨row, hrow, hchange⟩ := mem_changesFor.1 hc
    rw [hrow, pushed_of_changeOf c.id hremote, hchange]
    dsimp only
    split
    · next hop =>
        obtain ⟨row', hrow', -, -, hcset⟩ := set_of_mem_changesFor hc hop
        obtain rfl : row = row' := Option.some.inj (hrow.symm.trans hrow')
        obtain ⟨n, v, k, hacc, hlookup⟩ := h.set c hc hop
        have hn := hacc.encName
        have hv := hacc.encValue
        have hk := hacc.encDataKey
        rw [hcset] at hn hv hk
        cases hn
        cases hv
        cases hk
        have hversion : c.version = row.version := by
          rw [hcset]
          rfl
        rw [Server.Db.secretIn, hlookup, Server.setRow, hversion]
        simp [upload, Option.filter]
    · next hop =>
        have hdelete : c.op = .delete := by
          cases hcop : c.op with
          | set => exact absurd hcop hop
          | delete => rfl
        rw [Server.Db.secretIn, h.delete c hc hdelete, Server.Db.secretIn]
        cases hr : db.secrets.lookup c.id with
        | none => rfl
        | some r =>
            by_cases henv : r.envId = envId
            · simp [Option.filter, Server.deleteRow, henv]
            · simp [Option.filter, Server.deleteRow, henv]
  · rw [Server.Db.secretIn, h.other id hmem, ← Server.Db.secretIn]
    cases hrow : store.secretIn envId id with
    | none => rfl
    | some row =>
        rw [pushed_of_changeOf id hremote]
        cases hc : changeOf (Store.syncSecret id row)
            ((db.secretIn envId id).map fun r => Server.secretView (id, r)) with
        | none => rfl
        | some c =>
            obtain rfl : c.id = id := changeOf_id hc
            exact absurd (List.mem_map_of_mem (mem_changesFor.2 ⟨row, hrow, hc⟩)) hmem

end Entries

end Sotto
