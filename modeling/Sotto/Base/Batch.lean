import Sotto.Base.Evolution
import Sotto.Cli.Batch

/-!
# The batch of a push of a linked environment

The databases and the stores of a linked environment have rows of that environment only, so the
rows of the environment are all rows.
-/

namespace Sotto

open Core Cli

section Entries

variable {S : Setup} {db : Server.Db} {store : Store} {id : Ident}

/-- The entry of an id in the snapshot of a database is its row. -/
theorem serverEntry_secretsOf (hrows : ∀ id r, db.secrets.lookup id = some r → r.envId = S.envId) :
    serverEntry ((db.secretsOf S.envId).map Server.secretView) id =
      (db.secrets.lookup id).map fun r => Server.secretView (id, r) := by
  rw [serverEntry_secretIn, secretIn_eq_lookup (hrows id)]

theorem mem_changesOf (hrows : ∀ id r, db.secrets.lookup id = some r → r.envId = S.envId)
    {c : Api.SecretChange} :
    c ∈ changesOf S (db.secretsOf S.envId) store ↔
      ∃ row, store.secrets.lookup c.id = some row ∧ row.envId = S.envId ∧
        changeOf (Store.syncSecret c.id row)
          ((db.secrets.lookup c.id).map fun r => Server.secretView (c.id, r)) = some c := by
  have h := @mem_changesFor S.envId db store c
  change c ∈ changesFor S.envId (db.secretsOf S.envId) store ↔ _
  simpa only [secretIn_eq_lookup (hrows c.id), store_secretIn_eq_some, and_assoc] using h

/-- A `set` among the changes writes a live local row that is new or newer. -/
theorem set_of_mem_changesOf
    (hrows : ∀ id r, db.secrets.lookup id = some r → r.envId = S.envId) {c : Api.SecretChange}
    (hc : c ∈ changesOf S (db.secretsOf S.envId) store) (hop : c.op = .set) :
    ∃ row, store.secrets.lookup c.id = some row ∧ row.deleted = false ∧
      (∀ r ∈ db.secrets.lookup c.id, r.version < row.version) ∧
      c = Api.SecretChange.set c.id row.version (.valid row.encName) (.valid row.encValue)
        (.valid row.encDataKey) := by
  obtain ⟨row, hrow, hlive, hnew, hcset⟩ := set_of_mem_changesFor hc hop
  rw [secretIn_eq_lookup (hrows c.id)] at hnew
  exact ⟨row, (store_secretIn_eq_some.1 hrow).1, hlive, hnew, hcset⟩

theorem nodup_changesOf (rows : List (Ident × Server.Secret)) :
    ((changesOf S rows store).map Api.SecretChange.id).Nodup :=
  nodup_changesFor rows

/-- What the changes of a push make of the rows of the database they compare with. -/
theorem lookup_of_applied {db' : Server.Db}
    (hrows : ∀ id r, db.secrets.lookup id = some r → r.envId = S.envId)
    (hlocal : ∀ id row, store.secrets.lookup id = some row → row.envId = S.envId)
    (h : Server.BatchApplied S.envId (changesOf S (db.secretsOf S.envId) store) db db') :
    db'.secrets.lookup id = pushed S.envId (store.secrets.lookup id) (db.secrets.lookup id) := by
  rw [← secretIn_eq_lookup (h.rows hrows id), secretIn_of_applied h,
    store_secretIn_eq_lookup (hlocal id), secretIn_eq_lookup (hrows id)]

/-- Without changes, the rows after a push are those before. -/
theorem pushed_of_unchanged
    (hrows : ∀ id r, db.secrets.lookup id = some r → r.envId = S.envId)
    (hlocal : ∀ id row, store.secrets.lookup id = some row → row.envId = S.envId)
    (hnil : changesOf S (db.secretsOf S.envId) store = []) (id : Ident) :
    db.secrets.lookup id = pushed S.envId (store.secrets.lookup id) (db.secrets.lookup id) := by
  refine lookup_of_applied hrows hlocal ?_
  rw [hnil]
  exact ⟨rfl, fun _ _ => rfl, by simp, by simp⟩

end Entries

end Sotto
