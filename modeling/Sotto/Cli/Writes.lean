import Sotto.Cli.Device
import Sotto.Cli.Edits

/-!
# What the calls of the store write

Ten calls of the store can change it, and each of them changes it in one way when it succeeds:
the account keys, a new project or environment, a grant or a revision of an environment, the row
of a secret with a version of its history, or the mark of a deleted one.
-/

namespace Sotto

open Core

namespace Cli

namespace Store

/-- The store with another grant of an environment. -/
def withGrant (envId : Ident) (grant : Bytes) (store : Store) : Store :=
  { store with environments := store.environments.modify envId fun env =>
      { env with encVaultKey := grant } }

/-- The store with another revision of an environment. -/
def withRevision (envId : Ident) (revision : Int) (store : Store) : Store :=
  { store with syncState := AList.insert envId revision store.syncState }

/-- The store with a new project. -/
def withProject (id : Ident) (name : String) (store : Store) : Store :=
  { store with projects := AList.insert id name store.projects }

/-- The store with a new environment. -/
def withEnvironment (id : Ident) (env : Environment) (store : Store) : Store :=
  { store with environments := AList.insert id env store.environments }

@[simp] theorem syncedRevision_withRevision {envId : Ident} {revision : Int} {store : Store} :
    (store.withRevision envId revision).syncedRevision envId = revision := by
  simp [withRevision, syncedRevision]

theorem updateEnvVaultKey_eq_ok {envId : Ident} {grant : Bytes} {store store' : Store}
    (h : store.updateEnvVaultKey envId grant = .ok store') : store' = store.withGrant envId grant := by
  unfold updateEnvVaultKey at h
  split at h
  · cases h
  · exact (Except.ok.inj h).symm

theorem putRemoteSecret_eq_ok {envId : Ident} {secret : SyncSecret} {store store' : Store}
    (h : store.putRemoteSecret envId secret = .ok store') :
    store' = store.replaceSecret envId secret := by
  unfold putRemoteSecret at h
  split at h
  · cases h
  · exact (Except.ok.inj h).symm

theorem setSyncedRevision_eq_ok {envId : Ident} {revision : Int} {store store' : Store}
    (h : store.setSyncedRevision envId revision = .ok store') :
    store' = store.withRevision envId revision := by
  unfold setSyncedRevision at h
  split at h
  · cases h
  · exact (Except.ok.inj h).symm

theorem createProjectWithId_eq_ok {id : Ident} {name : String} {store store' : Store} :
    store.createProjectWithId id name = .ok store' ↔
      store.projects.lookup id = none ∧ store' = store.withProject id name := by
  unfold createProjectWithId
  split
  · next h => simp [h]
  · next h => simp [h, withProject, eq_comm]

theorem createEnvironment_eq_ok {id projectId : Ident} {name : String} {grant : Bytes}
    {store store' : Store} :
    store.createEnvironment id projectId name grant = .ok store' ↔
      store.environments.lookup id = none ∧ store.getEnvironment projectId name = none ∧
        store.projects.lookup projectId ≠ none ∧
        store' = store.withEnvironment id ⟨projectId, name, grant⟩ := by
  unfold createEnvironment
  split
  · next h => simp [h]
  · next h h' => simp [h, h']
  · next h h' hp => simp [h, h', hp]
  · next h h' hp => simp [h, h', hp, withEnvironment, eq_comm]

end Store

namespace StoreCmd

/-- The store after a call. -/
inductive Writes (store : Store) : StoreCmd → Store → Prop
  | nothing {c : StoreCmd} : Writes store c store
  | granted {envId : Ident} {grant : Bytes} :
      Writes store (.updateEnvVaultKey envId grant) (store.withGrant envId grant)
  | replaced {envId : Ident} {secret : SyncSecret} :
      Writes store (.putRemoteSecret envId secret) (store.replaceSecret envId secret)
  | synced {envId : Ident} {revision : Int} :
      Writes store (.setSyncedRevision envId revision) (store.withRevision envId revision)
  | updated {keypair : Keypair} {projectId : Ident} {envName : String} {idSeed seed : Seed}
      {name : String} {value : Bytes} {id : Ident} {row : SecretRow} {enc : SecretVersion} :
      store.secrets.lookup id = some row →
      store.secretVersions.lookup (id, i64Succ row.version) = none →
      Writes store (.vaultSet keypair projectId envName idSeed seed name value)
        (store.withVersion id (i64Succ row.version) enc)
  | inserted {keypair : Keypair} {projectId : Ident} {envName : String} {idSeed seed : Seed}
      {name : String} {value : Bytes} {envId : Ident} {enc : SecretVersion} :
      store.secrets.lookup (.uuid idSeed) = none →
      Writes store (.vaultSet keypair projectId envName idSeed seed name value)
        (store.withSecret (.uuid idSeed) envId enc)
  | deleted {keypair : Keypair} {projectId : Ident} {envName name : String} {id : Ident} :
      Writes store (.vaultDelete keypair projectId envName name) (store.withTombstone id)
  | identified {keys : AccountKeys} :
      Writes store (.putIdentityWithKeys keys) (store.putIdentityWithKeys keys)
  | projectCreated {id : Ident} {name : String} : store.projects.lookup id = none →
      Writes store (.createProjectWithId id name) (store.withProject id name)
  | environmentCreated {id projectId : Ident} {name : String} {grant : Bytes} :
      store.environments.lookup id = none →
      Writes store (.createEnvironment id projectId name grant)
        (store.withEnvironment id ⟨projectId, name, grant⟩)

/-- A call that can change the store changes it when it succeeds. -/
theorem write_cases (result : Except Cli.Error Store) (store : Store) :
    (∃ store', result = .ok store' ∧ write result store = (.ok (), store')) ∨
      ∃ e, write result store = (.error e, store) := by
  cases result with
  | ok store' => exact Or.inl ⟨store', rfl, rfl⟩
  | error e => exact Or.inr ⟨e, rfl⟩

theorem writes_write {c : StoreCmd} {result : Except Cli.Error Store} {store : Store}
    (h : ∀ store', result = .ok store' → Writes store c store') :
    Writes store c (write result store).2 := by
  cases result with
  | ok store' => exact h store' rfl
  | error e => exact .nothing

theorem writes_exec (c : StoreCmd) (store : Store) : Writes store c (c.exec store).2 := by
  cases c with
  | updateEnvVaultKey envId grant =>
      refine writes_write ?_
      intro store' hstore
      rw [Store.updateEnvVaultKey_eq_ok hstore]
      exact .granted
  | putRemoteSecret envId secret =>
      refine writes_write ?_
      intro store' hstore
      rw [Store.putRemoteSecret_eq_ok hstore]
      exact .replaced
  | setSyncedRevision envId revision =>
      refine writes_write ?_
      intro store' hstore
      rw [Store.setSyncedRevision_eq_ok hstore]
      exact .synced
  | vaultSet keypair projectId envName idSeed seed name value =>
      refine writes_write ?_
      intro store' hstore
      obtain ⟨vault, -, hset⟩ := Cli.bind_eq_ok.1 hstore
      rcases Vault.set_eq_ok hset with ⟨id, row, hfound, hfree, rfl⟩ | ⟨-, hnew, rfl⟩
      · exact .updated (Vault.existing_eq_some hfound).1 hfree
      · exact .inserted hnew
  | vaultDelete keypair projectId envName name =>
      refine writes_write ?_
      intro store' hstore
      obtain ⟨vault, -, hdelete⟩ := Cli.bind_eq_ok.1 hstore
      obtain ⟨id, row, -, -, -, -, rfl⟩ := Vault.delete_eq_ok hdelete
      exact .deleted
  | putIdentityWithKeys keys => exact .identified
  | createProjectWithId id name =>
      refine writes_write ?_
      intro store' hstore
      obtain ⟨hnew, rfl⟩ := Store.createProjectWithId_eq_ok.1 hstore
      exact .projectCreated hnew
  | createEnvironment id projectId name encVaultKey =>
      refine writes_write ?_
      intro store' hstore
      obtain ⟨hnew, -, -, rfl⟩ := Store.createEnvironment_eq_ok.1 hstore
      exact .environmentCreated hnew
  | _ => exact .nothing

end StoreCmd

end Cli

end Sotto
