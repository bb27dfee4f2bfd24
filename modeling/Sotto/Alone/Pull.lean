import Sotto.Alone.Requests
import Sotto.Cli.Batch

/-!
# A pull of a device that is alone with the server

What a pull does to an arbitrary store against an arbitrary database. It fails before it writes
anything, or it has the server's revision already, or it merges the server's rows: by force if the
grant that the server answers has other bytes than the stored one.
-/

namespace Sotto

open Core Cli

namespace Site

section Steps

variable {api : HttpClient} {config : Config} {envId : Ident} {env : Environment}
  {grant : Bytes} {s : Site} {access : Ident × Server.ProjectAccess}

theorem exec_resolveEnv (h : s.store.getEnvironment config.projectId config.environment =
    some (envId, env)) : exec (resolveEnv config) s = (.ok (envId, env), s) := by
  have hget : exec (Action.store (.getEnvironment config.projectId config.environment)) s =
      (.ok (some (envId, env)), s) := by
    rw [exec_store, StoreCmd.exec, h]
  rw [resolveEnv, exec_bind_of_ok hget]
  rfl

theorem exec_resolveEnv_of_none
    (h : s.store.getEnvironment config.projectId config.environment = none) :
    exec (resolveEnv config) s =
      (.error (.notFound s!"environment `{config.environment}`"), s) := by
  have hget : exec (Action.store (.getEnvironment config.projectId config.environment)) s =
      (.ok none, s) := by
    rw [exec_store, StoreCmd.exec, h]
  rw [resolveEnv, exec_bind_of_ok hget]
  rfl

/-- Applying the rows of a snapshot merges them. -/
theorem exec_applySnapshot {force : Bool} {rows : List (Ident × Server.Secret)}
    (henv : s.store.environments.lookup envId = some env) :
    exec (applySnapshot envId force (rows.map Server.secretView)) s =
      (.ok (), { s with store := Store.mergeAll envId force rows s.store }) := by
  induction rows generalizing s with
  | nil => rfl
  | cons row rows ih =>
      have hfound : exec (Action.store (.findSecret envId row.1)) s =
          (.ok (s.store.findSecret envId row.1), s) := rfl
      rw [List.map_cons, applySnapshot]
      refine (exec_bind_of_ok hfound).trans ?_
      change exec (if force || remoteWins (Server.secretView row)
        (s.store.findSecret envId row.1) then _ else _) s = _
      rw [Store.mergeAll_cons, Store.mergeRow]
      split
      · next htakes =>
          have htakes : s.store.takes envId force row = true := htakes
          have hput : exec (Action.store (.putRemoteSecret envId (remoteSecret row))) s =
              (.ok (), { s with store := s.store.replaceSecret envId (remoteSecret row) }) := by
            rw [exec_store, StoreCmd.exec, Store.putRemoteSecret, henv]
            rfl
          rw [if_pos htakes]
          refine (exec_bind_of_ok (exec_ofExcept _)).trans ?_
          refine (exec_bind_of_ok (exec_ofExcept _)).trans ?_
          refine (exec_bind_of_ok (exec_ofExcept _)).trans ?_
          refine (exec_bind_of_ok hput).trans ?_
          exact ih henv
      · next htakes =>
          have htakes : ¬ s.store.takes envId force row = true := htakes
          rw [if_neg htakes]
          exact ih henv

theorem exec_setSyncedRevision {revision : Int}
    (henv : s.store.environments.lookup envId = some env) :
    exec (Action.store (.setSyncedRevision envId revision)) s =
      (.ok (), { s with store := s.store.withRevision envId revision }) := by
  rw [exec_store, StoreCmd.exec, Store.setSyncedRevision, henv]
  rfl

theorem exec_updateEnvVaultKey (henv : s.store.environments.lookup envId = some env) :
    exec (Action.store (.updateEnvVaultKey envId grant)) s =
      (.ok (), { s with store := s.store.withGrant envId grant }) := by
  rw [exec_store, StoreCmd.exec, Store.updateEnvVaultKey, henv]
  rfl

/-- The grant of an organisation's environment that a device adopts in place of its own. -/
def adoption (api : HttpClient) (config : Config) (envId : Ident) (grant : Bytes)
    (db : Server.Db) : Option Bytes :=
  if config.orgId.isSome then
    (db.grants.lookup (envId, api.userId)).filter fun answered => answered ≠ grant
  else none

/-- The store after the adoption step. -/
def adopt (envId : Ident) (adopted : Option Bytes) (store : Store) : Store :=
  match adopted with
  | some grant => store.withGrant envId grant
  | none => store

theorem lookup_adopt (henv : s.store.environments.lookup envId = some env) (adopted) :
    ∃ env', (adopt envId adopted s.store).environments.lookup envId = some env' := by
  cases adopted with
  | none => exact ⟨env, henv⟩
  | some grant =>
      refine ⟨{ env with encVaultKey := grant }, ?_⟩
      rw [adopt, Store.withGrant, Table.lookup_modify_self, henv]
      rfl

theorem exec_adoptIfOrg (haccess : Server.envAccess envId api.userId s.db = .ok access)
    (henv : s.store.environments.lookup envId = some env) :
    exec (adoptIfOrg api config envId grant) s =
      (.ok (adoption api config envId grant s.db).isSome,
        { s with store := adopt envId (adoption api config envId grant s.db) s.store }) := by
  unfold adoptIfOrg adoption
  split
  · refine (exec_bind_of_ok (exec_getGrant haccess)).trans ?_
    cases s.db.grants.lookup (envId, api.userId) with
    | none => rfl
    | some answered =>
        refine (exec_bind_of_ok (exec_ofExcept _)).trans ?_
        by_cases hsame : answered = grant
        · rw [if_pos hsame]
          simp [Option.filter, hsame, adopt]
        · rw [if_neg hsame, exec_bind_of_ok (exec_updateEnvVaultKey henv)]
          simp [Option.filter, hsame, adopt]
  · rfl

end Steps

/-! ### Pulls -/

section Pull

variable {api : HttpClient} {config : Config} {envId : Ident} {env : Environment}
  {remote : Server.Environment} {s s' : Site} {access : Ident × Server.ProjectAccess}

/-- The store after a pull. -/
def pulled (api : HttpClient) (config : Config) (envId : Ident) (grant : Bytes)
    (revision : Int) (s : Site) : Store :=
  if s.store.syncedRevision envId = revision then s.store
  else (Store.mergeAll envId (adoption api config envId grant s.db).isSome
    (s.db.secretsOf envId)
    (adopt envId (adoption api config envId grant s.db) s.store)).withRevision envId revision

theorem exec_pull (h : s.store.getEnvironment config.projectId config.environment =
      some (envId, env))
    (haccess : Server.envAccess envId api.userId s.db = .ok access)
    (hremote : s.db.environments.lookup envId = some remote) :
    exec (pull api config) s = (.ok remote.revision,
      { s with store := pulled api config envId env.encVaultKey remote.revision s }) := by
  have henv := (Store.lookup_of_getEnvironment h).1
  have hbase : exec (Action.store (.syncedRevision envId)) s =
      (.ok (s.store.syncedRevision envId), s) := rfl
  rw [pull, exec_bind_of_ok (exec_resolveEnv h)]
  refine (exec_bind_of_ok hbase).trans ?_
  refine (exec_bind_of_ok (exec_snapshot haccess hremote)).trans ?_
  unfold pulled
  by_cases hsame : s.store.syncedRevision envId = remote.revision
  · rw [if_pos (congrArg some hsame), if_pos hsame, hsame]
    rfl
  · rw [if_neg (fun heq => hsame (Option.some.inj heq)), if_neg hsame]
    obtain ⟨env', henv'⟩ := lookup_adopt henv (adoption api config envId env.encVaultKey s.db)
    refine (exec_bind_of_ok (exec_adoptIfOrg haccess henv)).trans ?_
    refine (exec_bind_of_ok (exec_applySnapshot henv')).trans ?_
    refine (exec_bind_of_ok (@exec_setSyncedRevision envId env' _ _ ?_)).trans ?_
    · rw [Store.sameFrame_mergeAll.environments]
      exact henv'
    · rfl

/-- A pull of an environment that the store does not have, or that the member cannot access. -/
theorem exec_pull_eq_error {e : Cli.Error}
    (h : s.store.getEnvironment config.projectId config.environment = none ∧
        e = .notFound s!"environment `{config.environment}`" ∨
      ∃ envId env e', s.store.getEnvironment config.projectId config.environment =
        some (envId, env) ∧ Server.envAccess envId api.userId s.db = .error e' ∧
        e = serverError e') :
    exec (pull api config) s = (.error e, s) := by
  rcases h with ⟨hnone, rfl⟩ | ⟨envId, env, e', hsome, haccess, rfl⟩
  · rw [pull, exec_bind_of_error (exec_resolveEnv_of_none hnone)]
  · have hbase : exec (Action.store (.syncedRevision envId)) s =
        (.ok (s.store.syncedRevision envId), s) := rfl
    rw [pull, exec_bind_of_ok (exec_resolveEnv hsome)]
    refine (exec_bind_of_ok hbase).trans ?_
    exact exec_bind_of_error (exec_snapshot_of_error haccess)

/-- What a pull that returns Ok found. -/
structure Found (api : HttpClient) (config : Config) (envId : Ident) (env : Environment)
    (remote : Server.Environment) (s : Site) : Prop where
  environment : s.store.getEnvironment config.projectId config.environment = some (envId, env)
  access : ∃ access, Server.envAccess envId api.userId s.db = .ok access
  remote : s.db.environments.lookup envId = some remote

theorem exec_pull_eq_ok {v : Int} (h : exec (pull api config) s = (.ok v, s')) :
    ∃ envId env remote, Found api config envId env remote s ∧ v = remote.revision ∧
      s' = { s with store := pulled api config envId env.encVaultKey remote.revision s } := by
  cases hget : s.store.getEnvironment config.projectId config.environment with
  | none =>
      rw [exec_pull_eq_error (Or.inl ⟨hget, rfl⟩)] at h
      cases h
  | some found =>
      obtain ⟨envId, env⟩ := found
      cases haccess : Server.envAccess envId api.userId s.db with
      | error e =>
          rw [exec_pull_eq_error (Or.inr ⟨envId, env, e, hget, haccess, rfl⟩)] at h
          cases h
      | ok access =>
          obtain ⟨remote, hremote, -⟩ := Server.envAccess_environment haccess
          rw [exec_pull hget haccess hremote] at h
          obtain ⟨hv, rfl⟩ := Prod.mk.inj h
          exact ⟨envId, env, remote, ⟨hget, ⟨access, haccess⟩, hremote⟩,
            (Except.ok.inj hv).symm, rfl⟩

end Pull

end Site

end Sotto
