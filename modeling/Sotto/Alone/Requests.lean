import Sotto.Alone.Site

/-!
# What the requests answer

The answers to the requests of a device that is alone with the server, as functions of the
database. The reads leave the database as it is.
-/

namespace Sotto

open Core Cli

namespace Server

/-- A caller with access to an environment finds it. -/
theorem envAccess_environment {envId userId : Ident} {db : Db} {access : Ident × ProjectAccess}
    (h : envAccess envId userId db = .ok access) :
    ∃ env, db.environments.lookup envId = some env ∧ env.projectId = access.1 := by
  unfold envAccess at h
  split at h
  · cases h
  · next env he =>
      obtain ⟨_, -, hr⟩ := bind_eq_ok.1 h
      cases hr
      exact ⟨env, he, rfl⟩

/-- The full snapshot of an environment. -/
def Db.snapshotOf (db : Db) (envId : Ident) (env : Environment) : Api.Snapshot :=
  ⟨env.revision, (db.secretsOf envId).map secretView⟩

end Server

namespace Site

variable {api : HttpClient} {envId : Ident} {s s' : Site} {access : Ident × Server.ProjectAccess}
  {e : Server.Error}

theorem serve_envAccess_of_error (h : Server.envAccess envId api.userId s.db = .error e) :
    serve (Server.Database.perform (.envAccess envId api.userId)) s = (.error e, s) := by
  rw [serve_perform]
  simp [Server.Stmt.exec, Server.query, h]

theorem serve_envAccess (h : Server.envAccess envId api.userId s.db = .ok access) :
    serve (Server.Database.perform (.envAccess envId api.userId)) s = (.ok access, s) := by
  rw [serve_perform]
  simp [Server.Stmt.exec, Server.query, h]

/-! ### Snapshots -/

theorem exec_snapshot_of_error {base : Option Int}
    (h : Server.envAccess envId api.userId s.db = .error e) :
    exec (api.snapshot envId base) s = (.error (serverError e), s) := by
  unfold HttpClient.snapshot
  rw [exec_request rfl, Server.snapshot, serve_bind_of_error (serve_envAccess_of_error h)]
  rfl

theorem exec_snapshot {base : Option Int} {env : Server.Environment}
    (h : Server.envAccess envId api.userId s.db = .ok access)
    (henv : s.db.environments.lookup envId = some env) :
    exec (api.snapshot envId base) s =
      (.ok (if base = some env.revision then none else some (s.db.snapshotOf envId env)), s) := by
  have hrevision : serve (Server.envRevision envId) s = (.ok env.revision, s) := by
    have hselect : serve (Server.Database.perform (.selectEnvironment envId)) s =
        (.ok (some env), s) := by
      rw [serve_perform]
      simp [Server.Stmt.exec, Server.query, henv]
    rw [Server.envRevision, serve_bind_of_ok hselect]
    rfl
  unfold HttpClient.snapshot
  rw [exec_request rfl, Server.snapshot, serve_bind_of_ok (serve_envAccess h),
    serve_bind_of_ok hrevision]
  split
  · rfl
  · rfl

/-! ### Grants -/

theorem exec_getGrant_of_error (h : Server.envAccess envId api.userId s.db = .error e) :
    exec (api.getGrant envId) s = (match e with
      | .notFound _ => .ok none
      | e => .error (serverError e), s) := by
  have hserve : serve (Server.getGrant api.userId envId) s = (.error e, s) := by
    rw [Server.getGrant, serve_bind_of_error (serve_envAccess_of_error h)]
  have hrun : exec (api.getGrant envId) s =
      Prog.runE perform (Request.getGrant api.userId envId).exchange s := rfl
  rw [hrun, Request.exchange, Prog.runE_bind_of_ok (runE_send _), hserve]
  cases e <;> rfl

theorem exec_getGrant (h : Server.envAccess envId api.userId s.db = .ok access) :
    exec (api.getGrant envId) s =
      (.ok ((s.db.grants.lookup (envId, api.userId)).map Server.encode), s) := by
  have hrun : exec (api.getGrant envId) s =
      Prog.runE perform (Request.getGrant api.userId envId).exchange s := rfl
  have hserve : serve (Server.getGrant api.userId envId) s =
      ((s.db.grants.lookup (envId, api.userId)).elim
        (.error (.notFound "no grant for this environment")) fun grant => .ok (Server.encode grant),
        s) := by
    have hselect : serve (Server.Database.perform (.selectGrant envId api.userId)) s =
        (.ok (s.db.grants.lookup (envId, api.userId)), s) := rfl
    rw [Server.getGrant, serve_bind_of_ok (serve_envAccess h), serve_bind_of_ok hselect]
    cases s.db.grants.lookup (envId, api.userId) <;> rfl
  rw [hrun, Request.exchange, Prog.runE_bind_of_ok (runE_send _), hserve]
  cases s.db.grants.lookup (envId, api.userId) <;> rfl

/-! ### Batches -/

/-- A batch that reaches its transaction. -/
theorem exec_writeSecrets {batch : Api.BatchRequest}
    (h : Server.envAccess envId api.userId s.db = .ok access)
    (hwrite : access.2.requireWrite = .ok ()) (hne : batch.changes ≠ []) :
    exec (api.writeSecrets envId batch) s =
      received ((Server.Stmt.writeSecrets access.2 envId batch).exec s.db |>.1,
        { s with db := ((Server.Stmt.writeSecrets access.2 envId batch).exec s.db).2 }) := by
  have hrequire : serve (Server.require (batch.changes ≠ [])
      (.badRequest "batch must contain at least one change")) s = (.ok (), s) := by
    rw [serve_require, if_pos hne]
  have hcheck : serve (Server.check access.2.requireWrite) s = (.ok (), s) := by
    rw [serve_check, hwrite]
  unfold HttpClient.writeSecrets
  rw [exec_request rfl, Server.writeSecrets, serve_bind_of_ok hrequire,
    serve_bind_of_ok (serve_envAccess h), serve_bind_of_ok hcheck, serve_perform]

theorem exec_writeSecrets_eq_ok {batch : Api.BatchRequest} {v : Int}
    (h : exec (api.writeSecrets envId batch) s = (.ok v, s')) :
    ∃ access db, Server.envAccess envId api.userId s.db = .ok access ∧
      (Server.writeSecretsTx access.2 envId batch).run s.db = .ok (v, db) ∧
      s' = { s with db := db } := by
  unfold HttpClient.writeSecrets at h
  rw [exec_request rfl, received_eq_ok, Server.writeSecrets, serve_bind_eq_ok] at h
  obtain ⟨_, s₁, hne, h⟩ := h
  rw [serve_require] at hne
  split at hne
  swap
  · cases hne
  obtain ⟨-, rfl⟩ := Prod.mk.inj hne
  obtain ⟨access, s₂, haccess, h⟩ := serve_bind_eq_ok.1 h
  obtain ⟨db₁, hquery, rfl⟩ := serve_perform_eq_ok.1 haccess
  obtain ⟨hread, hdb⟩ := Prod.mk.inj hquery
  obtain rfl : s.db = db₁ := hdb
  obtain ⟨_, s₃, hwrite, h⟩ := serve_bind_eq_ok.1 h
  rw [serve_check] at hwrite
  obtain ⟨-, rfl⟩ := Prod.mk.inj hwrite
  obtain ⟨db, hcommit, rfl⟩ := serve_perform_eq_ok.1 h
  exact ⟨access, db, hread, Server.commit_eq_ok.1 hcommit, rfl⟩

/-- A batch that fails changes nothing. -/
theorem exec_writeSecrets_eq_error {batch : Api.BatchRequest} {e : Cli.Error}
    (h : exec (api.writeSecrets envId batch) s = (.error e, s')) : s' = s := by
  by_cases hne : batch.changes = []
  · have hrequire : serve (Server.require (batch.changes ≠ [])
        (.badRequest "batch must contain at least one change")) s =
        (.error (.badRequest "batch must contain at least one change"), s) := by
      rw [serve_require, if_neg (by simpa using hne)]
    unfold HttpClient.writeSecrets at h
    rw [exec_request rfl, Server.writeSecrets, serve_bind_of_error hrequire] at h
    exact (congrArg Prod.snd h).symm
  have hrequire : serve (Server.require (batch.changes ≠ [])
      (.badRequest "batch must contain at least one change")) s = (.ok (), s) := by
    rw [serve_require, if_pos hne]
  cases haccess : Server.envAccess envId api.userId s.db with
  | error e =>
      unfold HttpClient.writeSecrets at h
      rw [exec_request rfl, Server.writeSecrets, serve_bind_of_ok hrequire,
        serve_bind_of_error (serve_envAccess_of_error haccess)] at h
      exact (congrArg Prod.snd h).symm
  | ok access =>
      cases hwrite : access.2.requireWrite with
      | error e =>
          have hcheck : serve (Server.check access.2.requireWrite) s = (.error e, s) := by
            rw [serve_check, hwrite]
          unfold HttpClient.writeSecrets at h
          rw [exec_request rfl, Server.writeSecrets, serve_bind_of_ok hrequire,
            serve_bind_of_ok (serve_envAccess haccess), serve_bind_of_error hcheck] at h
          exact (congrArg Prod.snd h).symm
      | ok u =>
          rw [exec_writeSecrets haccess hwrite hne] at h
          obtain ⟨hr, rfl⟩ := Prod.mk.inj h
          have hcommit : (Server.commit (Server.writeSecretsTx access.2 envId batch) s.db).2 =
              s.db := by
            change (Server.commit (Server.writeSecretsTx access.2 envId batch) s.db).1.mapError
              serverError = .error e at hr
            cases hc : (Server.commit (Server.writeSecretsTx access.2 envId batch) s.db).1 with
            | ok v =>
                rw [hc] at hr
                cases hr
            | error e => exact Server.commit_snd_of_error hc
          simp only [Server.Stmt.exec, hcommit]

end Site

end Sotto
