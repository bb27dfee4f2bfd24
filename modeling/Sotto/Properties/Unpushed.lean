import Sotto.Alone.Pull
import Sotto.Cli.Batch
import Sotto.Cli.Commands
import Sotto.Cli.Setup
import Sotto.Cli.Statements
import Sotto.Rules
import Sotto.Team

/-!
# Edits that are not pushed yet, and grants that are stored anew

A pull keeps the edits of a device that are newer than the rows of the server, and the next push
uploads them. This fails where the device adopts a grant: it compares the grants and not the keys in
them, and so it also adopts a grant of the key that it has. It adopts a grant only where the
revision is new to it, and a grant that is stored anew has no revision.
-/

namespace Sotto

open Core Cli

/-! ### Edits -/

/-- A local row that is newer than the server's row of its id. -/
def Unpushed (envId id : Ident) (row : SecretRow) (s : Site) : Prop :=
  s.store.secretIn envId id = some row ∧ ∀ r ∈ s.db.secretIn envId id, r.version < row.version

/-- The server has what a local row says. -/
def Server.Db.Has (envId id : Ident) (row : SecretRow) (db : Server.Db) : Prop :=
  (row.deleted = false → db.secretIn envId id = some (upload envId row)) ∧
    (row.deleted = true → ∀ r ∈ db.secretIn envId id, r.deleted = true)

theorem has_of_pushed {envId id : Ident} {row : SecretRow} {db db' : Server.Db}
    (hnew : ∀ r ∈ db.secretIn envId id, r.version < row.version)
    (h : db'.secretIn envId id = pushed envId (some row) (db.secretIn envId id)) :
    db'.Has envId id row := by
  constructor
  · intro hlive
    rw [h]
    exact pushed_of_new hlive hnew
  · intro hdeleted r hr
    rw [h] at hr
    cases hremote : db.secretIn envId id with
    | none => simp [hremote, pushed, hdeleted] at hr
    | some remote =>
        cases hd : remote.deleted with
        | true =>
            simp only [hremote, pushed, hdeleted, hd] at hr
            simp at hr
            exact hr ▸ hd
        | false =>
            simp only [hremote, pushed, hdeleted, hd] at hr
            simp at hr
            rw [← hr]

/-- A merge without force keeps the rows that are newer. -/
theorem secretIn_mergeAll {envId id : Ident} {row : SecretRow} {s : Site}
    (h : Unpushed envId id row s) :
    (Store.mergeAll envId false (s.db.secretsOf envId) s.store).secretIn envId id = some row := by
  obtain ⟨hrow, hnew⟩ := h
  obtain ⟨hlookup, henv⟩ := store_secretIn_eq_some.1 hrow
  rw [store_secretIn_eq_some]
  refine ⟨?_, henv⟩
  cases hremote : s.db.secretIn envId id with
  | none =>
      rw [Store.lookup_mergeAll_of_notMem, hlookup]
      intro hmem
      obtain ⟨⟨id', r⟩, hr, rfl⟩ := List.mem_map.1 hmem
      rw [secretIn_eq_some.2 hr] at hremote
      cases hremote
  | some r =>
      have hlt : r.version < row.version := hnew r hremote
      rw [Store.lookup_mergeAll (nodup_secretsOf s.db envId) (secretIn_eq_some.1 hremote),
        if_neg, hlookup]
      rw [Store.takes_iff hlookup henv]
      omega

namespace Site

/-! ### The preparation of a push -/

/-- A step that leaves the store and the secrets as they are. -/
structure SameRows (s s' : Site) : Prop where
  store : s'.store = s.store
  secrets : s'.db.secrets = s.db.secrets

theorem SameRows.refl (s : Site) : SameRows s s := ⟨rfl, rfl⟩

theorem SameRows.trans {s s₁ s' : Site} (h : SameRows s s₁) (h' : SameRows s₁ s') :
    SameRows s s' :=
  ⟨h'.store.trans h.store, h'.secrets.trans h.secrets⟩

/-- A command that leaves the store and the secrets as they are. -/
def Leaves (c : Cmd) : Prop := ∀ s, SameRows s (perform c s).2

theorem leaves_of_isQuery {stmt : Server.Stmt} (h : stmt.isQuery) : Leaves (.server stmt) :=
  fun s => ⟨rfl, congrArg Server.Db.secrets (Stmt.exec_snd_of_isQuery h s.db)⟩

theorem leaves_of_commit {stmt : Server.Stmt} {tx : Server.Tx stmt.Reply}
    (hexec : ∀ db, stmt.exec db = Server.commit tx db)
    (h : ∀ {a db db'}, tx.run db = .ok (a, db') → db'.secrets = db.secrets) :
    Leaves (.server stmt) := by
  intro s
  refine ⟨rfl, ?_⟩
  change (stmt.exec s.db).2.secrets = _
  rw [hexec, Server.commit]
  split
  · next hr => exact h hr
  · rfl

theorem leaves_updateAccount (userId : Ident) (account : Server.Account) :
    Leaves (.server (.updateAccount userId account)) := by
  refine leaves_of_commit (fun _ => rfl) fun {a db db'} h => ?_
  simp only [Server.updateAccount, Server.Tx.bind_eq_ok, Server.Tx.get_eq_ok] at h
  obtain ⟨_, _, ⟨rfl, rfl⟩, h⟩ := h
  split at h
  · obtain rfl := Server.Tx.modify_eq_ok.1 h
    rfl
  · cases Server.Tx.throw_eq_ok.1 h

theorem leaves_insertProject (id ownerId : Ident) (orgId : Option Ident) (encName : Bytes) :
    Leaves (.server (.insertProject id ownerId orgId encName)) := by
  refine leaves_of_commit (fun _ => rfl) fun {a db db'} h => ?_
  simp only [Server.insertProject, Server.Tx.bind_eq_ok, Server.Tx.get_eq_ok] at h
  obtain ⟨_, db₁, hq, _, _, ⟨rfl, rfl⟩, h⟩ := h
  obtain rfl := Server.requireProjectQuota_eq_ok hq
  split at h
  · obtain ⟨-, rfl⟩ := Server.Tx.pure_eq_ok.1 h
    rfl
  · simp only [Server.Tx.bind_eq_ok, Server.Tx.modify_eq_ok, Server.Tx.pure_eq_ok] at h
    obtain ⟨_, _, rfl, -, rfl⟩ := h
    rfl

theorem leaves_insertEnvironment (access : Server.ProjectAccess) (projectId userId id : Ident)
    (encName encVaultKey : Bytes) :
    Leaves (.server (.insertEnvironment access projectId userId id encName encVaultKey)) := by
  refine leaves_of_commit (fun _ => rfl) fun {a db db'} h => ?_
  simp only [Server.insertEnvironment, Server.Tx.bind_eq_ok, Server.Tx.get_eq_ok] at h
  obtain ⟨_, db₁, haccess, _, _, ⟨rfl, rfl⟩, h⟩ := h
  obtain rfl := Server.requireManageStructureTx_eq_ok haccess
  split at h
  · obtain ⟨-, rfl⟩ := Server.Tx.pure_eq_ok.1 h
    rfl
  · simp only [Server.Tx.bind_eq_ok, Server.Tx.modify_eq_ok, Server.Tx.pure_eq_ok] at h
    obtain ⟨_, _, rfl, -, rfl⟩ := h
    rfl

theorem leaves_net : Leaves .net := fun s => SameRows.refl s

/-- The calls that prepare a push leave the store and the secrets as they are. -/
theorem leaves_steps {api : HttpClient} {projectId envId : Ident} {c : Call}
    (h : Prepares api projectId envId c) : c.steps.Uses Leaves := by
  cases h with
  | fresh => exact ⟨fun s => ⟨rfl, rfl⟩, fun _ => trivial⟩
  | keys => exact ⟨fun s => ⟨rfl, rfl⟩, fun _ => trivial⟩
  | account => exact uses_putAccount leaves_net fun _ => leaves_updateAccount _ _
  | orgs => exact uses_listOrgs leaves_net (leaves_of_isQuery rfl)
  | project =>
      exact uses_createProject leaves_net (fun _ => leaves_of_isQuery rfl)
        (fun _ _ => leaves_insertProject _ _ _ _) (leaves_of_isQuery rfl) (leaves_of_isQuery rfl)
  | environment =>
      exact uses_createEnvironment leaves_net (leaves_of_isQuery rfl)
        (fun _ _ _ => leaves_insertEnvironment _ _ _ _ _ _) (leaves_of_isQuery rfl)

theorem sameRows_of_prepares {api : HttpClient} {projectId envId : Ident} {α : Type}
    {action : Action α} {s s' : Site} {result : Except Cli.Error α}
    (hp : Prog.UsesE (Prepares api projectId envId) action)
    (h : exec action s = (result, s')) : SameRows s s' := by
  have hrun : SameRows s (action.run.run call s).2 :=
    Prog.Uses.run hp SameRows.refl SameRows.trans
      (fun c s hc => Prog.Uses.run (leaves_steps hc) SameRows.refl SameRows.trans
        (fun c s hc => hc s) s) s
  have hs' : (action.run.run call s).2 = s' := congrArg Prod.snd h
  rw [← hs']
  exact hrun

/-! ### The rounds of a push -/

section Push

variable {api : HttpClient} {config : Config} {envId id : Ident} {env : Environment}
  {localGrant : Bytes} {row : SecretRow} {s s' : Site}

theorem exec_fullSnapshot_eq_ok {snapshot : Api.Snapshot}
    (h : exec (fullSnapshot api envId) s = (.ok snapshot, s')) :
    ∃ access remote, Server.envAccess envId api.userId s.db = .ok access ∧
      s.db.environments.lookup envId = some remote ∧ snapshot = s.db.snapshotOf envId remote ∧
      s' = s := by
  obtain ⟨answer, s₁, hanswer, h⟩ := exec_bind_eq_ok.1 h
  cases haccess : Server.envAccess envId api.userId s.db with
  | error e =>
      rw [exec_snapshot_of_error haccess] at hanswer
      cases hanswer
  | ok access =>
      obtain ⟨remote, hremote, -⟩ := Server.envAccess_environment haccess
      rw [exec_snapshot haccess hremote] at hanswer
      cases hanswer
      obtain ⟨hsnapshot, rfl⟩ := Prod.mk.inj h
      exact ⟨access, remote, rfl, hremote, (Except.ok.inj hsnapshot).symm, rfl⟩

/-- The rotation check changes nothing. -/
theorem exec_changedIfOrg {access : Ident × Server.ProjectAccess} {changed : Bool}
    (haccess : Server.envAccess envId api.userId s.db = .ok access)
    (h : exec (changedIfOrg api config envId localGrant) s = (.ok changed, s')) : s' = s := by
  unfold changedIfOrg at h
  split at h
  · obtain ⟨grant, s₁, hgrant, h⟩ := exec_bind_eq_ok.1 h
    rw [exec_getGrant haccess] at hgrant
    obtain ⟨-, rfl⟩ := Prod.mk.inj hgrant
    cases grant with
    | none => exact (congrArg Prod.snd h).symm
    | some grantB64 =>
        obtain ⟨grant, s₂, hdecode, h⟩ := exec_bind_eq_ok.1 h
        rw [exec_ofExcept] at hdecode
        obtain ⟨-, rfl⟩ := Prod.mk.inj hdecode
        exact (congrArg Prod.snd h).symm
  · exact (congrArg Prod.snd h).symm

/-- The adoption after a push without changes leaves the database as it is. -/
theorem db_of_adopted {rotated : Bool} {access : Ident × Server.ProjectAccess}
    (haccess : Server.envAccess envId api.userId s.db = .ok access)
    (henv : s.store.environments.lookup envId = some env)
    (h : exec (adoptIfOrg api config envId localGrant) s = (.ok rotated, s')) :
    s'.db = s.db ∧ ∃ env', s'.store.environments.lookup envId = some env' := by
  rw [exec_adoptIfOrg haccess henv] at h
  obtain ⟨-, rfl⟩ := Prod.mk.inj h
  exact ⟨rfl, lookup_adopt henv _⟩

/-- The device when it has merged the rows of a snapshot. -/
def forwarded (envId : Ident) (revision : Int) (s : Site) : Site :=
  { s with store :=
      (Store.mergeAll envId false (s.db.secretsOf envId) s.store).withRevision envId revision }

theorem lookup_forwarded {revision : Int}
    (henv : s.store.environments.lookup envId = some env) :
    (forwarded envId revision s).store.environments.lookup envId = some env := by
  have hframe : (forwarded envId revision s).store.environments = s.store.environments :=
    Store.sameFrame_mergeAll.environments
  rw [hframe]
  exact henv

theorem unpushed_forwarded {revision : Int} (hun : Unpushed envId id row s) :
    Unpushed envId id row (forwarded envId revision s) :=
  ⟨secretIn_mergeAll hun, hun.2⟩

/-- The batch of a push makes the server's rows what the newer local rows say. -/
theorem has_of_batchApplied {revision : Int} {db : Server.Db} (hun : Unpushed envId id row s)
    (h : Server.BatchApplied envId (changesFor envId (s.db.secretsOf envId)
      (forwarded envId revision s).store) s.db db) : db.Has envId id row := by
  refine has_of_pushed hun.2 ?_
  rw [secretIn_of_applied h]
  exact congrArg (fun local' => pushed envId local' (s.db.secretIn envId id))
    (unpushed_forwarded hun).1

/-- A push that returns Ok has uploaded every local row that is newer. -/
theorem has_of_pushLoop {attempts : Nat} {u : Int}
    (henv : s.store.environments.lookup envId = some env) (hun : Unpushed envId id row s)
    (h : exec (pushLoop api config envId localGrant attempts) s = (.ok u, s')) :
    s'.db.Has envId id row := by
  induction attempts generalizing s with
  | zero => cases h
  | succ attempts ih =>
      rw [pushLoop] at h
      obtain ⟨snapshot, s₁, hsnapshot, h⟩ := exec_bind_eq_ok.1 h
      obtain ⟨access, remote, haccess, hremote, rfl, rfl⟩ := exec_fullSnapshot_eq_ok hsnapshot
      obtain ⟨_, s₂, happly, h⟩ := exec_bind_eq_ok.1 h
      rw [show (s₁.db.snapshotOf envId remote).secrets =
        (s₁.db.secretsOf envId).map Server.secretView from rfl, exec_applySnapshot henv] at happly
      obtain ⟨-, rfl⟩ := Prod.mk.inj happly
      have henv₁ : (Store.mergeAll envId false (s₁.db.secretsOf envId)
          s₁.store).environments.lookup envId = some env := by
        rw [Store.sameFrame_mergeAll.environments]
        exact henv
      obtain ⟨_, s₃, hset, h⟩ := exec_bind_eq_ok.1 h
      rw [exec_setSyncedRevision henv₁] at hset
      obtain ⟨-, rfl⟩ := Prod.mk.inj hset
      change exec _ (forwarded envId remote.revision s₁) = _ at h
      have henv₂ := @lookup_forwarded envId env s₁ remote.revision henv
      obtain ⟨changes, s₄, hdiff, h⟩ := exec_bind_eq_ok.1 h
      obtain ⟨hchanges, rfl⟩ := Prod.mk.inj hdiff
      change exec _ (forwarded envId remote.revision s₁) = _ at h
      have hchanges : changesFor envId (s₁.db.secretsOf envId)
          (forwarded envId remote.revision s₁).store = changes := Except.ok.inj hchanges
      split at h
      · next hempty =>
          have hnil : changes = [] := List.isEmpty_iff.1 hempty
          have hsame : s₁.db.Has envId id row := by
            refine @has_of_batchApplied envId id row s₁ remote.revision s₁.db hun ?_
            rw [hchanges, hnil]
            exact ⟨rfl, fun _ _ => rfl, by simp, by simp⟩
          obtain ⟨rotated, s₅, hadopt, h⟩ := exec_bind_eq_ok.1 h
          obtain ⟨hdb, env', henv'⟩ := @db_of_adopted api config envId env localGrant
            (forwarded envId remote.revision s₁) _ rotated access haccess henv₂ hadopt
          have hs' : s'.db = s₅.db := by
            dsimp only at h
            split at h
            · obtain ⟨_, s₆, happly, h⟩ := exec_bind_eq_ok.1 h
              rw [show (s₁.db.snapshotOf envId remote).secrets =
                (s₁.db.secretsOf envId).map Server.secretView from rfl,
                exec_applySnapshot henv'] at happly
              obtain ⟨-, rfl⟩ := Prod.mk.inj happly
              obtain ⟨-, rfl⟩ := Prod.mk.inj h
              rfl
            · obtain ⟨-, rfl⟩ := Prod.mk.inj h
              rfl
          rw [hs', hdb]
          exact hsame
      · obtain ⟨changed, s₅, hchanged, h⟩ := exec_bind_eq_ok.1 h
        obtain rfl := @exec_changedIfOrg api config envId localGrant
          (forwarded envId remote.revision s₁) _ access changed haccess hchanged
        dsimp only at h
        split at h
        · obtain ⟨_, _, hthrow, -⟩ := exec_bind_eq_ok.1 h
          cases hthrow
        · obtain ⟨response, s₆, hattempt, h⟩ := exec_bind_eq_ok.1 h
          rw [exec_attempt] at hattempt
          obtain ⟨hresponse, rfl⟩ := Prod.mk.inj hattempt
          obtain rfl := Except.ok.inj hresponse
          cases hwrite : exec (api.writeSecrets envId
              ⟨(s₁.db.snapshotOf envId remote).revision, changes⟩)
              (forwarded envId remote.revision s₁) with
          | mk r s₇ =>
              rw [hwrite] at h
              cases r with
              | ok revision =>
                  obtain ⟨access', db', -, htx, rfl⟩ := exec_writeSecrets_eq_ok hwrite
                  obtain ⟨mid, hmid, rfl⟩ := (Server.writeSecretsTx_eq_ok htx).applied
                  subst hchanges
                  obtain ⟨_, s₈, hset, h⟩ := exec_bind_eq_ok.1 h
                  obtain ⟨-, rfl⟩ := Prod.mk.inj hset
                  obtain ⟨-, rfl⟩ := Prod.mk.inj h
                  exact @has_of_batchApplied envId id row s₁ remote.revision mid hun
                    (Server.applyChanges_eq_ok (nodup_changesFor _) hmid)
              | error e =>
                  obtain rfl := exec_writeSecrets_eq_error hwrite
                  cases e with
                  | conflict m => exact ih henv₂ (unpushed_forwarded hun) h
                  | _ => cases h

/-- A push that returns Ok has uploaded every local row that is newer. -/
theorem has_of_push {master : Bytes} {u : Int}
    (hget : s.store.getEnvironment config.projectId config.environment = some (envId, env))
    (hun : Unpushed envId id row s) (h : exec (push api master config) s = (.ok u, s')) :
    s'.db.Has envId id row := by
  obtain ⟨found, s₁, hresolve, h⟩ := exec_bind_eq_ok.1 h
  rw [exec_resolveEnv hget] at hresolve
  obtain ⟨hfound, rfl⟩ := Prod.mk.inj hresolve
  obtain rfl := Except.ok.inj hfound
  obtain ⟨project, s₂, hproject, h⟩ := exec_bind_eq_ok.1 h
  obtain ⟨-, rfl⟩ := Prod.mk.inj hproject
  cases project with
  | none => cases h
  | some projectName =>
      obtain ⟨_, s₃, haccount, h⟩ := exec_bind_eq_ok.1 h
      obtain ⟨key, s₄, hkey, h⟩ := exec_bind_eq_ok.1 h
      obtain ⟨_, s₅, hensure, h⟩ := exec_bind_eq_ok.1 h
      have haccount' : SameRows s s₃ :=
        sameRows_of_prepares (@prepares_ensureAccount api config.projectId envId) haccount
      have hkey' : SameRows s₃ s₄ :=
        sameRows_of_prepares (@prepares_nameKey api config.projectId envId _ _) hkey
      have hsame : SameRows s s₅ :=
        haccount'.trans (hkey'.trans (sameRows_of_prepares prepares_ensureProjectEnv hensure))
      have henv : s₅.store.environments.lookup envId = some env := by
        rw [hsame.store]
        exact (Store.lookup_of_getEnvironment hget).1
      have hun' : Unpushed envId id row s₅ := by
        unfold Unpushed Server.Db.secretIn
        rw [hsame.store, hsame.secrets]
        exact hun
      exact has_of_pushLoop henv hun' h

end Push

/-! ### Pulls -/

section Pull

variable {api : HttpClient} {config : Config} {envId id : Ident} {env : Environment}
  {row : SecretRow} {s : Site} {revision : Int}

/-- The environment that a configuration names has the id that it had, whatever grant is adopted. -/
theorem getEnvironment_adopt (adopted : Option Bytes) {projectId : Ident} {name : String}
    {store : Store} (h : store.getEnvironment projectId name = some (envId, env)) :
    ∃ env', (adopt envId adopted store).getEnvironment projectId name = some (envId, env') := by
  cases adopted with
  | none => exact ⟨env, h⟩
  | some grant =>
      have hrows : (adopt envId (some grant) store).environments.rows =
          store.environments.rows.map fun e =>
            if e.1 = envId then (e.1, { e.2 with encVaultKey := grant }) else e :=
        Table.rows_modify _ _ _
      refine ⟨{ env with encVaultKey := grant }, ?_⟩
      rw [Store.getEnvironment, hrows, List.find?_map]
      have hpred : ((fun e : Ident × Environment => decide (e.2.projectId = projectId ∧
          e.2.name = name)) ∘ fun e => if e.1 = envId then
            (e.1, { e.2 with encVaultKey := grant }) else e) =
          fun e => decide (e.2.projectId = projectId ∧ e.2.name = name) := by
        funext e
        simp only [Function.comp_apply]
        split <;> rfl
      rw [hpred]
      have h : store.environments.rows.find? (fun e => decide (e.2.projectId = projectId ∧
        e.2.name = name)) = some (envId, env) := h
      rw [h]
      simp

theorem getEnvironment_pulled
    (h : s.store.getEnvironment config.projectId config.environment = some (envId, env)) :
    ∃ env', (pulled api config envId env.encVaultKey revision s).getEnvironment config.projectId
      config.environment = some (envId, env') := by
  unfold pulled
  split
  · exact ⟨env, h⟩
  · obtain ⟨env', henv'⟩ :=
      getEnvironment_adopt (adoption api config envId env.encVaultKey s.db) h
    refine ⟨env', ?_⟩
    have hframe : ((Store.mergeAll envId (adoption api config envId env.encVaultKey s.db).isSome
        (s.db.secretsOf envId) (adopt envId (adoption api config envId env.encVaultKey s.db)
          s.store)).withRevision envId revision).environments =
        (adopt envId (adoption api config envId env.encVaultKey s.db) s.store).environments :=
      Store.sameFrame_mergeAll.environments
    rw [Store.getEnvironment, hframe]
    exact henv'

theorem secretIn_adopt {adopted : Option Bytes} {store : Store} :
    (adopt envId adopted store).secretIn envId id = store.secretIn envId id := by
  cases adopted <;> rfl

/-- A pull keeps a newer row if and only if it adopts no grant or the server has no row of it. -/
theorem secretIn_pulled_iff {grant : Bytes} (hun : Unpushed envId id row s) :
    (pulled api config envId grant revision s).secretIn envId id = some row ↔
      s.store.syncedRevision envId = revision ∨ adoption api config envId grant s.db = none ∨
        s.db.secretIn envId id = none := by
  unfold pulled
  split
  · next hsame => simp [hsame, hun.1]
  · next hrevision =>
      rw [or_iff_right hrevision]
      have hun' : ∀ adopted,
          Unpushed envId id row { s with store := adopt envId adopted s.store } :=
        fun adopted => ⟨secretIn_adopt.trans hun.1, hun.2⟩
      cases hadopted : adoption api config envId grant s.db with
      | none =>
          simp only [true_or, iff_true]
          exact secretIn_mergeAll (hun' none)
      | some adopted =>
          obtain ⟨hlookup, henv⟩ := store_secretIn_eq_some.1 (hun' (some adopted)).1
          cases hremote : s.db.secretIn envId id with
          | none =>
              simp only [or_true, iff_true]
              refine store_secretIn_eq_some.2 ⟨?_, henv⟩
              refine (Store.lookup_mergeAll_of_notMem ?_).trans hlookup
              intro hmem
              obtain ⟨⟨id', r⟩, hr, rfl⟩ := List.mem_map.1 hmem
              rw [secretIn_eq_some.2 hr] at hremote
              cases hremote
          | some r =>
              have hlt : r.version < row.version := hun.2 r hremote
              simp only [Option.some_ne_none, or_self, iff_false]
              intro hkept
              have hmerged := (store_secretIn_eq_some.1 hkept).1
              have htaken : (Store.mergeAll envId true (s.db.secretsOf envId)
                  (adopt envId (some adopted) s.store)).secrets.lookup id =
                    some (localRow envId r) := by
                rw [Store.lookup_mergeAll (nodup_secretsOf s.db envId)
                  (secretIn_eq_some.1 hremote)]
                rfl
              have hrow : localRow envId r = row :=
                Option.some.inj (htaken.symm.trans hmerged)
              rw [← hrow] at hlt
              exact absurd hlt (Int.lt_irrefl _)

end Pull

end Site

open Site

/-- A pull keeps the newer rows of a device, and the next push uploads them. -/
def KeepsEdits (api : HttpClient) (config : Config) (envId : Ident) (s s' : Site) : Prop :=
  ∀ id row, Unpushed envId id row s → s'.store.secretIn envId id = some row ∧
    ∀ master u s'', exec (push api master config) s' = (.ok u, s'') → s''.db.Has envId id row

/-- A pull that returns Ok keeps the newer rows, and the next push uploads them, if and only if the
revision is the one that the device has seen, or the server's grant has the bytes of the device's,
or the server has none of the rows. -/
theorem pull_keeps_edits_iff {api : HttpClient} {config : Config} {envId : Ident}
    {env : Environment} {remote : Server.Environment} {s s' : Site} {v : Int}
    (hget : s.store.getEnvironment config.projectId config.environment = some (envId, env))
    (hremote : s.db.environments.lookup envId = some remote)
    (h : exec (pull api config) s = (.ok v, s')) :
    KeepsEdits api config envId s s' ↔
      (s.store.syncedRevision envId = remote.revision ∨
        (∀ grant, s.db.grants.lookup (envId, api.userId) = some grant →
          config.orgId.isSome → grant = env.encVaultKey) ∨
        ∀ id row, Unpushed envId id row s → s.db.secretIn envId id = none) := by
  obtain ⟨envId', env', remote', hfound, -, rfl⟩ := exec_pull_eq_ok h
  obtain ⟨rfl, rfl⟩ := Prod.mk.inj (Option.some.inj (hfound.environment.symm.trans hget))
  obtain rfl := Option.some.inj (hfound.remote.symm.trans hremote)
  have hadoption : adoption api config envId' env'.encVaultKey s.db = none ↔
      ∀ grant, s.db.grants.lookup (envId', api.userId) = some grant →
        config.orgId.isSome → grant = env'.encVaultKey := by
    unfold adoption
    cases config.orgId with
    | none => simp
    | some orgId => simp [Option.filter_eq_none_iff]
  constructor
  · intro hkeeps
    by_cases hrevision : s.store.syncedRevision envId' = remote'.revision
    · exact .inl hrevision
    · by_cases hadopted : adoption api config envId' env'.encVaultKey s.db = none
      · exact .inr (.inl (hadoption.1 hadopted))
      · refine .inr (.inr fun id row hun => ?_)
        rcases (secretIn_pulled_iff hun).1 (hkeeps id row hun).1 with h | h | h
        · exact absurd h hrevision
        · exact absurd h hadopted
        · exact h
  · intro hcondition id row hun
    have hkept : (pulled api config envId' env'.encVaultKey remote'.revision s).secretIn envId' id =
        some row := by
      rw [secretIn_pulled_iff hun, hadoption]
      rcases hcondition with h | h | h
      · exact .inl h
      · exact .inr (.inl h)
      · exact .inr (.inr (h id row hun))
    refine ⟨hkept, fun master u s'' hpush => ?_⟩
    obtain ⟨env'', hget'⟩ := @getEnvironment_pulled api config envId' env' s remote'.revision hget
    have hun' : Unpushed envId' id row
        { s with store := pulled api config envId' env'.encVaultKey remote'.revision s } :=
      ⟨hkept, hun.2⟩
    exact has_of_push hget' hun' hpush

namespace Team

/-- The vault key sealed to the first user anew. -/
def sharedAgain : Bytes := .sealedBox (keypair alice).public (⟨9, 0⟩, 0) (.random vaultKey 0)

/-- A device has edited a secret that it had pushed; meanwhile the other one has pushed a secret,
and the environment was shared with the user of the first device anew. -/
def edited : Site :=
  let w := setup.run (whole 0 (.set "X" value) ++ whole 0 .push ++ whole 1 .pull ++
    whole 1 (.set "Y" value) ++ whole 1 .push ++ whole 0 (.set "X" (.raw "2".toUTF8))) setup.init
  ⟨(w.threads 0).own.store,
    ((Server.Stmt.createGrant ⟨false, some .admin, some orgId, some .active, bob⟩ envId orgId alice
      sharedAgain).exec w.shared.db).2, ⟨1, 100⟩⟩

/-- The device pulls. -/
def afterPull : Except Cli.Error Int × Site := exec (pull (setup.api 0) setup.config) edited

/-- Whether a pull loses a row that is newer than the server's. -/
def losesEdit (s s' : Site) : Bool :=
  s.store.secrets.rows.any fun e => e.2.envId = envId &&
    (s.db.secretIn envId e.1).all (fun r => r.version < e.2.version) &&
      decide (s'.store.secretIn envId e.1 ≠ some e.2)

theorem not_keepsEdits_of_losesEdit {s s' : Site} (h : losesEdit s s' = true) :
    ¬ KeepsEdits (setup.api 0) setup.config envId s s' := by
  intro hkeeps
  obtain ⟨⟨id, row⟩, hmem, hlost⟩ := List.any_eq_true.1 h
  simp only [Bool.and_eq_true, decide_eq_true_eq] at hlost
  obtain ⟨⟨henv, hnew⟩, hlost⟩ := hlost
  refine hlost (hkeeps id row ⟨store_secretIn_eq_some.2 ⟨Table.mem_rows.1 hmem, henv⟩, ?_⟩).1
  intro r hr
  rw [hr] at hnew
  simpa using hnew

end Team

set_option maxRecDepth 10000 in
/-- A pull by a device that holds the vault key of its grant loses a newer row. -/
theorem pull_loses_edit : ∃ v,
    Vault.openVaultKey (Team.keypair Team.alice) Team.sharedAgain = .ok (.random Team.vaultKey 0) ∧
    Vault.openVaultKey (Team.keypair Team.alice) (Team.grant Team.alice) =
      .ok (.random Team.vaultKey 0) ∧
    Team.edited.db.grants.lookup (Team.envId, Team.alice) = some Team.sharedAgain ∧
    (Team.edited.store.environments.lookup Team.envId).map Environment.encVaultKey =
      some (Team.grant Team.alice) ∧
    exec (pull (Team.setup.api 0) Team.setup.config) Team.edited = (.ok v, Team.afterPull.2) ∧
    ¬ KeepsEdits (Team.setup.api 0) Team.setup.config Team.envId Team.edited Team.afterPull.2 := by
  have hok : Team.afterPull.1 = .ok 2 := by decide +kernel
  refine ⟨2, by decide +kernel, by decide +kernel, by decide +kernel, by decide +kernel,
    Prod.ext hok rfl, Team.not_keepsEdits_of_losesEdit (by decide +kernel)⟩

namespace Team

/-- The same device where the environment is not shared anew. -/
def unshared : Site := { edited with db := { edited.db with grants := db.grants } }

/-- It pulls. -/
def afterUnshared : Except Cli.Error Int × Site := exec (pull (setup.api 0) setup.config) unshared

end Team

set_option maxRecDepth 10000 in
/-- A pull that adopts no grant. -/
theorem pull_keeps_edits_unshared :
    KeepsEdits (Team.setup.api 0) Team.setup.config Team.envId Team.unshared
      Team.afterUnshared.2 := by
  have hok : Team.afterUnshared.1 = .ok 2 := by decide +kernel
  have hpull : exec (pull (Team.setup.api 0) Team.setup.config) Team.unshared =
      (.ok 2, Team.afterUnshared.2) := Prod.ext hok rfl
  have hget : Team.unshared.store.getEnvironment Team.setup.config.projectId
      Team.setup.config.environment =
        some (Team.envId, ⟨Team.projectId, "dev", Team.grant Team.alice⟩) := by
    decide +kernel
  have hremote : Team.unshared.db.environments.lookup Team.envId =
      some ⟨Team.projectId, .raw .empty, 2⟩ := by decide +kernel
  have hgrants : Team.unshared.db.grants.lookup (Team.envId, (Team.setup.api 0).userId) =
      some (Team.grant Team.alice) := by
    decide +kernel
  refine (pull_keeps_edits_iff hget hremote hpull).2 (.inr (.inl fun grant hgrant _ => ?_))
  exact Option.some.inj (hgrant.symm.trans hgrants)

/-! ### Grants that are stored anew -/

/-- The device stores a grant of an environment. -/
def Site.StoresGrant (envId : Ident) (grant : Bytes) (s : Site) : Prop :=
  (s.store.environments.lookup envId).map Environment.encVaultKey = some grant

namespace Site

section Grants

variable {api : HttpClient} {config : Config} {envId envId' : Ident} {env : Environment}
  {grant : Bytes} {s s' : Site} {revision : Int}

theorem environments_pulled (grant' : Bytes) :
    (pulled api config envId' grant' revision s).environments =
      if s.store.syncedRevision envId' = revision then s.store.environments
      else (adopt envId' (adoption api config envId' grant' s.db) s.store).environments := by
  unfold pulled
  split
  · rfl
  · exact Store.sameFrame_mergeAll.environments

/-- A pull of an environment stores the server's grant of it, or leaves the device's as it is. -/
theorem storesGrant_pulled (henv : s.store.environments.lookup envId = some env)
    (hgrant : s.db.grants.lookup (envId, api.userId) = some grant) :
    ((pulled api config envId env.encVaultKey revision s).environments.lookup envId).map
        Environment.encVaultKey = some grant ↔
      s.StoresGrant envId grant ∨
        config.orgId.isSome ∧ s.store.syncedRevision envId ≠ revision := by
  unfold StoresGrant
  rw [environments_pulled, henv, Option.map_some]
  split
  · next hsame =>
      rw [henv, Option.map_some]
      simp [hsame]
  · next hrevision =>
      unfold adoption
      cases horg : config.orgId with
      | none =>
          simp only [Option.isSome_none, Bool.false_eq_true, if_false, adopt, henv,
            Option.map_some, false_and, or_false]
      | some orgId =>
          rw [hgrant]
          by_cases hsame : grant = env.encVaultKey
          · simp [Option.filter, hsame, adopt, henv]
          · simp [Option.filter, hsame, adopt, Store.withGrant, henv, hrevision]

/-- A pull of another environment leaves the grant as it is. -/
theorem lookup_pulled_of_ne (hne : envId ≠ envId') (grant' : Bytes) :
    (pulled api config envId' grant' revision s).environments.lookup envId =
      s.store.environments.lookup envId := by
  rw [environments_pulled]
  split
  · rfl
  · cases adoption api config envId' grant' s.db with
    | none => rfl
    | some adopted => exact Table.lookup_modify_of_ne hne _ _

end Grants

end Site

/-- Where a pull or a clone finds an environment whose grant it takes over: its configuration names
the environment and the organisation, and the revision is new to the device. -/
def Site.TakesOver (config : Config) (envId : Ident) (s : Site) : Prop :=
  config.orgId.isSome ∧ ∃ env remote,
    s.store.getEnvironment config.projectId config.environment = some (envId, env) ∧
    s.db.environments.lookup envId = some remote ∧
    s.store.syncedRevision envId ≠ remote.revision

/-- What a pull that returns Ok leaves of the grants. -/
theorem storesGrant_of_pull {api : HttpClient} {config : Config} {envId : Ident} {grant : Bytes}
    {s s' : Site} {v : Int} (hgrant : s.db.grants.lookup (envId, api.userId) = some grant)
    (h : exec (pull api config) s = (.ok v, s')) :
    s'.StoresGrant envId grant ↔ s.StoresGrant envId grant ∨ s.TakesOver config envId := by
  obtain ⟨envId', env, remote, hfound, -, rfl⟩ := exec_pull_eq_ok h
  by_cases hid : envId = envId'
  · subst hid
    refine (storesGrant_pulled (Store.lookup_of_getEnvironment hfound.environment).1 hgrant).trans
      (or_congr_right (and_congr_right fun _ => ⟨fun hne => ?_, ?_⟩))
    · exact ⟨env, remote, hfound.environment, hfound.remote, hne⟩
    · rintro ⟨env', remote', -, hremote, hne⟩
      obtain rfl := Option.some.inj (hfound.remote.symm.trans hremote)
      exact hne
  · have hkept : Site.StoresGrant envId grant
        { s with store := pulled api config envId' env.encVaultKey remote.revision s } ↔
          s.StoresGrant envId grant := by
      unfold Site.StoresGrant
      rw [lookup_pulled_of_ne hid]
    rw [hkept]
    refine ⟨.inl, ?_⟩
    rintro (hstored | ⟨-, env', remote', hget, -⟩)
    · exact hstored
    · rw [hfound.environment] at hget
      exact absurd (congrArg Prod.fst (Option.some.inj hget)).symm hid

namespace Site

section Clone

variable {api : HttpClient} {keypair : Keypair} {projectId envId : Ident}
  {projectLabel envLabel : Option String} {orgId : Option Ident} {s s' : Site}

/-- A step that changes nothing in the store and on the server. -/
def Still (s s' : Site) : Prop := s'.store = s.store ∧ s'.db = s.db

theorem Still.refl (s : Site) : Still s s := ⟨rfl, rfl⟩

theorem Still.trans {s s₁ s' : Site} (h : Still s s₁) (h' : Still s₁ s') : Still s s' :=
  ⟨h'.1.trans h.1, h'.2.trans h.2⟩

/-- A call that changes nothing. -/
def Asks (c : Call) : Prop := ∀ s, Still s (call c s).2

theorem asks_http {r : Request} (h : r.exchange.run.Uses fun c => ∀ s, Still s (perform c s).2) :
    Asks (.http r) :=
  fun s => Prog.Uses.run h Still.refl Still.trans (fun _ s hc => hc s) s

theorem asks_query {stmt : Server.Stmt} (h : stmt.isQuery) (s : Site) :
    Still s (perform (.server stmt) s).2 :=
  ⟨rfl, Stmt.exec_snd_of_isQuery h s.db⟩

theorem asks_listOrgs {userId : Ident} : Asks (.http (.listOrgs userId)) :=
  asks_http (uses_listOrgs (fun _ => ⟨rfl, rfl⟩) (asks_query rfl))

theorem asks_listEnvironments {userId : Ident} :
    Asks (.http (.listEnvironments userId projectId)) :=
  asks_http (uses_request (fun _ => ⟨rfl, rfl⟩)
    (Prog.UsesE.bind (uses_perform (asks_query rfl)) fun _ =>
      Prog.UsesE.bind (uses_perform (asks_query rfl)) fun _ => Prog.UsesE.pure _))

theorem asks_cloneLabel :
    Prog.UsesE Asks (cloneLabel api keypair projectId envId envLabel orgId) := by
  unfold cloneLabel
  cases envLabel with
  | some label => exact Prog.UsesE.pure label
  | none =>
      refine Prog.UsesE.bind ?_ fun _ => Prog.UsesE.pure _
      unfold decryptedEnvName
      cases orgId with
      | none => exact Prog.UsesE.pure none
      | some orgId =>
          refine Prog.UsesE.bind (uses_attempt ?_) fun r => ?_
          · refine Prog.UsesE.bind (uses_http asks_listOrgs) fun orgs => ?_
            split
            · exact Prog.UsesE.pure none
            · split
              · exact Prog.UsesE.pure none
              · refine Prog.UsesE.bind uses_ofExcept fun _ => ?_
                exact Prog.UsesE.bind uses_ofExcept fun _ => Prog.UsesE.pure _
          · split
            · refine Prog.UsesE.bind (uses_attempt (uses_http asks_listEnvironments)) fun r => ?_
              split
              · exact Prog.UsesE.pure _
              · exact Prog.UsesE.pure _
            · exact Prog.UsesE.pure _

theorem still_cloneLabel {result : Except Cli.Error String}
    (h : exec (cloneLabel api keypair projectId envId envLabel orgId) s = (result, s')) :
    Still s s' := by
  have hrun : Still s
      ((cloneLabel api keypair projectId envId envLabel orgId).run.run call s).2 :=
    Prog.Uses.run asks_cloneLabel Still.refl Still.trans (fun _ s hc => hc s) s
  have hs' : ((cloneLabel api keypair projectId envId envLabel orgId).run.run call s).2 = s' :=
    congrArg Prod.snd h
  rw [← hs']
  exact hrun

theorem exec_addProject_eq_ok {name : String} {u : Unit}
    (h : exec (addProject projectId name) s = (.ok u, s')) :
    s'.db = s.db ∧ s'.store.environments = s.store.environments ∧
      s'.store.syncState = s.store.syncState := by
  obtain ⟨project, s₁, hproject, h⟩ := exec_bind_eq_ok.1 h
  obtain ⟨-, rfl⟩ := Prod.mk.inj hproject
  split at h
  · rw [exec_store] at h
    obtain ⟨-, rfl⟩ := Prod.mk.inj h
    refine ⟨rfl, ?_⟩
    change (StoreCmd.write (s.store.createProjectWithId projectId name) s.store).2.environments =
      s.store.environments ∧ (StoreCmd.write (s.store.createProjectWithId projectId name)
        s.store).2.syncState = s.store.syncState
    cases hcreate : s.store.createProjectWithId projectId name with
    | error e => exact ⟨rfl, rfl⟩
    | ok store' =>
        obtain ⟨-, rfl⟩ := Store.createProjectWithId_eq_ok.1 hcreate
        exact ⟨rfl, rfl⟩
  · obtain ⟨-, rfl⟩ := Prod.mk.inj h
    exact ⟨rfl, rfl, rfl⟩

theorem exec_addEnvironment_eq_ok {name : String} {grant : Bytes} {u : Unit}
    (h : exec (addEnvironment envId projectId name grant) s = (.ok u, s')) :
    s'.db = s.db ∧ ((∃ env, s.store.environments.lookup envId = some env) ∧ s'.store = s.store ∨
      s.store.environments.lookup envId = none ∧ s'.StoresGrant envId grant) := by
  obtain ⟨found, s₁, hfound, h⟩ := exec_bind_eq_ok.1 h
  obtain ⟨hok, rfl⟩ := Prod.mk.inj hfound
  have hok : s.store.environments.lookup envId = found := Except.ok.inj hok
  cases found with
  | some env =>
      obtain ⟨-, rfl⟩ := Prod.mk.inj h
      exact ⟨rfl, .inl ⟨⟨env, hok⟩, rfl⟩⟩
  | none =>
      obtain ⟨hwritten, rfl⟩ := Prod.mk.inj h
      refine ⟨rfl, .inr ⟨hok, ?_⟩⟩
      change (StoreCmd.write (s.store.createEnvironment envId projectId name grant) s.store).1 =
        .ok u at hwritten
      change ((StoreCmd.write (s.store.createEnvironment envId projectId name grant)
        s.store).2.environments.lookup envId).map Environment.encVaultKey = some grant
      cases hcreate : s.store.createEnvironment envId projectId name grant with
      | error e =>
          rw [hcreate] at hwritten
          cases hwritten
      | ok store' =>
          obtain ⟨-, -, -, rfl⟩ := Store.createEnvironment_eq_ok.1 hcreate
          simp [StoreCmd.write, Store.withEnvironment]

theorem takesOver_congr {config : Config} {s₁ : Site} (hdb : s₁.db = s.db)
    (henvs : s₁.store.environments = s.store.environments)
    (hsync : s₁.store.syncState = s.store.syncState) :
    s₁.TakesOver config envId ↔ s.TakesOver config envId := by
  unfold TakesOver Store.getEnvironment Store.syncedRevision
  rw [hdb, henvs, hsync]

/-- What a clone that returns Ok leaves of the grants. -/
theorem storesGrant_of_clone {config : ProjectConfig} {grant : Bytes}
    (hgrant : s.db.grants.lookup (envId, api.userId) = some grant)
    (h : exec (cloneEnv api keypair projectId envId projectLabel envLabel orgId) s =
      (.ok config, s')) :
    s'.StoresGrant envId grant ↔ s.store.environments.lookup envId = none ∨
      s.StoresGrant envId grant ∨ s.TakesOver config.toConfig envId := by
  obtain ⟨answer, s₁, hanswer, h⟩ := exec_bind_eq_ok.1 h
  cases haccess : Server.envAccess envId api.userId s.db with
  | error e =>
      rw [exec_getGrant_of_error haccess] at hanswer
      cases e with
      | notFound m =>
          obtain ⟨hnone, rfl⟩ := Prod.mk.inj hanswer
          obtain rfl := Except.ok.inj hnone
          cases h
      | _ => cases hanswer
  | ok access =>
      rw [exec_getGrant haccess, hgrant] at hanswer
      obtain ⟨hsome, rfl⟩ := Prod.mk.inj hanswer
      obtain rfl := Except.ok.inj hsome
      obtain ⟨stored, s₂, hdecode, h⟩ := exec_bind_eq_ok.1 h
      rw [exec_ofExcept] at hdecode
      obtain ⟨hstored, rfl⟩ := Prod.mk.inj hdecode
      obtain rfl : grant = stored := Except.ok.inj hstored
      obtain ⟨vaultKey, s₃, hopen, h⟩ := exec_bind_eq_ok.1 h
      rw [exec_ofExcept] at hopen
      obtain ⟨-, rfl⟩ := Prod.mk.inj hopen
      obtain ⟨envName, s₄, hlabel, h⟩ := exec_bind_eq_ok.1 h
      obtain ⟨hstore, hdb⟩ := still_cloneLabel hlabel
      obtain ⟨_, s₅, hproject, h⟩ := exec_bind_eq_ok.1 h
      obtain ⟨hdb₅, henvs₅, hsync₅⟩ := exec_addProject_eq_ok hproject
      obtain ⟨_, s₆, henvironment, h⟩ := exec_bind_eq_ok.1 h
      obtain ⟨hdb₆, hadded⟩ := exec_addEnvironment_eq_ok henvironment
      obtain ⟨v, s₇, hpull, h⟩ := exec_bind_eq_ok.1 h
      obtain ⟨hconfig, rfl⟩ := Prod.mk.inj h
      obtain rfl := Except.ok.inj hconfig
      have hdb' : s₆.db = s.db := hdb₆.trans (hdb₅.trans hdb)
      have henvs : s₅.store.environments = s.store.environments := by
        rw [henvs₅, hstore]
      have hsync : s₅.store.syncState = s.store.syncState := by
        rw [hsync₅, hstore]
      rw [← hdb'] at hgrant
      rw [storesGrant_of_pull hgrant hpull]
      rcases hadded with ⟨⟨env, henv⟩, hstore₆⟩ | ⟨hnone, hstores⟩
      · have htakes : s₆.TakesOver ⟨projectId, envName, orgId⟩ envId ↔
            s.TakesOver ⟨projectId, envName, orgId⟩ envId :=
          takesOver_congr hdb' (by rw [hstore₆, henvs]) (by rw [hstore₆, hsync])
        have hstores : s₆.StoresGrant envId grant ↔ s.StoresGrant envId grant := by
          unfold StoresGrant
          rw [hstore₆, henvs]
        rw [hstores, htakes, ← henvs, henv]
        simp
      · rw [← henvs]
        exact ⟨fun _ => .inl hnone, fun _ => .inl hstores⟩

end Clone

end Site

/-- A grant of the server reaches the device by a pull or a clone that returns Ok, whatever stored
it, if and only if the device stores it already, the clone creates the environment, or the revision
is new to the device. -/
theorem regrant_reaches_device_iff {api : HttpClient} {envId : Ident} {grant : Bytes} {s : Site}
    (hgrant : s.db.grants.lookup (envId, api.userId) = some grant) :
    (∀ (config : Config) (v : Int) (s' : Site), exec (pull api config) s = (.ok v, s') →
      (s'.StoresGrant envId grant ↔ s.StoresGrant envId grant ∨ s.TakesOver config envId)) ∧
    ∀ (keypair : Keypair) (projectId : Ident) (projectLabel envLabel : Option String)
      (orgId : Option Ident) (config : ProjectConfig) (s' : Site),
      exec (cloneEnv api keypair projectId envId projectLabel envLabel orgId) s =
        (.ok config, s') →
      (s'.StoresGrant envId grant ↔ s.store.environments.lookup envId = none ∨
        s.StoresGrant envId grant ∨ s.TakesOver config.toConfig envId) := by
  constructor
  · intro config v s' hpull
    exact storesGrant_of_pull hgrant hpull
  · intro keypair projectId projectLabel envLabel orgId config s' hclone
    exact Site.storesGrant_of_clone hgrant hclone

set_option maxRecDepth 10000 in
/-- The edited device takes over the grant that it is sent. -/
theorem regrant_reaches_device_edited :
    Team.afterPull.2.StoresGrant Team.envId Team.sharedAgain := by
  have hok : Team.afterPull.1 = .ok 2 := by decide +kernel
  have hpull : exec (pull (Team.setup.api 0) Team.setup.config) Team.edited =
      (.ok 2, Team.afterPull.2) := Prod.ext hok rfl
  have hgrant : Team.edited.db.grants.lookup (Team.envId, (Team.setup.api 0).userId) =
      some Team.sharedAgain := by
    decide +kernel
  refine ((regrant_reaches_device_iff hgrant).1 Team.setup.config 2 _ hpull).2 (.inr ⟨rfl, ?_⟩)
  exact ⟨⟨Team.projectId, "dev", Team.grant Team.alice⟩, ⟨Team.projectId, .raw .empty, 2⟩,
    by decide +kernel, by decide +kernel, by decide +kernel⟩

namespace Team

/-- The key pair of the first user's new account. -/
def renewed : Keypair := ⟨.random ⟨9, 0⟩ 1⟩

/-- The vault key sealed to it. -/
def sharedToRenewed : Bytes := .sealedBox renewed.public (⟨9, 0⟩, 0) (.random vaultKey 0)

/-- The first user has reset the account on a device, which deletes the grants, and the other one
has shared the environment anew. -/
def reset : Site :=
  let db' := ((Server.Stmt.resetAccount alice
    { account alice with publicKey := renewed.public }).exec db).2
  ⟨{ store alice with
      accountKeys := some ⟨.raw .empty, renewed.public, .raw .empty, .raw .empty⟩ },
    ((Server.Stmt.createGrant ⟨false, some .admin, some orgId, some .active, bob⟩ envId orgId alice
      sharedToRenewed).exec db').2, ⟨1, 100⟩⟩

/-- The device pulls. -/
def afterReset : Except Cli.Error Int × Site := exec (pull (setup.api 0) setup.config) reset

end Team

set_option maxRecDepth 10000 in
/-- A pull at the revision of the server keeps the grant of the account before its reset. -/
theorem pull_keeps_old_grant :
    Team.reset.db.grants.lookup (Team.envId, Team.alice) = some Team.sharedToRenewed ∧
    Vault.openVaultKey Team.renewed Team.sharedToRenewed = .ok (.random Team.vaultKey 0) ∧
    exec (pull (Team.setup.api 0) Team.setup.config) Team.reset = (.ok 0, Team.afterReset.2) ∧
    ¬ Team.afterReset.2.StoresGrant Team.envId Team.sharedToRenewed ∧
    Team.afterReset.2.StoresGrant Team.envId (Team.grant Team.alice) ∧
    ∀ key, Vault.openVaultKey Team.renewed (Team.grant Team.alice) ≠ .ok key := by
  have hok : Team.afterReset.1 = .ok 0 := by decide +kernel
  have hstored : (Team.afterReset.2.store.environments.lookup Team.envId).map
      Environment.encVaultKey = some (Team.grant Team.alice) := by
    decide +kernel
  refine ⟨by decide +kernel, by decide +kernel, Prod.ext hok rfl, ?_, hstored, ?_⟩
  · intro hnew
    rw [Site.StoresGrant, hstored] at hnew
    exact absurd hnew (by decide +kernel)
  · intro key hopen
    have hfails : (Vault.openVaultKey Team.renewed (Team.grant Team.alice)).toOption = none := by
      decide +kernel
    rw [hopen] at hfails
    cases hfails

end Sotto
