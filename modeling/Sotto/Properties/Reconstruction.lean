import Sotto.Alone.Site
import Sotto.Cli.Setup

/-!
# Reconstruction on a new device

Pulling the environments of a project inserts a row for each one that the caller holds a grant
for. Rows that are there are kept, so a second run inserts nothing. The names of the rows must
differ, and nothing on the server sees to that. A setup that fails after it restored the identity
is not run again: a setup is refused where there is an identity.
-/

namespace Sotto

open Core Api Cli

namespace Site

/-- The environments of a project as the caller lists them. -/
def listing (db : Server.Db) (userId projectId : Ident) : List EnvironmentInfo :=
  ((db.environments.rows.filter fun e => e.2.projectId = projectId).map fun e =>
    (e.1, e.2, db.grants.lookup (e.1, userId))).map fun e =>
      ⟨e.1, Server.encode e.2.1.encName, e.2.2.map Server.encode, e.2.1.revision⟩

/-- An environment that a pull of the environments inserts. -/
def Missing (store : Store) (env : EnvironmentInfo) : Prop :=
  store.environments.lookup env.id = none ∧ env.encVaultKey ≠ none

/-- The local names of the missing environments differ from each other and from the names that the
project has in the store. -/
structure NamesApart (name : EnvironmentInfo → String) (projectId : Ident) (store : Store)
    (envs : List EnvironmentInfo) : Prop where
  apart : ∀ env ∈ envs, ∀ env' ∈ envs, Missing store env → Missing store env' →
    env.id ≠ env'.id → name env ≠ name env'
  free : ∀ env ∈ envs, Missing store env → store.getEnvironment projectId (name env) = none

/-- The environments of a store, and nothing that was there changed. -/
structure Extends (store store' : Store) : Prop where
  environments : ∀ id row, store.environments.lookup id = some row →
    store'.environments.lookup id = some row
  projects : ∀ id name, store.projects.lookup id = some name → store'.projects.lookup id = some name
  accountKeys : store'.accountKeys = store.accountKeys
  secrets : store'.secrets = store.secrets
  secretVersions : store'.secretVersions = store.secretVersions
  syncState : store'.syncState = store.syncState

theorem Extends.refl (store : Store) : Extends store store :=
  ⟨fun _ _ h => h, fun _ _ h => h, rfl, rfl, rfl, rfl⟩

theorem Extends.trans {store store' store'' : Store} (h : Extends store store')
    (h' : Extends store' store'') : Extends store store'' :=
  ⟨fun id row hrow => h'.environments id row (h.environments id row hrow),
    fun id name hname => h'.projects id name (h.projects id name hname),
    h'.accountKeys.trans h.accountKeys, h'.secrets.trans h.secrets,
    h'.secretVersions.trans h.secretVersions, h'.syncState.trans h.syncState⟩

/-- The local name of a listed environment. -/
def localName (key master : Bytes) (env : EnvironmentInfo) : String :=
  match env.encName with
  | .valid encName => localEnvName key master env.id encName
  | .malformed _ => toString env.id

/-- The fields of an environment decode. -/
structure Wire (env : EnvironmentInfo) : Prop where
  encName : ∃ encName, env.encName = .valid encName
  encVaultKey : ∀ b64, env.encVaultKey = some b64 → ∃ grant, b64 = .valid grant

theorem wire_of_mem_listing {db : Server.Db} {userId projectId : Ident} {env : EnvironmentInfo}
    (h : env ∈ listing db userId projectId) : Wire env := by
  obtain ⟨e, -, rfl⟩ := List.mem_map.1 h
  refine ⟨⟨_, rfl⟩, fun b64 hb64 => ?_⟩
  obtain ⟨grant, -, rfl⟩ := Option.map_eq_some_iff.1 hb64
  exact ⟨grant, rfl⟩

section Insertions

variable {key master : Bytes} {projectId : Ident} {s : Site} {env : EnvironmentInfo}
  {envs : List EnvironmentInfo} {store : Store}

theorem getEnvironment_eq_none {name : String} : store.getEnvironment projectId name = none ↔
    ∀ id row, store.environments.lookup id = some row → row.projectId = projectId →
      row.name ≠ name := by
  unfold Store.getEnvironment
  rw [List.find?_eq_none]
  constructor
  · intro h id row hrow hproject hname
    exact h (id, row) (Table.mem_rows.2 hrow) (decide_eq_true ⟨hproject, hname⟩)
  · rintro h ⟨id, row⟩ hrow hmatch
    obtain ⟨hproject, hname⟩ := of_decide_eq_true hmatch
    exact h id row (Table.mem_rows.1 hrow) hproject hname

theorem createEnvironment_eq_ok {id : Ident} {name : String} {grant : Bytes} {store' : Store}
    (h : store.createEnvironment id projectId name grant = .ok store') :
    store.environments.lookup id = none ∧ store' = { store with
      environments := AList.insert id ⟨projectId, name, grant⟩ store.environments } := by
  unfold Store.createEnvironment at h
  split at h
  · cases h
  · cases h
  · cases h
  · next hid _ _ => exact ⟨hid, (Except.ok.inj h).symm⟩

theorem createEnvironment_ok {id : Ident} {name : String} (grant : Bytes)
    (hid : store.environments.lookup id = none)
    (hname : store.getEnvironment projectId name = none)
    (hproject : store.projects.lookup projectId ≠ none) :
    ∃ store', store.createEnvironment id projectId name grant = .ok store' := by
  obtain ⟨project, hproject⟩ := Option.ne_none_iff_exists'.1 hproject
  simp only [Store.createEnvironment, hid, hname, hproject]
  exact ⟨_, rfl⟩

theorem extends_of_createEnvironment {id : Ident} {name : String} {grant : Bytes} {store' : Store}
    (h : store.createEnvironment id projectId name grant = .ok store') : Extends store store' := by
  obtain ⟨hid, rfl⟩ := createEnvironment_eq_ok h
  refine ⟨fun id' row hrow => ?_, fun _ _ h => h, rfl, rfl, rfl, rfl⟩
  have hne : id' ≠ id := by
    rintro rfl
    cases hid.symm.trans hrow
  rw [Table.lookup_insert, if_neg hne]
  exact hrow

theorem exec_createEnvironments_of_not_missing (h : ¬ Missing s.store env) :
    exec (createEnvironments key master projectId (env :: envs)) s =
      exec (createEnvironments key master projectId envs) s := by
  have hfind : exec (Action.store (.findEnvironment env.id)) s =
      (.ok (s.store.environments.lookup env.id), s) := rfl
  rw [createEnvironments, exec_bind_of_ok hfind]
  cases hid : s.store.environments.lookup env.id with
  | some row => rfl
  | none =>
    cases hgrant : env.encVaultKey with
    | none => rfl
    | some b64 => exact absurd ⟨hid, by simp [hgrant]⟩ h

theorem exec_createEnvironments_of_missing (key master : Bytes) (projectId : Ident)
    (envs : List EnvironmentInfo) (hwire : Wire env) (h : Missing s.store env) :
    ∃ grant, exec (createEnvironments key master projectId (env :: envs)) s =
      match s.store.createEnvironment env.id projectId (localName key master env) grant with
      | .ok store => exec (createEnvironments key master projectId envs) { s with store := store }
      | .error e => (.error e, s) := by
  obtain ⟨encName, hname⟩ := hwire.encName
  obtain ⟨b64, hb64⟩ := Option.ne_none_iff_exists'.1 h.2
  obtain ⟨grant, rfl⟩ := hwire.encVaultKey b64 hb64
  have hfind : exec (Action.store (.findEnvironment env.id)) s = (.ok none, s) := by
    rw [exec_store]
    exact congrArg (fun row => (Except.ok row, s)) h.1
  have hlocal : localName key master env = localEnvName key master env.id encName := by
    rw [localName, hname]
  refine ⟨grant, ?_⟩
  rw [createEnvironments, exec_bind_of_ok hfind, hb64, hname, hlocal]
  simp only [b64decode]
  rw [exec_bind_of_ok (exec_ofExcept _), exec_bind_of_ok (exec_ofExcept _)]
  cases hcreate : s.store.createEnvironment env.id projectId
      (localEnvName key master env.id encName) grant with
  | ok store =>
    refine exec_bind_of_ok (a := ()) ?_
    rw [exec_store]
    simp only [StoreCmd.exec, StoreCmd.write, hcreate]
  | error e =>
    refine exec_bind_of_error ?_
    rw [exec_store]
    simp only [StoreCmd.exec, StoreCmd.write, hcreate]

/-- One insertion leaves the names of the other environments apart. -/
theorem NamesApart.of_insert {name : EnvironmentInfo → String} {grant : Bytes} {store' : Store}
    (h : NamesApart name projectId store (env :: envs)) (hmissing : Missing store env)
    (hcreate : store.createEnvironment env.id projectId (name env) grant = .ok store') :
    NamesApart name projectId store' envs := by
  obtain ⟨-, rfl⟩ := createEnvironment_eq_ok hcreate
  have hback : ∀ env', Missing { store with
      environments := AList.insert env.id ⟨projectId, name env, grant⟩ store.environments } env' →
      env'.id ≠ env.id ∧ Missing store env' := by
    intro env' hmissing'
    have hlookup := hmissing'.1
    rw [Table.lookup_insert] at hlookup
    split at hlookup
    · cases hlookup
    · next hne => exact ⟨hne, hlookup, hmissing'.2⟩
  refine ⟨fun env₁ h₁ env₂ h₂ hm₁ hm₂ hne => ?_, fun env' henv' hm => ?_⟩
  · exact h.apart env₁ (List.mem_cons_of_mem _ h₁) env₂ (List.mem_cons_of_mem _ h₂)
      (hback _ hm₁).2 (hback _ hm₂).2 hne
  · obtain ⟨hne, hm'⟩ := hback env' hm
    have hfree := getEnvironment_eq_none.1 (h.free env' (List.mem_cons_of_mem _ henv') hm')
    rw [getEnvironment_eq_none]
    intro id row hrow hproject
    rw [Table.lookup_insert] at hrow
    split at hrow
    · obtain rfl := Option.some.inj hrow
      exact h.apart env List.mem_cons_self env' (List.mem_cons_of_mem _ henv') hmissing hm' hne.symm
    · exact hfree id row hrow hproject

/-- What inserting the missing environments does: it keeps all rows, and where the names are apart
it succeeds and leaves a row for each environment with a grant. -/
theorem exec_createEnvironments (key master : Bytes) (hwire : ∀ env ∈ envs, Wire env)
    (hproject : s.store.projects.lookup projectId ≠ none) :
    ∃ r store, exec (createEnvironments key master projectId envs) s =
        (r, { s with store := store }) ∧ Extends s.store store ∧
      (NamesApart (localName key master) projectId s.store envs → r = .ok () ∧
        ∀ env ∈ envs, env.encVaultKey ≠ none → store.environments.lookup env.id ≠ none) := by
  induction envs generalizing s with
  | nil => exact ⟨.ok (), s.store, rfl, .refl _, fun _ => ⟨rfl, by simp⟩⟩
  | cons env envs ih =>
    rw [List.forall_mem_cons] at hwire
    by_cases hmissing : Missing s.store env
    · obtain ⟨grant, hexec⟩ :=
        exec_createEnvironments_of_missing key master projectId envs hwire.1 hmissing
      cases hcreate : s.store.createEnvironment env.id projectId (localName key master env)
          grant with
      | error e =>
        rw [hcreate] at hexec
        refine ⟨.error e, s.store, hexec, .refl _, fun hapart => ?_⟩
        obtain ⟨store, hok⟩ := createEnvironment_ok grant hmissing.1
          (hapart.free env List.mem_cons_self hmissing) hproject
        cases hcreate.symm.trans hok
      | ok store =>
        rw [hcreate] at hexec
        have hextends := extends_of_createEnvironment hcreate
        obtain ⟨hid, hstore⟩ := createEnvironment_eq_ok hcreate
        have hproject' : store.projects.lookup projectId ≠ none := by
          rw [hstore]
          exact hproject
        obtain ⟨r, store', hrest, hextends', hapart'⟩ := ih (s := { s with store := store })
          hwire.2 hproject'
        refine ⟨r, store', hexec.trans hrest, hextends.trans hextends', fun hapart => ?_⟩
        obtain ⟨hr, hpresent⟩ := hapart' (hapart.of_insert hmissing hcreate)
        refine ⟨hr, List.forall_mem_cons.2 ⟨fun _ => ?_, hpresent⟩⟩
        have hrow : store.environments.lookup env.id =
            some ⟨projectId, localName key master env, grant⟩ := by
          rw [hstore, Table.lookup_insert, if_pos rfl]
        rw [hextends'.environments _ _ hrow]
        simp
    · obtain ⟨r, store, hrest, hextends, hapart'⟩ := ih hwire.2 hproject
      refine ⟨r, store, (exec_createEnvironments_of_not_missing hmissing).trans hrest, hextends,
        fun hapart => ?_⟩
      obtain ⟨hr, hpresent⟩ := hapart'
        ⟨fun env₁ h₁ env₂ h₂ => hapart.apart env₁ (List.mem_cons_of_mem _ h₁) env₂
          (List.mem_cons_of_mem _ h₂), fun env' h' => hapart.free env' (List.mem_cons_of_mem _ h')⟩
      refine ⟨hr, List.forall_mem_cons.2 ⟨fun hgrant hnone => hmissing ⟨?_, hgrant⟩, hpresent⟩⟩
      cases hlookup : s.store.environments.lookup env.id with
      | none => rfl
      | some row => cases (hextends.environments _ _ hlookup).symm.trans hnone

/-- Where no environment is missing, nothing is inserted. -/
theorem exec_createEnvironments_of_none_missing (h : ∀ env ∈ envs, ¬ Missing s.store env) :
    exec (createEnvironments key master projectId envs) s = (.ok (), s) := by
  induction envs with
  | nil => rfl
  | cons env envs ih =>
    rw [List.forall_mem_cons] at h
    rw [exec_createEnvironments_of_not_missing h.1, ih h.2]

end Insertions

/-! ### The whole reconstruction -/

section Pulls

variable {api : HttpClient} {master : Bytes} {config : ProjectConfig} {s : Site}

/-- The account keypair under a master key. -/
def accountKeypairOf (keys : Option AccountKeys) (master : Bytes) : Except Cli.Error Keypair :=
  match keys with
  | none => .error .noIdentity
  | some keys => Cli.Error.ofCore (Core.Vault.openAccountKeypair master keys.encPrivateKeys)

/-- The organisations of a user. -/
def orgsOf (userId : Ident) (db : Server.Db) :
    List (Ident × Server.Organization × Server.Membership) :=
  db.organizations.rows.filterMap fun o =>
    match db.memberships.lookup (o.1, userId) with
    | some m => if o.2.lifecycle = .deleted then none else some (o.1, o.2, m)
    | none => none

/-- The key of an organisation that a user holds. -/
def orgKeyOf (userId : Ident) (db : Server.Db) (keypair : Keypair) (orgId : Ident) :
    Option Bytes :=
  (((orgsOf userId db).find? fun o => o.1 = orgId).bind fun o => o.2.2.encOrgKey).bind fun grant =>
    (Core.Vault.openVaultKey keypair grant).toOption

/-- The key that display names are decrypted under. -/
def nameKeyOf (userId : Ident) (master : Bytes) (orgId : Option Ident) (keys : Option AccountKeys)
    (db : Server.Db) : Bytes :=
  match orgId, accountKeypairOf keys master with
  | some orgId, .ok keypair => (orgKeyOf userId db keypair orgId).getD master
  | _, _ => master

theorem exec_accountKeypair (master : Bytes) (s : Site) :
    exec (accountKeypair master) s = (accountKeypairOf s.store.accountKeys master, s) := by
  have hkeys : exec (Action.store .getAccountKeys) s = (.ok s.store.accountKeys, s) := rfl
  cases h : s.store.accountKeys with
  | none =>
    rw [h] at hkeys
    exact exec_bind_of_error (exec_bind_of_ok hkeys)
  | some keys =>
    rw [h] at hkeys
    have hfound : exec accountMaterial s = (.ok keys, s) := exec_bind_of_ok hkeys
    exact exec_bind_of_ok hfound

theorem exec_listOrgs (api : HttpClient) (s : Site) : exec api.listOrgs s =
    (.ok ((orgsOf api.userId s.db).map fun o =>
      ⟨o.1, Server.encode o.2.1.encName, o.2.2.encOrgKey.map Server.encode⟩), s) :=
  (exec_request rfl : exec api.listOrgs s = received (serve (Server.listOrgs api.userId) s))

theorem exec_orgKey (api : HttpClient) (keypair : Keypair) (orgId : Ident) (s : Site) :
    ∃ r, exec (orgKey api keypair orgId) s = (r, s) ∧
      ∀ master, (match r with | .ok (some key) => key | _ => master) =
        (orgKeyOf api.userId s.db keypair orgId).getD master := by
  unfold orgKey orgKeyOf
  rw [exec_bind_of_ok (exec_listOrgs api s), List.find?_map]
  simp only [Function.comp_def]
  cases (orgsOf api.userId s.db).find? fun o => o.1 = orgId with
  | none => exact ⟨_, rfl, fun _ => rfl⟩
  | some org =>
    simp only [Option.map_some, Option.bind_some]
    cases org.2.2.encOrgKey with
    | none => exact ⟨_, rfl, fun _ => rfl⟩
    | some grant =>
      simp only [Option.map_some, Option.bind_some, Server.encode, b64decode]
      rw [exec_bind_of_ok (exec_ofExcept _)]
      cases Core.Vault.openVaultKey keypair grant with
      | error e => exact ⟨_, exec_bind_of_error (exec_ofExcept _), fun _ => rfl⟩
      | ok key => exact ⟨_, exec_bind_of_ok (exec_ofExcept _), fun _ => rfl⟩

/-- Finding the key of the names does not fail, and changes nothing. -/
theorem exec_nameKey (api : HttpClient) (master : Bytes) (orgId : Option Ident) (s : Site) :
    exec (nameKey api master orgId) s =
      (.ok (nameKeyOf api.userId master orgId s.store.accountKeys s.db), s) := by
  cases orgId with
  | none => rfl
  | some orgId =>
    have hattempt : exec (accountKeypair master).attempt s =
        (.ok (accountKeypairOf s.store.accountKeys master), s) := by
      rw [exec_attempt, exec_accountKeypair]
    simp only [nameKey, nameKeyOf]
    rw [exec_bind_of_ok hattempt]
    cases accountKeypairOf s.store.accountKeys master with
    | error e => rfl
    | ok keypair =>
      obtain ⟨r, horg, hkey⟩ := exec_orgKey api keypair orgId s
      have hattempt' : exec (orgKey api keypair orgId).attempt s = (.ok r, s) := by
        rw [exec_attempt, horg]
      simp only
      rw [exec_bind_of_ok hattempt', ← hkey master]
      rcases r with e | key
      · rfl
      · cases key <;> rfl

theorem exec_listEnvironments {access : Server.ProjectAccess} {projectId : Ident}
    (h : Server.projectAccess projectId api.userId s.db = .ok access) :
    exec (api.listEnvironments projectId) s = (.ok (listing s.db api.userId projectId), s) := by
  have haccess : serve (Server.Database.perform (.projectAccess projectId api.userId)) s =
      (.ok access, s) := by
    rw [serve_perform]
    exact congrArg (fun r => (r, s)) h
  have hserve : serve (Server.listEnvironments api.userId projectId) s =
      (.ok (listing s.db api.userId projectId), s) := by
    rw [Server.listEnvironments, serve_bind_of_ok haccess]
    rfl
  have hexec : exec (api.listEnvironments projectId) s =
      received (serve (Server.listEnvironments api.userId projectId) s) := exec_request rfl
  rw [hexec, hserve]
  rfl

/-- The store with a row for the project. -/
def withProject (config : ProjectConfig) (store : Store) : Store :=
  match store.projects.lookup config.projectId with
  | some _ => store
  | none => { store with
      projects := AList.insert config.projectId config.project store.projects }

theorem extends_withProject (config : ProjectConfig) (store : Store) :
    Extends store (withProject config store) := by
  unfold withProject
  cases h : store.projects.lookup config.projectId with
  | some name => exact .refl store
  | none =>
    refine ⟨fun _ _ hrow => hrow, fun id name hname => ?_, rfl, rfl, rfl, rfl⟩
    have hne : id ≠ config.projectId := by
      rintro rfl
      cases h.symm.trans hname
    rw [Table.lookup_insert, if_neg hne]
    exact hname

theorem lookup_withProject (config : ProjectConfig) (store : Store) :
    (withProject config store).projects.lookup config.projectId ≠ none := by
  unfold withProject
  cases h : store.projects.lookup config.projectId with
  | some name => simp [h]
  | none => simp

theorem environments_withProject (config : ProjectConfig) (store : Store) :
    (withProject config store).environments = store.environments := by
  unfold withProject
  cases store.projects.lookup config.projectId <;> rfl

/-- What a pull of the environments does to a project that the caller cannot list. -/
theorem exec_listEnvironments_of_error {e : Server.Error} {projectId : Ident}
    (h : Server.projectAccess projectId api.userId s.db = .error e) :
    exec (api.listEnvironments projectId) s = (.error (serverError e), s) := by
  have haccess : serve (Server.Database.perform (.projectAccess projectId api.userId)) s =
      (.error e, s) := by
    rw [serve_perform]
    exact congrArg (fun r => (r, s)) h
  have hexec : exec (api.listEnvironments projectId) s =
      received (serve (Server.listEnvironments api.userId projectId) s) := exec_request rfl
  rw [hexec, Server.listEnvironments, serve_bind_of_error haccess]
  rfl

/-- What is left of a reconstruction once the project has its row. -/
theorem exec_pullEnvironments_eq (api : HttpClient) (master : Bytes) (config : ProjectConfig)
    (s : Site) : exec (pullEnvironments api master config) s =
      exec (do
        let key ← nameKey api master config.orgId
        let envs ← api.listEnvironments config.projectId
        createEnvironments key master config.projectId envs)
        { s with store := withProject config s.store } := by
  have hget : exec (Action.store (.getProject config.projectId)) s =
      (.ok (s.store.projects.lookup config.projectId), s) := rfl
  unfold pullEnvironments
  rw [exec_bind_of_ok hget]
  cases h : s.store.projects.lookup config.projectId with
  | some name => simp [withProject, h]
  | none =>
    have hcreate : exec (Action.store (.createProjectWithId config.projectId config.project)) s =
        (.ok (), { s with store := withProject config s.store }) := by
      rw [exec_store]
      simp only [StoreCmd.exec, StoreCmd.write, Store.createProjectWithId, withProject, h]
    simp only [Option.isNone_none, if_true]
    rw [exec_bind_of_ok hcreate]

/-- The names of the environments that a pull of the environments inserts. -/
def Apart (api : HttpClient) (master : Bytes) (config : ProjectConfig) (s : Site) : Prop :=
  NamesApart
    (localName (nameKeyOf api.userId master config.orgId s.store.accountKeys s.db) master)
    config.projectId s.store (listing s.db api.userId config.projectId)

theorem exec_pullEnvironments (master : Bytes) {access : Server.ProjectAccess}
    (h : Server.projectAccess config.projectId api.userId s.db = .ok access) :
    ∃ r store, exec (pullEnvironments api master config) s = (r, { s with store := store }) ∧
      Extends s.store store ∧ (Apart api master config s → r = .ok () ∧
        store.projects.lookup config.projectId ≠ none ∧
        ∀ env ∈ listing s.db api.userId config.projectId, ¬ Missing store env) := by
  have hkeys : (withProject config s.store).accountKeys = s.store.accountKeys :=
    (extends_withProject config s.store).accountKeys
  have hproject : ({ s with store := withProject config s.store } : Site).store.projects.lookup
      config.projectId ≠ none := lookup_withProject config s.store
  have hwire : ∀ env ∈ listing s.db api.userId config.projectId, Wire env := fun _ =>
    wire_of_mem_listing
  obtain ⟨r, store, hexec, hextends, hpresent⟩ := exec_createEnvironments
    (nameKeyOf api.userId master config.orgId s.store.accountKeys s.db) master hwire hproject
  refine ⟨r, store, ?_, (extends_withProject config s.store).trans hextends, fun hapart => ?_⟩
  · rw [exec_pullEnvironments_eq, exec_bind_of_ok (exec_nameKey ..), hkeys, exec_bind_of_ok
      (exec_listEnvironments (s := { s with store := withProject config s.store }) h)]
    exact hexec
  · have hsame : ∀ env, Missing (withProject config s.store) env ↔ Missing s.store env := by
      intro env
      rw [Missing, Missing, environments_withProject]
    have hfree : ∀ name, (withProject config s.store).getEnvironment config.projectId name =
        s.store.getEnvironment config.projectId name := by
      intro name
      rw [Store.getEnvironment, Store.getEnvironment, environments_withProject]
    obtain ⟨hr, hrows⟩ := hpresent ⟨fun env henv env' henv' hm hm' =>
      hapart.apart env henv env' henv' ((hsame env).1 hm) ((hsame env').1 hm'),
      fun env henv hm => (hfree _).trans (hapart.free env henv ((hsame env).1 hm))⟩
    refine ⟨hr, fun hnone => ?_, fun env henv hm => hrows env henv hm.2 hm.1⟩
    obtain ⟨name, hname⟩ := Option.ne_none_iff_exists'.1 hproject
    cases (hextends.projects _ _ hname).symm.trans hnone

/-- Where no environment is missing and the project has its row, a pull of the environments changes
nothing. -/
theorem exec_pullEnvironments_again {access : Server.ProjectAccess}
    (h : Server.projectAccess config.projectId api.userId s.db = .ok access)
    (hproject : s.store.projects.lookup config.projectId ≠ none)
    (hnone : ∀ env ∈ listing s.db api.userId config.projectId, ¬ Missing s.store env) :
    exec (pullEnvironments api master config) s = (.ok (), s) := by
  have hstore : withProject config s.store = s.store := by
    obtain ⟨name, hname⟩ := Option.ne_none_iff_exists'.1 hproject
    rw [withProject, hname]
  have hsite : { s with store := withProject config s.store } = s := by
    rw [hstore]
  rw [exec_pullEnvironments_eq, hsite, exec_bind_of_ok (exec_nameKey ..),
    exec_bind_of_ok (exec_listEnvironments h)]
  exact exec_createEnvironments_of_none_missing hnone

/-- A pull of the environments succeeded, left a row for each environment of the project that the
caller holds a grant for, and changes nothing when it is run again. -/
def Reconstructs (api : HttpClient) (master : Bytes) (config : ProjectConfig) (s : Site) : Prop :=
  ∃ store, exec (pullEnvironments api master config) s = (.ok (), { s with store := store }) ∧
    Extends s.store store ∧
    (∀ id env, s.db.environments.lookup id = some env → env.projectId = config.projectId →
      s.db.grants.lookup (id, api.userId) ≠ none → store.environments.lookup id ≠ none) ∧
    exec (pullEnvironments api master config) { s with store := store } =
      (.ok (), { s with store := store })

theorem mem_listing {db : Server.Db} {userId projectId id : Ident} {env : Server.Environment}
    (henv : db.environments.lookup id = some env) (hproject : env.projectId = projectId) :
    ⟨id, Server.encode env.encName, (db.grants.lookup (id, userId)).map Server.encode,
      env.revision⟩ ∈ listing db userId projectId :=
  List.mem_map.2 ⟨(id, env, db.grants.lookup (id, userId)), List.mem_map.2 ⟨(id, env),
    List.mem_filter.2 ⟨Table.mem_rows.2 henv, decide_eq_true hproject⟩, rfl⟩, rfl⟩

theorem reconstructs {access : Server.ProjectAccess}
    (h : Server.projectAccess config.projectId api.userId s.db = .ok access)
    (hapart : Apart api master config s) : Reconstructs api master config s := by
  obtain ⟨r, store, hexec, hextends, hdone⟩ := exec_pullEnvironments master h
  obtain ⟨rfl, hproject, hpresent⟩ := hdone hapart
  refine ⟨store, hexec, hextends, fun id env henv hid hgrant hnone => ?_,
    exec_pullEnvironments_again (s := { s with store := store }) h hproject hpresent⟩
  exact hpresent _ (mem_listing henv hid) ⟨hnone, by simpa using hgrant⟩

/-- However a pull of the environments ends, it keeps all rows and leaves the server as it is. -/
theorem pullEnvironments_extends {r : Except Cli.Error Unit} {s' : Site}
    (h : exec (pullEnvironments api master config) s = (r, s')) :
    Extends s.store s'.store ∧ s'.db = s.db := by
  cases haccess : Server.projectAccess config.projectId api.userId s.db with
  | ok access =>
    obtain ⟨r', store, hexec, hextends, -⟩ := exec_pullEnvironments master haccess
    obtain ⟨-, rfl⟩ := Prod.mk.inj (hexec.symm.trans h)
    exact ⟨hextends, rfl⟩
  | error e =>
    rw [exec_pullEnvironments_eq, exec_bind_of_ok (exec_nameKey ..), exec_bind_of_error
      (exec_listEnvironments_of_error (s := { s with store := withProject config s.store })
        haccess)] at h
    obtain ⟨-, rfl⟩ := Prod.mk.inj h
    exact ⟨extends_withProject config s.store, rfl⟩

end Pulls

end Site

/-! ### Setups -/

namespace Cli

namespace Setup

/-- A device with its keychain, and the server. The identity and the account keys are rows of the
device's store, and the sync engine reads the latter. -/
structure Machine where
  storage : Session.Storage
  site : Site
  steps : ℕ

/-- What a step on the storages changes of the rows that the sync engine reads. -/
def syncRows : Session.Cmd → Store → Store
  | .putIdentityWithKeys identity keys, store => store.putIdentityWithKeys
      ⟨identity.kdfSalt, keys.publicKey, keys.encPrivateKeys, keys.recoveryBlob⟩
  | _, store => store

/-- What a step does when it succeeds. -/
def Cmd.effect : (c : Cmd) → Machine → c.Answer × Machine
  | question _, m => (.ok (), m)
  | storage c, m => (.ok (c.effect m.storage).1, { m with
      storage := (c.effect m.storage).2
      site := { m.site with store := syncRows c m.site.store } })
  | getSession, m => (.ok m.storage.session, m)
  | deleteSession, m => (.ok (), { m with storage := { m.storage with session := none } })
  | call c, m => ((Site.call c m.site).1, { m with site := (Site.call c m.site).2 })

/-- The answer of a step that fails; a draw does not. -/
def Cmd.failure (e : Error) : (c : Cmd) → Option c.Answer
  | question _ => some (.error e)
  | storage _ => some (.error e)
  | getSession => some (.error e)
  | deleteSession => some (.error e)
  | call .fresh => none
  | call (.store _) => some (.error e)
  | call (.http _) => some (.error e)

/-- The execution of a step, where the faults say which steps of the run fail. -/
def Cmd.exec (faults : ℕ → Option Error) (c : Cmd) (m : Machine) : c.Answer × Machine :=
  let next := { m with steps := m.steps + 1 }
  match (faults m.steps).bind fun e => c.failure e with
  | some answer => (answer, next)
  | none => c.effect next

/-- Run a setup where some steps fail. -/
def Command.exec {α : Type} (command : Command α) (faults : ℕ → Option Error) (m : Machine) :
    Except Failure α × Machine :=
  Prog.runE (Cmd.exec faults) command m

section Refused

variable {api : HttpClient} {seed : Seed} {now later ttl : Int} {secretKey password : Bytes}
  {config : ProjectConfig} {faults : ℕ → Option Error} {m : Machine}

/-- A setup is refused on a device that has an identity. -/
theorem setup_of_identity {identity : Session.Identity} (h : m.storage.identity = some identity) :
    (setup api seed now later ttl secretKey password config).exec faults m =
      (.error (.failed ((faults m.steps).getD .alreadyInitialized)),
        { m with steps := m.steps + 1 }) := by
  cases hfault : faults m.steps with
  | some e =>
    have hread : (onDevice (Session.step .getIdentity)).exec faults m =
        (.error (.failed e), { m with steps := m.steps + 1 }) := by
      change (Cmd.exec faults (.storage .getIdentity) m).map (·.mapError Failure.failed) id = _
      simp only [Cmd.exec, hfault]
      rfl
    exact Prog.runE_bind_of_error hread
  | none =>
    have hread : (onDevice (Session.step .getIdentity)).exec faults m =
        (.ok (some identity), { m with steps := m.steps + 1 }) := by
      change (Cmd.exec faults (.storage .getIdentity) m).map (·.mapError Failure.failed) id = _
      simp only [Cmd.exec, hfault]
      change (Except.ok m.storage.identity, _) = _
      rw [h]
      rfl
    exact Prog.runE_bind_of_ok hread

end Refused

/-! ### Two environments of one name -/

namespace Twice

def alice : Ident := .text "alice"

def project : Ident := .text "project"

def secretKey : Bytes := .random ⟨0, 0⟩ 0

def password : Bytes := .raw .empty

def salt : Bytes := .random ⟨0, 0⟩ 1

def master : Bytes := Kdf.deriveMasterKey password secretKey salt

def keypair : Keypair := ⟨.random ⟨0, 0⟩ 2⟩

def keys : AccountKeys :=
  ⟨salt, keypair.public, Core.Vault.wrapPrivateKey (⟨0, 0⟩, 3) master keypair.secret, .raw .empty⟩

def config : ProjectConfig := ⟨⟨project, "dev", none⟩, "project"⟩

/-- A device of alice that created an environment of its own. -/
def store (envId : Ident) : Store where
  accountKeys := some keys
  projects := AList.insert project "project" ∅
  environments := AList.insert envId
    ⟨project, "dev", Core.Vault.grantVaultKey (⟨0, 1⟩, 0) keypair.public (.random ⟨0, 1⟩ 1)⟩ ∅
  secrets := ∅
  secretVersions := ∅
  syncState := ∅

/-- A server where alice has signed up. -/
def signedUp : Server.Db where
  users := AList.insert alice none ∅
  organizations := ∅
  memberships := ∅
  projects := ∅
  environments := ∅
  grants := ∅
  secrets := ∅
  secretVersions := ∅
  machineTokens := ∅

def first : Except Error Int × Site :=
  Site.exec (push ⟨alice⟩ master config.toConfig) ⟨store (.text "a"), signedUp, ⟨1, 0⟩⟩

def second : Except Error Int × Site :=
  Site.exec (push ⟨alice⟩ master config.toConfig) ⟨store (.text "b"), first.2.db, ⟨2, 0⟩⟩

/-- A new device. -/
def blank : Site := ⟨⟨none, ∅, ∅, ∅, ∅, ∅⟩, second.2.db, ⟨3, 0⟩⟩

def newDevice : Machine := ⟨⟨none, none, none, none⟩, blank, 0⟩

def once : Except Failure Int × Machine :=
  (setup ⟨alice⟩ ⟨3, 0⟩ 0 1 1000 secretKey password config).exec (fun _ => none) newDevice

def again : Except Failure Int × Machine :=
  (setup ⟨alice⟩ ⟨3, 9⟩ 2 3 1000 secretKey password config).exec (fun _ => none) once.2

/-- Two devices push an environment of one name each, and a new device cannot be set up: the pull of
the environments fails, and the setup cannot be run again. -/
theorem not_reconstructs : first.1 = .ok 0 ∧ second.1 = .ok 0 ∧
    (Site.exec (pullEnvironments ⟨alice⟩ master config) blank).1 = .error (.store
      "UNIQUE constraint failed: environments.project_id, environments.name") ∧
    once.1 = .error (.failed (.store
      "UNIQUE constraint failed: environments.project_id, environments.name")) ∧
    once.2.storage.identity ≠ none ∧ again.1 = .error (.failed .alreadyInitialized) := by
  decide +kernel

end Twice

end Setup

/-- Where the project can be listed and the names of the missing environments are apart, a pull of
the environments reconstructs them, and can be run again; it keeps all rows in any case. A setup is
refused on a device that has an identity, and changes nothing there. -/
theorem reconstruction (api : HttpClient) (master : Bytes) (config : ProjectConfig) :
    (∀ s access, Server.projectAccess config.projectId api.userId s.db = .ok access →
      Site.Apart api master config s → Site.Reconstructs api master config s) ∧
    (∀ s r s', Site.exec (pullEnvironments api master config) s = (r, s') →
      Site.Extends s.store s'.store ∧ s'.db = s.db) ∧
    ∀ seed now later ttl secretKey password faults (m : Setup.Machine),
      m.storage.identity ≠ none →
        (Setup.setup api seed now later ttl secretKey password config).exec faults m =
          (.error (.failed ((faults m.steps).getD .alreadyInitialized)),
            { m with steps := m.steps + 1 }) := by
  refine ⟨fun s access h hapart => Site.reconstructs h hapart,
    fun s r s' h => Site.pullEnvironments_extends h, ?_⟩
  intro seed now later ttl secretKey password faults m h
  obtain ⟨identity, hidentity⟩ := Option.ne_none_iff_exists'.1 h
  exact Setup.setup_of_identity hidentity

open Setup.Twice in
theorem reconstruction_pushed :
    Site.Reconstructs ⟨alice⟩ master config ⟨blank.store, first.2.db, ⟨3, 0⟩⟩ ∧
    (Site.exec (pullEnvironments ⟨alice⟩ master config) blank).2.db = blank.db ∧
    ((Setup.setup ⟨alice⟩ ⟨3, 9⟩ 2 3 1000 secretKey password config).exec (fun _ => none)
      once.2).2.steps = once.2.steps + 1 := by
  have haccess : ∃ access, Server.projectAccess config.projectId alice first.2.db = .ok access := by
    refine ⟨⟨true, none, none, none, alice⟩, ?_⟩
    rfl
  obtain ⟨access, haccess⟩ := haccess
  have hone : (Site.listing first.2.db alice config.projectId).length = 1 := by decide +kernel
  have hempty : ∀ name, Store.getEnvironment config.projectId name blank.store = none :=
    fun _ => rfl
  have hapart : Site.Apart ⟨alice⟩ master config ⟨blank.store, first.2.db, ⟨3, 0⟩⟩ := by
    refine ⟨fun env henv env' henv' _ _ hne => ?_, fun env _ _ => hempty _⟩
    obtain ⟨e, he⟩ := List.length_eq_one_iff.1 hone
    rw [he, List.mem_singleton] at henv henv'
    exact absurd (by rw [henv, henv']) hne
  have hidentity : once.2.storage.identity ≠ none := by decide +kernel
  have hall := reconstruction ⟨alice⟩ master config
  exact ⟨hall.1 _ access haccess hapart, (hall.2.1 blank _ _ rfl).2,
    congrArg (·.2.steps) (hall.2.2 ⟨3, 9⟩ 2 3 1000 secretKey password (fun _ => none) once.2
      hidentity)⟩

end Cli

end Sotto
