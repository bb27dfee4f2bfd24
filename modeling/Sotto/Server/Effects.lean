import Sotto.Server.Requests

/-!
# What the transactions do

For every transaction, what holds when it commits: the guards that passed and the
rows it changed, read through lookups. A batch whose changes have distinct ids
acts on each secret by its own change, and a rotation whose data keys have
distinct ids gives each secret its own entry's key.
-/

namespace Sotto

namespace Server

open Core Api

theorem commit_eq_ok {α : Type} {tx : Tx α} {db db' : Db} {a : α} :
    commit tx db = (.ok a, db') ↔ tx.run db = .ok (a, db') := by
  unfold commit
  cases h : tx.run db with
  | ok r => cases r; simp
  | error e => simp

theorem commit_snd_of_error {α : Type} {tx : Tx α} {db : Db} {e : Error}
    (h : (commit tx db).1 = .error e) : (commit tx db).2 = db := by
  unfold commit at h ⊢
  cases hr : tx.run db with
  | ok r => simp [hr] at h
  | error e => rfl

namespace Tx

variable {α β : Type} {db db' : Db} {a : α} {b : β}

theorem bind_eq_ok {x : Tx α} {f : α → Tx β} :
    (x >>= f).run db = .ok (b, db') ↔
      ∃ a db₁, x.run db = .ok (a, db₁) ∧ (f a).run db₁ = .ok (b, db') := by
  rw [StateT.run_bind]
  cases h : x.run db with
  | ok r => simp [bind, Except.bind, Prod.ext_iff]
  | error e => simp [bind, Except.bind]

theorem pure_eq_ok {c : α} : (pure c : Tx α).run db = .ok (a, db') ↔ c = a ∧ db = db' := by
  rw [StateT.run_pure]
  simp [pure, Except.pure]

theorem lift_eq_ok {x : Except Error α} :
    (liftM x : Tx α).run db = .ok (a, db') ↔ x = .ok a ∧ db = db' := by
  cases x <;> simp [liftM, monadLift, MonadLift.monadLift, StateT.lift, StateT.run, bind,
    Except.bind, pure, Except.pure]

theorem throw_eq_ok {e : Error} : (throw e : Tx α).run db = .ok (a, db') ↔ False := by
  simp [throw, throwThe, MonadExceptOf.throw, StateT.run, StateT.lift, bind, Except.bind]

theorem get_eq_ok {c : Db} : (get : Tx Db).run db = .ok (c, db') ↔ db = c ∧ db = db' := by
  simp [pure, Except.pure]

theorem set_eq_ok {c : Db} {u : PUnit} :
    (set c : Tx PUnit).run db = .ok (u, db') ↔ c = db' := by
  simp [pure, Except.pure]

theorem modify_eq_ok {f : Db → Db} {u : PUnit} :
    (modify f : Tx PUnit).run db = .ok (u, db') ↔ f db = db' := by
  simp [pure, Except.pure]

theorem require_eq_ok {p : Prop} [Decidable p] {e : Error} {u : Unit} :
    (require p e : Tx Unit).run db = .ok (u, db') ↔ p ∧ db = db' := by
  unfold require
  split
  · next h =>
      rw [pure_eq_ok]
      simp [h]
  · next h =>
      rw [throw_eq_ok]
      simp [h]

end Tx

theorem require_eq_ok {p : Prop} [Decidable p] {e : Error} {u : Unit} :
    (require p e : Except Error Unit) = .ok u ↔ p := by
  unfold require
  split
  · next h => simp [pure, Except.pure, h]
  · next h => simp [throw, throwThe, MonadExceptOf.throw, h]

theorem bind_eq_ok {α β : Type} {x : Except Error α} {f : α → Except Error β} {b : β} :
    (x >>= f) = .ok b ↔ ∃ a, x = .ok a ∧ f a = .ok b := by
  cases x <;> simp [bind, Except.bind]

theorem decode_eq_ok {value : Base64} {field : String} {max : Nat} {bytes : Bytes} :
    decode value field max = .ok bytes ↔ value = .valid bytes ∧ bytes.len ≤ max := by
  cases value with
  | valid b =>
      rw [decode]
      split
      · next h =>
          constructor
          · rintro h'
            obtain rfl : b = bytes := by simpa using h'
            exact ⟨rfl, h⟩
          · rintro ⟨h', -⟩
            obtain rfl : b = bytes := by simpa using h'
            rfl
      · next h =>
          constructor
          · rintro h'
            cases h'
          · rintro ⟨h', hlen⟩
            obtain rfl : b = bytes := by simpa using h'
            exact absurd hlen h
  | malformed text =>
      rw [decode]
      split <;> simp

theorem decodeRequired_eq_ok {value : Option Base64} {field : String} {max : Nat} {bytes : Bytes} :
    decodeRequired value field max = .ok bytes ↔
      value = some (.valid bytes) ∧ bytes.len ≤ max := by
  cases value with
  | none => simp [decodeRequired]
  | some value => simp [decodeRequired, decode_eq_ok]

/-! ### Access checks read only -/

theorem requireWriteTx_eq_ok {access : ProjectAccess} {db db' : Db} {u : Unit}
    (h : access.requireWriteTx.run db = .ok (u, db')) : db' = db := by
  unfold ProjectAccess.requireWriteTx at h
  cases ho : access.orgId with
  | none =>
      simp only [ho, Tx.pure_eq_ok] at h
      exact h.2.symm
  | some orgId =>
      simp only [ho, Tx.bind_eq_ok, Tx.get_eq_ok, Tx.lift_eq_ok] at h
      obtain ⟨_, _, ⟨rfl, rfl⟩, _, _, ⟨-, rfl⟩, -, rfl⟩ := h
      rfl

theorem projectAccess_userId {projectId userId : Ident} {db : Db} {access : ProjectAccess}
    (h : projectAccess projectId userId db = .ok access) : access.userId = userId := by
  unfold projectAccess at h
  split at h
  · cases h
  · split at h
    · split at h
      · injection h with h
        rw [← h]
      · cases h
    · rw [bind_eq_ok] at h
      obtain ⟨orgAccess, -, h⟩ := h
      injection h with h
      rw [← h]

theorem envAccess_userId {envId userId projectId : Ident} {db : Db} {access : ProjectAccess}
    (h : envAccess envId userId db = .ok (projectId, access)) : access.userId = userId := by
  unfold envAccess at h
  split at h
  · cases h
  · rw [bind_eq_ok] at h
    obtain ⟨access', haccess, h⟩ := h
    injection h with h
    injection h with _ h
    rw [← h]
    exact projectAccess_userId haccess

/-- Access depends on the project of the environment, the projects, the organisations and
the memberships. -/
theorem envAccess_congr {envId userId : Ident} {db db' : Db}
    (henv : (db'.environments.lookup envId).map Environment.projectId =
      (db.environments.lookup envId).map Environment.projectId)
    (hprojects : db'.projects = db.projects) (horgs : db'.organizations = db.organizations)
    (hmembers : db'.memberships = db.memberships) :
    envAccess envId userId db' = envAccess envId userId db := by
  have hproject : ∀ projectId, projectAccess projectId userId db' =
      projectAccess projectId userId db := by
    intro projectId
    simp only [projectAccess, orgAccess, hprojects, horgs, hmembers]
  unfold envAccess
  cases he : db.environments.lookup envId with
  | none =>
      rw [he] at henv
      simp [Option.map_eq_none_iff.1 henv]
  | some env =>
      rw [he, Option.map_some, Option.map_eq_some_iff] at henv
      obtain ⟨env', he', hid⟩ := henv
      simp only [he', hid, hproject]

theorem requireManageStructureTx_eq_ok {access : ProjectAccess} {message : String} {db db' : Db}
    {u : Unit} (h : (access.requireManageStructureTx message).run db = .ok (u, db')) :
    db' = db := by
  unfold ProjectAccess.requireManageStructureTx at h
  cases ho : access.orgId with
  | none =>
      simp only [ho, Tx.require_eq_ok] at h
      exact h.2.symm
  | some orgId =>
      simp only [ho, Tx.bind_eq_ok, Tx.get_eq_ok, Tx.lift_eq_ok, Tx.require_eq_ok] at h
      obtain ⟨_, _, ⟨rfl, rfl⟩, _, _, ⟨-, rfl⟩, _, _, ⟨-, rfl⟩, -, rfl⟩ := h
      rfl

theorem lockRevision_eq_ok {envId : Ident} {db db' : Db} {revision : Int} :
    (lockRevision envId).run db = .ok (revision, db') ↔
      (∃ env, db.environments.lookup envId = some env ∧ env.revision = revision) ∧ db = db' := by
  simp only [lockRevision, Tx.bind_eq_ok, Tx.get_eq_ok]
  constructor
  · rintro ⟨_, _, ⟨rfl, rfl⟩, h⟩
    cases he : db.environments.lookup envId with
    | none =>
        simp only [he, Tx.throw_eq_ok] at h
    | some env =>
        simp only [he, Tx.pure_eq_ok] at h
        exact ⟨⟨env, rfl, h.1⟩, h.2⟩
  · rintro ⟨⟨env, he, rfl⟩, rfl⟩
    refine ⟨db, db, ⟨rfl, rfl⟩, ?_⟩
    simp only [he, Tx.pure_eq_ok, and_self]

/-! ### Batches -/

/-- What a `set` change leaves as the row of its secret. -/
def setRow (envId : Ident) (change : SecretChange) (encName encValue encDataKey : Bytes) :
    Secret :=
  ⟨envId, encName, encValue, encDataKey, change.version, false⟩

/-- What a `delete` change leaves of a row. -/
def deleteRow (envId : Ident) (secret : Secret) : Secret :=
  if secret.envId = envId then { secret with deleted := true } else secret

/-- What an accepted `set` change requires of the batch and of the database. -/
structure SetAccepted (envId : Ident) (change : SecretChange) (encName encValue encDataKey : Bytes)
    (db : Db) : Prop where
  encName : change.encName = some (.valid encName)
  encValue : change.encValue = some (.valid encValue)
  encDataKey : change.encDataKey = some (.valid encDataKey)
  version : 1 ≤ change.version
  sameEnv : ∀ secret ∈ db.secrets.lookup change.id, secret.envId = envId

theorem applySet_eq_ok {envId : Ident} {change : SecretChange} {db db' : Db} {u : Unit}
    (h : (applySet envId change).run db = .ok (u, db')) :
    ∃ encName encValue encDataKey,
      SetAccepted envId change encName encValue encDataKey db ∧
      db' = { db with
        secrets := AList.insert change.id (setRow envId change encName encValue encDataKey)
          db.secrets
        secretVersions := AList.insert (change.id, change.version)
          ⟨encName, encValue, encDataKey⟩ db.secretVersions } := by
  simp only [applySet, Tx.bind_eq_ok, Tx.require_eq_ok, Tx.lift_eq_ok, Tx.get_eq_ok,
    Tx.set_eq_ok, decodeRequired_eq_ok] at h
  obtain ⟨_, _, ⟨hv, rfl⟩, encName, _, ⟨⟨hn, -⟩, rfl⟩, encValue, _, ⟨⟨hval, -⟩, rfl⟩, encDataKey,
    _, ⟨⟨hk, -⟩, rfl⟩, _, _, ⟨rfl, rfl⟩, _, _, ⟨hsame, rfl⟩, _, _, ⟨-, rfl⟩, rfl⟩ := h
  exact ⟨encName, encValue, encDataKey, ⟨hn, hval, hk, hv, hsame⟩, rfl⟩

theorem applyDelete_eq_ok {envId : Ident} {change : SecretChange} {db db' : Db} {u : Unit}
    (h : (applyDelete envId change).run db = .ok (u, db')) :
    db' = { db with secrets := db.secrets.modify change.id (deleteRow envId) } := by
  rw [applyDelete, Tx.modify_eq_ok] at h
  exact h.symm

/-- What a batch of changes with distinct ids does to the database. -/
structure BatchApplied (envId : Ident) (changes : List SecretChange) (db db' : Db) : Prop where
  frame : db' = { db with secrets := db'.secrets, secretVersions := db'.secretVersions }
  other : ∀ id, id ∉ changes.map SecretChange.id → db'.secrets.lookup id = db.secrets.lookup id
  set : ∀ c ∈ changes, c.op = .set → ∃ encName encValue encDataKey,
    SetAccepted envId c encName encValue encDataKey db ∧
    db'.secrets.lookup c.id = some (setRow envId c encName encValue encDataKey)
  delete : ∀ c ∈ changes, c.op = .delete →
    db'.secrets.lookup c.id = (db.secrets.lookup c.id).map (deleteRow envId)

/-- A batch leaves rows of its environment only where there were no others. -/
theorem BatchApplied.rows {envId : Ident} {changes : List SecretChange} {db db' : Db}
    (h : BatchApplied envId changes db db')
    (hrows : ∀ id r, db.secrets.lookup id = some r → r.envId = envId) (id : Ident) (r : Secret)
    (hr : db'.secrets.lookup id = some r) : r.envId = envId := by
  by_cases hmem : id ∈ changes.map SecretChange.id
  · obtain ⟨c, hc, rfl⟩ := List.mem_map.1 hmem
    cases hop : c.op with
    | set =>
        obtain ⟨n, v, k, -, hrow⟩ := h.set c hc hop
        rw [hrow] at hr
        cases hr
        rfl
    | delete =>
        rw [h.delete c hc hop, Option.map_eq_some_iff] at hr
        obtain ⟨r₀, hr₀, rfl⟩ := hr
        have henv := hrows _ r₀ hr₀
        rw [deleteRow, if_pos henv]
        exact henv
  · rw [h.other id hmem] at hr
    exact hrows id r hr

/-- One change acts only on its own secret. -/
theorem applyChange_frame {envId : Ident} {change : SecretChange} {db db' : Db} {u : Unit}
    (h : (applyChange envId change).run db = .ok (u, db')) :
    BatchApplied envId [change] db db' := by
  simp only [applyChange, Tx.bind_eq_ok, Tx.lift_eq_ok] at h
  obtain ⟨_, _, ⟨-, rfl⟩, h⟩ := h
  cases hop : change.op with
  | set =>
      rw [hop] at h
      obtain ⟨encName, encValue, encDataKey, hacc, rfl⟩ := applySet_eq_ok h
      refine ⟨rfl, ?_, ?_, ?_⟩
      · intro id hid
        have hne : id ≠ change.id := by simpa using hid
        exact AList.lookup_insert_ne hne
      · intro c hc _
        obtain rfl : c = change := by simpa using hc
        exact ⟨encName, encValue, encDataKey, hacc, AList.lookup_insert _⟩
      · intro c hc hdel
        obtain rfl : c = change := by simpa using hc
        rw [hop] at hdel
        cases hdel
  | delete =>
      rw [hop] at h
      rw [applyDelete_eq_ok h]
      refine ⟨rfl, ?_, ?_, ?_⟩
      · intro id hid
        have hne : id ≠ change.id := by simpa using hid
        exact Table.lookup_modify_of_ne hne _ _
      · intro c hc hset
        obtain rfl : c = change := by simpa using hc
        rw [hop] at hset
        cases hset
      · intro c hc _
        obtain rfl : c = change := by simpa using hc
        exact Table.lookup_modify_self _ _ _

theorem applyChanges_eq_ok {envId : Ident} {changes : List SecretChange} {db db' : Db} {u : Unit}
    (hnodup : (changes.map SecretChange.id).Nodup)
    (h : (changes.forM (applyChange envId)).run db = .ok (u, db')) :
    BatchApplied envId changes db db' := by
  induction changes generalizing db with
  | nil =>
      have h : (pure u : Tx PUnit).run db = .ok (u, db') := h
      rw [Tx.pure_eq_ok] at h
      obtain ⟨-, rfl⟩ := h
      exact ⟨rfl, fun _ _ => rfl, by simp, by simp⟩
  | cons change rest ih =>
      have h : (applyChange envId change >>= fun _ => rest.forM (applyChange envId)).run db =
        .ok (u, db') := h
      rw [Tx.bind_eq_ok] at h
      obtain ⟨_, db₁, h₁, hrest⟩ := h
      rw [List.map_cons, List.nodup_cons] at hnodup
      have one := applyChange_frame h₁
      have tail := ih hnodup.2 hrest
      have hfirst : db'.secrets.lookup change.id = db₁.secrets.lookup change.id :=
        tail.other _ hnodup.1
      have hne : ∀ c ∈ rest, c.id ∉ [change].map SecretChange.id := by
        intro c hc hmem
        have hid : c.id = change.id := by simpa using hmem
        exact hnodup.1 (List.mem_map.2 ⟨c, hc, hid⟩)
      refine ⟨?_, ?_, ?_, ?_⟩
      · rw [tail.frame, one.frame]
      · intro id hid
        rw [List.map_cons, List.mem_cons, not_or] at hid
        rw [tail.other id hid.2, one.other id (by simpa using hid.1)]
      · intro c hc hop
        rcases List.mem_cons.1 hc with rfl | hc
        · rw [hfirst]
          exact one.set c List.mem_cons_self hop
        · obtain ⟨n, v, k, hacc, hrow⟩ := tail.set c hc hop
          have hsame := hacc.sameEnv
          rw [one.other c.id (hne c hc)] at hsame
          exact ⟨n, v, k, ⟨hacc.encName, hacc.encValue, hacc.encDataKey, hacc.version, hsame⟩, hrow⟩
      · intro c hc hop
        rcases List.mem_cons.1 hc with rfl | hc
        · rw [hfirst]
          exact one.delete c List.mem_cons_self hop
        · rw [tail.delete c hc hop, one.other c.id (hne c hc)]

theorem applyChanges_environments {envId : Ident} {changes : List SecretChange} {db db' : Db}
    {u : Unit} (h : (changes.forM (applyChange envId)).run db = .ok (u, db')) :
    db'.environments = db.environments := by
  induction changes generalizing db with
  | nil =>
      have h : (pure u : Tx PUnit).run db = .ok (u, db') := h
      rw [Tx.pure_eq_ok] at h
      rw [h.2]
  | cons change rest ih =>
      have h : (applyChange envId change >>= fun _ => rest.forM (applyChange envId)).run db =
        .ok (u, db') := h
      rw [Tx.bind_eq_ok] at h
      obtain ⟨_, db₁, h₁, hrest⟩ := h
      rw [ih hrest, (applyChange_frame h₁).frame]

/-- What an accepted batch does. -/
structure WriteAccepted (envId : Ident) (req : BatchRequest) (revision : Int) (db db' : Db) :
    Prop where
  base : ∃ env, db.environments.lookup envId = some env ∧ env.revision = req.baseRevision
  revision : revision = req.baseRevision + 1
  applied : ∃ mid, (req.changes.forM (applyChange envId)).run db = .ok ((), mid) ∧
    db' = { mid with
      environments := mid.environments.modify envId fun env =>
        { env with revision := req.baseRevision + 1 } }

theorem writeSecretsTx_eq_ok {access : ProjectAccess} {envId : Ident} {req : BatchRequest}
    {db db' : Db} {revision : Int}
    (h : (writeSecretsTx access envId req).run db = .ok (revision, db')) :
    WriteAccepted envId req revision db db' := by
  simp only [writeSecretsTx, Tx.bind_eq_ok, Tx.require_eq_ok, Tx.pure_eq_ok, lockRevision_eq_ok,
    setRevision, Tx.modify_eq_ok] at h
  obtain ⟨_, db₁, haccess, current, _, ⟨⟨env, henv, rfl⟩, rfl⟩, _, _, ⟨hbase, rfl⟩, _, mid, hmid, _,
    _, rfl, rfl, rfl⟩ := h
  obtain rfl := requireWriteTx_eq_ok haccess
  exact ⟨⟨env, henv, hbase⟩, by rw [hbase], mid, hmid, by rw [hbase]⟩

/-- An accepted batch advances the revision. -/
theorem WriteAccepted.next {envId : Ident} {req : BatchRequest} {revision : Int} {db db' : Db}
    (h : WriteAccepted envId req revision db db') :
    ∃ env, db'.environments.lookup envId = some env ∧ env.revision = req.baseRevision + 1 := by
  obtain ⟨env, henv, -⟩ := h.base
  obtain ⟨mid, hmid, rfl⟩ := h.applied
  refine ⟨{ env with revision := req.baseRevision + 1 }, ?_, rfl⟩
  simp [applyChanges_environments hmid, henv]

/-! ### Creations that find their row -/

theorem commit_snd_eq {α : Type} {tx : Tx α} {db : Db}
    (h : ∀ a db', tx.run db = .ok (a, db') → db' = db) : (commit tx db).2 = db := by
  unfold commit
  cases hr : tx.run db with
  | ok r => exact h r.1 r.2 hr
  | error e => rfl

theorem updateAccount_inert {userId : Ident} {account existing : Account} {db : Db}
    (h : db.users.lookup userId = some (some existing)) :
    (commit (updateAccount userId account) db).2 = db := by
  apply commit_snd_eq
  intro a db' hr
  simp only [updateAccount, Tx.bind_eq_ok, Tx.get_eq_ok] at hr
  obtain ⟨_, _, ⟨rfl, rfl⟩, hr⟩ := hr
  simp only [h, Tx.throw_eq_ok] at hr

theorem checkCanCreateOrgProject_eq_ok {orgId projectId : Ident} {db db' : Db} {u : Unit}
    (h : (checkCanCreateOrgProject orgId projectId).run db = .ok (u, db')) : db' = db := by
  simp only [checkCanCreateOrgProject, Tx.bind_eq_ok, Tx.get_eq_ok] at h
  obtain ⟨_, _, ⟨rfl, rfl⟩, h⟩ := h
  cases ho : db.organizations.lookup orgId with
  | none => simp only [ho, Tx.throw_eq_ok] at h
  | some org =>
      simp only [ho, Tx.bind_eq_ok, Tx.lift_eq_ok] at h
      obtain ⟨_, _, ⟨-, rfl⟩, h⟩ := h
      split at h
      · exact (Tx.pure_eq_ok.1 h).2.symm
      · exact (Tx.require_eq_ok.1 h).2.symm

theorem requireProjectQuota_eq_ok {id ownerId : Ident} {orgId : Option Ident} {db db' : Db}
    {u : Unit} (h : (requireProjectQuota id ownerId orgId).run db = .ok (u, db')) : db' = db := by
  cases orgId with
  | none => exact (Tx.pure_eq_ok.1 h).2.symm
  | some orgId =>
      simp only [requireProjectQuota, Tx.bind_eq_ok, Tx.get_eq_ok, Tx.lift_eq_ok] at h
      obtain ⟨_, _, ⟨rfl, rfl⟩, _, _, ⟨-, rfl⟩, _, _, ⟨-, rfl⟩, h⟩ := h
      exact checkCanCreateOrgProject_eq_ok h

theorem insertProject_inert {id ownerId : Ident} {orgId : Option Ident} {encName : Bytes} {db : Db}
    (h : db.projects.lookup id ≠ none) :
    (commit (insertProject id ownerId orgId encName) db).2 = db := by
  apply commit_snd_eq
  intro a db' hr
  simp only [insertProject, Tx.bind_eq_ok, Tx.get_eq_ok] at hr
  obtain ⟨_, db₁, hq, _, _, ⟨rfl, rfl⟩, hr⟩ := hr
  obtain rfl := requireProjectQuota_eq_ok hq
  cases hp : db₁.projects.lookup id with
  | none => exact absurd hp h
  | some project =>
      simp only [hp] at hr
      exact (Tx.pure_eq_ok.1 hr).2.symm

theorem insertEnvironment_inert {access : ProjectAccess} {projectId userId id : Ident}
    {encName encVaultKey : Bytes} {db : Db} (h : db.environments.lookup id ≠ none) :
    (commit (insertEnvironment access projectId userId id encName encVaultKey) db).2 = db := by
  apply commit_snd_eq
  intro a db' hr
  simp only [insertEnvironment, Tx.bind_eq_ok, Tx.get_eq_ok] at hr
  obtain ⟨_, db₁, haccess, _, _, ⟨rfl, rfl⟩, hr⟩ := hr
  obtain rfl := requireManageStructureTx_eq_ok haccess
  cases he : db₁.environments.lookup id with
  | none => exact absurd he h
  | some env =>
      simp only [he] at hr
      exact (Tx.pure_eq_ok.1 hr).2.symm

/-! ### Rotations -/

/-- What an accepted rotation requires and does. -/
structure RotateAccepted (envId orgId : Ident) (req : Rotation) (revision : Int) (db db' : Db) :
    Prop where
  base : ∃ env, db.environments.lookup envId = some env ∧ env.revision = req.baseRevision
  revision : revision = req.baseRevision + 1
  members : ∀ g ∈ req.grants, (db.memberships.lookup (orgId, g.1)).isSome
  secrets : sameKeys (req.dataKeys.map (·.1)) ((db.secretsOf envId).map (·.1))
  history : sameKeys (req.historyKeys.map (·.1)) ((db.historyOf envId).map (·.1))
  result : db' = { db with
    environments := db.environments.modify envId fun env =>
      { env with revision := req.baseRevision + 1 }
    secretVersions := rewrapHistory req.historyKeys db.secretVersions
    machineTokens := resealTokens envId req.machineGrants db.machineTokens
    secrets := rewrapSecrets envId req.dataKeys db.secrets
    grants := replaceGrants envId req.grants db.grants }

theorem rotateTx_eq_ok {access : ProjectAccess} {envId orgId : Ident} {req : Rotation}
    {db db' : Db} {revision : Int}
    (h : (rotateTx access envId orgId req).run db = .ok (revision, db')) :
    RotateAccepted envId orgId req revision db db' := by
  simp only [rotateTx, Tx.bind_eq_ok, Tx.require_eq_ok, Tx.pure_eq_ok, Tx.get_eq_ok, Tx.set_eq_ok,
    lockRevision_eq_ok, setRevision, Tx.modify_eq_ok] at h
  obtain ⟨_, db₁, haccess, _, _, ⟨rfl, rfl⟩, _, _, ⟨hmembers, rfl⟩, _, _, ⟨⟨env, henv, rfl⟩, rfl⟩,
    _, _, ⟨hbase, rfl⟩, _, _, ⟨hsecrets, rfl⟩, _, _, ⟨hhistory, rfl⟩, _, _, ⟨-, rfl⟩, _, _, rfl, _,
    _, ⟨-, rfl⟩, _, _, rfl, rfl, rfl⟩ := h
  obtain rfl := requireManageStructureTx_eq_ok haccess
  refine ⟨⟨env, henv, hbase⟩, by rw [hbase], ?_, hsecrets, hhistory, by rw [hbase]⟩
  simpa using hmembers

end Server

end Sotto
