import Sotto.Properties.Versions
import Sotto.Server.Service

/-!
# Environments are isolated

The body of a batch or of a rotation names ids of its caller's choice, also those of secrets,
members and tokens of other environments. Whatever ids it names, no statement of a request to one
environment changes another: the secrets, retained versions, grants, machine tokens and the
revision of the other environment are those before the statement. This holds at every database, and
so among any other requests that run in between.
-/

namespace Sotto

namespace Server

open Core Api

/-- What is kept of an environment is the same in two databases. -/
structure SameEnvironment (envId : Ident) (db db' : Db) : Prop where
  environment : db'.environments.lookup envId = db.environments.lookup envId
  secrets : ∀ id secret, secret.envId = envId →
    (db'.secrets.lookup id = some secret ↔ db.secrets.lookup id = some secret)
  history : ∀ v, v ∈ db'.historyOf envId ↔ v ∈ db.historyOf envId
  grants : ∀ userId, db'.grants.lookup (envId, userId) = db.grants.lookup (envId, userId)
  tokens : ∀ id token, token.envId = envId →
    (db'.machineTokens.lookup id = some token ↔ db.machineTokens.lookup id = some token)

/-- The requests of the clients: those that write to an environment, and any others. -/
inductive Call
  | write (call : WriteCall)
  | other (handler : Served Int)

def Call.handler : Call → Served Int
  | write call => call.handler
  | other handler => handler

/-- A server that any number of clients send requests to. -/
def hosting : System Nat Stmt.Answer Db Unit Call (Except Error Int) where
  prog _ call := call.handler.run
  start _ _ _ _ _ := True
  exec _ stmt db _ r db' _ := stmt.exec db = (r, db')
  finish _ _ _ _ _ _ := True

/-- A configuration of the server and its clients. -/
abbrev Hosting := Config Nat Stmt.Answer Db Unit Call (Except Error Int)

/-- A server without running requests. -/
def quiet (db : Db) : Hosting where
  shared := db
  threads _ := ⟨(), none⟩

theorem mem_historyOf {envId : Ident} {db : Db} {v : (Ident × Int) × SecretVersion} :
    v ∈ db.historyOf envId ↔ db.secretVersions.lookup v.1 = some v.2 ∧
      ∃ secret, db.secrets.lookup v.1.1 = some secret ∧ secret.envId = envId := by
  rw [Db.historyOf, List.mem_filter, ← Table.mem_rows]
  simp [Option.any_eq_true]

namespace SameEnvironment

variable {envId envId' : Ident} {db db' db'' : Db}

theorem refl (envId : Ident) (db : Db) : SameEnvironment envId db db :=
  ⟨rfl, fun _ _ _ => Iff.rfl, fun _ => Iff.rfl, fun _ => rfl, fun _ _ _ => Iff.rfl⟩

theorem trans (h : SameEnvironment envId db db') (h' : SameEnvironment envId db' db'') :
    SameEnvironment envId db db'' where
  environment := h'.environment.trans h.environment
  secrets id secret hs := (h'.secrets id secret hs).trans (h.secrets id secret hs)
  history v := (h'.history v).trans (h.history v)
  grants userId := (h'.grants userId).trans (h.grants userId)
  tokens id token ht := (h'.tokens id token ht).trans (h.tokens id token ht)

/-- The retained versions of an environment are the same where its secrets are, and the rows of
these secrets. -/
theorem history_of_secrets (hsecrets : ∀ id secret, secret.envId = envId →
      (db'.secrets.lookup id = some secret ↔ db.secrets.lookup id = some secret))
    (hrows : ∀ k secret, db.secrets.lookup k.1 = some secret → secret.envId = envId →
      db'.secretVersions.lookup k = db.secretVersions.lookup k)
    (v : (Ident × Int) × SecretVersion) : v ∈ db'.historyOf envId ↔ v ∈ db.historyOf envId := by
  rw [mem_historyOf, mem_historyOf]
  constructor
  · rintro ⟨hv, secret, hs, henv⟩
    rw [hsecrets _ _ henv] at hs
    rw [hrows v.1 secret hs henv] at hv
    exact ⟨hv, secret, hs, henv⟩
  · rintro ⟨hv, secret, hs, henv⟩
    refine ⟨?_, secret, (hsecrets _ _ henv).2 hs, henv⟩
    rw [hrows v.1 secret hs henv]
    exact hv

theorem of_commit {α : Type} {tx : Tx α}
    (h : ∀ a db', tx.run db = .ok (a, db') → SameEnvironment envId db db') :
    SameEnvironment envId db (commit tx db).2 := by
  unfold commit
  cases hr : tx.run db with
  | ok r => exact h r.1 r.2 hr
  | error e => exact refl envId db

theorem withRevision (hne : envId ≠ envId') (revision : Int) (db : Db) :
    SameEnvironment envId db { db with
      environments := db.environments.modify envId' fun env => { env with revision } } where
  environment := Table.lookup_modify_of_ne hne _ _
  secrets _ _ _ := Iff.rfl
  history _ := Iff.rfl
  grants _ := rfl
  tokens _ _ _ := Iff.rfl

/-! ### Batches -/

theorem applySet (hne : envId ≠ envId') {change : SecretChange} {u : Unit}
    (h : (applySet envId' change).run db = .ok (u, db')) : SameEnvironment envId db db' := by
  obtain ⟨encName, encValue, encDataKey, hacc, rfl⟩ := applySet_eq_ok h
  -- the row that is written, like the one it replaces, is of the environment of the request
  have hother : ∀ secret, db.secrets.lookup change.id = some secret → secret.envId ≠ envId := by
    intro secret hs henv
    exact hne (henv.symm.trans (hacc.sameEnv secret hs))
  have hsecrets : ∀ id secret, secret.envId = envId →
      ((AList.insert change.id (setRow envId' change encName encValue encDataKey)
        db.secrets).lookup id = some secret ↔ db.secrets.lookup id = some secret) := by
    intro id secret henv
    rw [Table.lookup_insert]
    split
    · next hid =>
        subst hid
        constructor
        · intro hs
          cases hs
          exact absurd henv.symm hne
        · intro hs
          exact absurd henv (hother secret hs)
    · rfl
  refine ⟨rfl, hsecrets, history_of_secrets hsecrets ?_, fun _ => rfl, fun _ _ _ => Iff.rfl⟩
  intro k secret hs henv
  refine AList.lookup_insert_ne ?_
  rintro rfl
  exact hother secret hs henv

theorem applyDelete (hne : envId ≠ envId') {change : SecretChange} {u : Unit}
    (h : (applyDelete envId' change).run db = .ok (u, db')) : SameEnvironment envId db db' := by
  obtain rfl := applyDelete_eq_ok h
  have hsecrets : ∀ id secret, secret.envId = envId →
      ((db.secrets.modify change.id (deleteRow envId')).lookup id = some secret ↔
        db.secrets.lookup id = some secret) := by
    intro id secret henv
    refine Table.lookup_modify_eq_some_iff (p := fun s : Secret => s.envId = envId) ?_ ?_ _ _ _ henv
    · intro s hs
      exact if_neg fun h' => hne (hs.symm.trans h')
    · intro s hs
      unfold deleteRow at hs
      split at hs <;> exact hs
  exact ⟨rfl, hsecrets, history_of_secrets hsecrets fun _ _ _ _ => rfl, fun _ => rfl,
    fun _ _ _ => Iff.rfl⟩

theorem applyChange (hne : envId ≠ envId') {change : SecretChange} {u : Unit}
    (h : (applyChange envId' change).run db = .ok (u, db')) : SameEnvironment envId db db' := by
  simp only [Server.applyChange, Tx.bind_eq_ok, Tx.lift_eq_ok] at h
  obtain ⟨_, _, ⟨-, rfl⟩, h⟩ := h
  cases hop : change.op with
  | set =>
      rw [hop] at h
      exact applySet hne h
  | delete =>
      rw [hop] at h
      exact applyDelete hne h

theorem applyChanges (hne : envId ≠ envId') {changes : List SecretChange} {u : Unit}
    (h : (changes.forM (Server.applyChange envId')).run db = .ok (u, db')) :
    SameEnvironment envId db db' := by
  induction changes generalizing db with
  | nil =>
      have h : (pure u : Tx PUnit).run db = .ok (u, db') := h
      rw [Tx.pure_eq_ok] at h
      obtain ⟨-, rfl⟩ := h
      exact refl envId db
  | cons change rest ih =>
      have h : (Server.applyChange envId' change >>= fun _ =>
        rest.forM (Server.applyChange envId')).run db = .ok (u, db') := h
      rw [Tx.bind_eq_ok] at h
      obtain ⟨_, db₁, h₁, hrest⟩ := h
      exact (applyChange hne h₁).trans (ih hrest)

theorem writeSecretsTx (hne : envId ≠ envId') {access : ProjectAccess} {req : BatchRequest}
    {revision : Int} (h : (writeSecretsTx access envId' req).run db = .ok (revision, db')) :
    SameEnvironment envId db db' := by
  obtain ⟨mid, hmid, rfl⟩ := (writeSecretsTx_eq_ok h).applied
  exact (applyChanges hne hmid).trans (withRevision hne _ mid)

/-! ### Rotations -/

theorem rewrapSecrets (hne : envId ≠ envId') (dataKeys : List (Ident × Bytes))
    (secrets : Table Ident Secret) (id : Ident) {secret : Secret} (henv : secret.envId = envId) :
    (rewrapSecrets envId' dataKeys secrets).lookup id = some secret ↔
      secrets.lookup id = some secret := by
  refine Table.lookup_foldl_modify_eq_some_iff (p := fun s : Secret => s.envId = envId)
    (f := fun (s : Secret) key => if s.envId = envId' then { s with encDataKey := key } else s)
    ?_ ?_ dataKeys secrets id henv
  · intro s _ hs
    exact if_neg fun h' => hne (hs.symm.trans h')
  · intro s _ hs
    split at hs <;> exact hs

theorem resealTokens (hne : envId ≠ envId') (machineGrants : List (Ident × Bytes))
    (tokens : Table Ident MachineToken) (id : Ident) {token : MachineToken}
    (henv : token.envId = envId) :
    (resealTokens envId' machineGrants tokens).lookup id = some token ↔
      tokens.lookup id = some token := by
  refine Table.lookup_foldl_modify_eq_some_iff (p := fun t : MachineToken => t.envId = envId)
    (f := fun (t : MachineToken) key =>
      if t.envId = envId' then { t with encVaultKey := key } else t)
    ?_ ?_ machineGrants tokens id henv
  · intro t _ ht
    exact if_neg fun h' => hne (ht.symm.trans h')
  · intro t _ ht
    split at ht <;> exact ht

theorem lookup_replaceGrants (hne : envId ≠ envId') (grants : List (Ident × Bytes))
    (table : Table (Ident × Ident) Bytes) (userId : Ident) :
    (replaceGrants envId' grants table).lookup (envId, userId) = table.lookup (envId, userId) := by
  have hother : ∀ g ∈ grants, (envId', g.1) ≠ (envId, userId) := by
    intro g _ heq
    exact hne (congrArg Prod.fst heq).symm
  unfold replaceGrants
  rw [Table.lookup_foldl_insert_of_notMem (fun g : Ident × Bytes => (envId', g.1)) Prod.snd hother,
    Table.lookup_filterRows]
  cases table.lookup (envId, userId) with
  | none => rfl
  | some grant => simp [hne]

theorem rotateTx (hne : envId ≠ envId') {access : ProjectAccess} {orgId : Ident} {req : Rotation}
    {revision : Int} (h : (rotateTx access envId' orgId req).run db = .ok (revision, db')) :
    SameEnvironment envId db db' := by
  have hacc := rotateTx_eq_ok h
  have hsecrets : ∀ id secret, secret.envId = envId →
      ((Server.rewrapSecrets envId' req.dataKeys db.secrets).lookup id = some secret ↔
        db.secrets.lookup id = some secret) :=
    fun id _ henv => rewrapSecrets hne req.dataKeys db.secrets id henv
  have hrows : ∀ k secret, db.secrets.lookup k.1 = some secret → secret.envId = envId →
      (rewrapHistory req.historyKeys db.secretVersions).lookup k = db.secretVersions.lookup k := by
    intro k secret hs henv
    refine Table.lookup_foldl_modify_of_notMem
      (fun (v : SecretVersion) key => { v with encDataKey := key }) ?_ _
    -- a rotation names retained versions of its own environment only
    intro hk
    have hkeys := hacc.history
    simp only [sameKeys, Bool.and_eq_true, List.all_eq_true, decide_eq_true_eq] at hkeys
    obtain ⟨v, hv, rfl⟩ := List.mem_map.1 (hkeys.1 k hk)
    obtain ⟨-, secret', hs', henv'⟩ := mem_historyOf.1 hv
    rw [hs] at hs'
    cases hs'
    exact hne (henv.symm.trans henv')
  rw [hacc.result]
  exact ⟨Table.lookup_modify_of_ne hne _ _, hsecrets, history_of_secrets hsecrets hrows,
    lookup_replaceGrants hne req.grants db.grants,
    fun id _ henv => resealTokens hne req.machineGrants db.machineTokens id henv⟩

end SameEnvironment

/-! ### Requests -/

/-- A statement that changes nothing of an environment, at any database. -/
def Stmt.Spares (envId : Ident) (stmt : Stmt) : Prop :=
  ∀ db, SameEnvironment envId db (stmt.exec db).2

section Requests

variable {envId : Ident} {α : Type}

theorem uses_check {P : Stmt → Prop} {result : Except Error α} :
    Prog.UsesE P (check result : Served α) := by
  cases result with
  | ok a => exact Prog.UsesE.pure a
  | error e => exact Prog.UsesE.throw e

theorem uses_require {P : Stmt → Prop} {p : Prop} [Decidable p] {e : Error} :
    Prog.UsesE P (require p e : Served Unit) := by
  unfold require
  split
  · exact Prog.UsesE.pure ()
  · exact Prog.UsesE.throw e

theorem uses_perform {P : Stmt → Prop} {stmt : Stmt} (h : P stmt) :
    Prog.UsesE P (Database.perform stmt : Served stmt.Reply) :=
  ⟨h, fun _ => trivial⟩

theorem spares_envAccess (envId' userId : Ident) : (Stmt.envAccess envId' userId).Spares envId :=
  SameEnvironment.refl envId

/-- Every statement of a write request spares the environments that it is not addressed to. -/
theorem WriteCall.uses_spares (call : WriteCall) (hne : envId ≠ call.envId) :
    Prog.UsesE (Stmt.Spares envId) call.handler := by
  cases call with
  | writeSecrets userId envId' req =>
      refine Prog.UsesE.bind uses_require fun _ => ?_
      refine Prog.UsesE.bind (uses_perform (spares_envAccess _ _)) fun _ => ?_
      refine Prog.UsesE.bind uses_check fun _ => uses_perform ?_
      intro db
      exact SameEnvironment.of_commit fun _ _ => SameEnvironment.writeSecretsTx hne
  | rotate userId envId' req =>
      refine Prog.UsesE.bind (uses_perform (spares_envAccess _ _)) fun _ => ?_
      refine Prog.UsesE.bind uses_check fun _ => ?_
      refine Prog.UsesE.bind (uses_perform (SameEnvironment.refl envId)) fun orgId => ?_
      cases orgId with
      | none => exact Prog.UsesE.throw _
      | some orgId =>
          refine Prog.UsesE.bind uses_check fun rotation => uses_perform ?_
          intro db
          exact SameEnvironment.of_commit fun _ _ => SameEnvironment.rotateTx hne

end Requests

/-- The statements of a request. -/
def Call.Issues (envId : Ident) : Call → Stmt → Prop
  | write call, stmt => envId ≠ call.envId → stmt.Spares envId
  | other _, _ => True

theorem uses_issues (envId : Ident) (call : Call) :
    Prog.Uses (call.Issues envId) call.handler.run := by
  cases call with
  | write call =>
      by_cases hne : envId = call.envId
      · exact Prog.uses_of_forall (fun _ h => absurd hne h) _
      · exact (call.uses_spares hne).mono fun h _ => h
  | other handler => exact Prog.uses_of_forall (fun _ => trivial) _

/-- In every interleaving with any other requests, no statement of a batch or of a rotation that is
addressed to one environment changes another. -/
theorem environments_isolated {db : Db} {w : Hosting} (hw : hosting.Reaches (quiet db) w) {i : Nat}
    {call : WriteCall} {stmt : Stmt} {k : stmt.Answer → Prog Stmt.Answer (Except Error Int)}
    (hr : (w.threads i).running = some (.write call, .call stmt k)) {envId : Ident}
    (hne : envId ≠ call.envId) : SameEnvironment envId w.shared (stmt.exec w.shared).2 := by
  have huses : (Prog.call stmt k).Uses (Call.Issues envId (.write call)) :=
    (System.Reaches.running (I := fun _ _ => True) (fun _ call => uses_issues envId call)
      (fun _ => trivial) (fun _ _ => trivial) (fun _ => rfl) hw hr).1
  exact huses.1 hne w.shared

/-- The configuration after the first statement of a request that one client sends. -/
def admitted (db : Db) (call : WriteCall) (stmt : Stmt)
    (k : stmt.Answer → Prog Stmt.Answer (Except Error Int)) : Hosting where
  shared := (stmt.exec db).2
  threads := Function.update (Function.update (quiet db).threads 0
    ⟨(), some (.write call, .call stmt k)⟩) 0 ⟨(), some (.write call, k (stmt.exec db).1)⟩

theorem reaches_admitted {db : Db} {call : WriteCall} {stmt : Stmt}
    {k : stmt.Answer → Prog Stmt.Answer (Except Error Int)}
    (h : call.handler.run = .call stmt k) :
    hosting.Reaches (quiet db) (admitted db call stmt k) := by
  have hstart : hosting.Step (quiet db) ⟨db, Function.update (quiet db).threads 0
      ⟨(), some (.write call, .call stmt k)⟩⟩ := by
    rw [← h]
    exact .start rfl trivial
  refine (Relation.ReflTransGen.single hstart).tail (.call (i := 0) (k := k) ?_ rfl)
  simp

end Server

open Server

namespace Team

/-- The team's database with a secret in another environment of its project. -/
def dbOfTwo : Server.Db :=
  { db with
    environments := AList.insert (.text "prod") ⟨projectId, .raw .empty, 7⟩ db.environments
    secrets := AList.insert (.text "token")
      ⟨.text "prod", .raw .empty, .raw .empty, .raw .empty, 2, false⟩ db.secrets }

/-- A batch that deletes the secret of the other environment. -/
def foreignDelete : Api.BatchRequest := ⟨0, [Api.SecretChange.delete (.text "token")]⟩

end Team

/-- The batch that deletes a secret of another environment leaves that environment as it was. -/
theorem environments_isolated_delete : Server.SameEnvironment (.text "prod") Team.dbOfTwo
    ((Stmt.writeSecrets ⟨false, some .owner, some Team.orgId, some .active, Team.alice⟩ Team.envId
      Team.foreignDelete).exec Team.dbOfTwo).2 := by
  have hw := @reaches_admitted Team.dbOfTwo
    (.writeSecrets Team.alice Team.envId Team.foreignDelete) _ _ rfl
  exact @environments_isolated Team.dbOfTwo _ hw 0
    (.writeSecrets Team.alice Team.envId Team.foreignDelete) _ .ret rfl (.text "prod") (by decide)

end Sotto
