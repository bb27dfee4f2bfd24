import Sotto.Cli.Writes
import Sotto.Library.Contracts
import Sotto.Server.Guarded

/-!
# What a device keeps and sends is guarded

The store of a device holds only what is guarded, like the database. A call of the store that
carries guarded data keeps it so, and a set seals what it is given. The handler of a request that
carries guarded data issues guarded statements, and answers with guarded data when the database does.
-/

namespace Sotto

namespace Cli

open Core Api

/-! ### The store -/

structure AccountKeys.Guarded (known : Set Bytes) (keys : AccountKeys) : Prop where
  kdfSalt : Core.Guarded known keys.kdfSalt
  publicKey : GuardedKey known keys.publicKey
  encPrivateKeys : Core.Guarded known keys.encPrivateKeys
  recoveryBlob : Core.Guarded known keys.recoveryBlob

/-- Whatever the tables of a store hold is guarded. -/
structure Store.Guarded (known : Set Bytes) (store : Store) : Prop where
  accountKeys : ∀ keys ∈ store.accountKeys, AccountKeys.Guarded known keys
  environments : Table.Every (fun env => GuardedGrant known env.encVaultKey) store.environments
  secrets :
    Table.Every (fun s => GuardedSecret known s.encName s.encValue s.encDataKey) store.secrets
  secretVersions :
    Table.Every (fun v => GuardedSecret known v.encName v.encValue v.encDataKey)
      store.secretVersions

variable {known : Set Bytes} {store store' : Store}

namespace StoreCmd

/-- What a call of the store carries is guarded, or is sealed by it with new draws. -/
def Guarded (known : Set Bytes) : StoreCmd → Prop
  | updateEnvVaultKey _ encVaultKey => GuardedGrant known encVaultKey
  | putRemoteSecret _ s => GuardedSecret known s.encName s.encValue s.encDataKey
  | vaultSet _ _ _ _ seed _ _ => seed.owner ≠ 0
  | putIdentityWithKeys keys => keys.Guarded known
  | createEnvironment _ _ _ encVaultKey => GuardedGrant known encVaultKey
  | _ => True

/-- What a call of the store returns is guarded. -/
def GuardedReply (known : Set Bytes) : (c : StoreCmd) → c.Reply → Prop
  | getAccountKeys, keys => ∀ k ∈ keys, k.Guarded known
  | getEnvironment _ _, found => ∀ e ∈ found, GuardedGrant known e.2.encVaultKey
  | allSecrets _, secrets => ∀ s ∈ secrets, GuardedSecret known s.encName s.encValue s.encDataKey
  | findSecret _ _, found => ∀ s ∈ found, GuardedSecret known s.encName s.encValue s.encDataKey
  | findEnvironment _, found => ∀ env ∈ found, GuardedGrant known env.encVaultKey
  | _, _ => True

theorem guarded_write {result : Except Cli.Error Store} (hstore : store.Guarded known)
    (h : ∀ store', result = .ok store' → store'.Guarded known) :
    (write result store).2.Guarded known := by
  cases result with
  | ok store' => exact h store' rfl
  | error e => exact hstore

/-- A set seals the name and the value under a new data key, and that under the vault key. -/
theorem guarded_set {vault : Vault} {idSeed seed : Seed} {name : String} {value : Bytes}
    (hdraws : DrawsUnknown known) (hstore : store.Guarded known) (hseed : seed.owner ≠ 0)
    (hvault : ¬ Core.Guarded known vault.vaultKey)
    (h : vault.set idSeed seed name value store = .ok store') : store'.Guarded known := by
  have henc : ∀ id version, GuardedSecret known
      (vault.encrypt seed id version name value).encName
      (vault.encrypt seed id version name value).encValue
      (vault.encrypt seed id version name value).encDataKey := fun id version =>
    let ⟨hname, hvalue, hkey⟩ := guarded_encryptSecret hvault (hdraws seed 0 hseed)
    ⟨hname, hvalue, hkey⟩
  rcases Vault.set_eq_ok h with ⟨id, row, -, -, rfl⟩ | ⟨-, -, rfl⟩
  · exact { hstore with
      secrets := hstore.secrets.modify fun _ _ => henc _ _
      secretVersions := hstore.secretVersions.insert (henc _ _) }
  · exact { hstore with
      secrets := hstore.secrets.insert (henc _ _)
      secretVersions := hstore.secretVersions.insert (henc _ _) }

theorem guarded_exec {c : StoreCmd} (hdraws : DrawsUnknown known) (hstore : store.Guarded known)
    (h : c.Guarded known) : (c.exec store).2.Guarded known := by
  cases c with
  | updateEnvVaultKey envId grant =>
      refine guarded_write hstore fun store' hstore' => ?_
      rw [Store.updateEnvVaultKey_eq_ok hstore']
      exact { hstore with environments := hstore.environments.modify fun _ _ => h }
  | putRemoteSecret envId secret =>
      refine guarded_write hstore fun store' hstore' => ?_
      rw [Store.putRemoteSecret_eq_ok hstore']
      refine { hstore with secrets := hstore.secrets.insert h, secretVersions := ?_ }
      dsimp only [Store.replaceSecret]
      split
      · exact hstore.secretVersions
      · exact hstore.secretVersions.insert h
  | setSyncedRevision envId revision =>
      refine guarded_write hstore fun store' hstore' => ?_
      rw [Store.setSyncedRevision_eq_ok hstore']
      exact { hstore with }
  | vaultSet keypair projectId envName idSeed seed name value =>
      refine guarded_write hstore fun store' hstore' => ?_
      obtain ⟨vault, hopen, hset⟩ := Cli.bind_eq_ok.1 hstore'
      obtain ⟨env, henv, hkey⟩ := Vault.open_eq_ok hopen
      obtain ⟨hlookup, -, -⟩ := Store.lookup_of_getEnvironment henv
      exact guarded_set hdraws hstore h
        (not_guarded_of_openVaultKey (hstore.environments _ _ hlookup) hkey) hset
  | vaultDelete keypair projectId envName name =>
      refine guarded_write hstore fun store' hstore' => ?_
      obtain ⟨vault, -, hdelete⟩ := Cli.bind_eq_ok.1 hstore'
      obtain ⟨id, row, -, -, -, -, rfl⟩ := Vault.delete_eq_ok hdelete
      exact { hstore with secrets := hstore.secrets.modify fun _ hs => hs }
  | putIdentityWithKeys keys =>
      refine { hstore with accountKeys := fun k hk => ?_ }
      obtain rfl := Option.mem_some_iff.1 hk
      exact h
  | createProjectWithId id name =>
      refine guarded_write hstore fun store' hstore' => ?_
      obtain ⟨-, rfl⟩ := Store.createProjectWithId_eq_ok.1 hstore'
      exact { hstore with }
  | createEnvironment id projectId name encVaultKey =>
      refine guarded_write hstore fun store' hstore' => ?_
      obtain ⟨-, -, -, rfl⟩ := Store.createEnvironment_eq_ok.1 hstore'
      exact { hstore with environments := hstore.environments.insert h }
  | _ => exact hstore

theorem guardedReply_exec {c : StoreCmd} (hstore : store.Guarded known) {a : c.Reply}
    (h : (c.exec store).1 = .ok a) : c.GuardedReply known a := by
  cases c with
  | getAccountKeys =>
      obtain rfl := Except.ok.inj h
      exact hstore.accountKeys
  | getEnvironment projectId name =>
      obtain rfl := Except.ok.inj h
      exact fun e he => hstore.environments _ _ (Store.lookup_of_getEnvironment he).1
  | allSecrets envId =>
      obtain rfl := Except.ok.inj h
      intro s hs
      obtain ⟨row, hrow, rfl⟩ := List.mem_map.1 hs
      exact hstore.secrets.of_mem_rows (List.mem_filter.1 hrow).1
  | findSecret envId id =>
      obtain rfl := Except.ok.inj h
      intro s hs
      simp only [Store.findSecret] at hs
      split at hs
      · next row hrow =>
          split at hs
          · obtain rfl := Option.mem_some_iff.1 hs
            exact hstore.secrets _ _ hrow
          · cases hs
      · cases hs
  | findEnvironment id =>
      obtain rfl := Except.ok.inj h
      exact fun env henv => hstore.environments _ _ henv
  | _ => trivial

end StoreCmd

/-! ### Requests -/

namespace Request

/-- What a request carries is guarded. -/
def Guarded (known : Set Bytes) : Request → Prop
  | putAccount _ bundle => bundle.Guarded known
  | createProject _ project => project.encName.Holds (Core.Guarded known)
  | createEnvironment _ _ env => env.Guarded known
  | writeSecrets _ _ batch => batch.Guarded known
  | rotate _ _ req => req.Guarded known
  | resetAccount _ bundle => bundle.Guarded known
  | createGrant _ _ grant => grant.encVaultKey.Holds (GuardedGrant known)
  | _ => True

/-- What a response carries is guarded. -/
def GuardedResponse (known : Set Bytes) : (r : Request) → r.Response → Prop
  | listOrgs _, orgs => ∀ org ∈ orgs, org.encName.Holds (Core.Guarded known) ∧
      ∀ key ∈ org.encOrgKey, key.Holds (GuardedGrant known)
  | snapshot _ _ _, found => ∀ snapshot ∈ found, ∀ s ∈ snapshot.secrets,
      s.encName.Holds (Core.Guarded known) ∧ s.encValue.Holds (Core.Guarded known) ∧
        s.encDataKey.Holds (Core.Guarded known)
  | listHistory _ _, rows => ∀ h ∈ rows, h.encName.Holds (Core.Guarded known) ∧
      h.encValue.Holds (Core.Guarded known) ∧ h.encDataKey.Holds (Core.Guarded known)
  | listMembers _ _, members => ∀ m ∈ members, ∀ key ∈ m.publicKey, key.Holds (GuardedKey known)
  | listMachineTokens _ _, tokens => ∀ t ∈ tokens, t.publicKey.Holds (GuardedKey known)
  | getGrant _ _, found => ∀ grant ∈ found, grant.Holds (GuardedGrant known)
  | getAccount _, found => ∀ bundle ∈ found, bundle.Guarded known
  | listEnvironments _ _, envs => ∀ env ∈ envs, env.encName.Holds (Core.Guarded known) ∧
      ∀ key ∈ env.encVaultKey, key.Holds (GuardedGrant known)
  | _, _ => True

end Request

/-- The contract of an operation: whatever it sends or stores is guarded, as are the answers; and
draws are those of devices. -/
def calls (known : Set Bytes) : Contract Call.Reply where
  sends
    | .fresh => True
    | .store c => c.Guarded known
    | .http r => r.Guarded known
  answers
    | .fresh, seed => seed.owner ≠ 0
    | .store c, r => Prog.IfOk (c.GuardedReply known) r
    | .http r, response => Prog.IfOk (r.GuardedResponse known) response

/-- The contract of the steps of an operation. -/
def steps (known : Set Bytes) : Contract Cmd.Reply where
  sends
    | .fresh => True
    | .net => True
    | .store c => c.Guarded known
    | .server stmt => stmt.Guarded known
  answers
    | .fresh, seed => seed.owner ≠ 0
    | .net, _ => True
    | .store c, r => Prog.IfOk (c.GuardedReply known) r
    | .server stmt, r => Prog.IfOk (stmt.GuardedReply known) r

/-! ### Handlers -/

section Handlers

open Prog

variable {α : Type} {Q : α → Prop}

theorem keeps_check {result : Except Server.Error α} (h : IfOk Q result) :
    KeepsE (steps known) Q (Server.check result : Handler α) := by
  cases result with
  | ok a => exact KeepsE.pure (ifOk_ok.1 h)
  | error e => exact KeepsE.throw

theorem keeps_require {p : Prop} [Decidable p] {e : Server.Error} :
    KeepsE (steps known) (fun _ => True) (Server.require p e : Handler Unit) := by
  unfold Server.require
  split
  · exact KeepsE.pure trivial
  · exact KeepsE.throw

theorem keeps_perform_server {stmt : Server.Stmt} (h : stmt.Guarded known) :
    KeepsE (steps known) (stmt.GuardedReply known)
      (Server.Database.perform stmt : Handler stmt.Reply) :=
  Prog.keeps_perform (K := steps known) (c := .server stmt) h

theorem keeps_net : KeepsE (steps known) (fun _ => True) Exchange.net :=
  ⟨trivial, fun _ _ _ _ => trivial⟩

theorem keeps_send {handler : Handler α} (h : KeepsE (steps known) Q handler) :
    KeepsE (steps known) (IfOk Q) (send handler) := by
  refine KeepsE.bind keeps_net fun _ _ => KeepsE.bind (KeepsE.lift h) fun response hresponse => ?_
  exact KeepsE.bind keeps_net fun _ _ => KeepsE.pure hresponse

theorem keeps_request {handler : Handler α} (h : KeepsE (steps known) Q handler) :
    KeepsE (steps known) Q (request handler) := by
  refine KeepsE.bind (keeps_send h) fun response hresponse => ?_
  cases response with
  | ok a => exact KeepsE.pure (ifOk_ok.1 hresponse)
  | error e => exact KeepsE.throw

/-- A field that the server decodes carries what was sent. -/
theorem ifOk_decode {value : Base64} {field : String} {max : Nat} {P : Bytes → Prop}
    (h : value.Holds P) : IfOk P (Server.decode value field max) := by
  intro bytes hbytes
  obtain ⟨rfl, -⟩ := Server.decode_eq_ok.1 hbytes
  exact h

theorem ifOk_true {result : Except Server.Error α} : IfOk (fun _ => True) result :=
  fun _ _ => trivial

theorem decodeEntries_eq_ok {K : Type} {field : String} {entries : List (K × Base64)}
    {out : List (K × Bytes)} {P : Bytes → Prop} (h : ∀ e ∈ entries, e.2.Holds P)
    (hok : Server.decodeEntries field entries = .ok out) : ∀ e ∈ out, P e.2 := by
  induction entries generalizing out with
  | nil =>
      obtain rfl := Except.ok.inj hok
      exact fun e he => nomatch he
  | cons entry rest ih =>
      obtain ⟨k, value⟩ := entry
      simp only [Server.decodeEntries, Server.bind_eq_ok, pure, Except.pure, Except.ok.injEq] at hok
      obtain ⟨bytes, hbytes, tail, htail, rfl⟩ := hok
      intro e he
      rcases List.mem_cons.1 he with rfl | he
      · exact ifOk_decode (h (k, value) List.mem_cons_self) bytes hbytes
      · exact ih (fun e he => h e (List.mem_cons_of_mem _ he)) htail e he

theorem decodeDistinct_eq_ok {K : Type} [DecidableEq K] {duplicate field : String} {seen : List K}
    {entries : List (K × Base64)} {out : List (K × Bytes)} {P : Bytes → Prop}
    (h : ∀ e ∈ entries, e.2.Holds P)
    (hok : Server.decodeDistinct duplicate field seen entries = .ok out) : ∀ e ∈ out, P e.2 := by
  induction entries generalizing out seen with
  | nil =>
      obtain rfl := Except.ok.inj hok
      exact fun e he => nomatch he
  | cons entry rest ih =>
      obtain ⟨k, value⟩ := entry
      simp only [Server.decodeDistinct, Server.bind_eq_ok, pure, Except.pure,
        Except.ok.injEq] at hok
      obtain ⟨_, -, bytes, hbytes, tail, htail, rfl⟩ := hok
      intro e he
      rcases List.mem_cons.1 he with rfl | he
      · exact ifOk_decode (h (k, value) List.mem_cons_self) bytes hbytes
      · exact ih (fun e he => h e (List.mem_cons_of_mem _ he)) htail e he

theorem ifOk_decodeRotation {userId : Ident} {req : RotateRequest} (h : req.Guarded known) :
    IfOk (Server.Rotation.Guarded known) (Server.decodeRotation userId req) := by
  intro rotation hok
  simp only [Server.decodeRotation, Server.bind_eq_ok, pure, Except.pure, Except.ok.injEq] at hok
  obtain ⟨_, -, grants, hgrants, dataKeys, hdata, machineGrants, hmachine, historyKeys, hhistory,
    _, -, rfl⟩ := hok
  refine ⟨decodeEntries_eq_ok ?_ hgrants, decodeEntries_eq_ok ?_ hdata,
    decodeDistinct_eq_ok ?_ hmachine, decodeDistinct_eq_ok ?_ hhistory⟩
  · exact List.forall_mem_map.2 h.grants
  · exact List.forall_mem_map.2 h.dataKeys
  · exact List.forall_mem_map.2 h.machineGrants
  · exact List.forall_mem_map.2 h.historyKeys

end Handlers

/-! ### Exchanges -/

section Exchanges

open Prog

/-- The account that the server makes of a bundle. -/
theorem keeps_account {bundle : AccountBundle} {f : Server.Account → Handler Unit}
    (h : bundle.Guarded known)
    (hf : ∀ account : Server.Account, account.Guarded known →
      KeepsE (steps known) (fun _ => True) (f account)) :
    KeepsE (steps known) (fun _ => True) (do
      let publicKey ← Server.check (Server.decode bundle.publicKey "public_key" Server.maxBlob)
      Server.require (publicKey.len = keyLen)
        (.badRequest s!"public_key must decode to {keyLen} bytes")
      let encPrivateKeys ←
        Server.check (Server.decode bundle.encPrivateKeys "enc_private_keys" Server.maxBlob)
      let kdfParams ← Server.check (Server.decode bundle.kdfParams "kdf_params" Server.maxBlob)
      let recoveryBlob ←
        Server.check (Server.decode bundle.recoveryBlob "recovery_blob" Server.maxBlob)
      f ⟨publicKey, encPrivateKeys, kdfParams, recoveryBlob⟩ : Handler Unit) := by
  refine KeepsE.bind (keeps_check (ifOk_decode h.publicKey)) fun publicKey hpublic => ?_
  refine KeepsE.bind keeps_require fun _ _ => ?_
  refine KeepsE.bind (keeps_check (ifOk_decode h.encPrivateKeys)) fun encPrivateKeys hprivate => ?_
  refine KeepsE.bind (keeps_check (ifOk_decode h.kdfParams)) fun kdfParams hparams => ?_
  refine KeepsE.bind (keeps_check (ifOk_decode h.recoveryBlob)) fun recoveryBlob hblob => ?_
  exact hf _ ⟨hpublic, hprivate, hparams, hblob⟩

theorem guarded_encode {P : Bytes → Prop} {bytes : Bytes} (h : P bytes) :
    (Server.encode bytes).Holds P := h

theorem keeps_listOrgs {userId : Ident} :
    KeepsE (steps known) ((Request.listOrgs userId).GuardedResponse known)
      (Server.listOrgs userId : Handler (List OrgInfo)) := by
  refine KeepsE.bind (keeps_perform_server trivial) fun rows hrows => KeepsE.pure ?_
  refine List.forall_mem_map.2 fun o ho => ⟨(hrows o ho).1, fun key hkey => ?_⟩
  obtain ⟨b, hb, rfl⟩ := Option.map_eq_some_iff.1 hkey
  exact (hrows o ho).2 b hb

theorem keeps_createProject {userId : Ident} {project : NewProject}
    (h : project.encName.Holds (Core.Guarded known)) :
    KeepsE (steps known) (fun _ => True)
      (Server.createProject userId project : Handler Unit) := by
  refine KeepsE.bind (keeps_check ifOk_true) fun _ _ => ?_
  refine KeepsE.bind (keeps_check (ifOk_decode h)) fun encName hname => ?_
  refine KeepsE.bind (Q := fun _ => True) ?_ fun _ _ => ?_
  · unfold Server.requireOrgAdminOf
    split
    · exact KeepsE.pure trivial
    · exact KeepsE.bind (keeps_perform_server trivial) fun _ _ => keeps_check ifOk_true
  refine KeepsE.bind (keeps_perform_server hname) fun created _ => ?_
  split
  · exact KeepsE.pure trivial
  · refine KeepsE.bind (keeps_perform_server trivial) fun _ _ => ?_
    refine KeepsE.bind keeps_require fun _ _ => KeepsE.bind (Q := fun _ => True) ?_ fun _ _ =>
      KeepsE.pure trivial
    refine Keeps.bind (keeps_perform_server trivial) fun r _ => ?_
    cases r with
    | ok access => exact KeepsE.pure trivial
    | error e => exact KeepsE.throw

theorem keeps_createEnvironment {userId projectId : Ident} {env : NewEnvironment}
    (h : env.Guarded known) :
    KeepsE (steps known) (fun _ => True)
      (Server.createEnvironment userId projectId env : Handler Unit) := by
  refine KeepsE.bind (keeps_check ifOk_true) fun _ _ => ?_
  refine KeepsE.bind (keeps_check (ifOk_decode h.encName)) fun encName hname => ?_
  refine KeepsE.bind (keeps_check (ifOk_decode h.encVaultKey)) fun encVaultKey hkey => ?_
  refine KeepsE.bind (keeps_perform_server trivial) fun access _ => ?_
  refine KeepsE.bind (keeps_check ifOk_true) fun _ _ => ?_
  refine KeepsE.bind (keeps_perform_server ⟨hname, hkey⟩) fun created _ => ?_
  split
  · exact KeepsE.pure trivial
  · exact KeepsE.bind (keeps_perform_server trivial) fun _ _ => keeps_require

theorem keeps_snapshot {userId envId : Ident} {ifNoneMatch : Option Int} :
    KeepsE (steps known) ((Request.snapshot userId envId ifNoneMatch).GuardedResponse known)
      (Server.snapshot userId envId ifNoneMatch : Handler (Option Snapshot)) := by
  refine KeepsE.bind (keeps_perform_server trivial) fun _ _ => ?_
  refine KeepsE.bind (Q := fun _ => True) ?_ fun revision _ => ?_
  · refine KeepsE.bind (keeps_perform_server trivial) fun env _ => ?_
    cases env with
    | some env => exact KeepsE.pure trivial
    | none => exact KeepsE.throw
  split
  · exact KeepsE.pure fun snapshot h => nomatch h
  · refine KeepsE.bind (keeps_perform_server trivial) fun rows hrows => KeepsE.pure ?_
    intro snapshot hsnapshot
    obtain rfl := Option.mem_some_iff.1 hsnapshot
    exact List.forall_mem_map.2 fun s hs =>
      ⟨(hrows s hs).encName, (hrows s hs).encValue, (hrows s hs).encDataKey⟩

theorem keeps_history {userId envId : Ident} :
    KeepsE (steps known) ((Request.listHistory userId envId).GuardedResponse known)
      (Server.history userId envId : Handler (List HistoryRow)) := by
  refine KeepsE.bind (keeps_perform_server trivial) fun _ _ => ?_
  refine KeepsE.bind (keeps_perform_server trivial) fun rows hrows => KeepsE.pure ?_
  exact List.forall_mem_map.2 fun v hv =>
    ⟨(hrows v hv).encName, (hrows v hv).encValue, (hrows v hv).encDataKey⟩

theorem keeps_listMembers {userId orgId : Ident} :
    KeepsE (steps known) ((Request.listMembers userId orgId).GuardedResponse known)
      (Server.listMembers userId orgId : Handler (List MemberInfo)) := by
  refine KeepsE.bind (keeps_perform_server trivial) fun _ _ => ?_
  refine KeepsE.bind (keeps_perform_server trivial) fun rows hrows => KeepsE.pure ?_
  refine List.forall_mem_map.2 fun m hm key hkey => ?_
  obtain ⟨b, hb, rfl⟩ := Option.map_eq_some_iff.1 hkey
  exact hrows m hm b hb

theorem keeps_listTokens {userId envId : Ident} :
    KeepsE (steps known) ((Request.listMachineTokens userId envId).GuardedResponse known)
      (Server.listTokens userId envId : Handler (List MachineTokenInfo)) := by
  refine KeepsE.bind (keeps_perform_server trivial) fun _ _ => ?_
  refine KeepsE.bind keeps_require fun _ _ => ?_
  refine KeepsE.bind (keeps_perform_server trivial) fun rows hrows => KeepsE.pure ?_
  exact List.forall_mem_map.2 fun t ht => (hrows t ht).publicKey

theorem keeps_getGrant {userId envId : Ident} :
    KeepsE (steps known) (Base64.Holds (GuardedGrant known))
      (Server.getGrant userId envId : Handler Base64) := by
  refine KeepsE.bind (keeps_perform_server trivial) fun _ _ => ?_
  refine KeepsE.bind (keeps_perform_server trivial) fun grant hgrant => ?_
  cases grant with
  | none => exact KeepsE.throw
  | some grant => exact KeepsE.pure (hgrant grant rfl)

theorem keeps_getAccount {userId : Ident} :
    KeepsE (steps known) (AccountBundle.Guarded known)
      (Server.getAccount userId : Handler AccountBundle) := by
  refine KeepsE.bind (keeps_perform_server trivial) fun account haccount => ?_
  cases account with
  | none => exact KeepsE.throw
  | some account =>
      have h := haccount account rfl
      exact KeepsE.pure ⟨h.publicKey, h.encPrivateKeys, h.kdfParams, h.recoveryBlob⟩

theorem keeps_listEnvironments {userId projectId : Ident} :
    KeepsE (steps known) ((Request.listEnvironments userId projectId).GuardedResponse known)
      (Server.listEnvironments userId projectId : Handler (List EnvironmentInfo)) := by
  refine KeepsE.bind (keeps_perform_server trivial) fun _ _ => ?_
  refine KeepsE.bind (keeps_perform_server trivial) fun rows hrows => KeepsE.pure ?_
  refine List.forall_mem_map.2 fun e he => ⟨(hrows e he).1, fun key hkey => ?_⟩
  obtain ⟨b, hb, rfl⟩ := Option.map_eq_some_iff.1 hkey
  exact (hrows e he).2 b hb

/-- A request to which a 404 is an answer. -/
theorem keeps_orNotFound {α : Type} {Q : α → Prop} {handler : Handler α}
    {answer : Except Server.Error α → Exchange (Option α)} (h : KeepsE (steps known) Q handler)
    (hanswer : ∀ response, (∃ a, response = .ok a ∧ answer response = pure (some a)) ∨
      answer response = pure none ∨ ∃ e, answer response = throw e) :
    KeepsE (steps known) (fun found : Option α => ∀ a ∈ found, Q a) (send handler >>= answer) := by
  refine KeepsE.bind (keeps_send h) fun response hresponse => ?_
  rcases hanswer response with ⟨a, rfl, heq⟩ | heq | ⟨e, heq⟩
  · rw [heq]
    refine KeepsE.pure fun b hb => ?_
    obtain rfl := Option.mem_some_iff.1 hb
    exact ifOk_ok.1 hresponse
  · rw [heq]
    exact KeepsE.pure fun b hb => nomatch hb
  · rw [heq]
    exact KeepsE.throw

/-- Every request that carries guarded data has guarded statements and a guarded response. -/
theorem Request.keeps_exchange {r : Request} (h : r.Guarded known) :
    KeepsE (steps known) (r.GuardedResponse known) r.exchange := by
  cases r with
  | putAccount userId bundle =>
      exact keeps_request (keeps_account
        (f := fun account => Server.Database.perform (.updateAccount userId account)) h
        fun _ ha => keeps_perform_server ha)
  | listOrgs userId => exact keeps_request keeps_listOrgs
  | createProject userId project => exact keeps_request (keeps_createProject h)
  | createEnvironment userId projectId env => exact keeps_request (keeps_createEnvironment h)
  | snapshot userId envId ifNoneMatch => exact keeps_request keeps_snapshot
  | writeSecrets userId envId batch =>
      refine keeps_request (KeepsE.bind keeps_require fun _ _ => ?_)
      refine KeepsE.bind (keeps_perform_server trivial) fun access _ => ?_
      exact KeepsE.bind (keeps_check ifOk_true) fun _ _ => keeps_perform_server h
  | listHistory userId envId => exact keeps_request keeps_history
  | listGrantHolders userId envId =>
      refine keeps_request (KeepsE.bind (keeps_perform_server trivial) fun access _ => ?_)
      exact KeepsE.bind keeps_require fun _ _ => keeps_perform_server trivial
  | listMembers userId orgId => exact keeps_request keeps_listMembers
  | listMachineTokens userId envId => exact keeps_request keeps_listTokens
  | rotate userId envId req =>
      refine keeps_request (KeepsE.bind (keeps_perform_server trivial) fun access _ => ?_)
      refine KeepsE.bind (keeps_check ifOk_true) fun _ _ => ?_
      refine KeepsE.bind (keeps_perform_server trivial) fun orgId _ => ?_
      cases orgId with
      | none => exact KeepsE.throw
      | some orgId =>
          exact KeepsE.bind (keeps_check (ifOk_decodeRotation h)) fun rotation hrotation =>
            keeps_perform_server hrotation
  | getGrant userId envId =>
      refine keeps_orNotFound keeps_getGrant fun response => ?_
      cases response with
      | ok grant => exact .inl ⟨grant, rfl, rfl⟩
      | error e => cases e <;> first | exact .inr (.inl rfl) | exact .inr (.inr ⟨_, rfl⟩)
  | resetAccount userId bundle =>
      exact keeps_request (keeps_account
        (f := fun account => Server.Database.perform (.resetAccount userId account)) h
        fun _ ha => keeps_perform_server ha)
  | getAccount userId =>
      refine keeps_orNotFound keeps_getAccount fun response => ?_
      cases response with
      | ok bundle => exact .inl ⟨bundle, rfl, rfl⟩
      | error e => cases e <;> first | exact .inr (.inl rfl) | exact .inr (.inr ⟨_, rfl⟩)
  | listEnvironments userId projectId => exact keeps_request keeps_listEnvironments
  | createGrant userId envId grant =>
      refine keeps_request (KeepsE.bind (keeps_check (ifOk_decode h)) fun encVaultKey hkey => ?_)
      refine KeepsE.bind (keeps_perform_server trivial) fun access _ => ?_
      refine KeepsE.bind (keeps_check ifOk_true) fun _ _ => ?_
      refine KeepsE.bind (keeps_perform_server trivial) fun orgId _ => ?_
      cases orgId with
      | none => exact KeepsE.throw
      | some orgId => exact keeps_perform_server hkey

/-- What holds of a command's answer when it carries guarded data. -/
theorem Call.keeps_steps {c : Call} (h : (calls known).sends c) :
    (c.steps).Keeps (Cli.steps known) ((calls known).answers c) := by
  cases c with
  | fresh => exact Prog.keeps_perform (K := Cli.steps known) (c := Cmd.fresh) trivial
  | store c => exact Prog.keeps_perform (K := Cli.steps known) (c := Cmd.store c) h
  | http r => exact r.keeps_exchange h

end Exchanges

end Cli

end Sotto
