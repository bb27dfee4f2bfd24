import Sotto.Cli.Reset
import Sotto.Properties.SessionSetup
import Sotto.Server.Admission
import Sotto.Team

/-!
# When a failed account reset keeps device and server in agreement

The device and the server agree on an account when a password of the user opens the key pair whose
public key the server holds. A reset replaces the key pair of the device before it uploads it, so
whether a failed reset leaves them in agreement depends on where it fails: before the new secret key
is written, and after the server committed the upload.
-/

namespace Sotto

namespace Server

open Core

section ResetAccount

variable {userId : Ident} {account : Account} {db db' : Db}

/-- The organisations of a user are active. -/
def Db.OrgsActive (db : Db) (userId : Ident) : Prop :=
  ∀ orgId org, db.organizations.lookup orgId = some org →
    (db.memberships.lookup (orgId, userId)).isSome → org.lifecycle = .active

/-- A reset of an initialised account commits exactly where the user's organisations are active. -/
theorem resetAccountTx_eq_ok_iff {existing : Account} {u : Unit}
    (h : db.users.lookup userId = some (some existing)) :
    (resetAccountTx userId account).run db = .ok (u, db') ↔
      db.OrgsActive userId ∧ db' = { db with
        users := AList.insert userId (some account) db.users
        grants := db.grants.filterRows fun k _ => k.2 ≠ userId
        memberships := db.memberships.mapRows fun k m =>
          if k.2 = userId then { m with encOrgKey := none } else m } := by
  have horgs : (∀ o ∈ db.organizations.rows.filter fun o =>
      (db.memberships.lookup (o.1, userId)).isSome, o.2.lifecycle = .active) ↔
      db.OrgsActive userId := by
    simp only [List.mem_filter, Prod.forall, Table.mem_rows, Db.OrgsActive, and_imp]
  simp only [resetAccountTx, Tx.bind_eq_ok, Tx.get_eq_ok, forM_requireWrite_eq_ok]
  constructor
  · rintro ⟨_, _, ⟨rfl, rfl⟩, _, _, ⟨hactive, rfl⟩, hset⟩
    rw [h] at hset
    exact ⟨horgs.1 hactive, (Tx.set_eq_ok.1 hset).symm⟩
  · rintro ⟨hactive, rfl⟩
    refine ⟨db, db, ⟨rfl, rfl⟩, (), db, ⟨horgs.2 hactive, rfl⟩, ?_⟩
    rw [h]
    exact Tx.set_eq_ok.2 rfl

end ResetAccount

end Server

namespace Cli

namespace Reset

open Core Api Session

/-- Unlocking with a password opens the key pair of the store. -/
def Opens (password : Bytes) (s : Storage) (keypair : Keypair) : Prop :=
  ∃ secretKey identity keys,
    s.secretKey = some secretKey ∧ s.identity = some identity ∧ s.accountKeys = some keys ∧
    (∃ marker, Aead.open (Kdf.deriveMasterKey password secretKey identity.kdfSalt)
      identity.encVerifier .verifier = .ok marker) ∧
    Vault.openAccountKeypair (Kdf.deriveMasterKey password secretKey identity.kdfSalt)
      keys.encPrivateKeys = .ok keypair ∧
    keys.publicKey = keypair.public

/-- One of the passwords opens the key pair whose public key the server holds. -/
def Agreement (userId : Ident) (passwords : List Bytes) (w : World) : Prop :=
  ∃ password ∈ passwords, ∃ keypair account, Opens password w.storage keypair ∧
    w.db.users.lookup userId = some (some account) ∧ account.publicKey = keypair.public

/-- Device and server agree, so a grant to the account can be opened on the device, and a push does
not continue with another account than the server's. -/
structure Consistent (userId : Ident) (passwords : List Bytes) (w : World) : Prop where
  agreement : Agreement userId passwords w
  grants : ∀ account ephemeral vaultKey, w.db.users.lookup userId = some (some account) →
    vaultKey.len = keyLen → ∃ password ∈ passwords, ∃ keypair, Opens password w.storage keypair ∧
      Vault.openVaultKey keypair (Vault.grantVaultKey ephemeral account.publicKey vaultKey) =
        .ok vaultKey
  push : ∀ faults w', (ensureAccount userId).exec faults w = (.ok (), w') →
    ∃ keys account, w.storage.accountKeys = some keys ∧
      w.db.users.lookup userId = some (some account) ∧ account.publicKey = keys.publicKey

theorem Agreement.consistent {userId : Ident} {passwords : List Bytes} {w : World}
    (h : Agreement userId passwords w) : Consistent userId passwords w := by
  obtain ⟨password, hpassword, keypair, account, hopens, haccount, hpublic⟩ := h
  refine ⟨⟨password, hpassword, keypair, account, hopens, haccount, hpublic⟩, ?_, ?_⟩
  · intro account' ephemeral vaultKey haccount' hlen
    rw [haccount] at haccount'
    cases haccount'
    refine ⟨password, hpassword, keypair, hopens, ?_⟩
    rw [hpublic]
    exact Vault.openVaultKey_grantVaultKey ephemeral keypair hlen
  · intro faults w' _
    obtain ⟨_, _, keys, _, _, hkeys, _, _, hpublic'⟩ := hopens
    exact ⟨keys, account, hkeys, haccount, hpublic.trans hpublic'.symm⟩

/-- The reset comes to replace the secret key of the device. -/
structure Faults.Replaces (faults : Faults) : Prop where
  questions : ∀ q, faults.question q = none
  derive : faults.storage .derive = none
  setSecretKey : faults.storage .setSecretKey = none

/-- From there on the reset succeeds up to the commit of the upload. -/
structure Faults.Uploads (faults : Faults) (userId : Ident) (db : Server.Db) : Prop where
  putIdentityWithKeys : faults.storage .putIdentityWithKeys = none
  setSession : faults.storage .setSession = none
  getIdentity : faults.storage .getIdentity = none
  getAccountKeys : faults.storage .getAccountKeys = none
  send : faults.send = none
  server : faults.server = none
  active : db.OrgsActive userId

/-! ### The steps of a reset -/

section Steps

variable {faults : Faults} {w w' : World} {α β : Type} {e : Error}

theorem exec_bind_of_ok {command : Command α} {f : α → Command β} {a : α}
    (h : command.exec faults w = (.ok a, w')) :
    (command >>= f).exec faults w = (f a).exec faults w' :=
  Prog.runE_bind_of_ok h

theorem exec_bind_of_error {command : Command α} {f : α → Command β}
    (h : command.exec faults w = (.error e, w')) :
    (command >>= f).exec faults w = (.error e, w') :=
  Prog.runE_bind_of_error h

theorem exec_ask (q : Question) :
    (ask q).exec faults w = (answer (faults.question q), w) := rfl

theorem exec_send : send.exec faults w = (answer faults.send, w) := rfl

theorem exec_receive : receive.exec faults w = (answer faults.receive, w) := rfl

theorem run_expand_storage (p : Prog Session.Cmd.Answer α) (w : World) :
    (p.expand fun c => Prog.perform (Cmd.storage c)).run (Cmd.exec faults) w =
      ((p.run (Session.Cmd.exec faults.storage) w.storage).1,
        { w with storage := (p.run (Session.Cmd.exec faults.storage) w.storage).2 }) := by
  induction p generalizing w with
  | ret a => rfl
  | call c k ih => exact ih _ _

theorem exec_onDevice (flow : Flow α) :
    (onDevice flow).exec faults w = ((flow.exec faults.storage w.storage).1,
      { w with storage := (flow.exec faults.storage w.storage).2 }) :=
  run_expand_storage flow.run w

/-- What the client makes of a response that may be lost. -/
def received (receive : Option Error) (r : Except Server.Error α) : Except Error α :=
  match receive, r with
  | some e, _ => .error e
  | none, .ok a => .ok a
  | none, .error e => .error (serverError e)

/-- A handler whose statements run, seen from the client. -/
theorem exec_request_of_sent {handler : Handler α} {r : Except Server.Error α}
    (hsend : faults.send = none) (h : Prog.runE (Cmd.exec faults) handler w = (r, w')) :
    (request handler).exec faults w = (received faults.receive r, w') := by
  have hlift : Command.exec (ExceptT.lift handler.run) faults w = (.ok r, w') := by
    refine (Prog.runE_lift handler.run).trans ?_
    rw [show Prog.run (Cmd.exec faults) handler.run w = (r, w') from h]
  unfold request
  rw [exec_bind_of_ok (show send.exec faults w = (.ok (), w) by rw [exec_send, hsend]; rfl),
    exec_bind_of_ok hlift]
  cases hreceive : faults.receive with
  | some e =>
      rw [exec_bind_of_error (show receive.exec faults w' = (.error e, w') by
        rw [exec_receive, hreceive]; rfl)]
      rfl
  | none =>
      rw [exec_bind_of_ok (show receive.exec faults w' = (.ok (), w') by
        rw [exec_receive, hreceive]; rfl)]
      cases r <;> rfl

theorem exec_request_of_unsent {handler : Handler α} (hsend : faults.send = some e) :
    (request handler).exec faults w = (.error e, w) := by
  unfold request
  rw [exec_bind_of_error (show send.exec faults w = (.error e, w) by rw [exec_send, hsend]; rfl)]

end Steps

/-! ### What a reset writes -/

section Writes

variable (seed : Seed) (now ttl : Int) (password : Bytes)

/-- The master key of the new identity. -/
def newMaster : Bytes := Kdf.deriveMasterKey password (.random seed 0) (.random seed 1)

/-- The new identity record. -/
def newIdentity : Identity :=
  ⟨.random seed 1, Aead.seal (seed, 2) (newMaster seed password) verifierPlaintext .verifier⟩

/-- The new key pair. -/
def newKeypair : Keypair := ⟨.random seed 3⟩

/-- The new account keys. -/
def newKeys : Session.AccountKeys where
  publicKey := (newKeypair seed).public
  encPrivateKeys := Vault.wrapPrivateKey (seed, 5) (newMaster seed password) (newKeypair seed).secret
  recoveryBlob := Wrap.wrapKey (seed, 6) (.random seed 4) (newMaster seed password) .recovery

/-- The device with the new identity. -/
def renewed (session : Option CachedKey) : Storage :=
  ⟨some (newIdentity seed password), some (newKeys seed password), some (.random seed 0), session⟩

/-- The material that is uploaded. -/
def newBundle : AccountBundle :=
  ⟨.valid (newKeys seed password).publicKey, .valid (newKeys seed password).encPrivateKeys,
    .valid (newIdentity seed password).kdfSalt, .valid (newKeys seed password).recoveryBlob⟩

/-- The account that the server is left with. -/
def newAccount : Server.Account :=
  ⟨(newKeys seed password).publicKey, (newKeys seed password).encPrivateKeys,
    (newIdentity seed password).kdfSalt, (newKeys seed password).recoveryBlob⟩

variable {seed now ttl password} {fails : Operation → Option Error} {s : Storage} {e : Error}
  {session : Option CachedKey}

theorem exec_reinit_of_underived (h : fails .derive = some e) :
    (reinit seed now ttl password).exec fails s = (.error e, s) :=
  Session.exec_bind_of_error (exec_step_of_some h)

theorem exec_reinit_of_derived (h : fails .derive = none) :
    (reinit seed now ttl password).exec fails s =
      (do
        persist (.random seed 0) (newIdentity seed password) (newKeys seed password)
        cacheSession (newMaster seed password) now ttl
        return ⟨.random seed 0, .random seed 4⟩ : Flow EmergencyKit).exec fails s :=
  Session.exec_bind_of_ok (exec_step_of_none h)

theorem exec_reinit_of_unset (hderive : fails .derive = none)
    (hset : fails .setSecretKey = some e) :
    (reinit seed now ttl password).exec fails s = (.error e, s) := by
  rw [exec_reinit_of_derived hderive,
    Session.exec_bind_of_error (exec_persist_of_unset hset)]

theorem exec_reinit_of_refused (hderive : fails .derive = none) (hset : fails .setSecretKey = none)
    (hput : fails .putIdentityWithKeys = some e) :
    (reinit seed now ttl password).exec fails s = (.error e, { s with
      secretKey := if fails .deleteSecretKey = none then none else some (.random seed 0) }) := by
  rw [exec_reinit_of_derived hderive,
    Session.exec_bind_of_error (exec_persist_of_error hset hput)]

theorem exec_reinit_of_uncached (hderive : fails .derive = none) (hset : fails .setSecretKey = none)
    (hput : fails .putIdentityWithKeys = none) (hsession : fails .setSession = some e) :
    (reinit seed now ttl password).exec fails s = (.error e, renewed seed password s.session) := by
  rw [exec_reinit_of_derived hderive, Session.exec_bind_of_ok (exec_persist_of_ok hset hput),
    cacheSession, Session.exec_bind_of_error (exec_step_of_some hsession)]
  rfl

theorem exec_reinit_of_ok (hderive : fails .derive = none) (hset : fails .setSecretKey = none)
    (hput : fails .putIdentityWithKeys = none) (hsession : fails .setSession = none) :
    ∃ kit session, (reinit seed now ttl password).exec fails s =
      (.ok kit, renewed seed password session) := by
  rw [exec_reinit_of_derived hderive, Session.exec_bind_of_ok (exec_persist_of_ok hset hput),
    cacheSession, Session.exec_bind_of_ok (exec_step_of_none hsession)]
  exact ⟨_, _, rfl⟩

theorem exec_material_renewed (hidentity : fails .getIdentity = none)
    (hkeys : fails .getAccountKeys = none) :
    material.exec fails (renewed seed password session) =
      (.ok (newBundle seed password), renewed seed password session) := by
  unfold material
  rw [Session.exec_bind_of_ok (exec_step_of_none hidentity)]
  refine (Session.exec_bind_of_ok (exec_step_of_none hkeys)).trans ?_
  rfl

theorem exec_material_of_error (h : fails .getIdentity = some e ∨
    fails .getIdentity = none ∧ fails .getAccountKeys = some e) :
    material.exec fails (renewed seed password session) =
      (.error e, renewed seed password session) := by
  unfold material
  rcases h with hidentity | ⟨hidentity, hkeys⟩
  · exact Session.exec_bind_of_error (exec_step_of_some hidentity)
  · rw [Session.exec_bind_of_ok (exec_step_of_none hidentity)]
    exact Session.exec_bind_of_error (exec_step_of_some hkeys)

theorem opens_renewed : Opens password (renewed seed password session) (newKeypair seed) := by
  refine ⟨_, _, _, rfl, rfl, rfl, ⟨_, Aead.open_seal _ _ _ _⟩, ?_, rfl⟩
  show Vault.openAccountKeypair (newMaster seed password) (Wrap.wrapKey _ _ _ _) = _
  rw [Vault.openAccountKeypair, Wrap.unwrapKey_wrapKey _ _ _ _ rfl]
  rfl

/-- The material of the new identity passes the checks of the server. -/
theorem run_resetAccount {faults : Faults} {w : World} {userId : Ident}
    (hserver : faults.server = none) :
    Prog.runE (Cmd.exec faults) (Server.resetAccount userId (newBundle seed password) : Handler Unit)
      w = ((Server.commit (Server.resetAccountTx userId (newAccount seed password)) w.db).1,
        { w with db := (Server.commit (Server.resetAccountTx userId
          (newAccount seed password)) w.db).2 }) := by
  have hstep : Prog.runE (Cmd.exec faults)
      (Server.Database.perform (.resetAccount userId (newAccount seed password)) : Handler Unit) w =
        ((Server.commit (Server.resetAccountTx userId (newAccount seed password)) w.db).1,
          { w with db := (Server.commit (Server.resetAccountTx userId
            (newAccount seed password)) w.db).2 }) := by
    show Cmd.exec faults (.server _) w = _
    rw [Cmd.exec, hserver]
    rfl
  exact hstep

theorem run_resetAccount_of_some {faults : Faults} {w : World} {userId : Ident} {e : Server.Error}
    (hserver : faults.server = some e) :
    Prog.runE (Cmd.exec faults) (Server.resetAccount userId (newBundle seed password) : Handler Unit)
      w = (.error e, w) := by
  have hstep : Prog.runE (Cmd.exec faults)
      (Server.Database.perform (.resetAccount userId (newAccount seed password)) : Handler Unit) w =
        (.error e, w) := by
    show Cmd.exec faults (.server _) w = _
    rw [Cmd.exec, hserver]
  exact hstep

end Writes

/-! ### Runs of a reset -/

section Runs

variable {userId : Ident} {seed : Seed} {now ttl : Int} {old password : Bytes} {faults : Faults}
  {w : World} {e : Error} {s : Storage}

theorem exec_reset_of_asked (h : ∀ q, faults.question q = none) :
    (reset userId seed now ttl password).exec faults w = (do
      let kit ← onDevice (reinit seed now ttl password)
      let bundle ← onDevice material
      request (Server.resetAccount userId bundle)
      return kit : Command EmergencyKit).exec faults w := by
  have hok : ∀ q, (ask q).exec faults w = (.ok (), w) := by
    intro q
    rw [exec_ask, h q]
    rfl
  unfold reset
  rw [exec_bind_of_ok (hok _), exec_bind_of_ok (hok _), exec_bind_of_ok (hok _)]

theorem exec_reset_of_unasked {q : Question} (h : faults.question q = some e) :
    ∃ e, (reset userId seed now ttl password).exec faults w = (.error e, w) := by
  have hask : ∀ q, (ask q).exec faults w = (answer (faults.question q), w) := exec_ask
  unfold reset
  cases hlogin : faults.question .syncClient with
  | some e => exact ⟨e, exec_bind_of_error (by rw [hask, hlogin]; rfl)⟩
  | none =>
      rw [exec_bind_of_ok (show (ask _).exec faults w = (.ok (), w) by rw [hask, hlogin]; rfl)]
      cases hconfirm : faults.question .confirm with
      | some e => exact ⟨e, exec_bind_of_error (by rw [hask, hconfirm]; rfl)⟩
      | none =>
          rw [exec_bind_of_ok (show (ask _).exec faults w = (.ok (), w) by
            rw [hask, hconfirm]; rfl)]
          cases hread : faults.question .readNewPassword with
          | some e => exact ⟨e, exec_bind_of_error (by rw [hask, hread]; rfl)⟩
          | none => cases q <;> simp_all

theorem exec_reset_of_failed (h : ∀ q, faults.question q = none)
    (hreinit : (reinit seed now ttl password).exec faults.storage w.storage = (.error e, s)) :
    (reset userId seed now ttl password).exec faults w = (.error e, { w with storage := s }) := by
  rw [exec_reset_of_asked h]
  refine exec_bind_of_error ?_
  rw [exec_onDevice, hreinit]

theorem exec_reset_of_renewed {kit : EmergencyKit} (h : ∀ q, faults.question q = none)
    (hreinit : (reinit seed now ttl password).exec faults.storage w.storage = (.ok kit, s)) :
    (reset userId seed now ttl password).exec faults w = (do
      let bundle ← onDevice material
      request (Server.resetAccount userId bundle)
      return kit : Command EmergencyKit).exec faults { w with storage := s } := by
  rw [exec_reset_of_asked h]
  refine exec_bind_of_ok ?_
  rw [exec_onDevice, hreinit]

/-- A reset that does not come to replace the secret key changes nothing. -/
theorem exec_reset_of_not_replaces (h : ¬ faults.Replaces) :
    ∃ e, (reset userId seed now ttl password).exec faults w = (.error e, w) := by
  by_cases hq : ∀ q, faults.question q = none
  · cases hderive : faults.storage .derive with
    | some e => exact ⟨e, exec_reset_of_failed hq (exec_reinit_of_underived hderive)⟩
    | none =>
        cases hset : faults.storage .setSecretKey with
        | some e => exact ⟨e, exec_reset_of_failed hq (exec_reinit_of_unset hderive hset)⟩
        | none => exact absurd ⟨hq, hderive, hset⟩ h
  · rw [not_forall] at hq
    obtain ⟨q, hq⟩ := hq
    obtain ⟨e, he⟩ := Option.ne_none_iff_exists'.1 hq
    exact exec_reset_of_unasked he

/-- An upload that comes through replaces the account on the server. -/
theorem exec_reset_of_uploads (hreplaces : faults.Replaces) (h : faults.Uploads userId w.db)
    {existing : Server.Account} (haccount : w.db.users.lookup userId = some (some existing)) :
    ∃ r session db, (reset userId seed now ttl password).exec faults w =
        (r, ⟨renewed seed password session, db⟩) ∧
      db.users.lookup userId = some (some (newAccount seed password)) := by
  obtain ⟨kit, session, hreinit⟩ := @exec_reinit_of_ok seed now ttl password faults.storage w.storage
    hreplaces.derive hreplaces.setSecretKey h.putIdentityWithKeys h.setSession
  rw [exec_reset_of_renewed hreplaces.questions hreinit]
  have hmaterial : (onDevice material).exec faults ⟨renewed seed password session, w.db⟩ =
      (.ok (newBundle seed password), ⟨renewed seed password session, w.db⟩) := by
    rw [exec_onDevice]
    dsimp only
    rw [exec_material_renewed h.getIdentity h.getAccountKeys]
  have htx := (@Server.resetAccountTx_eq_ok_iff userId (newAccount seed password) _ _ existing ()
    haccount).2 ⟨h.active, rfl⟩
  have hrun := @run_resetAccount seed password faults ⟨renewed seed password session, w.db⟩ userId
    h.server
  rw [Server.commit_eq_ok.2 htx] at hrun
  rw [exec_bind_of_ok hmaterial]
  have hrequest := exec_request_of_sent h.send hrun
  cases hreceive : faults.receive with
  | some e =>
      rw [hreceive] at hrequest
      exact ⟨_, _, _, exec_bind_of_error hrequest, AList.lookup_insert _⟩
  | none =>
      rw [hreceive] at hrequest
      exact ⟨_, _, _, exec_bind_of_ok hrequest, AList.lookup_insert _⟩

/-- An upload that does not come through leaves the server's account. -/
theorem exec_upload_of_error {db : Server.Db} {kit : EmergencyKit} {session : Option CachedKey}
    {existing : Server.Account} (haccount : db.users.lookup userId = some (some existing))
    (h : faults.storage .getIdentity = none → faults.storage .getAccountKeys = none →
      faults.send = none → faults.server = none → ¬ db.OrgsActive userId) :
    ∃ e, (do
      let bundle ← onDevice material
      request (Server.resetAccount userId bundle)
      return kit : Command EmergencyKit).exec faults ⟨renewed seed password session, db⟩ =
        (.error e, ⟨renewed seed password session, db⟩) := by
  cases hidentity : faults.storage .getIdentity with
  | some e =>
      refine ⟨e, exec_bind_of_error ?_⟩
      rw [exec_onDevice, exec_material_of_error (Or.inl hidentity)]
  | none =>
      cases hkeys : faults.storage .getAccountKeys with
      | some e =>
          refine ⟨e, exec_bind_of_error ?_⟩
          rw [exec_onDevice, exec_material_of_error (Or.inr ⟨hidentity, hkeys⟩)]
      | none =>
          have hmaterial : (onDevice material).exec faults ⟨renewed seed password session, db⟩ =
              (.ok (newBundle seed password), ⟨renewed seed password session, db⟩) := by
            rw [exec_onDevice]
            dsimp only
            rw [exec_material_renewed hidentity hkeys]
          rw [exec_bind_of_ok hmaterial]
          cases hsend : faults.send with
          | some e => exact ⟨e, exec_bind_of_error (exec_request_of_unsent hsend)⟩
          | none =>
              suffices hrun : ∃ e, Prog.runE (Cmd.exec faults)
                  (Server.resetAccount userId (newBundle seed password) : Handler Unit)
                  ⟨renewed seed password session, db⟩ =
                    (.error e, ⟨renewed seed password session, db⟩) by
                obtain ⟨e, he⟩ := hrun
                have hrequest := exec_request_of_sent hsend he
                cases hreceive : faults.receive with
                | some e' =>
                    rw [hreceive] at hrequest
                    exact ⟨_, exec_bind_of_error hrequest⟩
                | none =>
                    rw [hreceive] at hrequest
                    exact ⟨_, exec_bind_of_error hrequest⟩
              cases hserver : faults.server with
              | some e => exact ⟨e, run_resetAccount_of_some hserver⟩
              | none =>
                  rw [run_resetAccount hserver]
                  cases htx : Server.commit (Server.resetAccountTx userId
                      (newAccount seed password)) db with
                  | mk r db' =>
                      cases r with
                      | ok u =>
                          rw [Server.commit_eq_ok, Server.resetAccountTx_eq_ok_iff haccount] at htx
                          exact absurd htx.1 (h hidentity hkeys hsend hserver)
                      | error e =>
                          have hdb := Server.commit_snd_of_error
                            (show (Server.commit _ db).1 = .error e by rw [htx])
                          rw [htx] at hdb
                          dsimp only at hdb
                          rw [hdb]
                          exact ⟨e, rfl⟩

/-- A reset that replaced the secret key and did not come to the commit of the upload fails. It
leaves the server's account, and on the device a secret key without its identity, or the new
identity. -/
theorem exec_reset_of_not_uploads (hreplaces : faults.Replaces) (h : ¬ faults.Uploads userId w.db)
    {existing : Server.Account} (haccount : w.db.users.lookup userId = some (some existing)) :
    ∃ e s, (reset userId seed now ttl password).exec faults w = (.error e, ⟨s, w.db⟩) ∧
      ((s.identity = w.storage.identity ∧
        (s.secretKey = none ∨ s.secretKey = some (.random seed 0))) ∨
      ∃ session, s = renewed seed password session) := by
  cases hput : faults.storage .putIdentityWithKeys with
  | some e =>
      refine ⟨e, _, exec_reset_of_failed hreplaces.questions (exec_reinit_of_refused
        hreplaces.derive hreplaces.setSecretKey hput), Or.inl ⟨rfl, ?_⟩⟩
      dsimp only
      split
      · exact Or.inl rfl
      · exact Or.inr rfl
  | none =>
      cases hsession : faults.storage .setSession with
      | some e =>
          exact ⟨e, _, exec_reset_of_failed hreplaces.questions (exec_reinit_of_uncached
            hreplaces.derive hreplaces.setSecretKey hput hsession), Or.inr ⟨_, rfl⟩⟩
      | none =>
          obtain ⟨kit, session, hreinit⟩ := @exec_reinit_of_ok seed now ttl password faults.storage
            w.storage hreplaces.derive hreplaces.setSecretKey hput hsession
          rw [exec_reset_of_renewed hreplaces.questions hreinit]
          obtain ⟨e, he⟩ := @exec_upload_of_error userId seed password faults w.db kit session
            existing haccount fun hidentity hkeys hsend hserver hactive =>
              h ⟨hput, hsession, hidentity, hkeys, hsend, hserver, hactive⟩
          exact ⟨e, _, he, Or.inr ⟨session, rfl⟩⟩

theorem openAccountKeypair_eq_ok {masterKey enc : Bytes} {keypair : Keypair}
    (h : Vault.openAccountKeypair masterKey enc = .ok keypair) :
    ∃ nonce, enc = .envelope masterKey nonce .privKeys keypair.secret := by
  unfold Vault.openAccountKeypair at h
  cases hu : Wrap.unwrapKey masterKey enc .privKeys with
  | error e =>
      rw [hu] at h
      cases h
  | ok secret =>
      rw [hu] at h
      cases h
      exact (Wrap.unwrapKey_eq_ok hu).1

/-- With a fresh draw, a reset that failed between the two ends device and server apart. -/
theorem not_agreement {db : Server.Db} (hold : Agreement userId [old] w)
    (hkey : ∀ part, w.storage.secretKey ≠ some (.random seed part))
    (hpublic : ∀ part account, w.db.users.lookup userId = some (some account) →
      account.publicKey ≠ .publicKey (.random seed part))
    (hdb : db = w.db) (hs : (s.identity = w.storage.identity ∧
        (s.secretKey = none ∨ s.secretKey = some (.random seed 0))) ∨
      ∃ session, s = renewed seed password session) (passwords : List Bytes) :
    ¬ Agreement userId passwords ⟨s, db⟩ := by
  subst hdb
  obtain ⟨_, -, _, _, ⟨secretKey₀, identity₀, _, hsecret₀, hidentity₀, -, ⟨_, hmarker₀⟩, -, -⟩, -⟩ :=
    hold
  rintro ⟨_, -, keypair, account, ⟨secretKey, identity, keys, hsecret, hidentity, hkeys,
    ⟨_, hmarker⟩, hkeypair, -⟩, haccount, hpair⟩
  dsimp only at hsecret hidentity hkeys haccount
  rcases hs with ⟨hsame, hnone | hnew⟩ | ⟨session, rfl⟩
  · rw [hnone] at hsecret
    cases hsecret
  · -- the verifier is that of the old identity, which only the old secret key opens
    rw [hsame, hidentity₀] at hidentity
    cases hidentity
    obtain ⟨nonce, henc⟩ := Aead.open_eq_ok hmarker
    obtain ⟨nonce₀, henc₀⟩ := Aead.open_eq_ok hmarker₀
    rw [henc₀] at henc
    injection henc with hmaster
    injection hmaster with _ hsame'
    rw [hnew] at hsecret
    cases hsecret
    exact hkey 0 (hsecret₀.trans (congrArg some hsame'))
  · cases hsecret
    cases hidentity
    cases hkeys
    obtain ⟨nonce, henc⟩ := openAccountKeypair_eq_ok hkeypair
    injection henc with _ _ _ hsecret
    refine hpublic 3 account haccount (hpair.trans ?_)
    rw [Keypair.public, ← hsecret]
    rfl

end Runs

/-- A failed reset leaves device and server in agreement, whatever it draws, if and only if, where
it comes to replace the secret key of the device, it also comes to the commit of the upload. -/
theorem reset_consistent_iff {userId : Ident} {old password : Bytes} {faults : Faults} {w : World}
    (hold : Agreement userId [old] w) :
    (∀ seed now ttl e w', (reset userId seed now ttl password).exec faults w = (.error e, w') →
      Consistent userId [old, password] w') ↔
      (faults.Replaces → faults.Uploads userId w.db) := by
  have hagree := hold
  obtain ⟨_, hmem, keypair, account, hopens, haccount, hpublic⟩ := hagree
  obtain rfl := List.mem_singleton.1 hmem
  constructor
  · intro h hreplaces
    by_contra hnot
    obtain ⟨seed, hseed⟩ := exists_seed_notMem (w.storage.secretKey.toList ++ [keypair.secret])
    simp only [List.mem_append, Option.mem_toList, List.mem_singleton, not_or] at hseed
    obtain ⟨e, s, hrun, hs⟩ := @exec_reset_of_not_uploads userId seed 0 0 password faults w hreplaces
      hnot account haccount
    refine not_agreement hold (fun part => (hseed part).1) ?_ rfl hs _
      (h seed 0 0 e _ hrun).agreement
    rintro part account' haccount' heq
    rw [haccount] at haccount'
    cases haccount'
    rw [hpublic] at heq
    injection heq with hsecret
    exact (hseed part).2 hsecret.symm
  · intro h seed now ttl e w' hrun
    apply Agreement.consistent
    by_cases hreplaces : faults.Replaces
    · obtain ⟨r, session, db, hrun', hdb⟩ := @exec_reset_of_uploads userId seed now ttl password
        faults w hreplaces (h hreplaces) account haccount
      rw [hrun'] at hrun
      cases hrun
      exact ⟨password, by simp, newKeypair seed, _, opens_renewed, hdb, rfl⟩
    · obtain ⟨e', hrun'⟩ := @exec_reset_of_not_replaces userId seed now ttl password faults w
        hreplaces
      rw [hrun'] at hrun
      cases hrun
      exact ⟨_, by simp, keypair, account, hopens, haccount, hpublic⟩

/-- No step fails. -/
def noFaults : Faults := ⟨fun _ => none, Session.working, none, none, none⟩

/-- A device and a server after the setup of an account with an empty password. -/
def settled : World :=
  ⟨renewed ⟨9, 0⟩ (.raw .empty) none, { Team.db with
    users := AList.insert Team.alice (some (newAccount ⟨9, 0⟩ (.raw .empty))) Team.db.users }⟩

theorem agreement_settled : Agreement Team.alice [.raw .empty] settled :=
  ⟨.raw .empty, by simp, newKeypair ⟨9, 0⟩, _, opens_renewed, AList.lookup_insert _, rfl⟩

/-- The response is lost. -/
def unanswered : Faults := { noFaults with receive := some (.network "reset") }

/-- A reset whose response is lost leaves device and server with the new account. -/
theorem reset_consistent_unanswered : Consistent Team.alice [.raw .empty, .raw .empty]
    ((reset Team.alice ⟨0, 0⟩ 0 0 (.raw .empty)).exec unanswered settled).2 := by
  refine (@reset_consistent_iff Team.alice (.raw .empty) (.raw .empty) unanswered settled
    agreement_settled).2 (fun _ => ⟨rfl, rfl, rfl, rfl, rfl, rfl, ?_⟩) ⟨0, 0⟩ 0 0
    (.network "reset") _ rfl
  intro orgId org horg _
  have horg : Team.db.organizations.lookup orgId = some org := horg
  simp only [Team.db, Table.lookup_insert, AList.lookup_empty] at horg
  split at horg
  · cases horg
    rfl
  · cases horg

/-- A reset that cannot send its upload leaves the device with keys that the server does not know. -/
theorem reset_not_consistent : ¬ ∀ userId old password faults w, Agreement userId [old] w →
    ∀ seed now ttl e w', (reset userId seed now ttl password).exec faults w = (.error e, w') →
      Consistent userId [old, password] w' := by
  intro h
  have hlost := h Team.alice (.raw .empty) (.raw .empty)
    { noFaults with send := some (.network "refused") } settled agreement_settled ⟨0, 0⟩ 0 0 _ _ rfl
  refine not_agreement agreement_settled ?_ ?_ rfl (Or.inr ⟨_, rfl⟩) _ hlost.agreement
  · intro part heq
    cases heq
  · intro part account haccount heq
    have hsettled : settled.db.users.lookup Team.alice =
        some (some (newAccount ⟨9, 0⟩ (.raw .empty))) := AList.lookup_insert _
    rw [hsettled] at haccount
    cases haccount
    cases heq

end Reset

end Cli

end Sotto
