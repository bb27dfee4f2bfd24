import Mathlib.Data.Set.Insert
import Sotto.Cli.Discretion
import Sotto.Library.Announced
import Sotto.Properties.Rotation
import Sotto.Team

/-!
# What the server learns

Whoever runs the server sees every request as it is sent, whether or not the server accepts it, and
whatever the database holds at any time. Even with the stores of all devices, they learn no name and
no value of a secret, no data key and no vault key, from any run of the devices.
-/

namespace Sotto

open Core Cli Prog

/-! ### What can be seen -/

/-- The bytes that a base64 text decodes to. -/
def Base64.blobs : Base64 → List Bytes
  | valid bytes => [bytes]
  | malformed _ => []

namespace Server

def Account.blobs (a : Account) : List Bytes :=
  [a.publicKey, a.encPrivateKeys, a.kdfParams, a.recoveryBlob]

/-- All that a database holds. -/
def Db.blobs (db : Db) : List Bytes :=
  (db.users.rows.flatMap fun u => u.2.toList.flatMap Account.blobs) ++
  (db.organizations.rows.map fun o => o.2.encName) ++
  (db.memberships.rows.flatMap fun m => m.2.encOrgKey.toList) ++
  (db.projects.rows.map fun p => p.2.encName) ++
  (db.environments.rows.map fun e => e.2.encName) ++
  (db.grants.rows.map fun g => g.2) ++
  (db.secrets.rows.flatMap fun s => [s.2.encName, s.2.encValue, s.2.encDataKey]) ++
  (db.secretVersions.rows.flatMap fun v => [v.2.encName, v.2.encValue, v.2.encDataKey]) ++
  (db.machineTokens.rows.flatMap fun t => [t.2.publicKey, t.2.encVaultKey])

end Server

namespace Cli

def AccountKeys.blobs (keys : AccountKeys) : List Bytes :=
  [keys.kdfSalt, keys.publicKey, keys.encPrivateKeys, keys.recoveryBlob]

/-- The ciphertexts and keys that a store holds. -/
def Store.blobs (store : Store) : List Bytes :=
  store.accountKeys.toList.flatMap AccountKeys.blobs ++
  (store.environments.rows.map fun e => e.2.encVaultKey) ++
  (store.secrets.rows.flatMap fun s => [s.2.encName, s.2.encValue, s.2.encDataKey]) ++
  (store.secretVersions.rows.flatMap fun v => [v.2.encName, v.2.encValue, v.2.encDataKey])

/-- All that a request carries. -/
def Request.blobs : Request → List Bytes
  | putAccount _ b =>
      b.publicKey.blobs ++ b.encPrivateKeys.blobs ++ b.kdfParams.blobs ++ b.recoveryBlob.blobs
  | createProject _ project => project.encName.blobs
  | createEnvironment _ _ env => env.encName.blobs ++ env.encVaultKey.blobs
  | writeSecrets _ _ batch => batch.changes.flatMap fun c =>
      (c.encName.toList ++ c.encValue.toList ++ c.encDataKey.toList).flatMap Base64.blobs
  | rotate _ _ req =>
      (req.grants.flatMap fun g => g.encVaultKey.blobs) ++
      (req.dataKeys.flatMap fun d => d.encDataKey.blobs) ++
      (req.machineGrants.flatMap fun g => g.encVaultKey.blobs) ++
      (req.historyKeys.flatMap fun h => h.encDataKey.blobs)
  | resetAccount _ b =>
      b.publicKey.blobs ++ b.encPrivateKeys.blobs ++ b.kdfParams.blobs ++ b.recoveryBlob.blobs
  | createGrant _ _ grant => grant.encVaultKey.blobs
  | _ => []

end Cli

/-! ### What is guarded shows nothing -/

section Blobs

variable {known : Set Bytes}

theorem Base64.Holds.blobs {P : Bytes → Prop} {value : Base64} (h : value.Holds P) :
    ∀ b ∈ value.blobs, P b := by
  cases value with
  | valid bytes => exact List.forall_mem_singleton.2 h
  | malformed text => exact fun b hb => nomatch hb

theorem GuardedSecret.blobs {encName encValue encDataKey : Bytes}
    (h : GuardedSecret known encName encValue encDataKey) :
    ∀ b ∈ [encName, encValue, encDataKey], Guarded known b := by
  simpa using ⟨h.encName, h.encValue, h.encDataKey⟩

theorem Server.Db.Guarded.blobs {db : Server.Db} (h : db.Guarded known) :
    ∀ b ∈ db.blobs, Core.Guarded known b := by
  intro b hb
  simp only [Server.Db.blobs, List.mem_append, List.mem_flatMap, List.mem_map,
    Option.mem_toList] at hb
  rcases hb with ((((((((⟨u, hu, a, ha, hb⟩ | ⟨o, ho, rfl⟩) | ⟨m, hm, hb⟩) | ⟨p, hp, rfl⟩) |
    ⟨e, he, rfl⟩) | ⟨g, hg, rfl⟩) | ⟨s, hs, hb⟩) | ⟨v, hv, hb⟩) | ⟨t, ht, hb⟩)
  · have haccount := h.users.of_mem_rows hu a ha
    revert b
    simpa [Server.Account.blobs] using ⟨haccount.publicKey.guarded, haccount.encPrivateKeys,
      haccount.kdfParams, haccount.recoveryBlob⟩
  · exact h.organizations.of_mem_rows ho
  · exact (h.memberships.of_mem_rows hm b hb).guarded
  · exact h.projects.of_mem_rows hp
  · exact h.environments.of_mem_rows he
  · exact (h.grants.of_mem_rows hg).guarded
  · exact (h.secrets.of_mem_rows hs).blobs b hb
  · exact (h.secretVersions.of_mem_rows hv).blobs b hb
  · have htoken := h.machineTokens.of_mem_rows ht
    revert b
    simpa using ⟨htoken.publicKey.guarded, htoken.encVaultKey.guarded⟩

theorem Cli.Store.Guarded.blobs {store : Store} (h : store.Guarded known) :
    ∀ b ∈ store.blobs, Core.Guarded known b := by
  intro b hb
  simp only [Store.blobs, List.mem_append, List.mem_flatMap, List.mem_map,
    Option.mem_toList] at hb
  rcases hb with ((⟨k, hk, hb⟩ | ⟨e, he, rfl⟩) | ⟨s, hs, hb⟩) | ⟨v, hv, hb⟩
  · have hkeys := h.accountKeys k hk
    revert b
    simpa [AccountKeys.blobs] using ⟨hkeys.kdfSalt, hkeys.publicKey.guarded, hkeys.encPrivateKeys,
      hkeys.recoveryBlob⟩
  · exact (h.environments.of_mem_rows he).guarded
  · exact (h.secrets.of_mem_rows hs).blobs b hb
  · exact (h.secretVersions.of_mem_rows hv).blobs b hb

theorem guarded_blobs_bundle {bundle : Api.AccountBundle} (h : bundle.Guarded known) :
    ∀ b ∈ bundle.publicKey.blobs ++ bundle.encPrivateKeys.blobs ++ bundle.kdfParams.blobs ++
      bundle.recoveryBlob.blobs, Core.Guarded known b := by
  intro b hb
  simp only [List.mem_append] at hb
  rcases hb with ((hb | hb) | hb) | hb
  · exact (h.publicKey.blobs b hb).guarded
  · exact h.encPrivateKeys.blobs b hb
  · exact h.kdfParams.blobs b hb
  · exact h.recoveryBlob.blobs b hb

theorem Cli.Request.Guarded.blobs {r : Request} (h : r.Guarded known) :
    ∀ b ∈ r.blobs, Core.Guarded known b := by
  intro b hb
  cases r with
  | putAccount userId bundle => exact guarded_blobs_bundle h b hb
  | createProject userId project => exact Base64.Holds.blobs h b hb
  | createEnvironment userId projectId env =>
      rcases List.mem_append.1 hb with hb | hb
      · exact h.encName.blobs b hb
      · exact (h.encVaultKey.blobs b hb).guarded
  | writeSecrets userId envId batch =>
      simp only [Request.blobs, List.mem_flatMap, List.mem_append, Option.mem_toList] at hb
      obtain ⟨c, hc, value, (hvalue | hvalue) | hvalue, hb⟩ := hb
      · exact ((h c hc).encName value hvalue).blobs b hb
      · exact ((h c hc).encValue value hvalue).blobs b hb
      · exact ((h c hc).encDataKey value hvalue).blobs b hb
  | rotate userId envId req =>
      simp only [Request.blobs, List.mem_append, List.mem_flatMap] at hb
      rcases hb with ((⟨g, hg, hb⟩ | ⟨d, hd, hb⟩) | ⟨g, hg, hb⟩) | ⟨k, hk, hb⟩
      · exact ((h.grants g hg).blobs b hb).guarded
      · exact (h.dataKeys d hd).blobs b hb
      · exact ((h.machineGrants g hg).blobs b hb).guarded
      · exact (h.historyKeys k hk).blobs b hb
  | resetAccount userId bundle => exact guarded_blobs_bundle h b hb
  | createGrant userId envId grant => exact (Base64.Holds.blobs h b hb).guarded
  | _ => cases hb

end Blobs

/-! ### The observed system -/

namespace Setup

variable (S : Setup)

/-- The system of the devices, with the commands of their operations as they are issued. -/
def overheard : System Nat (Announced.Reply (C := Call) Cmd.Reply) (Shared × List Call) Device Op
    (Except Cli.Error Unit) :=
  S.system.announcing Call.steps fun d op => (S.action d op).run

/-- Devices that are idle, before anything is issued. -/
def resting (s : Shared) (own : Nat → Device) : Config Nat (Announced.Reply (C := Call) Cmd.Reply)
    (Shared × List Call) Device Op (Except Cli.Error Unit) :=
  ⟨(s, []), fun d => ⟨own d, none⟩⟩

/-- What is ever stored, sent or kept by a device, in any run from a state of rest. -/
def seen (s : Shared) (own : Nat → Device) : Set Bytes :=
  { b | ∃ w, S.overheard.Reaches (resting s own) w ∧
    (b ∈ w.shared.1.db.blobs ∨ (∃ r, .http r ∈ w.shared.2 ∧ b ∈ r.blobs) ∨
      ∃ d, b ∈ (w.threads d).own.store.blobs) }

/-- What an observer knows in a state of rest does not give away what is kept secret: they know
nothing that a device will draw, no master key, and the rest is guarded. -/
structure Hides (known : Set Bytes) (s : Shared) (own : Nat → Device) : Prop where
  atomic : ∀ b ∈ known, b.Atomic
  draws : DrawsUnknown known
  masters : ∀ d, ¬ Guarded known (S.master (S.user d))
  db : s.db.Guarded known
  keys : ∀ key ∈ s.keys, ¬ Guarded known key
  stores : ∀ d, (own d).store.Guarded known

end Setup

section Runs

variable {S : Setup} {known : Set Bytes}

/-- What holds of the shared state: the database and the requests are guarded, and the vault keys
are kept from the observer. -/
structure Shared.Hidden (known : Set Bytes) (s : Shared × List Call) : Prop where
  db : s.1.db.Guarded known
  keys : ∀ key ∈ s.1.keys, ¬ Guarded known key
  sent : ∀ r, Call.http r ∈ s.2 → r.Guarded known

/-- Every operation of the devices keeps the contract. -/
theorem keeps_action (hdraws : DrawsUnknown known)
    (hmasters : ∀ d, ¬ Guarded known (S.master (S.user d))) (d : Nat) (op : Op) :
    KeepsE (calls known) (fun _ => True) (S.action d op) := by
  cases op with
  | set name value =>
      refine KeepsE.bind keeps_fresh fun idSeed _ => KeepsE.bind keeps_fresh fun seed hseed => ?_
      exact (keeps_store (c := .vaultSet ..) hseed).mono fun _ _ => trivial
  | delete name => exact (keeps_store (c := .vaultDelete ..) trivial).mono fun _ _ => trivial
  | pull => exact KeepsE.bind keeps_pull fun _ _ => KeepsE.pure trivial
  | push => exact KeepsE.bind (keeps_push (hmasters d)) fun _ _ => KeepsE.pure trivial
  | rotate => exact keeps_rotateActive hdraws
  | rotateEnv revoke =>
      unfold Setup.action
      dsimp only
      split
      · exact KeepsE.throw
      · exact KeepsE.bind (keeps_rotateEnv hdraws) fun _ _ => KeepsE.pure trivial

/-- A statement of the server keeps the vault keys from the observer. -/
theorem Shared.hidden_callServer {s : Shared} {stmt : Server.Stmt} (hdb : s.db.Guarded known)
    (hkeys : ∀ key ∈ s.keys, ¬ Guarded known key) (h : stmt.Guarded known) :
    (s.callServer stmt).2.db.Guarded known ∧
      ∀ key ∈ (s.callServer stmt).2.keys, ¬ Guarded known key := by
  have hdb' : (stmt.exec s.db).2.Guarded known := Server.Stmt.guarded_exec hdb h
  refine ⟨hdb', ?_⟩
  cases stmt with
  | rotate access envId orgId req =>
      intro key hkey
      simp only [Shared.callServer] at hkey
      split at hkey
      · rcases List.mem_append.1 hkey with hkey | hkey
        · simp only [Option.mem_toList, Option.bind_eq_some_iff] at hkey
          obtain ⟨grant, hgrant, hsealed⟩ := hkey
          cases grant with
          | sealedBox recipient ephemeral plaintext =>
              obtain rfl := Option.some.inj hsealed
              exact (hdb'.grants _ _ hgrant).content _ _ _ rfl
          | _ => cases hsealed
        · exact hkeys key hkey
      · exact hkeys key hkey
  | _ => exact hkeys

theorem Device.store_record {c : StoreCmd} {accepted : Bool} {before after : Store} {l : Device} :
    (l.record c accepted before after).store = l.store := by
  cases c <;> rfl

theorem Device.store_observe {stmt : Server.Stmt} {accepted : Bool} {before after : Server.Db}
    {l : Device} : (l.observe stmt accepted before after).store = l.store := by
  unfold Device.observe
  split
  · rfl
  · split <;> rfl
  · rfl

/-- What the devices do keeps the database, the requests and the stores guarded. -/
theorem overheard_honours (hdraws : DrawsUnknown known)
    (hmasters : ∀ d, ¬ Guarded known (S.master (S.user d))) :
    S.overheard.Honours (Announced.contract (calls known) (steps known)) (Shared.Hidden known)
      fun l => l.store.Guarded known where
  prog d op := (Announced.keeps_steps (fun _ hc => Call.keeps_steps hc)
    (keeps_action hdraws hmasters d op)).mono fun _ _ => trivial
  start := by
    rintro d op s l l' hl rfl
    exact hl
  finish := by
    rintro d op a s l l' hl rfl
    exact hl
  exec := by
    rintro d c s l r s' l' hs hl hsends hexec
    cases c with
    | announce c =>
        obtain ⟨rfl, rfl⟩ := hexec
        refine ⟨trivial, ⟨hs.db, hs.keys, fun r hr => ?_⟩, hl⟩
        rcases List.mem_cons.1 hr with rfl | hr
        · exact hsends
        · exact hs.sent r hr
    | step c =>
        obtain ⟨hexec, hsent⟩ := hexec
        obtain ⟨s₁, issued⟩ := s
        obtain ⟨s₁', issued'⟩ := s'
        obtain rfl : issued' = issued := hsent
        rcases hexec with hperform | ⟨hfault, hsame, rfl⟩
        · cases c with
          | fresh =>
              simp only [perform, Prod.mk.injEq] at hperform
              obtain ⟨rfl, rfl, rfl⟩ := hperform
              exact ⟨Nat.succ_ne_zero d, hs, hl⟩
          | net =>
              simp only [perform, Prod.mk.injEq] at hperform
              obtain ⟨rfl, rfl, rfl⟩ := hperform
              exact ⟨trivial, hs, hl⟩
          | store c =>
              simp only [perform, Prod.mk.injEq] at hperform
              obtain ⟨rfl, rfl, rfl⟩ := hperform
              refine ⟨fun a ha => StoreCmd.guardedReply_exec hl ha, ⟨hs.db, hs.keys, hs.sent⟩, ?_⟩
              rw [Device.store_record]
              exact StoreCmd.guarded_exec hdraws hl hsends
          | server stmt =>
              simp only [perform, Prod.mk.injEq] at hperform
              obtain ⟨rfl, rfl, rfl⟩ := hperform
              obtain ⟨hdb, hkeys⟩ := Shared.hidden_callServer hs.db hs.keys hsends
              refine ⟨fun a ha => Server.Stmt.guardedReply_exec hs.db ha, ⟨hdb, hkeys, hs.sent⟩, ?_⟩
              rw [Device.store_observe]
              exact hl
        · obtain rfl : s₁' = s₁ := hsame
          refine ⟨?_, hs, hl⟩
          cases c with
          | fresh => exact hfault.elim
          | net => trivial
          | store c =>
              obtain ⟨m, rfl⟩ := hfault
              exact ifOk_error
          | server stmt =>
              obtain rfl : r = .error .internal := hfault
              exact ifOk_error

variable {s : Shared} {own : Nat → Device}

theorem Setup.Hides.reaches (h : S.Hides known s own) {w}
    (hw : S.overheard.Reaches (Setup.resting s own) w) :
    Shared.Hidden known w.shared ∧ ∀ d, (w.threads d).own.store.Guarded known := by
  have hstart : (Setup.resting s own).Keeps (Announced.contract (calls known) (steps known))
      (Shared.Hidden known) fun l => l.store.Guarded known :=
    ⟨⟨h.db, h.keys, fun r hr => nomatch hr⟩, h.stores, fun d op p hr => nomatch hr⟩
  have hend := hstart.reaches (overheard_honours h.draws h.masters) hw
  exact ⟨hend.shared, hend.own⟩

end Runs

namespace Team

/-- Whether a vault key opens a stored secret to the value. -/
def stores (value : Bytes) (s : Shared) : Bool :=
  s.db.secrets.rows.any fun e => s.keys.any fun key =>
    (Core.Vault.decryptSecret key envId e.1 e.2.version e.2.encName e.2.encValue
      e.2.encDataKey).toOption.any fun p => p.2 = value

/-- What the devices of the team start with. -/
def own (d : Nat) : Device := (setup.init.threads d).own

end Team

end Sotto
