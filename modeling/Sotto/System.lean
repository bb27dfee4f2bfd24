import Sotto.Cli.Sync
import Sotto.Library.Threads

/-!
# The devices of one environment

Any number of devices share the server's database and work on one environment.
Each runs one operation at a time, and the steps of different devices interleave
freely. Any step can also fail: the network drops a request or a response, the
server answers an internal error, or a call of the local store fails; a fault
changes nothing by itself. An operation that is killed is one whose next step
fails.

A `Setup` is a linked environment before its first edit: it exists on the server
with no secrets, every device has it in its store under its user's grant, and all
grants seal one vault key.

The fields marked as history variables record what has happened; no program
reads them.
-/

namespace Sotto

open Core Cli

/-- The operations of a device on its environment. -/
inductive Op
  | set (name : String) (value : Bytes)
  | delete (name : String)
  | pull
  | push
  | rotate
  | rotateEnv (revoke : Option Ident)
deriving DecidableEq

/-- The state the devices share: the database, and as history variables the vault
keys the environment has had, newest first, and the id and name of every secret
that was created. -/
structure Shared where
  db : Server.Db
  keys : List Bytes
  created : List (Ident × String)

/-- The state of a device: its store and the number of draws it has made. History
variables: the database when it last read the secrets or wrote a batch, whether
the operation has replaced the stored grant, the rows as edited since the last
successful push, the operation that runs or ran, and the last one that ended with
its result. -/
structure Device where
  store : Store
  draws : Nat
  seen : Server.Db
  adopted : Bool
  edits : Table Ident SecretRow
  current : Option Op
  last : Option (Op × Except Cli.Error Unit)

/-- The vault key sealed in a grant. -/
def sealedKey : Bytes → Option Bytes
  | .sealedBox _ _ plaintext => some plaintext
  | _ => none

/-- The rows of a store that another does not have. -/
def changedRows (before after : Store) : List (Ident × SecretRow) :=
  after.secrets.rows.filter fun s => before.secrets.lookup s.1 ≠ some s.2

/-- Record the rows that an edit changed. -/
def recordEdits (before after : Store) (edits : Table Ident SecretRow) : Table Ident SecretRow :=
  (changedRows before after).foldl (fun t e => AList.insert e.1 e.2 t) edits

/-- The secrets of a store that another does not have. -/
def newIds (before after : Store) : List Ident :=
  (after.secrets.rows.filter fun s => (before.secrets.lookup s.1).isNone).map (·.1)

/-- The secrets that a store call creates, with their name. -/
def createdBy (c : StoreCmd) (before after : Store) : List (Ident × String) :=
  match c with
  | .vaultSet _ _ _ _ _ name _ => (newIds before after).map (·, name)
  | _ => []

/-- What a store call adds to a device's history. -/
def Device.record (c : StoreCmd) (accepted : Bool) (before after : Store) (l : Device) : Device :=
  match c with
  | .updateEnvVaultKey .. => { l with adopted := l.adopted || accepted }
  | .vaultSet .. => { l with edits := recordEdits before after l.edits }
  | .vaultDelete .. => { l with edits := recordEdits before after l.edits }
  | _ => l

/-- A statement of the server, with the keys of the environment after it. -/
def Shared.callServer (stmt : Server.Stmt) (s : Shared) :
    Except Server.Error stmt.Reply × Shared :=
  let result := stmt.exec s.db
  let keys :=
    match stmt with
    | .rotate access envId _ _ =>
        if result.1.toBool then
          ((result.2.grants.lookup (envId, access.userId)).bind sealedKey).toList ++ s.keys
        else s.keys
    | _ => s.keys
  (result.1, { s with db := result.2, keys })

/-- What a device last saw of the database after a statement. -/
def Device.observe (stmt : Server.Stmt) (accepted : Bool) (before after : Server.Db) (l : Device) :
    Device :=
  match stmt with
  | .selectSecrets _ => { l with seen := before }
  | .writeSecrets .. => if accepted then { l with seen := after } else l
  | _ => l

/-- The undisturbed execution of a command by device `d`. -/
def perform (d : Nat) : (c : Cmd) → Shared → Device → c.Reply × Shared × Device
  | .fresh, s, l => (⟨d + 1, l.draws⟩, s, { l with draws := l.draws + 1 })
  | .net, s, l => (.ok (), s, l)
  | .store c, s, l =>
      let result := c.exec l.store
      (result.1, { s with created := createdBy c l.store result.2 ++ s.created },
        { l with store := result.2 }.record c result.1.toBool l.store result.2)
  | .server stmt, s, l =>
      let result := s.callServer stmt
      (result.1, result.2, l.observe stmt result.1.toBool s.db result.2.db)

/-- The replies of a command that fails without effect. -/
def IsFault : (c : Cmd) → c.Reply → Prop
  | .fresh, _ => False
  | .net, r => ∃ m, r = .error (.network m)
  | .store _, r => ∃ m, r = .error (.store m)
  | .server _, r => r = .error .internal

/-- The executions of a command by device `d`. -/
def Executes (d : Nat) (c : Cmd) (s : Shared) (l : Device) (r : c.Reply) (s' : Shared)
    (l' : Device) : Prop :=
  perform d c s l = (r, s', l') ∨ (IsFault c r ∧ s' = s ∧ l' = l)

/-- A linked environment before its first edit, with the devices that hold it and
their users. -/
structure Setup where
  projectId : Ident
  projectName : String
  envId : Ident
  envName : String
  orgId : Option Ident
  vaultKey : Seed
  user : Nat → Ident
  keypair : Ident → Keypair
  master : Ident → Bytes
  db : Server.Db
  store : Nat → Store
  /-- The environment's row is new. -/
  environment : ∃ encName, db.environments.lookup envId = some ⟨projectId, encName, 0⟩
  /-- The project belongs to the organisation, or to the one user of the devices. -/
  project : ∃ ownerId encName, db.projects.lookup projectId = some ⟨ownerId, orgId, encName⟩
  secrets : db.secrets = ∅
  secretVersions : db.secretVersions = ∅
  /-- Every account on the server has its user's public key. -/
  accounts : ∀ u account, db.users.lookup u = some (some account) →
    account.publicKey = (keypair u).public
  initialised : ∀ d, ∃ account, db.users.lookup (user d) = some (some account)
  /-- Every grant seals the vault key to its user. -/
  grants : ∀ u grant, db.grants.lookup (envId, u) = some grant →
    ∃ ephemeral, grant = .sealedBox (keypair u).public ephemeral (.random vaultKey 0)
  /-- Every device has its user's grant, and nothing else of the environment. -/
  granted : ∀ d, ∃ grant, db.grants.lookup (envId, user d) = some grant ∧
    (store d).environments.lookup envId = some ⟨projectId, envName, grant⟩
  onlyEnvironment : ∀ d e env, (store d).environments.lookup e = some env → e = envId
  noSecrets : ∀ d, (store d).secrets = ∅ ∧ (store d).secretVersions = ∅ ∧
    (store d).syncState = ∅
  /-- The vault key was drawn before the devices draw. -/
  vaultKeyOwner : vaultKey.owner = 0

namespace Setup

variable (S : Setup)

/-- The configuration file of the devices. -/
def config : Config := ⟨S.projectId, S.envName, S.orgId⟩

/-- The HTTP client of a device. -/
def api (d : Nat) : HttpClient := ⟨S.user d⟩

/-- The operations as the CLI runs them. -/
def action (d : Nat) : Op → Action Unit
  | .set name value => do
      let idSeed ← Action.fresh
      let seed ← Action.fresh
      Action.store
        (.vaultSet (S.keypair (S.user d)) S.projectId S.envName idSeed seed name value)
  | .delete name =>
      Action.store (.vaultDelete (S.keypair (S.user d)) S.projectId S.envName name)
  | .pull => do
      let _ ← Cli.pull (S.api d) S.config
      return ()
  | .push => do
      let _ ← Cli.push (S.api d) (S.master (S.user d)) S.config
      return ()
  | .rotate => rotateActive (S.api d) (S.keypair (S.user d)) S.config
  | .rotateEnv revoke => do
      match S.orgId with
      | none => throw (.input "rotation only applies to environments in an organisation")
      | some orgId =>
          let _ ← Cli.rotateEnv (S.api d) (S.keypair (S.user d)) orgId S.envId revoke
          return ()

/-- The system of the devices. -/
def system : System Nat Cmd.Reply Shared Device Op (Except Cli.Error Unit) where
  prog d op := (S.action d op).run.expand Call.steps
  start _ op _ l l' := l' = { l with adopted := false, current := some op }
  exec := Executes
  finish _ op r _ l l' :=
    l' = { l with
      last := some (op, r)
      edits := if op = .push ∧ r.toBool then ∅ else l.edits }

/-- A configuration of the system. -/
abbrev World := Config Nat Cmd.Reply Shared Device Op (Except Cli.Error Unit)

/-- The initial configuration. -/
def init : World where
  shared := ⟨S.db, [.random S.vaultKey 0], []⟩
  threads d := ⟨⟨S.store d, 0, S.db, false, ∅, none, none⟩, none⟩

/-! ### Undisturbed steps -/

/-- Start an operation on an idle device. -/
def begin (d : Nat) (op : Op) (w : World) : World :=
  match (w.threads d).running with
  | some _ => w
  | none => ⟨w.shared, Function.update w.threads d
      ⟨{ (w.threads d).own with adopted := false, current := some op },
        some (op, S.system.prog d op)⟩⟩

/-- One undisturbed step of a device. -/
def tick (d : Nat) (w : World) : World :=
  match (w.threads d).running with
  | none => w
  | some (op, .call c k) =>
      let result := perform d c w.shared (w.threads d).own
      ⟨result.2.1, Function.update w.threads d ⟨result.2.2, some (op, k result.1)⟩⟩
  | some (op, .ret r) => ⟨w.shared, Function.update w.threads d
      ⟨{ (w.threads d).own with
          last := some (op, r)
          edits := if op = .push ∧ r.toBool then ∅ else (w.threads d).own.edits }, none⟩⟩

/-- A number of undisturbed steps of a device. -/
def ticks (d : Nat) : Nat → World → World
  | 0, w => w
  | n + 1, w => ticks d n (tick d w)

end Setup

/-- A condition on the runs of the devices. -/
abbrev Limit := System.Condition Nat Cmd.Reply Shared Device Op (Except Cli.Error Unit)

/-- The condition that every run meets. -/
def anyRun : Limit where
  start _ _ _ _ := True
  exec _ _ _ _ _ _ _ := True
  finish _ _ _ _ _ := True

/-- A check of undisturbed steps. -/
structure Check where
  start : Nat → Op → Shared → Device → Bool
  exec : Nat → Cmd → Shared → Device → Bool
  finish : Nat → Op → Except Cli.Error Unit → Shared → Device → Bool

namespace Check

/-- The condition that undisturbed steps meet when they pass a check. -/
def limit (C : Check) : Limit where
  start d op s l := C.start d op s l
  exec d c s l r s' l' := C.exec d c s l ∧ perform d c s l = (r, s', l')
  finish d op r s l := C.finish d op r s l

/-- Whether the next step of a device passes. -/
def allows (C : Check) (d : Nat) (w : Setup.World) : Bool :=
  match (w.threads d).running with
  | none => true
  | some (_, .call c _) => C.exec d c w.shared (w.threads d).own
  | some (op, .ret r) => C.finish d op r w.shared (w.threads d).own

/-- Whether the next steps of a device pass. -/
def allowsTicks (C : Check) (d : Nat) : Nat → Setup.World → Bool
  | 0, _ => true
  | n + 1, w => C.allows d w && C.allowsTicks d n (Setup.tick d w)

end Check

/-- A part of an undisturbed run. -/
inductive Move
  | begin (d : Nat) (op : Op)
  | ticks (d n : Nat)

namespace Setup

variable {S : Setup}

/-- An undisturbed run. -/
def run (S : Setup) : List Move → World → World
  | [], w => w
  | .begin d op :: moves, w => run S moves (S.begin d op w)
  | .ticks d n :: moves, w => run S moves (ticks d n w)

/-- Whether the steps of an undisturbed run pass a check. -/
def passes (S : Setup) (C : Check) : List Move → World → Bool
  | [], _ => true
  | .begin d op :: moves, w =>
      C.start d op w.shared (w.threads d).own && passes S C moves (S.begin d op w)
  | .ticks d n :: moves, w => C.allowsTicks d n w && passes S C moves (ticks d n w)

theorem begin_reaches {K : Limit} {d : Nat} {op : Op} {w : World}
    (h : K.start d op w.shared (w.threads d).own) :
    (S.system.restrict K).Reaches w (S.begin d op w) := by
  unfold begin
  split
  · exact .refl
  · next hr => exact .single (.start hr ⟨rfl, h⟩)

theorem tick_reaches {C : Check} {d : Nat} {w : World} (h : C.allows d w) :
    (S.system.restrict C.limit).Reaches w (tick d w) := by
  unfold Check.allows at h
  unfold tick
  split at h
  · exact .refl
  · next op c k hr => exact .single (.call hr ⟨Or.inl rfl, h, rfl⟩)
  · next op r hr => exact .single (.finish hr ⟨rfl, h⟩)

theorem ticks_reaches {C : Check} {d n : Nat} {w : World} (h : C.allowsTicks d n w) :
    (S.system.restrict C.limit).Reaches w (ticks d n w) := by
  induction n generalizing w with
  | zero => exact .refl
  | succ n ih =>
      rw [Check.allowsTicks, Bool.and_eq_true] at h
      exact (tick_reaches h.1).trans (ih h.2)

/-- An undisturbed run that passes a check is a run under its condition. -/
theorem run_reaches {C : Check} {moves : List Move} {w : World} (h : S.passes C moves w) :
    (S.system.restrict C.limit).Reaches w (S.run moves w) := by
  induction moves generalizing w with
  | nil => exact .refl
  | cons move moves ih =>
      cases move with
      | begin d op =>
          rw [passes, Bool.and_eq_true] at h
          exact (begin_reaches h.1).trans (ih h.2)
      | ticks d n =>
          rw [passes, Bool.and_eq_true] at h
          exact (ticks_reaches h.1).trans (ih h.2)

theorem allowsTicks_of_allows {C : Check} (h : ∀ d w, C.allows d w) {d n : Nat} {w : World} :
    C.allowsTicks d n w := by
  induction n generalizing w with
  | zero => rfl
  | succ n ih =>
      rw [Check.allowsTicks, Bool.and_eq_true]
      exact ⟨h d w, ih⟩

theorem passes_of_allows {C : Check} (h : ∀ d w, C.allows d w)
    (hstart : ∀ d op s l, C.start d op s l) {moves : List Move} {w : World} :
    S.passes C moves w := by
  induction moves generalizing w with
  | nil => rfl
  | cons move moves ih =>
      cases move with
      | begin d op =>
          rw [passes, Bool.and_eq_true]
          exact ⟨hstart _ _ _ _, ih⟩
      | ticks d n =>
          rw [passes, Bool.and_eq_true]
          exact ⟨allowsTicks_of_allows h, ih⟩

/-- An undisturbed step of a running device is an execution of its next command. -/
theorem exec_tick {d : Nat} {op : Op} {c : Cmd} {k : c.Reply → Prog Cmd.Reply (Except Cli.Error Unit)}
    {w : World} (hr : (w.threads d).running = some (op, .call c k)) :
    ∃ r, S.system.exec d c w.shared (w.threads d).own r (tick d w).shared
      ((tick d w).threads d).own := by
  refine ⟨(perform d c w.shared (w.threads d).own).1, Or.inl ?_⟩
  simp [tick, hr]

/-- An undisturbed run is a run. -/
theorem reaches_run {moves : List Move} {w : World} : S.system.Reaches w (S.run moves w) := by
  have hpasses : S.passes ⟨fun _ _ _ _ => true, fun _ _ _ _ => true, fun _ _ _ _ _ => true⟩
      moves w := by
    refine passes_of_allows ?_ fun _ _ _ _ => rfl
    intro d w
    unfold Check.allows
    split <;> rfl
  exact (run_reaches hpasses).of_restrict

/-! ### Killed operations -/

/-- Every operation can be killed: its steps fail until it ends, and change nothing that the
programs read. So what holds of the store of every idle device holds of every store. -/
theorem exists_killed {K : Limit}
    (hexec : ∀ {d c s l r l'}, Executes d c s l r s l' → l'.store = l.store → K.exec d c s l r s l')
    (hfinish : ∀ d op r s l, K.finish d op r s l) {d : Nat} {op : Op}
    {p : Prog Cmd.Reply (Except Cli.Error Unit)} {w : World}
    (hr : (w.threads d).running = some (op, p)) :
    ∃ w', (S.system.restrict K).Reaches w w' ∧ w'.shared = w.shared ∧
      (w'.threads d).running = none ∧ (w'.threads d).own.store = (w.threads d).own.store := by
  induction p generalizing w with
  | ret r =>
      refine ⟨_, .single (.finish hr ⟨rfl, hfinish d op r _ _⟩), rfl, ?_, ?_⟩
      · simp
      · simp
  | call c k ih =>
      have hstep : ∃ r l', Executes d c w.shared (w.threads d).own r w.shared l' ∧
          l'.store = (w.threads d).own.store := by
        cases c with
        | fresh => exact ⟨_, _, Or.inl rfl, rfl⟩
        | net => exact ⟨.error (.network ""), _, Or.inr ⟨⟨"", rfl⟩, rfl, rfl⟩, rfl⟩
        | store c => exact ⟨.error (.store ""), _, Or.inr ⟨⟨"", rfl⟩, rfl, rfl⟩, rfl⟩
        | server stmt => exact ⟨.error .internal, _, Or.inr ⟨rfl, rfl, rfl⟩, rfl⟩
      obtain ⟨r, l', he, hstore⟩ := hstep
      have hnext : (S.system.restrict K).Step w
          ⟨w.shared, Function.update w.threads d ⟨l', some (op, k r)⟩⟩ :=
        .call hr ⟨he, hexec he hstore⟩
      obtain ⟨w', hreach, hshared, hidle, hown⟩ := ih r
        (w := ⟨w.shared, Function.update w.threads d ⟨l', some (op, k r)⟩⟩) (by simp)
      exact ⟨w', .head hnext hreach, hshared, hidle, by simpa [hstore] using hown⟩

end Setup

end Sotto
