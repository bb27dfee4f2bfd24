import Sotto.Server.Admission
import Sotto.Server.Requests
import Sotto.Library.Threads

/-!
# The write requests of an environment

Any number of clients send batches and rotations, and the statements of their requests interleave
freely. The ledger lists the committed requests with the databases before and after them, newest
first. No program reads it.
-/

namespace Sotto

namespace Server

open Core Api

/-- The answer to a statement. -/
abbrev Stmt.Answer (s : Stmt) : Type := Except Error s.Reply

/-- The program of a request handler on the server. -/
abbrev Served := ExceptT Error (Prog Stmt.Answer)

instance : Database Served where
  perform s := ExceptT.mk (Prog.perform s)

/-- A request that writes to an environment. -/
inductive WriteCall
  | writeSecrets (userId envId : Ident) (req : BatchRequest)
  | rotate (userId envId : Ident) (req : RotateRequest)

namespace WriteCall

def handler : WriteCall → Served Int
  | writeSecrets userId envId req => Server.writeSecrets userId envId req
  | rotate userId envId req => Server.rotate userId envId req

def userId : WriteCall → Ident
  | writeSecrets userId _ _ => userId
  | rotate userId _ _ => userId

def envId : WriteCall → Ident
  | writeSecrets _ envId _ => envId
  | rotate _ envId _ => envId

/-- The revision that a request is computed against. -/
def baseRevision : WriteCall → Int
  | writeSecrets _ _ req => req.baseRevision
  | rotate _ _ req => req.baseRevision

end WriteCall

/-- The organisation of an environment. -/
def Db.orgOf (db : Db) (envId : Ident) : Option Ident :=
  (db.environments.lookup envId).bind fun env =>
    (db.projects.lookup env.projectId).bind Project.orgId

namespace WriteCall

/-- What is checked before the transaction of a request: its access and its form. -/
def Permitted (db : Db) : WriteCall → Prop
  | writeSecrets userId envId req => req.changes ≠ [] ∧
      ∃ access, envAccess envId userId db = .ok access ∧ access.2.requireWrite = .ok ()
  | rotate userId envId req =>
      (∃ access, envAccess envId userId db = .ok access ∧ access.2.requireManageStructure
        "must be an admin or owner to rotate an environment" = .ok ()) ∧
      (∃ orgId, db.orgOf envId = some orgId) ∧ ∃ rotation, decodeRotation userId req = .ok rotation

/-- All operations of a request are valid. -/
def Valid (db : Db) : WriteCall → Prop
  | writeSecrets _ envId req => Admissible envId req.changes db
  | rotate userId envId req => ∃ orgId rotation, db.orgOf envId = some orgId ∧
      decodeRotation userId req = .ok rotation ∧ RotationAdmissible envId orgId rotation db

/-- The database after a committed request. -/
def apply (db : Db) : WriteCall → Db
  | writeSecrets _ envId req =>
      (req.changes.foldl (effect envId) db).withRevision envId (req.baseRevision + 1)
  | rotate userId envId req =>
      match decodeRotation userId req with
      | .ok rotation => (db.rekeyed envId rotation).withRevision envId (req.baseRevision + 1)
      | .error _ => db

end WriteCall

/-- A committed request, with the databases before and after it. -/
structure Entry where
  call : WriteCall
  before : Db
  after : Db

/-- The database, and as a history variable the committed requests, newest first. -/
structure Ledger where
  db : Db
  log : List Entry

/-- What a client has done. History variables: the request that runs, the databases around its
reads and around its transaction, and the last request with its result. -/
structure Client where
  call : Option WriteCall
  reads : List (Db × Db)
  turn : Option (Db × Db)
  last : Option (WriteCall × Except Error Int)

/-- Whether a statement is the transaction of a write request. -/
def Stmt.isWrite : Stmt → Bool
  | .writeSecrets .. => true
  | .rotate .. => true
  | _ => false

/-- The execution of a statement. -/
def serve (stmt : Stmt) (s : Ledger) (l : Client) : stmt.Answer × Ledger × Client :=
  let result := stmt.exec s.db
  let entries := if stmt.isWrite && result.1.toBool then
    (l.call.map fun call => Entry.mk call s.db result.2).toList else []
  (result.1, ⟨result.2, entries ++ s.log⟩,
    if stmt.isWrite then { l with turn := some (s.db, result.2) }
    else { l with reads := (s.db, result.2) :: l.reads })

/-- The clients of the server. -/
def service : System Nat Stmt.Answer Ledger Client WriteCall (Except Error Int) where
  prog _ call := call.handler.run.expand Prog.perform
  start _ call _ l l' := l' = ⟨some call, [], none, l.last⟩
  exec _ stmt s l r s' l' := serve stmt s l = (r, s', l')
  finish _ call r _ l l' := l' = { l with last := some (call, r) }

/-- A configuration of the server and its clients. -/
abbrev Serving := Config Nat Stmt.Answer Ledger Client WriteCall (Except Error Int)

/-- A server without running requests. -/
def idle (db : Db) : Serving where
  shared := ⟨db, []⟩
  threads _ := ⟨⟨none, [], none, none⟩, none⟩

/-- The parts of a database that no write request changes. -/
structure SameAccess (db db' : Db) : Prop where
  users : db'.users = db.users
  organizations : db'.organizations = db.organizations
  memberships : db'.memberships = db.memberships
  projects : db'.projects = db.projects
  environments : ∀ envId, (db'.environments.lookup envId).map Environment.projectId =
    (db.environments.lookup envId).map Environment.projectId

namespace SameAccess

variable {db db' db'' : Db}

theorem refl (db : Db) : SameAccess db db := ⟨rfl, rfl, rfl, rfl, fun _ => rfl⟩

theorem trans (h : SameAccess db db') (h' : SameAccess db' db'') : SameAccess db db'' :=
  ⟨h'.users.trans h.users, h'.organizations.trans h.organizations,
    h'.memberships.trans h.memberships, h'.projects.trans h.projects,
    fun envId => (h'.environments envId).trans (h.environments envId)⟩

theorem envAccess_eq (h : SameAccess db db') (envId userId : Ident) :
    envAccess envId userId db' = envAccess envId userId db :=
  envAccess_congr (h.environments envId) h.projects h.organizations h.memberships

theorem orgAccess_eq (h : SameAccess db db') (orgId userId : Ident) :
    orgAccess orgId userId db' = orgAccess orgId userId db := by
  simp only [orgAccess, h.organizations, h.memberships]

theorem orgOf_eq (h : SameAccess db db') (envId : Ident) : db'.orgOf envId = db.orgOf envId := by
  have henv := h.environments envId
  unfold Db.orgOf
  rw [h.projects]
  cases he : db.environments.lookup envId with
  | none =>
      rw [he, Option.map_none, Option.map_eq_none_iff] at henv
      rw [henv]
  | some env =>
      rw [he, Option.map_some, Option.map_eq_some_iff] at henv
      obtain ⟨env', he', hid⟩ := henv
      rw [he', Option.bind_some, Option.bind_some, hid]

theorem withRevision (envId : Ident) (revision : Int) (db : Db) :
    SameAccess db (db.withRevision envId revision) := by
  refine ⟨rfl, rfl, rfl, rfl, ?_⟩
  intro envId'
  unfold Db.withRevision
  dsimp only
  rw [Table.lookup_modify]
  split
  · rw [Option.map_map]
    rfl
  · rfl

theorem foldl_effect (envId : Ident) (changes : List SecretChange) (db : Db) :
    SameAccess db (changes.foldl (effect envId) db) := by
  induction changes generalizing db with
  | nil => exact refl db
  | cons c changes ih =>
      have hstep : SameAccess db (effect envId db c) := by
        unfold effect
        cases c.op <;> exact ⟨rfl, rfl, rfl, rfl, fun _ => rfl⟩
      exact hstep.trans (ih _)

theorem apply (call : WriteCall) (db : Db) : SameAccess db (call.apply db) := by
  cases call with
  | writeSecrets userId envId req =>
      exact (foldl_effect envId req.changes db).trans (withRevision _ _ _)
  | rotate userId envId req =>
      cases hdecode : decodeRotation userId req with
      | ok rotation =>
          have hkeys : SameAccess db (db.rekeyed envId rotation) :=
            ⟨rfl, rfl, rfl, rfl, fun _ => rfl⟩
          simp only [WriteCall.apply, hdecode]
          exact hkeys.trans (withRevision _ _ _)
      | error e =>
          simp only [WriteCall.apply, hdecode]
          exact refl db

theorem permitted_iff (h : SameAccess db db') (call : WriteCall) :
    call.Permitted db' ↔ call.Permitted db := by
  cases call with
  | writeSecrets userId envId req => simp only [WriteCall.Permitted, h.envAccess_eq]
  | rotate userId envId req => simp only [WriteCall.Permitted, h.envAccess_eq, h.orgOf_eq]

end SameAccess

/-! ### Access at the commit -/

section Access

variable {envId userId : Ident} {db db' : Db} {access : Ident × ProjectAccess}

/-- The access that is resolved for a caller is that of the owner, or that of a member. -/
theorem envAccess_cases (h : envAccess envId userId db = .ok access) :
    (access.2.orgId = none ∧ access.2.orgLifecycle = none ∧ db.orgOf envId = none) ∨
      ∃ orgId a, access.2.orgId = some orgId ∧ access.2.orgRole = some a.role ∧
        access.2.isOwner = false ∧ access.2.orgLifecycle = some a.lifecycle ∧
        orgAccess orgId access.2.userId db = .ok a ∧ db.orgOf envId = some orgId := by
  unfold envAccess at h
  unfold Db.orgOf
  split at h
  · cases h
  · next env he =>
      obtain ⟨access', haccess, hr⟩ := bind_eq_ok.1 h
      cases hr
      rw [he, Option.bind_some]
      unfold projectAccess at haccess
      split at haccess
      · cases haccess
      · next project hproject =>
          rw [hproject, Option.bind_some]
          split at haccess
          · next horg =>
              split at haccess
              · cases haccess
                exact Or.inl ⟨rfl, rfl, horg⟩
              · cases haccess
          · next orgId horg =>
              obtain ⟨a, ha, hr⟩ := bind_eq_ok.1 haccess
              cases hr
              exact Or.inr ⟨orgId, a, rfl, rfl, rfl, rfl, mapProjectAccessError_eq_ok.1 ha, horg⟩

theorem mayWrite_of_envAccess (h : envAccess envId userId db = .ok access)
    (hwrite : access.2.requireWrite = .ok ()) (hsame : SameAccess db db') :
    MayWrite access.2 db' := by
  rcases envAccess_cases h with ⟨horg, -, -⟩ | ⟨orgId, a, horg, -, -, hlifecycle, ha, -⟩
  · intro orgId ho
    rw [horg] at ho
    cases ho
  · intro orgId' ho
    rw [horg] at ho
    cases ho
    refine ⟨a, (hsame.orgAccess_eq _ _).trans ha, ?_⟩
    rw [ProjectAccess.requireWrite, hlifecycle] at hwrite
    exact requireWrite_eq_ok.1 hwrite

theorem mayManage_of_envAccess {message : String} (h : envAccess envId userId db = .ok access)
    (hmanage : access.2.requireManageStructure message = .ok ()) (hsame : SameAccess db db') :
    MayManage access.2 db' := by
  rw [ProjectAccess.requireManageStructure, bind_eq_ok] at hmanage
  obtain ⟨_, hwrite, hcan⟩ := hmanage
  rw [require_eq_ok] at hcan
  rcases envAccess_cases h with ⟨horg, -, -⟩ | ⟨orgId, a, horg, hrole, howner, hlifecycle, ha, -⟩
  · refine ⟨?_, fun _ => hcan⟩
    intro orgId ho
    rw [horg] at ho
    cases ho
  · refine ⟨?_, fun hnone => absurd (horg.symm.trans hnone) (by simp)⟩
    intro orgId' ho
    rw [horg] at ho
    cases ho
    refine ⟨a, (hsame.orgAccess_eq _ _).trans ha, ?_, ?_⟩
    · rw [ProjectAccess.requireWrite, hlifecycle] at hwrite
      exact requireWrite_eq_ok.1 hwrite
    · simpa [ProjectAccess.canManageStructure, howner, hrole] using hcan

end Access

end Server

end Sotto
