import Sotto.Org.Discipline

/-!
# The parts of requests

A rule for each part that the requests share: reads and writes, the locks of organisations, and how
access to organisations, projects and environments is resolved.
-/

namespace Sotto

namespace Org

open Core (Ident)
open Server (Error OrgAccess ProjectAccess Project LifecycleState Role mapProjectAccessError)
open Sessions (check require statement)
open Sessions.Discipline

/-- A program that commits only what its request may. -/
abbrev Secures (ι : Type) [DecidableEq ι] {α : Type}
    (Q : Except Error α → Stage Change Lock → Prop) (op : Call) (d : Db) (g : Stage Change Lock)
    (p : Session α) : Prop :=
  discipline.Secures ι Error.internal Q op d g p

/-- What has stayed as it was since a database, under locks. -/
abbrev Since (locks : List Lock) (d db : Db) : Prop := discipline.Since locks d db

/-- What holds of every database of a run. -/
abbrev Db.Sound (db : Db) : Prop := db.Consistent ∧ db.Owned

/-- Outside of a transaction. -/
abbrev outside (wrote : Bool) : Stage Change Lock := Stage.outside Change Lock wrote

section Facts

variable {locks : List Lock} {d db : Db} {o e u : Ident}

theorem Since.org (h : Since locks d db) (ho : .organization o ∈ locks) : GuardedOrg o d db :=
  h.guarded _ ho

theorem Since.project {p : Ident} (h : Since locks d db) (hp : .project p ∈ locks) :
    db.projects.lookup p = d.projects.lookup p :=
  h.guarded _ hp

theorem Since.environment (h : Since locks d db) (he : .environment e ∈ locks) :
    GuardedEnv e d db :=
  h.guarded _ he

theorem Since.environmentKey (h : Since locks d db) (he : .environmentKey e ∈ locks) :
    (d.environments.lookup e).isSome → (db.environments.lookup e).isSome :=
  h.guarded _ he

theorem Since.secret {s : Ident} (h : Since locks d db) (hs : .secret s ∈ locks) :
    ∀ secret, db.secrets.lookup s = some secret →
      ∃ old, d.secrets.lookup s = some old ∧ old.envId = secret.envId :=
  h.guarded _ hs

theorem Since.machineToken {k : Ident} (h : Since locks d db) (hk : .machineToken k ∈ locks) :
    d.machineTokens.lookup k = none → db.machineTokens.lookup k = none :=
  h.guarded _ hk

theorem GuardedOrg.lifecycleOf (h : GuardedOrg o d db) : db.lifecycleOf o = d.lifecycleOf o :=
  congrArg (Option.map _) h.organization

/-- The tier of an organisation is guarded by its lock, and so is how much it holds. -/
theorem GuardedOrg.isTeam (h : GuardedOrg o d db) (now : Int) :
    db.isTeam now o = d.isTeam now o := by
  unfold Db.isTeam
  rw [h.organization, h.plan]

theorem GuardedOrg.memberCount (h : GuardedOrg o d db) : db.memberCount o = d.memberCount o := by
  have hmember : ∀ (db : Db) (k : Ident × Ident), (∃ m, db.memberships.lookup k = some m ∧
      decide ((k, m).1.1 = o) = true) ↔ (db.roleOf o k.2).isSome ∧ k.1 = o := by
    rintro db ⟨o', u⟩
    rw [Db.roleOf, Option.isSome_map, Option.isSome_iff_exists]
    simp only [decide_eq_true_eq]
    constructor
    · rintro ⟨m, hm, rfl⟩
      exact ⟨⟨m, hm⟩, rfl⟩
    · rintro ⟨⟨m, hm⟩, rfl⟩
      exact ⟨m, hm, rfl⟩
  refine Table.length_filter_rows_congr fun k => ?_
  rw [hmember, hmember, h.roles]

theorem GuardedOrg.projectCount (h : GuardedOrg o d db) :
    db.projectCount o = d.projectCount o := by
  refine Table.length_filter_rows_congr fun p => ?_
  simp only [decide_eq_true_eq]
  constructor <;> rintro ⟨project, hp, ho⟩
  · exact ⟨project, (h.projects p project ho).1 hp, ho⟩
  · exact ⟨project, (h.projects p project ho).2 hp, ho⟩

theorem requireWrite_eq_ok {l : LifecycleState} : l.requireWrite = .ok () ↔ l = .active := by
  cases l <;> simp [LifecycleState.requireWrite]

/-- What a lock on an organisation finds out about a caller. -/
structure Found (db : Db) (orgId userId : Ident) (a : OrgAccess) : Prop where
  lifecycle : db.lifecycleOf orgId = some a.lifecycle
  role : db.roleOf orgId userId = some a.role
  kept : a.lifecycle ≠ .deleted

theorem Found.manages {orgId userId : Ident} {a : OrgAccess} (h : Found db orgId userId a)
    (hactive : a.lifecycle = .active) (hadmin : canManageMembers a.role = true) :
    Manages db orgId userId :=
  ⟨by rw [h.lifecycle, hactive], a.role, h.role, hadmin⟩

theorem accessFromRow_eq_ok {row : Option (Role × LifecycleState)} {a : OrgAccess} :
    accessFromRow row = .ok a ↔ row = some (a.role, a.lifecycle) ∧ a.lifecycle ≠ .deleted := by
  rcases row with - | ⟨role, lifecycle⟩
  · simp [accessFromRow]
  · simp only [accessFromRow]
    split
    · next h =>
        simp only [reduceCtorEq, Option.some.injEq, Prod.mk.injEq, false_iff, not_and, not_not]
        rintro ⟨-, rfl⟩
        exact h
    · next h =>
        simp only [Except.ok.injEq, Option.some.injEq, Prod.mk.injEq]
        constructor
        · rintro rfl
          exact ⟨⟨rfl, rfl⟩, h⟩
        · rintro ⟨⟨rfl, rfl⟩, -⟩
          rfl

/-- Where an environment is, until its id is free again. -/
def Placed (d : Db) (envId : Ident) (orgId : Option Ident) : Prop :=
  ∀ db, Later d db → envId ∉ db.retired → (db.environments.lookup envId).isSome ∧ db.orgOf envId = orgId

theorem Placed.later {orgId : Option Ident} (h : Placed d e orgId) (hdb : Later d db) :
    Placed db e orgId :=
  fun db' hdb' => h db' (hdb.trans hdb')

/-- A project stays as it is until its organisation is deleted. -/
theorem LaterBut.project {p : Ident} {project : Project} (h : Later d db)
    (hp : d.projects.lookup p = some project)
    (hkept : ∀ o, project.orgId = some o → db.lifecycleOf o ≠ some .deleted) :
    db.projects.lookup p = some project := by
  rcases h.projects p project hp with hp | ⟨o, ho, hfalse | hdeleted⟩
  · exact hp
  · exact hfalse.elim
  · exact absurd hdeleted (hkept o ho)

theorem placed_of_lookup {env : Server.Environment} {project : Project}
    (he : d.environments.lookup e = some env)
    (hp : d.projects.lookup env.projectId = some project) : Placed d e project.orgId := by
  intro db hdb hkept
  rcases hdb.environments e env project he hp with ⟨hp', env', he', heq⟩ | hretired
  · refine ⟨by rw [he']; rfl, ?_⟩
    unfold Server.Db.orgOf
    rw [he']
    show (db.projects.lookup env'.projectId).bind _ = _
    rw [heq, hp']
    rfl
  · exact absurd hretired hkept

end Facts

variable {ι : Type} [DecidableEq ι] {α β : Type} {Q : Except Error β → Stage Change Lock → Prop}
  {op : Call} {d : Db} {g : Stage Change Lock} {wrote : Bool} {k : α → Session β}

section Statements

theorem secures_read {f : Db → α} (hQ : ∀ e, Q (.error e) g)
    (h : ∀ db, db.Sound → Since g.locks d db → Secures ι Q op d g (k (f (db.after g.changes)))) :
    Secures ι Q op d g (read f >>= k) := by
  refine secures_query hQ fun db a hs hsince hf => ?_
  cases hf
  exact h db hs hsince

/-- A read, with what is known from now on being known of the database it is executed at. -/
theorem secures_read_moving {f : Db → α} (hQ : ∀ e, Q (.error e) g)
    (h : ∀ db, db.Sound → Since g.locks d db → Secures ι Q op db g (k (f (db.after g.changes)))) :
    Secures ι Q op d g (read f >>= k) := by
  refine secures_lock hQ fun db a new hs hsince hf => ?_
  cases hf
  show Secures ι Q op db ⟨g.changes ++ [], [] ++ g.locks, g.wrote⟩ _
  rw [List.append_nil, List.nil_append]
  exact h db hs hsince

/-- A read outside of transactions. -/
theorem secures_look {f : Db → α} (hQ : ∀ e, Q (.error e) (outside wrote))
    (h : ∀ db, db.Sound → Later d db → Secures ι Q op db (outside wrote) (k (f db))) :
    Secures ι Q op d (outside wrote) (read f >>= k) := by
  refine secures_fetch hQ fun db a hs hlater hf => ?_
  cases hf
  exact h db hs hlater

/-- A statement that takes no locks. -/
theorem secures_statement {f : Db → Except Error (α × List Change)} (hQ : ∀ e, Q (.error e) g)
    (h : ∀ db a new, db.Sound → Since g.locks d db → f (db.after g.changes) = .ok (a, new) →
      Secures ι Q op d ⟨g.changes ++ new, g.locks, g.wrote⟩ (k a)) :
    Secures ι Q op d g (statement (fun _ => []) f >>= k) :=
  secures_write hQ h

/-- The same, with what is known from now on being known of the database it is executed at. -/
theorem secures_statement_moving {f : Db → Except Error (α × List Change)}
    (hQ : ∀ e, Q (.error e) g)
    (h : ∀ db a new, db.Sound → Since g.locks d db → f (db.after g.changes) = .ok (a, new) →
      Secures ι Q op db ⟨g.changes ++ new, g.locks, g.wrote⟩ (k a)) :
    Secures ι Q op d g (statement (fun _ => []) f >>= k) :=
  secures_lock hQ h

theorem secures_writeLocking {locks : Db → List Lock} {f : Db → Except Error (List Change)}
    {k : Unit → Session β} (hQ : ∀ e, Q (.error e) g)
    (h : ∀ db new, db.Sound → Since g.locks d db → f (db.after g.changes) = .ok new →
      Secures ι Q op db
        ⟨g.changes ++ new, locks (db.after g.changes) ++ g.locks, g.wrote⟩ (k ())) :
    Secures ι Q op d g (writeLocking locks f >>= k) := by
  refine secures_lock hQ fun db a new hs hsince hf => ?_
  cases hr : f (db.after g.changes) with
  | error e =>
      change (f (db.after g.changes)).map _ = .ok _ at hf
      rw [hr] at hf
      cases hf
  | ok changes =>
      change (f (db.after g.changes)).map _ = .ok _ at hf
      rw [hr] at hf
      cases hf
      exact h db _ hs hsince hr

theorem secures_writes {f : Db → Except Error (List Change)} {k : Unit → Session β}
    (hQ : ∀ e, Q (.error e) g)
    (h : ∀ db new, db.Sound → Since g.locks d db → f (db.after g.changes) = .ok new →
      Secures ι Q op d ⟨g.changes ++ new, g.locks, g.wrote⟩ (k ())) :
    Secures ι Q op d g (write f >>= k) := by
  refine secures_write hQ fun db a new hs hsince hf => ?_
  cases hr : f (db.after g.changes) with
  | error e =>
      change (f (db.after g.changes)).map _ = .ok _ at hf
      rw [hr] at hf
      cases hf
  | ok changes =>
      change (f (db.after g.changes)).map _ = .ok _ at hf
      rw [hr] at hf
      cases hf
      exact h db _ hs hsince hr

/-- A write that always succeeds with the same changes. -/
theorem secures_put {changes : List Change} {k : Unit → Session β} (hQ : ∀ e, Q (.error e) g)
    (h : Secures ι Q op d ⟨g.changes ++ changes, g.locks, g.wrote⟩ (k ())) :
    Secures ι Q op d g (write (fun _ => .ok changes) >>= k) := by
  refine secures_writes hQ fun db new _ _ hf => ?_
  cases hf
  exact h

theorem secures_record {event : AuditEvent} {k : Unit → Session β} (hQ : ∀ e, Q (.error e) g)
    (h : Secures ι Q op d ⟨g.changes ++ [.auditEvent event], g.locks, g.wrote⟩ (k ())) :
    Secures ι Q op d g (record event >>= k) := by
  refine secures_writes hQ fun db new _ _ hf => ?_
  split at hf
  · cases hf
    exact h
  · cases hf

end Statements

section Access

variable {orgId userId projectId envId : Ident}

/-- Access outside of transactions is only looked at: it is resolved again within. -/
theorem secures_access {k : OrgAccess → Session β} (hQ : ∀ e, Q (.error e) (outside wrote))
    (h : ∀ db a, Later d db → Secures ι Q op db (outside wrote) (k a)) :
    Secures ι Q op d (outside wrote) (access orgId userId >>= k) := by
  simp only [access, findAccess, bind_assoc]
  refine secures_look hQ fun db _ hlater => ?_
  exact secures_check hQ fun a _ => h db a hlater

theorem secures_lockOrganization {k : Option LifecycleState → Session β}
    (hQ : ∀ e, Q (.error e) g)
    (hnone : ∀ db, Later d db → Secures ι Q op db g (k none))
    (hsome : ∀ db l, db.Sound → Since g.locks d db →
      (db.after g.changes).lifecycleOf orgId = some l →
      Secures ι Q op db ⟨g.changes, .organization orgId :: g.locks, g.wrote⟩ (k (some l))) :
    Secures ι Q op d g (lockOrganization orgId >>= k) := by
  refine secures_lock hQ fun db a new hs hsince hf => ?_
  cases hf
  show Secures ι Q op db ⟨g.changes ++ [], (if ((db.after g.changes).lifecycleOf orgId).isSome
    then [.organization orgId] else []) ++ g.locks, g.wrote⟩ (k ((db.after g.changes).lifecycleOf orgId))
  rw [List.append_nil]
  cases hl : (db.after g.changes).lifecycleOf orgId with
  | none => exact hnone db hsince.later
  | some l => exact hsome db l hs hsince hl

/-- The lock of an organisation, and what it finds out about the caller. -/
theorem secures_findAccessForUpdate {k : Except Error OrgAccess → Session β}
    (hQ : ∀ e locks, Q (.error e) ⟨[], locks, wrote⟩)
    (hok : ∀ db a, db.Sound → Later d db → Found db orgId userId a →
      Secures ι Q op db ⟨[], [.organization orgId], wrote⟩ (k (.ok a)))
    (herror : ∀ db e locks, Secures ι Q op db ⟨[], locks, wrote⟩ (k (.error e))) :
    Secures ι Q op d (outside wrote) (findAccessForUpdate orgId userId >>= k) := by
  simp only [findAccessForUpdate, bind_assoc]
  refine secures_lockOrganization (fun e => hQ e _) (fun db _ => ?_) fun db l hs hsince hl => ?_
  · exact herror db _ _
  · simp only [bind_assoc]
    refine secures_read (fun e => hQ e _) fun db' _ hsince' => ?_
    have hrole := (hsince'.org (List.mem_singleton.2 rfl)).roles userId
    simp only [pure_bind]
    cases ha : accessFromRow (((db'.after []).roleOf orgId userId).map fun role => (role, l)) with
    | error e => exact herror db e _
    | ok a =>
        obtain ⟨hrow, hkept⟩ := accessFromRow_eq_ok.1 ha
        rw [show (db'.after []).roleOf orgId userId = db.roleOf orgId userId from hrole] at hrow
        obtain ⟨role, hr, heq⟩ := Option.map_eq_some_iff.1 hrow
        cases heq
        exact hok db a hs hsince.later ⟨hl, hr, hkept⟩

theorem secures_accessForUpdate {k : OrgAccess → Session β}
    (hQ : ∀ e locks, Q (.error e) ⟨[], locks, wrote⟩)
    (h : ∀ db a, db.Sound → Later d db → Found db orgId userId a →
      Secures ι Q op db ⟨[], [.organization orgId], wrote⟩ (k a)) :
    Secures ι Q op d (outside wrote) (accessForUpdate orgId userId >>= k) := by
  simp only [accessForUpdate, bind_assoc]
  exact secures_findAccessForUpdate hQ h fun db e locks => secures_throw (hQ e locks)

/-- The lock of the organisation that owns a project, if one does. -/
def orgLocks (orgId : Option Ident) : List Lock := orgId.toList.map .organization

theorem mem_orgLocks {o : Ident} {orgId : Option Ident} :
    .organization o ∈ orgLocks orgId ↔ orgId = some o := by
  cases orgId <;> simp [orgLocks, eq_comm]

/-- What is known of the organisation of a project, under its lock. -/
def Locked (db : Db) (orgId : Option Ident) (userId : Ident) : Prop :=
  ∀ o, orgId = some o → db.lifecycleOf o = some .active ∧ (db.roleOf o userId).isSome

theorem secures_requireWriteTx {a : ProjectAccess} {k : Unit → Session β}
    (hQ : ∀ e locks, Q (.error e) ⟨[], locks, wrote⟩)
    (h : ∀ db, Later d db → Locked db a.orgId a.userId →
      Secures ι Q op db ⟨[], orgLocks a.orgId, wrote⟩ (k ())) :
    Secures ι Q op d (outside wrote) (requireWriteTx a >>= k) := by
  unfold requireWriteTx
  cases ho : a.orgId with
  | none =>
      rw [ho] at h
      rw [pure_bind]
      exact h d (LaterBut.refl _ _) nofun
  | some orgId =>
      simp only [bind_assoc]
      refine secures_findAccessForUpdate hQ (fun db a' hs hlater hfound => ?_)
        fun db e locks => secures_check (hQ · _) fun a' ha' => absurd ha' (by cases e <;> nofun)
      · refine secures_check (hQ · _) fun a'' ha'' => ?_
        obtain rfl : a' = a'' := Except.ok.inj ha''
        refine secures_check (hQ · _) fun _ hwrite => ?_
        have hactive : a'.lifecycle = .active := by
          cases hl : a'.lifecycle <;> rw [hl] at hwrite <;> first | rfl | cases hwrite
        rw [ho] at h
        refine h db hlater fun o ho' => ?_
        cases ho'
        exact ⟨by rw [hfound.lifecycle, hactive], by rw [hfound.role]; rfl⟩

theorem secures_requireManageStructureTx {a : ProjectAccess} {message : String}
    {k : Unit → Session β} (hQ : ∀ e locks, Q (.error e) ⟨[], locks, wrote⟩)
    (h : ∀ db, Later d db → Locked db a.orgId a.userId →
      Secures ι Q op db ⟨[], orgLocks a.orgId, wrote⟩ (k ())) :
    Secures ι Q op d (outside wrote) (requireManageStructureTx a message >>= k) := by
  unfold requireManageStructureTx
  cases ho : a.orgId with
  | none =>
      refine secures_require (hQ · _) fun _ => ?_
      rw [ho] at h
      exact h d (LaterBut.refl _ _) nofun
  | some orgId =>
      simp only [bind_assoc]
      refine secures_findAccessForUpdate hQ (fun db a' hs hlater hfound => ?_)
        fun db e locks => secures_check (hQ · _) fun a' ha' => absurd ha' (by cases e <;> nofun)
      · refine secures_check (hQ · _) fun a'' ha'' => ?_
        obtain rfl : a' = a'' := Except.ok.inj ha''
        refine secures_check (hQ · _) fun _ hwrite => ?_
        have hactive : a'.lifecycle = .active := by
          cases hl : a'.lifecycle <;> rw [hl] at hwrite <;> first | rfl | cases hwrite
        refine secures_require (hQ · _) fun _ => ?_
        rw [ho] at h
        refine h db hlater fun o ho' => ?_
        cases ho'
        exact ⟨by rw [hfound.lifecycle, hactive], by rw [hfound.role]; rfl⟩

/-- Access to a project, outside of transactions. -/
theorem secures_projectAccess {k : ProjectAccess → Session β}
    (hQ : ∀ e, Q (.error e) (outside wrote))
    (h : ∀ db a project, Later d db → db.projects.lookup projectId = some project →
      a.orgId = project.orgId → a.userId = userId → Secures ι Q op db (outside wrote) (k a)) :
    Secures ι Q op d (outside wrote) (projectAccess projectId userId >>= k) := by
  simp only [projectAccess, bind_assoc]
  refine secures_look hQ fun db _ hlater => ?_
  cases hp : db.projects.lookup projectId with
  | none => exact secures_throw (hQ _)
  | some project =>
      dsimp only
      cases ho : project.orgId with
      | none =>
          dsimp only
          split
          · rw [pure_bind]
            exact h db _ project hlater hp ho.symm rfl
          · exact secures_throw (hQ _)
      | some orgId =>
          simp only [findAccess, bind_assoc]
          refine secures_look hQ fun db' _ hlater' => ?_
          refine secures_check hQ fun a ha => ?_
          rw [pure_bind]
          have hkept : db'.lifecycleOf orgId ≠ some .deleted := by
            intro hdeleted
            rw [hdeleted] at ha
            cases hrole : db'.roleOf orgId userId <;> rw [hrole] at ha <;> cases ha
          refine h db' _ project (hlater.trans hlater') (hlater'.project hp ?_) ho.symm rfl
          intro o ho'
          cases ho.symm.trans ho'
          exact hkept

/-- Access to the project of an environment, outside of transactions. -/
theorem secures_envAccess {k : Ident × ProjectAccess → Session β}
    (hQ : ∀ e, Q (.error e) (outside wrote))
    (h : ∀ db projectId a, Later d db → Placed db envId a.orgId → a.userId = userId →
      Secures ι Q op db (outside wrote) (k (projectId, a))) :
    Secures ι Q op d (outside wrote) (envAccess envId userId >>= k) := by
  simp only [envAccess, bind_assoc]
  refine secures_look hQ fun db hs hlater => ?_
  cases he : db.environments.lookup envId with
  | none => exact secures_throw (hQ _)
  | some env =>
      simp only [bind_assoc, pure_bind]
      refine secures_projectAccess hQ fun db' a project hlater' hp ho huser => ?_
      refine h db' env.projectId a (hlater.trans hlater') (fun db'' hlater'' hkept => ?_) huser
      obtain ⟨old, hold⟩ := Option.isSome_iff_exists.1 (hs.1.projectOf he)
      -- the project is still that of the environment, as the id of this has not become free
      rcases hlater'.environments envId env old he hold with ⟨hsame, -⟩ | hretired
      · cases hsame.symm.trans hp
        rw [ho]
        exact placed_of_lookup he hold db'' (hlater'.trans hlater'') hkept
      · exact absurd (hlater''.retired envId hretired) hkept

end Access

section Ends

variable {late : Prop} {B : α → Bool → Prop}

theorem atEnd_ok {a : β} : AtEnd (Δ := Change) (K := Lock) late (.ok a : Except Error β)
    (outside wrote) :=
  ⟨rfl, rfl, nofun⟩

theorem atEnd_error {e : Error} : AtEnd (Δ := Change) (K := Lock) late (.error e : Except Error β)
    (outside false) :=
  ⟨rfl, rfl, nofun⟩

/-- The last step of a transaction. -/
theorem secures_commits {a : α} {changes : List Change} {locks : List Lock}
    (hcommits : ∀ db, db.Sound → Since locks d db → Commits op locks db changes)
    (hB : B a (!changes.isEmpty)) :
    Secures ι (InBody B) op d ⟨changes, locks, false⟩
      (Sessions.commit >>= fun _ => (pure a : Session α)) :=
  secures_commit (fun _ => rfl) hcommits fun _ _ => secures_pure hB

/-- A transaction that the request ends with. -/
theorem secures_closing {body : Session α} {k : α → Session β}
    (hbody : Secures ι (InBody fun _ _ => True) op d (outside false) body)
    (hk : ∀ a, ∃ b, k a = pure b) :
    Secures ι (AtEnd late) op d (outside false) (Sessions.transaction body >>= k) := by
  refine secures_transaction hbody (fun _ => atEnd_error) fun db a wrote _ _ => ?_
  obtain ⟨b, hb⟩ := hk a
  rw [hb]
  exact secures_pure atEnd_ok

theorem secures_discard {p : Session α} {Q : Except Error PUnit → Stage Change Lock → Prop}
    (h : Secures ι Q op d g (p >>= fun _ => pure ⟨⟩)) : Secures ι Q op d g (discard p) := by
  have hdiscard : (discard p : Session PUnit) = p >>= fun _ => pure ⟨⟩ :=
    (bind_pure_comp (fun _ => PUnit.unit) p).symm
  rw [hdiscard]
  exact h

end Ends

/-! ### What requests commit that change no members -/

section Commits

variable {op : Call} {locks : List Lock} {db : Db} {changes : List Change}

theorem membership?_of_joins? {o : Ident} (h : op.joins? = some o) :
    ∃ u, op.membership? = some (u, o) := by
  cases op with
  | addMember | inviteMember =>
      cases h
      exact ⟨_, rfl⟩
  | _ => cases h

theorem commits_nil (hop : op.membership? = none) : Commits op locks db [] :=
  ⟨.nil, fun _ _ h => absurd (hop.symm.trans h) nofun, fun _ _ h => absurd (hop.symm.trans h) nofun,
    ⟨fun _ h => absurd (hop.symm.trans (membership?_of_joins? h).choose_spec) nofun,
      fun _ _ _ h => absurd rfl h⟩⟩

/-- What a request commits that does not change members. -/
theorem commits_of_projects (hop : op.membership? = none)
    (h : Chain (terms op locks db changes) db changes)
    (hprojects : ∀ o p, op.houses? = some (o, p) → ∃ now, .judged o now ∈ locks ∧
      (db.isTeam now o = true ∨ .named p ∈ locks ∨
        (db.after changes).projectCount o ≤ Server.freeMaxOrgProjects)) :
    Commits op locks db changes :=
  ⟨h, fun _ _ h => absurd (hop.symm.trans h) nofun, fun _ _ h => absurd (hop.symm.trans h) nofun,
    ⟨fun _ h => absurd (hop.symm.trans (membership?_of_joins? h).choose_spec) nofun,
      fun o p h _ => hprojects o p h⟩⟩

/-- What a request commits that changes no members and creates no project of an organisation. -/
theorem commits_of_chain (hop : op.membership? = none)
    (h : Chain (terms op locks db changes) db changes)
    (hhouses : op.houses? = none := by rfl) : Commits op locks db changes :=
  commits_of_projects hop h fun _ _ hsome => absurd (hhouses.symm.trans hsome) nofun

end Commits

end Org

end Sotto
