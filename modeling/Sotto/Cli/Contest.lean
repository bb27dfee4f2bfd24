import Sotto.Library.Amid
import Sotto.Rules
import Sotto.Server.Onward

/-!
# A client among the writes of others

A client's requests are executed statement by statement, and between any two of its steps others
commit any write transactions. Its draws are new: no grant that its requests have met seals one.
-/

namespace Sotto

open Core Cli Prog Relation

/-- A statement that was executed, with the database before it. -/
structure Executed where
  stmt : Server.Stmt
  before : Server.Db

namespace Executed

/-- The database after the statement. -/
def after (e : Executed) : Server.Db := (e.stmt.exec e.before).2

/-- The statement is a rotation of an environment, and was accepted with a new revision. -/
def Commits (envId : Ident) (revision : Int) (e : Executed) : Prop :=
  ∃ access orgId rotation before, e = ⟨.rotate access envId orgId rotation, before⟩ ∧
    (Server.rotateTx access envId orgId rotation).run before = .ok (revision, e.after)

/-- The statement is refused. -/
def Rejected (e : Executed) : Prop := ∃ error, (e.stmt.exec e.before).1 = .error error

end Executed

/-- The database, and as a history variable the statements of the client's requests. -/
structure Contested where
  db : Server.Db
  executed : List Executed

namespace Contested

/-- Somebody else's write transaction, accepted or not. -/
def Contends (s s' : Contested) : Prop :=
  ∃ stmt : Server.Stmt, stmt.isWrite ∧ s' = { s with db := (stmt.exec s.db).2 }

/-- A draw that no grant seals which the client's requests have met. -/
def New (seed : Seed) (s : Contested) : Prop :=
  ∀ e ∈ s.executed, ∀ g ∈ e.before.grants.rows, sealedKey g.2 ≠ some (.random seed 0)

/-- The executions of a step; the network can fail, and so can a statement. -/
def Executes : (c : Cmd) → Contested → c.Reply → Contested → Prop
  | .fresh, s, seed, s' => s.New seed ∧ s' = s
  | .net, s, r, s' => (r = .ok () ∨ ∃ message, r = .error (.network message)) ∧ s' = s
  | .store _, s, _, s' => s' = s
  | .server stmt, s, r, s' =>
      r = (stmt.exec s.db).1 ∧ s' = ⟨(stmt.exec s.db).2, ⟨stmt, s.db⟩ :: s.executed⟩ ∨
        r = .error .internal ∧ s' = s

/-- The owner of a vault key. -/
def ownerOf : Option Bytes → Nat
  | some (.random seed _) => seed.owner
  | _ => 0

/-- The owners of the vault keys that the client's requests have met. -/
def owners (s : Contested) : List Nat :=
  s.executed.flatMap fun e => e.before.grants.rows.map fun g => ownerOf (sealedKey g.2)

/-- An owner above all of these. -/
def nextOwner (s : Contested) : Nat := Nat.succ (s.owners.foldr Nat.max 0)

theorem lt_nextOwner {s : Contested} {owner : Nat} (h : owner ∈ s.owners) :
    owner < s.nextOwner := by
  have hle : ∀ owners : List Nat, owner ∈ owners → owner ≤ owners.foldr Nat.max 0 := by
    intro owners hmem
    induction owners with
    | nil => cases hmem
    | cons other owners ih =>
        rcases List.mem_cons.1 hmem with rfl | hmem
        · exact Nat.le_max_left _ _
        · exact Nat.le_trans (ih hmem) (Nat.le_max_right _ _)
  exact Nat.lt_succ_of_le (hle _ h)

/-- A client without faults that nobody disturbs. -/
def unhindered : (c : Cmd) → Contested → c.Reply × Contested
  | .fresh, s => (⟨s.nextOwner, 0⟩, s)
  | .net, s => (.ok (), s)
  | .store _, s => (.error (.store "unavailable"), s)
  | .server stmt, s =>
      ((stmt.exec s.db).1, ⟨(stmt.exec s.db).2, ⟨stmt, s.db⟩ :: s.executed⟩)

theorem executes_unhindered (c : Cmd) (s : Contested) :
    Executes c s (unhindered c s).1 (unhindered c s).2 := by
  cases c with
  | fresh =>
      refine ⟨fun e he g hg heq => ?_, rfl⟩
      have howner : ownerOf (sealedKey g.2) ∈ s.owners :=
        List.mem_flatMap.2 ⟨e, he, List.mem_map.2 ⟨g, hg, rfl⟩⟩
      have hlt : ownerOf (sealedKey g.2) < s.nextOwner := lt_nextOwner howner
      rw [heq] at hlt
      exact absurd hlt (Nat.lt_irrefl _)
  | net => exact ⟨.inl rfl, rfl⟩
  | store c => exact rfl
  | server stmt => exact .inl ⟨rfl, rfl⟩

/-- What the steps of a client and of the others keep. -/
structure Leads (envId : Ident) (s s' : Contested) : Prop where
  onward : Server.Onward envId s.db s'.db
  executed : s.executed ⊆ s'.executed
  changed : ∀ e ∈ s'.executed, e ∈ s.executed ∨ e.after = e.before ∨
    ∃ revision, e.Commits envId revision

/-- The steps that a rotation of an environment takes. -/
def Issues (envId : Ident) : Cmd → Prop
  | .server stmt => stmt.isQuery ∨
      ∃ access orgId rotation, stmt = .rotate access envId orgId rotation
  | _ => True

/-- An operation among the steps of others. -/
abbrev Acts {α : Type} (step : Contested → Contested → Prop) (action : Action α)
    (s s' : Contested) (result : Except Cli.Error α) : Prop :=
  AmidE step Executes Call.steps action s s' result

/-- The steps of a request among the steps of others. -/
abbrev Serves {α ε : Type} (step : Contested → Contested → Prop)
    (steps : ExceptT ε (Prog Cmd.Reply) α) (s s' : Contested) (result : Except ε α) : Prop :=
  AmidE step Executes Prog.perform steps s s' result

section Steps

variable {step : Contested → Contested → Prop} {α : Type} {s s' : Contested} {a : α}

theorem serves_net {u : Unit} (h : Serves step Exchange.net s s' (.ok u)) :
    ReflTransGen step s s' := by
  have h : ((Prog.perform Cmd.net).expand Prog.perform).Amid step Executes s s' (.ok u) := h
  rw [expand_perform] at h
  obtain ⟨s₁, s₂, hs, ⟨-, rfl⟩, hs'⟩ := amid_perform.1 h
  exact hs.trans hs'

/-- A request that is answered was handled. -/
theorem serves_send {handler : Handler α} {response : Except Server.Error α}
    (h : Serves step (send handler) s s' (.ok response)) : Serves step handler s s' response := by
  obtain ⟨s₁, _, hnet, h⟩ := amidE_bind_eq_ok.1 h
  obtain ⟨s₂, r, hr, h⟩ := amidE_bind_eq_ok.1 h
  obtain ⟨s₃, _, hnet', h⟩ := amidE_bind_eq_ok.1 h
  obtain ⟨hs, rfl⟩ := amidE_pure_eq_ok.1 h
  exact ((amidE_lift_eq_ok.1 hr).before (serves_net hnet)).after ((serves_net hnet').trans hs)

theorem serves_request {handler : Handler α} (h : Serves step (request handler) s s' (.ok a)) :
    Serves step handler s s' (.ok a) := by
  obtain ⟨s₁, response, hsend, h⟩ := amidE_bind_eq_ok.1 h
  cases response with
  | ok b =>
      obtain ⟨hs, rfl⟩ := amidE_pure_eq_ok.1 h
      exact (serves_send hsend).after hs
  | error e => exact (amidE_throw_eq_ok.1 h).elim

theorem acts_http {r : Request} {result : Except Cli.Error r.Response}
    (h : Acts step (Action.http r) s s' result) : Serves step r.exchange s s' result := by
  have h : ((Prog.perform (Cli.Call.http r)).expand Call.steps).Amid step Executes s s'
    result := h
  rw [expand_perform_eq] at h
  change (r.exchange.run.expand Prog.perform).Amid step Executes s s' result
  rw [expand_perform]
  exact h

theorem acts_ofExcept {result : Except Cli.Error α}
    (h : Acts step (Action.ofExcept result) s s' (.ok a)) :
    ReflTransGen step s s' ∧ result = .ok a :=
  amidE_mk_eq_ok.1 h

end Steps

/-! ### The writes of others -/

section Rules

variable {envId : Ident} {α : Type} {s s₁ s' : Contested} {a : α}

theorem Leads.refl (envId : Ident) (s : Contested) : Leads envId s s :=
  ⟨.refl envId s.db, List.Subset.refl _, fun _ he => .inl he⟩

theorem Leads.trans (h : Leads envId s s₁) (h' : Leads envId s₁ s') : Leads envId s s' := by
  refine ⟨h.onward.trans h'.onward, List.Subset.trans h.executed h'.executed, fun e he => ?_⟩
  rcases h'.changed e he with he | he
  · exact h.changed e he
  · exact .inr he

theorem Contends.leads (h : Contends s s') : Leads envId s s' := by
  obtain ⟨stmt, hwrite, rfl⟩ := h
  exact ⟨Server.onward_write hwrite s.db, List.Subset.refl _, fun _ he => .inl he⟩

theorem leads_of_steps (h : ReflTransGen Contends s s') : Leads envId s s' := by
  induction h with
  | refl => exact .refl envId s
  | tail _ hs ih => exact ih.trans hs.leads

theorem Executes.leads {c : Cmd} {r : c.Reply} (hc : Issues envId c) (h : Executes c s r s') :
    Leads envId s s' := by
  cases c with
  | fresh =>
      obtain ⟨-, rfl⟩ := h
      exact .refl envId s'
  | net =>
      obtain ⟨-, rfl⟩ := h
      exact .refl envId s'
  | store c =>
      obtain rfl := h
      exact .refl envId s'
  | server stmt =>
      rcases h with ⟨-, rfl⟩ | ⟨-, rfl⟩
      · have hexecuted : s.executed ⊆ (⟨stmt, s.db⟩ : Executed) :: s.executed :=
          List.subset_cons_self _ _
        rcases hc with hquery | ⟨access, orgId, rotation, rfl⟩
        · have hsame : (stmt.exec s.db).2 = s.db := Stmt.exec_snd_of_isQuery hquery s.db
          refine ⟨?_, hexecuted, fun e he => ?_⟩
          · rw [hsame]
            exact .refl envId s.db
          · rcases List.mem_cons.1 he with rfl | he
            · exact .inr (.inl hsame)
            · exact .inl he
        · refine ⟨Server.onward_write rfl s.db, hexecuted, fun e he => ?_⟩
          rcases List.mem_cons.1 he with rfl | he
          · right
            cases htx : (Server.rotateTx access envId orgId rotation).run s.db with
            | error e =>
                left
                simp only [Executed.after, Server.Stmt.exec, Server.commit, htx]
            | ok result =>
                right
                refine ⟨result.1, access, orgId, rotation, s.db, rfl, ?_⟩
                simp only [Executed.after, Server.Stmt.exec, Server.commit, htx]
          · exact .inl he
      · exact .refl envId s'

theorem leads_of_amid {p : Prog Cmd.Reply α} (hp : p.Uses (Issues envId))
    (h : p.Amid Contends Executes s s' a) : Leads envId s s' :=
  h.related (Leads.refl envId) Leads.trans Contends.leads (fun hc he => Executes.leads hc he) hp

/-! ### What is answered -/

/-- A query is answered at a moment. -/
theorem serves_query (envId : Ident) {stmt : Server.Stmt} (hq : stmt.isQuery) {a : stmt.Reply}
    (h : Serves Contends (Server.Database.perform stmt : Handler stmt.Reply) s s' (.ok a)) :
    ∃ s₁, Leads envId s s₁ ∧ (stmt.exec s₁.db).1 = .ok a ∧ Leads envId s₁ s' ∧
      (⟨stmt, s₁.db⟩ : Executed) ∈ s'.executed := by
  have h : ((Prog.perform (Cmd.server stmt)).expand Prog.perform).Amid Contends Executes s s'
    (.ok a) := h
  rw [expand_perform] at h
  obtain ⟨s₁, s₂, hs, hexec, hs'⟩ := amid_perform.1 h
  have hlater : Leads envId s₂ s' := leads_of_steps hs'
  have hexec' : Leads envId s₁ s₂ := Executes.leads (c := .server stmt) (.inl hq) hexec
  rcases hexec with ⟨hr, rfl⟩ | ⟨hr, -⟩
  · exact ⟨s₁, leads_of_steps hs, hr.symm, hexec'.trans hlater,
      hlater.executed List.mem_cons_self⟩
  · cases hr

theorem serves_check (envId : Ident) {result : Except Server.Error α}
    (h : Serves Contends (Server.check result : Handler α) s s' (.ok a)) :
    Leads envId s s' ∧ result = .ok a := by
  cases result with
  | ok b =>
      obtain ⟨hs, rfl⟩ := amidE_pure_eq_ok.1 h
      exact ⟨leads_of_steps hs, rfl⟩
  | error e => exact (amidE_throw_eq_ok.1 h).elim

theorem serves_require {p : Prop} [Decidable p] {e : Server.Error} {u : Unit}
    (h : Serves Contends (Server.require p e : Handler Unit) s s' (.ok u)) : Leads envId s s' := by
  unfold Server.require at h
  split at h
  · exact leads_of_steps (amidE_pure_eq_ok.1 h).1
  · exact (amidE_throw_eq_ok.1 h).elim

/-- A draw is new when it is made. -/
theorem acts_fresh {seed : Seed} (h : Acts Contends Action.fresh s s' (.ok seed)) :
    Leads envId s s' ∧ s.New seed := by
  have h := amidE_lift_eq_ok.1 h
  rw [expand_perform_eq] at h
  have h : (Prog.perform Cmd.fresh).Amid Contends Executes s s' seed := h
  obtain ⟨s₁, s₂, hs, ⟨hnew, rfl⟩, hs'⟩ := amid_perform.1 h
  have hlater : Leads envId s s₂ := leads_of_steps hs
  exact ⟨hlater.trans (leads_of_steps hs'), fun e he => hnew e (hlater.executed he)⟩

end Rules

end Contested

end Sotto
