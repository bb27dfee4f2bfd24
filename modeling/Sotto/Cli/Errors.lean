import Sotto.Cli.Sync

/-!
# Which errors a push can fail with

The refusal of a push whose environment was rotated is one particular error. It is
raised at one place: no call of the store that a sync makes and no request fails
with it, since the errors of the server carry their status.
-/

namespace Sotto

namespace Cli

open Core Api

/-- An error other than the refusal. -/
def NotRefused (e : Error) : Prop := e ≠ rotatedError

theorem notRefused_of_conflict {m : String} (h : m.toList.head? ≠ some 'e') :
    NotRefused (.conflict m) := by
  intro he
  injection he with hm
  rw [hm] at h
  exact h (by decide)

/-- The replies to a command of a sync: an error is not the refusal. -/
def Call.NotRefused : (c : Call) → c.Reply → Prop
  | .fresh, _ => True
  | .store (.vaultSet ..), _ => True
  | .store (.vaultDelete ..), _ => True
  | .store _, r => ∀ e, r = .error e → Cli.NotRefused e
  | .http _, r => ∀ e, r = .error e → Cli.NotRefused e

/-- The replies to one step of a command. -/
def Cmd.NotRefused : (c : Cmd) → c.Reply → Prop
  | .fresh, _ => True
  | .net, r => ∀ e, r = .error e → Cli.NotRefused e
  | .store (.vaultSet ..), _ => True
  | .store (.vaultDelete ..), _ => True
  | .store _, r => ∀ e, r = .error e → Cli.NotRefused e
  | .server _, _ => True

theorem StoreCmd.write_notRefused {result : Except Cli.Error Store} {store : Store}
    (h : ∀ e, result = .error e → NotRefused e) :
    ∀ e, (StoreCmd.write result store).1 = .error e → NotRefused e := by
  intro e he
  cases result with
  | ok store' => cases he
  | error e' =>
      cases he
      exact h e rfl

/-- No call of the store fails with the refusal. -/
theorem StoreCmd.exec_notRefused (c : StoreCmd) (store : Store) :
    (Cmd.store c).NotRefused (c.exec store).1 := by
  cases c with
  | vaultSet => trivial
  | vaultDelete => trivial
  | updateEnvVaultKey envId key =>
      refine StoreCmd.write_notRefused ?_
      intro e he
      unfold Store.updateEnvVaultKey at he
      split at he
      · cases he
        intro h
        cases h
      · cases he
  | putRemoteSecret envId secret =>
      refine StoreCmd.write_notRefused ?_
      intro e he
      unfold Store.putRemoteSecret at he
      split at he
      · cases he
        intro h
        cases h
      · cases he
  | setSyncedRevision envId revision =>
      refine StoreCmd.write_notRefused ?_
      intro e he
      unfold Store.setSyncedRevision at he
      split at he
      · cases he
        intro h
        cases h
      · cases he
  | createProjectWithId id name =>
      refine StoreCmd.write_notRefused ?_
      intro e he
      unfold Store.createProjectWithId at he
      split at he
      · cases he
        intro h
        cases h
      · cases he
  | createEnvironment id projectId name encVaultKey =>
      refine StoreCmd.write_notRefused ?_
      intro e he
      unfold Store.createEnvironment at he
      split at he
      · cases he
        intro h
        cases h
      · cases he
        intro h
        cases h
      · cases he
        intro h
        cases h
      · cases he
  | _ =>
      intro e he
      cases he

theorem notRefused_append {before m : String} (h : before.toList.head? = some '4') :
    NotRefused (.conflict (before ++ m)) := by
  refine notRefused_of_conflict ?_
  rw [String.toList_append, List.head?_append, h]
  simp

theorem notRefused_serverError (e : Server.Error) : NotRefused (serverError e) := by
  cases e with
  | conflict m =>
      have h : "409 Conflict: ".toList.head? = some '4' := by decide
      exact notRefused_append h
  | precondition m =>
      have h : "412 Precondition Failed: ".toList.head? = some '4' := by decide
      exact notRefused_append h
  | _ =>
      intro h
      cases h

section Throws

variable {α : Type}

/-- The errors of an operation are not the refusal. -/
abbrev Silent (action : Action α) : Prop := Prog.Throws Call.NotRefused NotRefused action

/-- The errors of a request are not the refusal. -/
abbrev SilentExchange (exchange : Exchange α) : Prop :=
  Prog.Throws Cmd.NotRefused NotRefused exchange

theorem silent_net : SilentExchange Exchange.net := fun _ h => h

theorem silent_send (handler : Handler α) : SilentExchange (send handler) := by
  refine silent_net.bind fun _ => (Prog.Throws.lift _).bind fun response => ?_
  exact silent_net.bind fun _ => Prog.Throws.pure response

theorem silent_request (handler : Handler α) : SilentExchange (request handler) := by
  refine (silent_send handler).bind fun response => ?_
  cases response with
  | ok a => exact Prog.Throws.pure a
  | error e => exact Prog.Throws.throw (notRefused_serverError e)

theorem silent_requestOption (handler : Handler α) : SilentExchange (requestOption handler) := by
  refine (silent_send handler).bind fun response => ?_
  split
  · exact Prog.Throws.pure _
  · exact Prog.Throws.pure _
  · exact Prog.Throws.throw (notRefused_serverError _)

theorem silent_exchange (r : Request) : SilentExchange r.exchange := by
  cases r with
  | getGrant userId envId =>
      refine (silent_send _).bind fun response => ?_
      split
      · exact Prog.Throws.pure _
      · exact Prog.Throws.pure _
      · exact Prog.Throws.throw (notRefused_serverError _)
  | getAccount => exact silent_requestOption _
  | _ => exact silent_request _

/-- The steps of a command answer as the command does. -/
theorem steps_notRefused (c : Call) : c.steps.Returns Cmd.NotRefused c.NotRefused := by
  cases c with
  | fresh => exact fun _ _ => trivial
  | store c =>
      cases c with
      | vaultSet => exact fun _ _ => trivial
      | vaultDelete => exact fun _ _ => trivial
      | _ => exact fun _ h => h
  | http r => exact silent_exchange r

theorem silent_fresh : Silent Action.fresh := Prog.Throws.lift _

theorem silent_http (r : Request) : Silent (Action.http r) := fun _ h => h

/-- The calls of the store that a sync makes. -/
def StoreCmd.isSync : StoreCmd → Bool
  | .vaultSet .. => false
  | .vaultDelete .. => false
  | _ => true

theorem silent_store {c : StoreCmd} (h : c.isSync) : Silent (Action.store c) := by
  cases c with
  | vaultSet => cases h
  | vaultDelete => cases h
  | _ => exact fun _ h => h

theorem silent_b64decode (b : Base64) : Silent (Action.ofExcept (b64decode b)) := by
  intro e h
  cases b with
  | valid => cases h
  | malformed =>
      cases h
      intro h
      cases h

theorem silent_attempt {β : Type} {action : Action α} {f : Except Error α → Action β}
    (h : Silent action) (hf : ∀ r, (∀ e, r = .error e → NotRefused e) → Silent (f r)) :
    Silent (action.attempt >>= f) :=
  Prog.Throws.attempt h hf

end Throws

/-! ### The parts of a push -/

section Push

variable {api : HttpClient} {config : Config} {envId : Ident}

theorem silent_resolveEnv : Silent (resolveEnv config) := by
  refine (silent_store rfl).bind fun env => ?_
  cases env with
  | some env => exact Prog.Throws.pure env
  | none => exact Prog.Throws.throw (by intro h; cases h)

theorem silent_accountMaterial : Silent accountMaterial := by
  refine (silent_store rfl).bind fun keys => ?_
  cases keys with
  | some keys => exact Prog.Throws.pure keys
  | none => exact Prog.Throws.throw (by intro h; cases h)

theorem silent_ensureAccount : Silent (ensureAccount api) := by
  refine silent_accountMaterial.bind fun keys => ?_
  refine silent_attempt (silent_http _) fun r hr => ?_
  split
  · exact Prog.Throws.pure ()
  · exact Prog.Throws.pure ()
  · exact Prog.Throws.throw (hr _ rfl)

theorem silent_nameKey {master : Bytes} {orgId : Option Ident} :
    Silent (nameKey api master orgId) := by
  unfold nameKey
  cases orgId with
  | none => exact Prog.Throws.pure master
  | some orgId =>
      refine (Prog.Throws.lift _).bind fun r => ?_
      cases r with
      | error e => exact Prog.Throws.pure master
      | ok keypair =>
          refine (Prog.Throws.lift _).bind fun r => ?_
          split
          · exact Prog.Throws.pure _
          · exact Prog.Throws.pure master

theorem silent_tolerateOrgForbidden {orgId : Option Ident} {create : Action Unit}
    (h : Silent create) : Silent (tolerateOrgForbidden orgId create) := by
  refine silent_attempt h fun r hr => ?_
  split
  · split
    · exact Prog.Throws.pure ()
    · exact Prog.Throws.throw (hr _ rfl)
  · exact Prog.Throws.throw (hr _ rfl)
  · exact Prog.Throws.pure ()

theorem silent_ensureProjectEnv {key : Bytes} {orgId : Option Ident} {projectId : Ident}
    {projectName : String} {env : Environment} :
    Silent (ensureProjectEnv api key orgId projectId projectName envId env) := by
  refine silent_fresh.bind fun seed => ?_
  refine (silent_tolerateOrgForbidden (silent_http _)).bind fun _ => ?_
  exact silent_tolerateOrgForbidden (silent_http _)

theorem silent_fullSnapshot : Silent (fullSnapshot api envId) := by
  refine Prog.Throws.bind (silent_http _) fun snapshot => ?_
  cases snapshot with
  | some snapshot => exact Prog.Throws.pure snapshot
  | none => exact Prog.Throws.throw (by intro h; cases h)

theorem silent_applySnapshot {force : Bool} {secrets : List SecretEntry} :
    Silent (applySnapshot envId force secrets) := by
  induction secrets with
  | nil => exact Prog.Throws.pure ()
  | cons remote rest ih =>
      rw [applySnapshot]
      refine (silent_store rfl).bind fun found => ?_
      split
      · refine (silent_b64decode _).bind fun _ => (silent_b64decode _).bind fun _ => ?_
        exact (silent_b64decode _).bind fun _ => (silent_store rfl).bind fun _ => ih
      · exact ih

theorem silent_diff {snapshot : Snapshot} : Silent (diff envId snapshot) :=
  (silent_store rfl).bind fun _ => Prog.Throws.pure _

theorem silent_adoptIfOrg {localGrant : Bytes} :
    Silent (adoptIfOrg api config envId localGrant) := by
  unfold adoptIfOrg
  split
  · refine Prog.Throws.bind (silent_http _) fun grant => ?_
    cases grant with
    | none => exact Prog.Throws.pure false
    | some grant =>
        refine (silent_b64decode _).bind fun _ => ?_
        split
        · exact Prog.Throws.pure false
        · exact (silent_store rfl).bind fun _ => Prog.Throws.pure true
  · exact Prog.Throws.pure false

theorem silent_changedIfOrg {localGrant : Bytes} :
    Silent (changedIfOrg api config envId localGrant) := by
  unfold changedIfOrg
  split
  · refine Prog.Throws.bind (silent_http _) fun grant => ?_
    cases grant with
    | none => exact Prog.Throws.pure true
    | some grant => exact (silent_b64decode _).bind fun _ => Prog.Throws.pure _
  · exact Prog.Throws.pure false

end Push

end Cli

end Sotto
