import Sotto.Cli.Sync

/-!
# The commands before the rounds of a push

Before its rounds a push reads the account's keys, uploads them, looks for the organisation's
key, and creates the project and the environment. None of this writes to the store or asks for
a grant, a snapshot or a batch.
-/

namespace Sotto

namespace Cli

open Core Api

/-- The commands that a push issues before its rounds. -/
inductive Prepares (api : HttpClient) (projectId envId : Ident) : Call → Prop
  | fresh : Prepares api projectId envId .fresh
  | keys : Prepares api projectId envId (.store .getAccountKeys)
  | account {bundle : AccountBundle} :
      Prepares api projectId envId (.http (.putAccount api.userId bundle))
  | orgs : Prepares api projectId envId (.http (.listOrgs api.userId))
  | project {project : NewProject} : project.id = projectId →
      Prepares api projectId envId (.http (.createProject api.userId project))
  | environment {env : NewEnvironment} : env.id = envId →
      Prepares api projectId envId (.http (.createEnvironment api.userId projectId env))

section Uses

variable {α : Type} {P : Call → Prop}

theorem uses_store {c : StoreCmd} (h : P (.store c)) : Prog.UsesE P (Action.store c) :=
  ⟨h, fun _ => trivial⟩

theorem uses_http {r : Request} (h : P (.http r)) : Prog.UsesE P (Action.http r) :=
  ⟨h, fun _ => trivial⟩

theorem uses_fresh (h : P .fresh) : Prog.UsesE P Action.fresh :=
  Prog.UsesE.lift ⟨h, fun _ => trivial⟩

theorem uses_ofExcept {result : Except Error α} : Prog.UsesE P (Action.ofExcept result) := trivial

theorem uses_attempt {action : Action α} (h : Prog.UsesE P action) :
    Prog.UsesE P action.attempt :=
  Prog.UsesE.lift h

theorem uses_tolerateOrgForbidden {orgId : Option Ident} {create : Action Unit}
    (h : Prog.UsesE P create) : Prog.UsesE P (tolerateOrgForbidden orgId create) := by
  refine Prog.UsesE.bind (uses_attempt h) fun r => ?_
  split
  · split
    · exact Prog.UsesE.pure ()
    · exact Prog.UsesE.throw _
  · exact Prog.UsesE.throw _
  · exact Prog.UsesE.pure ()

end Uses

section Prepares

variable {api : HttpClient} {projectId envId : Ident}

theorem prepares_accountMaterial : Prog.UsesE (Prepares api projectId envId) accountMaterial := by
  refine Prog.UsesE.bind (uses_store .keys) fun keys => ?_
  cases keys with
  | some keys => exact Prog.UsesE.pure keys
  | none => exact Prog.UsesE.throw _

theorem prepares_ensureAccount :
    Prog.UsesE (Prepares api projectId envId) (ensureAccount api) := by
  refine Prog.UsesE.bind prepares_accountMaterial fun keys => ?_
  refine Prog.UsesE.bind (uses_attempt (uses_http .account)) fun r => ?_
  split
  · exact Prog.UsesE.pure ()
  · exact Prog.UsesE.pure ()
  · exact Prog.UsesE.throw _

theorem prepares_orgKey {keypair : Keypair} {orgId : Ident} :
    Prog.UsesE (Prepares api projectId envId) (orgKey api keypair orgId) := by
  refine Prog.UsesE.bind (uses_http .orgs) fun orgs => ?_
  split
  · exact Prog.UsesE.pure none
  · split
    · exact Prog.UsesE.pure none
    · refine Prog.UsesE.bind uses_ofExcept fun _ => ?_
      exact Prog.UsesE.bind uses_ofExcept fun _ => Prog.UsesE.pure _

theorem prepares_nameKey {master : Bytes} {orgId : Option Ident} :
    Prog.UsesE (Prepares api projectId envId) (nameKey api master orgId) := by
  unfold nameKey
  cases orgId with
  | none => exact Prog.UsesE.pure master
  | some orgId =>
      have haccount : Prog.UsesE (Prepares api projectId envId) (accountKeypair master) :=
        Prog.UsesE.bind prepares_accountMaterial fun _ => uses_ofExcept
      refine Prog.UsesE.bind (uses_attempt haccount) fun r => ?_
      cases r with
      | error e => exact Prog.UsesE.pure master
      | ok keypair =>
          refine Prog.UsesE.bind (uses_attempt prepares_orgKey) fun r => ?_
          split
          · exact Prog.UsesE.pure _
          · exact Prog.UsesE.pure master

theorem prepares_ensureProjectEnv {key : Bytes} {orgId : Option Ident} {projectName : String}
    {env : Environment} :
    Prog.UsesE (Prepares api projectId envId)
      (ensureProjectEnv api key orgId projectId projectName envId env) := by
  refine Prog.UsesE.bind (uses_fresh .fresh) fun seed => ?_
  refine Prog.UsesE.bind (uses_tolerateOrgForbidden (uses_http (.project rfl))) fun _ => ?_
  exact uses_tolerateOrgForbidden (uses_http (.environment rfl))

end Prepares

end Cli

end Sotto
