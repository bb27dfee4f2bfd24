import Sotto.Cli.Device

/-!
# The statements of the requests

Which statements the handler of a request issues, whatever the answers to them.
-/

namespace Sotto

namespace Cli

open Core Api

variable {α : Type} {P : Cmd → Prop}

theorem uses_check {result : Except Server.Error α} :
    Prog.UsesE P (Server.check result : Handler α) := by
  cases result with
  | ok a => exact Prog.UsesE.pure a
  | error e => exact Prog.UsesE.throw e

theorem uses_require {p : Prop} [Decidable p] {e : Server.Error} :
    Prog.UsesE P (Server.require p e : Handler Unit) := by
  unfold Server.require
  split
  · exact Prog.UsesE.pure ()
  · exact Prog.UsesE.throw e

theorem uses_perform {stmt : Server.Stmt} (h : P (.server stmt)) :
    Prog.UsesE P (Server.Database.perform stmt : Handler stmt.Reply) :=
  ⟨h, fun _ => trivial⟩

theorem uses_send {handler : Handler α} (hnet : P .net) (h : Prog.UsesE P handler) :
    Prog.UsesE P (send handler) := by
  have hcross : Prog.UsesE P Exchange.net := ⟨hnet, fun _ => trivial⟩
  refine Prog.UsesE.bind hcross fun _ => Prog.UsesE.bind (Prog.UsesE.lift h) fun response => ?_
  exact Prog.UsesE.bind hcross fun _ => Prog.UsesE.pure response

theorem uses_request {handler : Handler α} (hnet : P .net) (h : Prog.UsesE P handler) :
    Prog.UsesE P (request handler) := by
  refine Prog.UsesE.bind (uses_send hnet h) fun response => ?_
  cases response with
  | ok a => exact Prog.UsesE.pure a
  | error e => exact Prog.UsesE.throw (serverError e)

section Requests

variable {userId projectId envId : Ident}

theorem uses_putAccount {bundle : AccountBundle} (hnet : P .net)
    (h : ∀ account, P (.server (.updateAccount userId account))) :
    Prog.UsesE P (Request.putAccount userId bundle).exchange := by
  refine uses_request hnet (Prog.UsesE.bind uses_check fun _ => ?_)
  refine Prog.UsesE.bind uses_require fun _ => Prog.UsesE.bind uses_check fun _ => ?_
  refine Prog.UsesE.bind uses_check fun _ => Prog.UsesE.bind uses_check fun _ => ?_
  exact uses_perform (h _)

theorem uses_listOrgs (hnet : P .net) (h : P (.server (.selectOrgs userId))) :
    Prog.UsesE P (Request.listOrgs userId).exchange :=
  uses_request hnet (Prog.UsesE.bind (uses_perform h) fun _ => Prog.UsesE.pure _)

theorem uses_createProject {project : NewProject} (hnet : P .net)
    (horg : ∀ orgId, P (.server (.orgAccess orgId userId)))
    (hinsert : ∀ orgId encName, P (.server (.insertProject project.id userId orgId encName)))
    (hselect : P (.server (.selectProject project.id)))
    (haccess : P (.server (.projectAccess project.id userId))) :
    Prog.UsesE P (Request.createProject userId project).exchange := by
  refine uses_request hnet (Prog.UsesE.bind uses_check fun _ => Prog.UsesE.bind uses_check
    fun _ => ?_)
  refine Prog.UsesE.bind ?_ fun _ => Prog.UsesE.bind (uses_perform (hinsert _ _))
    fun created => ?_
  · unfold Server.requireOrgAdminOf
    split
    · exact Prog.UsesE.pure ()
    · exact Prog.UsesE.bind (uses_perform (horg _)) fun _ => uses_check
  · split
    · exact Prog.UsesE.pure ()
    · refine Prog.UsesE.bind (uses_perform hselect) fun _ => Prog.UsesE.bind uses_require
        fun _ => ?_
      refine Prog.UsesE.bind ?_ fun _ => Prog.UsesE.pure ()
      refine Prog.Uses.bind (uses_perform haccess) fun r => ?_
      cases r with
      | ok access => exact Prog.UsesE.pure access
      | error e => exact Prog.UsesE.throw _

theorem uses_createEnvironment {env : NewEnvironment} (hnet : P .net)
    (haccess : P (.server (.projectAccess projectId userId)))
    (hinsert : ∀ access encName encVaultKey,
      P (.server (.insertEnvironment access projectId userId env.id encName encVaultKey)))
    (hselect : P (.server (.selectEnvironment env.id))) :
    Prog.UsesE P (Request.createEnvironment userId projectId env).exchange := by
  refine uses_request hnet (Prog.UsesE.bind uses_check fun _ => Prog.UsesE.bind uses_check
    fun _ => ?_)
  refine Prog.UsesE.bind uses_check fun _ => Prog.UsesE.bind (uses_perform haccess) fun _ => ?_
  refine Prog.UsesE.bind uses_check fun _ => Prog.UsesE.bind (uses_perform (hinsert _ _ _))
    fun created => ?_
  split
  · exact Prog.UsesE.pure ()
  · exact Prog.UsesE.bind (uses_perform hselect) fun _ => uses_require

theorem uses_listGrantHolders (hnet : P .net) (haccess : P (.server (.envAccess envId userId)))
    (hselect : P (.server (.selectGrantHolders envId))) :
    Prog.UsesE P (Request.listGrantHolders userId envId).exchange :=
  uses_request hnet (Prog.UsesE.bind (uses_perform haccess) fun _ =>
    Prog.UsesE.bind uses_require fun _ => uses_perform hselect)

end Requests

end Cli

end Sotto
