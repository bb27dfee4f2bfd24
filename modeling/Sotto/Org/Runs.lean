import Sotto.Library.Solo
import Sotto.Org.PurgeSteps

/-!
# Runs of the requests

Every request commits only what it may, so in every run the committed transactions are a history of
such commits, and what they keep holds in every state that is reached.
-/

namespace Sotto

namespace Org

open Core (Ident)
open Server (Error Role)
open Sessions (Solo Entry)
open Sessions.Discipline

/-- The database before the first request. -/
def Db.empty : Db :=
  ⟨⟨∅, ∅, ∅, ∅, ∅, ∅, ∅, ∅, ∅⟩, ∅, ∅, ∅, ∅, [], []⟩

/-- Whether a request may fail after it has committed: it reads the status of the operation then. -/
def Call.Late : Call → Prop
  | requestDeletion .. | cancelDeletion .. => True
  | _ => False

/-- The requests, run by any number of sessions. -/
abbrev requests (ι : Type) [DecidableEq ι] :=
  discipline.system (ι := ι) Error.internal Call.handler

/-- The configurations of the sessions. -/
abbrev Situation (ι : Type) : Type 1 :=
  Sessions.Discipline.Situation ι Db Change Lock Error Call Unit

variable {ι : Type} [DecidableEq ι]

theorem obeyed : discipline.Obeyed (ι := ι) Error.internal Call.handler Call.Late := by
  intro op d
  cases op with
  | upsertUser => exact secures_upsertUser
  | putAccount => exact secures_putAccount
  | resetAccount => exact secures_resetAccount
  | createOrg => exact secures_createOrg
  | grantOrgKey => exact secures_grantOrgKey
  | addMember => exact secures_addMember
  | inviteMember => exact secures_inviteMember
  | updateMember => exact secures_updateMember
  | removeMember => exact secures_removeMember
  | createProject => exact secures_createProject
  | createEnvironment => exact secures_createEnvironment
  | createGrant => exact secures_createGrant
  | rotate => exact secures_rotate
  | createToken => exact secures_createToken
  | revokeToken => exact secures_revokeToken
  | writeSecrets => exact secures_writeSecrets
  | requestDeletion => exact secures_requestDeletion
  | cancelDeletion => exact secures_cancelDeletion
  | advanceDeletion => exact secures_advanceDeletion
  | finishRecovery => exact secures_finishRecovery
  | purge => exact secures_purge
  | changePlan => exact secures_changePlan

theorem sound_empty : Db.empty.Sound := by
  refine ⟨⟨nofun, nofun, nofun, nofun, nofun, ?_, ?_⟩, nofun⟩
  · intro e u o _ hg
    cases hg
  · intro t token origin o _ ht
    cases ht

section History

variable {w : Situation ι} (hw : (requests ι).Reaches (quiet Db.empty) w)
include hw

theorem history_of_requests :
    w.shared.db.Sound ∧ discipline.History Db.empty w.shared.log w.shared.db :=
  history_of_reaches obeyed sound_empty hw

/-- Every committed transaction was allowed. -/
theorem commits_of_mem_log {entry : Entry Db Lock Call} (he : entry ∈ w.shared.log) :
    ∃ changes, entry.before.Sound ∧ Commits entry.op entry.locks entry.before changes ∧
      entry.after = entry.before.after changes :=
  (history_of_requests hw).2.commits he

/-- The ids of environments become free only in purges. -/
theorem retired_of_log (hpurge : ∀ entry ∈ w.shared.log, ¬ entry.op.Purges) :
    w.shared.db.retired = [] := by
  have hsame := ((history_of_requests hw).2.carries (R := fun db db' : Db =>
    db.retired = [] → db'.retired = []) (fun _ => id) (fun h h' hnil => h' (h hnil))
    fun {entry changes} he _ hcommits hafter hnil => ?_).1
  · exact hsame rfl
  · rw [hafter]
    exact (hcommits.chain.retired (hpurge entry he)).trans hnil

end History

/-- What a session comes to that runs requests alone from the beginning. -/
def afterRequests (ops : List Call) : Db × List (Entry Db Lock Call) :=
  Solo.requests Change.apply Call.handler ops (Db.empty, [])

/-- It is one of the runs. -/
theorem reaches_afterRequests (ops : List Call) : ∃ w : Situation Unit,
    (requests Unit).Reaches (quiet Db.empty) w ∧ Settled (afterRequests ops) w :=
  reaches_requests obeyed sound_empty () .refl (settled_quiet Db.empty)

end Org

end Sotto
