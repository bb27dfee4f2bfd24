import Sotto.Properties.Environments

/-!
# What becomes of an environment

Write transactions advance the revision of an environment with every change of its rows. So between
two moments with the same revision nothing of the environment has changed.
-/

namespace Sotto

namespace Server

open Core

/-- The revision of an environment does not go back, and where it is the same, so are its rows. -/
def Onward (envId : Ident) (db db' : Db) : Prop :=
  ∀ revision, db.revisionOf envId = some revision → ∃ revision',
    db'.revisionOf envId = some revision' ∧ revision ≤ revision' ∧
      (revision' = revision → SameEnvironment envId db db')

section Onward

variable {envId : Ident} {db db' db'' : Db} {revision : Int}

theorem Onward.refl (envId : Ident) (db : Db) : Onward envId db db :=
  fun revision h => ⟨revision, h, Int.le_refl _, fun _ => .refl envId db⟩

theorem Onward.trans (h : Onward envId db db') (h' : Onward envId db' db'') :
    Onward envId db db'' := by
  intro revision hr
  obtain ⟨r', hr', hle, hsame⟩ := h revision hr
  obtain ⟨r'', hr'', hle', hsame'⟩ := h' r' hr'
  refine ⟨r'', hr'', Int.le_trans hle hle', fun heq => ?_⟩
  have hr : r' = revision := Int.le_antisymm (heq ▸ hle') hle
  exact (hsame hr).trans (hsame' (heq.trans hr.symm))

theorem Onward.of_same (h : SameEnvironment envId db db') : Onward envId db db' := by
  intro revision hr
  refine ⟨revision, ?_, Int.le_refl _, fun _ => h⟩
  rw [Db.revisionOf, h.environment]
  exact hr

/-- A transaction that advances the revision. -/
theorem Onward.of_next (h : db.revisionOf envId = some revision)
    (h' : db'.revisionOf envId = some (revision + 1)) : Onward envId db db' := by
  intro r hr
  obtain rfl : revision = r := Option.some.inj (h.symm.trans hr)
  refine ⟨revision + 1, h', by omega, fun heq => ?_⟩
  omega

/-- Between two moments with the same revision nothing of the environment changes. -/
theorem Onward.same_between (h : Onward envId db db') (h' : Onward envId db' db'')
    (hr : db.revisionOf envId = some revision) (hr'' : db''.revisionOf envId = some revision) :
    SameEnvironment envId db db' ∧ SameEnvironment envId db' db'' := by
  obtain ⟨r', hr', hle, hsame⟩ := h revision hr
  obtain ⟨r, hr₂, hle', hsame'⟩ := h' r' hr'
  obtain rfl : r = revision := Option.some.inj (hr₂.symm.trans hr'')
  have heq : r' = r := Int.le_antisymm hle' hle
  exact ⟨hsame heq, hsame' heq.symm⟩

theorem revisionOf_of_sameAccess (h : SameAccess db db')
    (hr : db.revisionOf envId = some revision) : db'.revisionOf envId ≠ none := by
  have henv := h.environments envId
  unfold Db.revisionOf at *
  cases he : db.environments.lookup envId with
  | none =>
      rw [he] at hr
      cases hr
  | some env =>
      rw [he, Option.map_some] at henv
      obtain ⟨env', he', -⟩ := Option.map_eq_some_iff.1 henv
      simp [he']

/-- Every write transaction leads an environment onward. -/
theorem onward_write {stmt : Stmt} (h : stmt.isWrite) (db : Db) :
    Onward envId db (stmt.exec db).2 := by
  cases stmt with
  | writeSecrets access envId' req =>
      by_cases hne : envId = envId'
      · subst hne
        cases htx : (writeSecretsTx access envId req).run db with
        | error e =>
            have hexec : ((Stmt.writeSecrets access envId req).exec db).2 = db := by
              simp only [Stmt.exec, commit, htx]
            rw [hexec]
            exact .refl envId db
        | ok r =>
            obtain ⟨v, db'⟩ := r
            have hexec : ((Stmt.writeSecrets access envId req).exec db).2 = db' := by
              simp only [Stmt.exec, commit, htx]
            obtain ⟨⟨-, hbase, -⟩, rfl, rfl⟩ := writeSecretsTx_eq_ok_iff.1 htx
            rw [hexec]
            refine .of_next hbase (revisionOf_withRevision ?_ _)
            exact revisionOf_of_sameAccess (SameAccess.foldl_effect envId req.changes db) hbase
      · exact .of_same (SameEnvironment.of_commit fun _ _ => SameEnvironment.writeSecretsTx hne)
  | rotate access envId' orgId req =>
      by_cases hne : envId = envId'
      · subst hne
        cases htx : (rotateTx access envId orgId req).run db with
        | error e =>
            have hexec : ((Stmt.rotate access envId orgId req).exec db).2 = db := by
              simp only [Stmt.exec, commit, htx]
            rw [hexec]
            exact .refl envId db
        | ok r =>
            obtain ⟨v, db'⟩ := r
            have hexec : ((Stmt.rotate access envId orgId req).exec db).2 = db' := by
              simp only [Stmt.exec, commit, htx]
            obtain ⟨⟨-, hbase, -⟩, rfl, rfl⟩ := rotateTx_eq_ok_iff.1 htx
            rw [hexec]
            refine .of_next hbase (revisionOf_withRevision ?_ _)
            exact revisionOf_of_sameAccess ⟨rfl, rfl, rfl, rfl, fun _ => rfl⟩ hbase
      · exact .of_same (SameEnvironment.of_commit fun _ _ => SameEnvironment.rotateTx hne)
  | _ => cases h

end Onward

end Server

end Sotto
