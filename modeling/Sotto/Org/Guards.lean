import Sotto.Org.Steps

/-!
# What fitting changes leave alone

A fitting change leaves alone what the locks guard that its transaction does not hold, and what the
organisations hold that it does not touch. From one change both go over to a chain of them.
-/

namespace Sotto

namespace Org

open Core (Ident Bytes)
open Server (Membership Project Environment Organization MachineToken Secret)
open Table.Change (lookup_apply)

section Relations

theorem GuardedOrg.refl (o : Ident) (db : Db) : GuardedOrg o db db :=
  ⟨fun _ h => h, rfl, rfl, fun _ => rfl, fun _ _ _ => Iff.rfl, fun _ => Iff.rfl, fun _ _ _ _ h => h,
    fun _ _ _ _ => Iff.rfl, fun _ token _ h => ⟨token, h, rfl⟩, fun _ _ _ _ => rfl⟩

theorem GuardedOrg.trans {o : Ident} {d d' db : Db} (h : GuardedOrg o d d')
    (h' : GuardedOrg o d' db) : GuardedOrg o d db where
  retired e he := h'.retired e (h.retired e he)
  organization := h'.organization.trans h.organization
  plan := h'.plan.trans h.plan
  roles u := (h'.roles u).trans (h.roles u)
  projects p project hp := (h'.projects p project hp).trans (h.projects p project hp)
  orgOf e := (h'.orgOf e).trans (h.orgOf e)
  grants e u he ho hg :=
    h.grants e u (fun hd => he (h'.retired e hd)) ((h'.orgOf e).1 ho) (h'.grants e u he ho hg)
  tokens k token he ho :=
    (h'.tokens k token he ((h.orgOf _).2 ho)).trans
      (h.tokens k token (fun hd => he (h'.retired _ hd)) ho)
  tokenEnvs := by
    intro k token ho ht
    obtain ⟨token', ht', heq⟩ := h.tokenEnvs k token ho ht
    obtain ⟨token'', ht'', heq'⟩ := h'.tokenEnvs k token' (by rw [heq, h.orgOf]; exact ho) ht'
    exact ⟨token'', ht'', heq'.trans heq⟩
  origins := by
    intro k token ho ht
    obtain ⟨token', ht', heq⟩ := h.tokenEnvs k token ho ht
    exact (h'.origins k token' (by rw [heq, h.orgOf]; exact ho) ht').trans (h.origins k token ho ht)

theorem GuardedEnv.refl (e : Ident) (db : Db) : GuardedEnv e db db :=
  ⟨rfl, fun _ secret h he => ⟨secret, h, he⟩, fun _ h => h, fun _ secret h he => ⟨secret, h, he⟩,
    fun _ token h he => ⟨token, h, he⟩⟩

theorem GuardedEnv.trans {e : Ident} {d d' db : Db} (h : GuardedEnv e d d')
    (h' : GuardedEnv e d' db) : GuardedEnv e d db where
  environment := h'.environment.trans h.environment
  secrets := by
    intro s secret hs he
    obtain ⟨secret', hs', he'⟩ := h.secrets s secret hs he
    exact h'.secrets s secret' hs' he'
  noGrant u hg := h.noGrant u (h'.noGrant u hg)
  noSecret := by
    intro s secret hs he
    obtain ⟨secret', hs', he'⟩ := h'.noSecret s secret hs he
    exact h.noSecret s secret' hs' he'
  noToken := by
    intro k token ht he
    obtain ⟨token', ht', he'⟩ := h'.noToken k token ht he
    exact h.noToken k token' ht' he'

theorem Guarded.refl (k : Lock) (db : Db) : Guarded k db db := by
  cases k with
  | user | environmentKey | machineToken | deletion => exact fun h => h
  | organization o => exact GuardedOrg.refl o db
  | project => exact rfl
  | environment e => exact GuardedEnv.refl e db
  | secret => exact fun secret h => ⟨secret, h, rfl⟩
  | judged | named => trivial

theorem Guarded.trans {k : Lock} {d d' db : Db} (h : Guarded k d d') (h' : Guarded k d' db) :
    Guarded k d db := by
  cases k with
  | user | environmentKey | machineToken | deletion => exact fun hrow => h' (h hrow)
  | organization o => exact GuardedOrg.trans h h'
  | project => exact Eq.trans h' h
  | environment e => exact GuardedEnv.trans h h'
  | judged | named => trivial
  | secret s =>
      intro secret hsecret
      obtain ⟨old, hold, heq⟩ := h' secret hsecret
      obtain ⟨older, holder, heq'⟩ := h old hold
      exact ⟨older, holder, heq'.trans heq⟩

end Relations

section Organization

variable {t : Terms} {db : Db} {o : Ident}

/-- What is guarded of an organisation by its lock stays where it is placed. -/
theorem GuardedOrg.memberships {c : Table.Change (Ident × Ident) Membership}
    (h : ∀ u, (Change.apply (.memberships c) db).roleOf o u = db.roleOf o u) :
    GuardedOrg o db (Change.apply (.memberships c) db) :=
  ⟨fun _ h => h, rfl, rfl, h, fun _ _ _ => Iff.rfl, fun _ => Iff.rfl, fun _ _ _ _ h => h,
    fun _ _ _ _ => Iff.rfl, fun _ token _ h => ⟨token, h, rfl⟩, fun _ _ _ _ => rfl⟩

theorem GuardedOrg.organizations {c : Table.Change Ident Organization} (ho : o ≠ c.key) :
    GuardedOrg o db (Change.apply (.organizations c) db) :=
  ⟨fun _ h => h, (lookup_apply _ _ _).trans (if_neg ho), rfl, fun _ => rfl, fun _ _ _ => Iff.rfl,
    fun _ => Iff.rfl, fun _ _ _ _ h => h, fun _ _ _ _ => Iff.rfl,
    fun _ token _ h => ⟨token, h, rfl⟩, fun _ _ _ _ => rfl⟩

theorem GuardedOrg.plans {c : Table.Change Ident Plan} (ho : o ≠ c.key) :
    GuardedOrg o db (Change.apply (.plans c) db) :=
  ⟨fun _ h => h, rfl, (lookup_apply _ _ _).trans (if_neg ho), fun _ => rfl, fun _ _ _ => Iff.rfl,
    fun _ => Iff.rfl, fun _ _ _ _ h => h, fun _ _ _ _ => Iff.rfl,
    fun _ token _ h => ⟨token, h, rfl⟩, fun _ _ _ _ => rfl⟩

theorem GuardedOrg.environments {c : Table.Change Ident Environment}
    (h : ∀ e, (Change.apply (.environments c) db).orgOf e = some o ↔ db.orgOf e = some o) :
    GuardedOrg o db (Change.apply (.environments c) db) :=
  ⟨fun _ => List.mem_append_right _, rfl, rfl, fun _ => rfl, fun _ _ _ => Iff.rfl, h,
    fun _ _ _ _ hg => hg,
    fun _ _ _ _ => Iff.rfl, fun _ token _ h => ⟨token, h, rfl⟩, fun _ _ _ _ => rfl⟩

theorem GuardedOrg.projectRows {c : Table.Change Ident Project}
    (h : ∀ p project, project.orgId = some o →
      ((c.apply db.projects).lookup p = some project ↔ db.projects.lookup p = some project))
    (hempty : ∀ e env, db.environments.lookup e = some env → env.projectId ≠ c.key) :
    GuardedOrg o db (Change.apply (.projects c) db) :=
  ⟨fun _ h => h, rfl, rfl, fun _ => rfl, h, fun e => by rw [orgOf_projects hempty], fun _ _ _ _ h => h,
    fun _ _ _ _ => Iff.rfl, fun _ token _ h => ⟨token, h, rfl⟩, fun _ _ _ _ => rfl⟩

theorem GuardedOrg.grantRows {c : Table.Change (Ident × Ident) Bytes}
    (h : ∀ e u, e ∉ db.retired → db.orgOf e = some o →
      ((c.apply db.grants).lookup (e, u)).isSome → (db.grants.lookup (e, u)).isSome) :
    GuardedOrg o db (Change.apply (.grants c) db) :=
  ⟨fun _ h => h, rfl, rfl, fun _ => rfl, fun _ _ _ => Iff.rfl, fun _ => Iff.rfl, h,
    fun _ _ _ _ => Iff.rfl, fun _ token _ h => ⟨token, h, rfl⟩, fun _ _ _ _ => rfl⟩

theorem GuardedOrg.tokenRows {c : Table.Change Ident MachineToken}
    (h : ∀ k token, token.envId ∉ db.retired → db.orgOf token.envId = some o →
      ((c.apply db.machineTokens).lookup k = some token ↔
        db.machineTokens.lookup k = some token))
    (henvs : ∀ k token, db.orgOf token.envId = some o →
      db.machineTokens.lookup k = some token → ∃ token',
        (c.apply db.machineTokens).lookup k = some token' ∧ token'.envId = token.envId) :
    GuardedOrg o db (Change.apply (.machineTokens c) db) :=
  ⟨fun _ h => h, rfl, rfl, fun _ => rfl, fun _ _ _ => Iff.rfl, fun _ => Iff.rfl,
    fun _ _ _ _ h => h, h, henvs, fun _ _ _ _ => rfl⟩

theorem GuardedOrg.putToken {k : Ident} {token : MachineToken}
    (hnone : db.machineTokens.lookup k = none)
    (ho : token.envId ∉ db.retired → db.orgOf token.envId ≠ some o) :
    GuardedOrg o db (Change.apply (.machineTokens (.put k token)) db) := by
  have hkeep : ∀ k' token', db.machineTokens.lookup k' = some token' →
      ((Table.Change.put k token).apply db.machineTokens).lookup k' = some token' := by
    intro k' token' h
    refine Table.Change.lookup_put.2 (.inr ⟨?_, h⟩)
    rintro rfl
    rw [hnone] at h
    cases h
  refine GuardedOrg.tokenRows ?_ fun k' token' _ h => ⟨token', hkeep k' token' h, rfl⟩
  intro k' token' he ho'
  refine ⟨fun h => ?_, hkeep k' token'⟩
  rcases Table.Change.lookup_put.1 h with ⟨-, rfl⟩ | ⟨-, h⟩
  · exact absurd ho' (ho he)
  · exact h

theorem GuardedOrg.updateToken {k : Ident} {f : MachineToken → MachineToken}
    (hf : ∀ token : MachineToken, (f token).envId = token.envId)
    (ho : ∀ token, token.envId ∉ db.retired → db.machineTokens.lookup k = some token →
      f token ≠ token → db.orgOf token.envId ≠ some o) :
    GuardedOrg o db (Change.apply (.machineTokens (.update k f)) db) := by
  refine GuardedOrg.tokenRows ?_ ?_
  · intro k' token' he ho'
    rw [Table.Change.lookup_update]
    constructor
    · rintro ⟨old, hold, ⟨rfl, rfl⟩ | ⟨-, rfl⟩⟩
      · by_cases hsame : f old = old
        · rw [hsame]
          exact hold
        · rw [hf] at ho' he
          exact absurd ho' (ho old he hold hsame)
      · exact hold
    · intro h
      by_cases hk : k' = k
      · subst hk
        by_cases hsame : f token' = token'
        · exact ⟨token', h, .inl ⟨rfl, hsame.symm⟩⟩
        · exact absurd ho' (ho token' he h hsame)
      · exact ⟨token', h, .inr ⟨hk, rfl⟩⟩
  · intro k' token' _ h
    by_cases hk : k' = k
    · exact ⟨f token', Table.Change.lookup_update.2 ⟨token', h, .inl ⟨hk, rfl⟩⟩, hf token'⟩
    · exact ⟨token', Table.Change.lookup_update.2 ⟨token', h, .inr ⟨hk, rfl⟩⟩, rfl⟩

theorem GuardedOrg.deleteToken {k : Ident}
    (ho : ∀ token, db.machineTokens.lookup k = some token → db.orgOf token.envId ≠ some o) :
    GuardedOrg o db (Change.apply (.machineTokens (.delete k)) db) := by
  have hkeep : ∀ k' token', db.orgOf token'.envId = some o →
      db.machineTokens.lookup k' = some token' →
      ((Table.Change.delete k).apply db.machineTokens).lookup k' = some token' := by
    intro k' token' ho' h
    refine Table.Change.lookup_delete.2 ⟨?_, h⟩
    rintro rfl
    exact ho token' h ho'
  refine GuardedOrg.tokenRows (fun k' token' _ ho' => ⟨fun h => ?_, hkeep k' token' ho'⟩)
    fun k' token' ho' h => ⟨token', hkeep k' token' ho' h, rfl⟩
  exact (Table.Change.lookup_delete.1 h).2

/-- A change of a transaction without the lock of an organisation leaves alone what that guards. -/
theorem Fits.guardedOrg {c : Change} (hc : db.Consistent) (h : Fits t db c)
    (ho : .organization o ∉ t.locks) : GuardedOrg o db (c.apply db) := by
  have hlock : ∀ o', .organization o' ∈ t.locks → o ≠ o' := by
    rintro o' hmem rfl
    exact ho hmem
  cases h with
  | putUser | email | putSecret | updateSecret | deleteSecret | version | putDeletion
  | updateDeletion | auditEvent =>
      exact ⟨fun _ h => h, rfl, rfl, fun _ => rfl, fun _ _ _ => Iff.rfl, fun _ => Iff.rfl,
        fun _ _ _ _ h => h, fun _ _ _ _ => Iff.rfl, fun _ token _ h => ⟨token, h, rfl⟩,
        fun _ _ _ _ => rfl⟩
  | plan hmem => exact GuardedOrg.plans (hlock _ hmem)
  | putOrg hmem | updateOrg hmem => exact GuardedOrg.organizations (hlock _ hmem)
  | putMember hmem | updateMember hmem | deleteMember hmem =>
      refine GuardedOrg.memberships fun u => roleOf_memberships_of_ne ?_
      exact fun heq => hlock _ hmem (Prod.mk.inj heq).1
  | keepMember hf _ =>
      refine GuardedOrg.memberships fun u => ?_
      rw [roleOf_memberships]
      split
      · simp [Table.Change.effect, hf, Function.comp_def, Db.roleOf]
      · rfl
  | @putProject p project _ hnone hmem =>
      refine GuardedOrg.projectRows ?_ fun e env he => hc.projectId_ne hnone he
      intro p' project' ho'
      rw [Table.Change.lookup_put]
      constructor
      · rintro (⟨-, rfl⟩ | ⟨-, h⟩)
        · exact absurd rfl (hlock o (hmem o ho').1)
        · exact h
      · intro h
        refine .inr ⟨?_, h⟩
        rintro rfl
        rw [hnone] at h
        cases h
  | @deleteProject p project o' _ hp ho' hmem _ hempty =>
      refine GuardedOrg.projectRows ?_ hempty
      intro p' project' hproject
      rw [Table.Change.lookup_delete]
      refine ⟨fun h => h.2, fun h => ⟨?_, h⟩⟩
      rintro rfl
      cases hp.symm.trans h
      exact hlock o' hmem (Option.some.inj (hproject.symm.trans ho'))
  | @putEnv e env project _ hnone hp hmem =>
      refine GuardedOrg.environments fun e' => ?_
      rw [orgOf_putEnv]
      split
      · next heq =>
          rw [hp, heq, orgOf_of_none hnone]
          constructor
          · exact fun ho' => absurd rfl (hlock o (hmem o ho'))
          · intro h
            cases h
      · rfl
  | updateEnv _ hf => exact GuardedOrg.environments fun e => by rw [orgOf_updateEnv hf]
  | @deleteEnv e env project o' _ he hp ho' hmem _ _ _ _ =>
      refine GuardedOrg.environments fun e' => ?_
      rw [orgOf_deleteEnv]
      split
      · next heq =>
          refine ⟨fun h => (by cases h), fun h => ?_⟩
          have heo : db.orgOf e' = some o' := orgOf_eq_some.2 ⟨env, project, heq ▸ he, hp, ho'⟩
          exact absurd (Option.some.inj (h.symm.trans heo)) (hlock o' hmem)
      · rfl
  | putGrant _ _ hmember _ =>
      refine GuardedOrg.grantRows ?_
      intro e' u' he ho' h
      rcases Table.Change.isSome_put.1 h with heq | h
      · cases heq
        exact absurd rfl (hlock o (hmember he o ho').1)
      · exact h
  | deleteGrant =>
      exact GuardedOrg.grantRows fun _ _ _ _ h => (Table.Change.isSome_delete.1 h).2
  | putToken _ _ hnone _ _ hmember _ =>
      exact GuardedOrg.putToken hnone fun he ho' => ho (hmember he o ho').1
  | updateToken hf hmem =>
      exact GuardedOrg.updateToken (fun token => (hf token).1)
        fun token he ht hne ho' => ho ((hmem token ht hne o ho').1 he)
  | deleteToken hmem =>
      exact GuardedOrg.deleteToken fun token ht ho' => ho (hmem token ht o ho').1
  | @origin c hnone =>
      refine ⟨fun _ h => h, rfl, rfl, fun _ => rfl, fun _ _ _ => Iff.rfl, fun _ => Iff.rfl,
        fun _ _ _ _ h => h, fun _ _ _ _ => Iff.rfl, fun _ token _ h => ⟨token, h, rfl⟩, ?_⟩
      intro k token _ ht
      refine (lookup_apply _ _ _).trans (if_neg ?_)
      rintro rfl
      rw [hnone] at ht
      cases ht

section Environment

variable {e : Ident}

theorem GuardedEnv.environmentRow {c : Table.Change Ident Environment} (h : e ≠ c.key) :
    GuardedEnv e db (Change.apply (.environments c) db) :=
  ⟨(lookup_apply _ _ _).trans (if_neg h), fun _ secret h he => ⟨secret, h, he⟩, fun _ h => h,
    fun _ secret h he => ⟨secret, h, he⟩, fun _ token h he => ⟨token, h, he⟩⟩

theorem GuardedEnv.grantRows {c : Table.Change (Ident × Ident) Bytes}
    (h : ∀ u, ((c.apply db.grants).lookup (e, u)).isSome → (db.grants.lookup (e, u)).isSome) :
    GuardedEnv e db (Change.apply (.grants c) db) :=
  ⟨rfl, fun _ secret h he => ⟨secret, h, he⟩, h, fun _ secret h he => ⟨secret, h, he⟩,
    fun _ token h he => ⟨token, h, he⟩⟩

theorem GuardedEnv.secretRows {c : Table.Change Ident Secret}
    (h : ∀ s secret, db.secrets.lookup s = some secret → secret.envId = e →
      ∃ secret', (c.apply db.secrets).lookup s = some secret' ∧ secret'.envId = e)
    (hnew : ∀ s secret, (c.apply db.secrets).lookup s = some secret → secret.envId = e →
      ∃ secret', db.secrets.lookup s = some secret' ∧ secret'.envId = e) :
    GuardedEnv e db (Change.apply (.secrets c) db) :=
  ⟨rfl, h, fun _ h => h, hnew, fun _ token h he => ⟨token, h, he⟩⟩

theorem GuardedEnv.tokenRows {c : Table.Change Ident MachineToken}
    (h : ∀ k token, (c.apply db.machineTokens).lookup k = some token → token.envId = e →
      ∃ token', db.machineTokens.lookup k = some token' ∧ token'.envId = e) :
    GuardedEnv e db (Change.apply (.machineTokens c) db) :=
  ⟨rfl, fun _ secret h he => ⟨secret, h, he⟩, fun _ h => h, fun _ secret h he => ⟨secret, h, he⟩, h⟩

/-- A change of a transaction that locks neither an environment nor its key leaves alone what the
lock of the environment guards. -/
theorem Fits.guardedEnv {c : Change} (h : Fits t db c) (he : .environment e ∉ t.locks)
    (hkey : .environmentKey e ∉ t.locks) : GuardedEnv e db (c.apply db) := by
  cases h with
  | putEnv hmem | updateEnv hmem | deleteEnv hmem =>
      refine GuardedEnv.environmentRow ?_
      rintro rfl
      exact he hmem
  | @putGrant e' u' v hmem =>
      refine GuardedEnv.grantRows fun u hg => ?_
      rcases Table.Change.isSome_put.1 hg with heq | hg
      · cases heq
        exact absurd hmem hkey
      · exact hg
  | deleteGrant =>
      exact GuardedEnv.grantRows fun u hg => (Table.Change.isSome_delete.1 hg).2
  | @putSecret s secret _ hmem _ hold =>
      have hother : secret.envId ≠ e := fun heq => he (heq ▸ hmem)
      refine GuardedEnv.secretRows (fun s' secret' hs' he' => ?_) fun s' secret' hs' he' => ?_
      · refine ⟨secret', Table.Change.lookup_put.2 (.inr ⟨?_, hs'⟩), he'⟩
        rintro rfl
        exact hother ((hold _ hs').symm.trans he')
      · rcases Table.Change.lookup_put.1 hs' with ⟨-, rfl⟩ | ⟨-, hs'⟩
        · exact absurd he' hother
        · exact ⟨secret', hs', he'⟩
  | @updateSecret s f hf =>
      refine GuardedEnv.secretRows (fun s' secret' hs' he' => ?_) fun s' secret' hs' he' => ?_
      · by_cases hsame : s' = s
        · exact ⟨f secret', Table.Change.lookup_update.2 ⟨_, hs', .inl ⟨hsame, rfl⟩⟩,
            (hf secret').trans he'⟩
        · exact ⟨secret', Table.Change.lookup_update.2 ⟨_, hs', .inr ⟨hsame, rfl⟩⟩, he'⟩
      · obtain ⟨old, hold, ⟨-, rfl⟩ | ⟨-, rfl⟩⟩ := Table.Change.lookup_update.1 hs'
        · exact ⟨old, hold, (hf old).symm.trans he'⟩
        · exact ⟨secret', hold, he'⟩
  | @deleteSecret s hmem =>
      refine GuardedEnv.secretRows (fun s' secret' hs' he' => ?_) fun s' secret' hs' he' =>
        ⟨secret', (Table.Change.lookup_delete.1 hs').2, he'⟩
      refine ⟨secret', Table.Change.lookup_delete.2 ⟨?_, hs'⟩, he'⟩
      rintro rfl
      exact he (he' ▸ (hmem secret' hs').1)
  | putToken _ hmem =>
      refine GuardedEnv.tokenRows fun k' token' ht' he' => ?_
      rcases Table.Change.lookup_put.1 ht' with ⟨-, rfl⟩ | ⟨-, ht'⟩
      · exact absurd (he' ▸ hmem) hkey
      · exact ⟨token', ht', he'⟩
  | updateToken hf =>
      refine GuardedEnv.tokenRows fun k' token' ht' he' => ?_
      obtain ⟨old, hold, ⟨-, rfl⟩ | ⟨-, rfl⟩⟩ := Table.Change.lookup_update.1 ht'
      · exact ⟨old, hold, (hf old).1.symm.trans he'⟩
      · exact ⟨token', hold, he'⟩
  | deleteToken =>
      exact GuardedEnv.tokenRows fun k' token' ht' he' =>
        ⟨token', (Table.Change.lookup_delete.1 ht').2, he'⟩
  | _ => exact ⟨rfl, fun _ secret h he => ⟨secret, h, he⟩, fun _ h => h,
      fun _ secret h he => ⟨secret, h, he⟩, fun _ token h he => ⟨token, h, he⟩⟩

end Environment

/-- A change of a transaction leaves alone what is guarded by a lock that conflicts with none of
its own. -/
theorem Fits.guarded {c : Change} {k : Lock} (hc : db.Consistent) (h : Fits t db c)
    (hlocks : ∀ k' ∈ t.locks, ¬ k.Conflicts k') : Guarded k db (c.apply db) := by
  have hk : k.Conflicts k → k ∉ t.locks := fun hself hmem => hlocks k hmem hself
  cases k with
  | organization o => exact h.guardedOrg hc (hk rfl)
  | environmentKey e =>
      cases h with
      | @putEnv e' => exact fun h => Table.Change.isSome_put.2 (.inr h)
      | @updateEnv e' => exact fun h => Table.Change.isSome_update.2 h
      | @deleteEnv e' _ _ _ hmem =>
          refine fun h => Table.Change.isSome_delete.2 ⟨?_, h⟩
          rintro rfl
          exact hlocks _ hmem rfl
      | _ => exact fun h => h
  | user u =>
      cases h with
      | putUser hlock =>
          intro hnone
          refine (lookup_apply _ _ _).trans ((if_neg ?_).trans hnone)
          rintro rfl
          exact hk rfl (hlock hnone)
      | _ => exact fun h => h
  | project p =>
      cases h with
      | putProject hmem | deleteProject hmem =>
          refine (lookup_apply _ _ _).trans (if_neg ?_)
          rintro rfl
          exact hk rfl hmem
      | _ => rfl
  | environment e =>
      exact h.guardedEnv (hk rfl) fun hmem => hlocks (.environmentKey e) hmem rfl
  | secret s =>
      cases h with
      | putSecret hmem =>
          intro secret h
          rcases Table.Change.lookup_put.1 h with ⟨rfl, -⟩ | ⟨-, h⟩
          · exact absurd hmem (hk rfl)
          · exact ⟨secret, h, rfl⟩
      | updateSecret hf =>
          intro secret h
          obtain ⟨old, hold, ⟨-, rfl⟩ | ⟨-, rfl⟩⟩ := Table.Change.lookup_update.1 h
          · exact ⟨_, hold, (hf _).symm⟩
          · exact ⟨_, hold, rfl⟩
      | deleteSecret =>
          exact fun secret h => ⟨secret, (Table.Change.lookup_delete.1 h).2, rfl⟩
      | _ => exact fun secret h => ⟨secret, h, rfl⟩
  | machineToken k =>
      cases h with
      | putToken hmem =>
          intro hnone
          refine (lookup_apply _ _ _).trans ((if_neg ?_).trans hnone)
          rintro rfl
          exact hk rfl hmem
      | updateToken => exact Table.Change.lookup_update_of_none
      | deleteToken => exact Table.Change.lookup_delete_of_none
      | _ => exact fun h => h
  | deletion id =>
      cases h with
      | putDeletion hmem =>
          intro hnone
          refine (lookup_apply _ _ _).trans ((if_neg ?_).trans hnone)
          rintro rfl
          exact hk rfl hmem
      | updateDeletion => exact Table.Change.lookup_update_of_none
      | _ => exact fun h => h
  | judged | named => trivial

end Organization

end Org

end Sotto
