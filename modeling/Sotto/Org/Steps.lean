import Sotto.Org.Fits

/-!
# What a fitting change preserves

One step lemma for each: the consistency of the database, its owners, how it evolves, what the locks
of others guard, and what the organisations hold whose holdings are not to change.
-/

namespace Sotto

namespace Org

open Core (Ident Bytes)
open Server (Membership Project Environment Organization)
open Table.Change (lookup_apply)

section Lookups

variable {t : Terms} {db : Db} {c : Change}

theorem roleOf_memberships (c : Table.Change (Ident × Ident) Membership) (o u : Ident) :
    (Change.apply (.memberships c) db).roleOf o u =
      if (o, u) = c.key then (c.effect (db.memberships.lookup (o, u))).map Membership.role
      else db.roleOf o u := by
  show ((c.apply db.memberships).lookup (o, u)).map _ = _
  rw [lookup_apply]
  split <;> rfl

theorem lifecycleOf_organizations (c : Table.Change Ident Organization) (o : Ident) :
    (Change.apply (.organizations c) db).lifecycleOf o =
      if o = c.key then (c.effect (db.organizations.lookup o)).map Organization.lifecycle
      else db.lifecycleOf o := by
  show ((c.apply db.organizations).lookup o).map _ = _
  rw [lookup_apply]
  split <;> rfl

theorem orgOf_eq_some {db : Db} {e o : Ident} : db.orgOf e = some o ↔
    ∃ env project, db.environments.lookup e = some env ∧
      db.projects.lookup env.projectId = some project ∧ project.orgId = some o := by
  unfold Server.Db.orgOf
  simp [Option.bind_eq_some_iff]

/-- A project that no environment refers to is the project of none. -/
theorem orgOf_projects {c : Table.Change Ident Project}
    (h : ∀ e env, db.environments.lookup e = some env → env.projectId ≠ c.key) (e : Ident) :
    (Change.apply (.projects c) db).orgOf e = db.orgOf e := by
  show ((db.environments.lookup e).bind fun env =>
    ((c.apply db.projects).lookup env.projectId).bind Project.orgId) = _
  unfold Server.Db.orgOf
  cases hlookup : db.environments.lookup e with
  | none => rfl
  | some env =>
      show ((c.apply db.projects).lookup env.projectId).bind _ =
        (db.projects.lookup env.projectId).bind _
      rw [lookup_apply, if_neg (h e env hlookup)]

theorem orgOf_putEnv (e : Ident) (env : Environment) (e' : Ident) :
    (Change.apply (.environments (.put e env)) db).orgOf e' =
      if e' = e then (db.projects.lookup env.projectId).bind Project.orgId else db.orgOf e' := by
  show (((Table.Change.put e env).apply db.environments).lookup e').bind _ = _
  rw [lookup_apply]
  change (if e' = e then _ else _ : Option Environment).bind _ = _
  split <;> rfl

theorem orgOf_updateEnv {e : Ident} {f : Environment → Environment}
    (hf : ∀ env, (f env).projectId = env.projectId) (e' : Ident) :
    (Change.apply (.environments (.update e f)) db).orgOf e' = db.orgOf e' := by
  show (((Table.Change.update e f).apply db.environments).lookup e').bind _ =
    (db.environments.lookup e').bind _
  rw [lookup_apply]
  split
  · cases db.environments.lookup e' with
    | none => rfl
    | some env =>
        show (db.projects.lookup (f env).projectId).bind _ =
          (db.projects.lookup env.projectId).bind _
        rw [hf]
  · rfl

theorem orgOf_deleteEnv (e e' : Ident) :
    (Change.apply (.environments (.delete e)) db).orgOf e' =
      if e' = e then none else db.orgOf e' := by
  show (((Table.Change.delete e).apply db.environments).lookup e').bind _ = _
  rw [lookup_apply]
  change (if e' = e then _ else _ : Option Environment).bind _ = _
  split <;> rfl

/-- An organisation has no environment that is not there. -/
theorem orgOf_of_none {e : Ident} (h : db.environments.lookup e = none) : db.orgOf e = none := by
  unfold Server.Db.orgOf
  rw [h]
  rfl

/-- No environment refers to a project that is not there. -/
theorem Db.Consistent.projectId_ne (hc : db.Consistent) {p : Ident}
    (hp : db.projects.lookup p = none) {e : Ident} {env : Environment}
    (he : db.environments.lookup e = some env) : env.projectId ≠ p := by
  rintro rfl
  have hsome := hc.projectOf he
  rw [hp] at hsome
  cases hsome

end Lookups

section Consistent

variable {t : Terms} {db : Db} {c : Change}

/-- Changes to memberships keep the members who hold something. -/
theorem Db.Consistent.memberships (hc : db.Consistent)
    {c : Table.Change (Ident × Ident) Membership}
    (hgrants : ∀ e u o, e ∉ db.retired → (db.grants.lookup (e, u)).isSome → db.orgOf e = some o →
      (db.roleOf o u).isSome → ((Change.apply (.memberships c) db).roleOf o u).isSome)
    (htokens : ∀ t token origin o, token.envId ∉ db.retired →
      db.machineTokens.lookup t = some token → token.revoked = false →
      db.tokenOrigins.lookup t = some origin →
      db.orgOf token.envId = some o → (db.roleOf o origin.createdBy).isSome →
      ((Change.apply (.memberships c) db).roleOf o origin.createdBy).isSome) :
    (Change.apply (.memberships c) db).Consistent where
  projectOf := hc.projectOf
  envOfGrant := hc.envOfGrant
  envOfSecret := hc.envOfSecret
  envOfToken := hc.envOfToken
  originOf := hc.originOf
  grants he hg ho := hgrants _ _ _ he hg ho (hc.grants he hg ho)
  tokens he ht hr horigin ho :=
    htokens _ _ _ _ he ht hr horigin ho (hc.tokens he ht hr horigin ho)

theorem isSome_roleOf_put {k : Ident × Ident} {m : Membership} {o u : Ident}
    (h : (db.roleOf o u).isSome) :
    ((Change.apply (.memberships (.put k m)) db).roleOf o u).isSome := by
  rw [roleOf_memberships]
  split
  · rfl
  · exact h

theorem isSome_roleOf_update {k : Ident × Ident} {f : Membership → Membership} {o u : Ident}
    (h : (db.roleOf o u).isSome) :
    ((Change.apply (.memberships (.update k f)) db).roleOf o u).isSome := by
  rw [roleOf_memberships]
  split
  · simpa [Table.Change.effect, Db.roleOf] using h
  · exact h

/-- Changes that move no environment to another organisation. -/
theorem Db.Consistent.places (hc : db.Consistent) {db' : Db}
    (hprojectOf : ∀ {e env}, db'.environments.lookup e = some env →
      (db'.projects.lookup env.projectId).isSome)
    (henvs : ∀ e, (db.environments.lookup e).isSome → (db'.environments.lookup e).isSome)
    (horgOf : ∀ e, (db.environments.lookup e).isSome → db'.orgOf e = db.orgOf e)
    (hgrants : db'.grants = db.grants) (hsecrets : db'.secrets = db.secrets)
    (htokens : db'.machineTokens = db.machineTokens)
    (horigins : db'.tokenOrigins = db.tokenOrigins)
    (hmemberships : db'.memberships = db.memberships)
    (hretired : db'.retired = db.retired) : db'.Consistent where
  projectOf := hprojectOf
  envOfGrant h := henvs _ (hc.envOfGrant (hgrants ▸ h))
  envOfSecret h := henvs _ (hc.envOfSecret (hsecrets ▸ h))
  envOfToken h := henvs _ (hc.envOfToken (htokens ▸ h))
  originOf := by
    rw [htokens, horigins]
    exact hc.originOf
  grants := by
    intro e u o he hg ho
    unfold Db.roleOf
    rw [hretired] at he
    rw [hgrants] at hg
    rw [horgOf e (hc.envOfGrant hg)] at ho
    rw [hmemberships]
    exact hc.grants he hg ho
  tokens := by
    intro k token origin o he ht hr horigin ho
    unfold Db.roleOf
    rw [hretired] at he
    rw [htokens] at ht
    rw [horigins] at horigin
    rw [horgOf _ (hc.envOfToken ht)] at ho
    rw [hmemberships]
    exact hc.tokens he ht hr horigin ho

theorem Db.Consistent.putProject (hc : db.Consistent) {p : Ident} {project : Project}
    (hnone : db.projects.lookup p = none) :
    (Change.apply (.projects (.put p project)) db).Consistent := by
  refine hc.places ?_ (fun _ h => h) (fun e _ => ?_) rfl rfl rfl rfl rfl rfl
  · intro e env he
    exact Table.Change.isSome_put.2 (.inr (hc.projectOf he))
  · exact orgOf_projects (c := .put p project) (fun _ _ he => hc.projectId_ne hnone he) e

theorem Db.Consistent.deleteProject (hc : db.Consistent) {p : Ident}
    (hempty : ∀ e env, db.environments.lookup e = some env → env.projectId ≠ p) :
    (Change.apply (.projects (.delete p)) db).Consistent := by
  refine hc.places ?_ (fun _ h => h) (fun e _ => ?_) rfl rfl rfl rfl rfl rfl
  · intro e env he
    exact Table.Change.isSome_delete.2 ⟨hempty e env he, hc.projectOf he⟩
  · exact orgOf_projects (c := .delete p) hempty e

theorem Db.Consistent.putEnv (hc : db.Consistent) {e : Ident} {env : Environment}
    {project : Project} (hnone : db.environments.lookup e = none)
    (hproject : db.projects.lookup env.projectId = some project) :
    (Change.apply (.environments (.put e env)) db).Consistent := by
  refine hc.places ?_ (fun _ h => ?_) (fun e' h => ?_) rfl rfl rfl rfl rfl rfl
  · intro e' env' he
    rcases Table.Change.lookup_put.1 he with ⟨-, rfl⟩ | ⟨-, he⟩
    · exact Option.isSome_of_mem hproject
    · exact hc.projectOf he
  · exact Table.Change.isSome_put.2 (.inr h)
  · rw [orgOf_putEnv, if_neg]
    rintro rfl
    rw [hnone] at h
    cases h

theorem Db.Consistent.updateEnv (hc : db.Consistent) {e : Ident} {f : Environment → Environment}
    (hf : ∀ env, (f env).projectId = env.projectId) :
    (Change.apply (.environments (.update e f)) db).Consistent := by
  refine hc.places ?_ (fun _ h => ?_) (fun e' _ => orgOf_updateEnv hf e') rfl rfl rfl rfl rfl rfl
  · intro e' env' he
    obtain ⟨env, henv, ⟨-, rfl⟩ | ⟨-, rfl⟩⟩ := Table.Change.lookup_update.1 he
    · show (db.projects.lookup _).isSome
      rw [hf]
      exact hc.projectOf henv
    · exact hc.projectOf henv
  · exact Table.Change.isSome_update.2 h

theorem Db.Consistent.deleteEnv (hc : db.Consistent) {e : Ident}
    (hgrants : ∀ u, db.grants.lookup (e, u) = none)
    (hsecrets : ∀ s secret, db.secrets.lookup s = some secret → secret.envId ≠ e)
    (htokens : ∀ t token, db.machineTokens.lookup t = some token → token.envId ≠ e) :
    (Change.apply (.environments (.delete e)) db).Consistent where
  projectOf h := hc.projectOf (Table.Change.lookup_delete.1 h).2
  envOfGrant := by
    intro e' u h
    refine Table.Change.isSome_delete.2 ⟨?_, hc.envOfGrant h⟩
    rintro rfl
    have hnone := hgrants u
    change (db.grants.lookup (e', u)).isSome at h
    rw [hnone] at h
    cases h
  envOfSecret h := Table.Change.isSome_delete.2 ⟨hsecrets _ _ h, hc.envOfSecret h⟩
  envOfToken h := Table.Change.isSome_delete.2 ⟨htokens _ _ h, hc.envOfToken h⟩
  originOf := hc.originOf
  grants := by
    intro e' u o he hg ho
    rw [orgOf_deleteEnv] at ho
    split at ho
    · cases ho
    · exact hc.grants (fun h => he (List.mem_cons_of_mem _ h)) hg ho
  tokens := by
    intro k token origin o he ht hr horigin ho
    rw [orgOf_deleteEnv] at ho
    split at ho
    · cases ho
    · exact hc.tokens (fun h => he (List.mem_cons_of_mem _ h)) ht hr horigin ho

theorem Db.Consistent.updateToken (hc : db.Consistent) {k : Ident}
    {f : Server.MachineToken → Server.MachineToken}
    (hf : ∀ token : Server.MachineToken, (f token).envId = token.envId ∧
      (token.revoked = true → (f token).revoked = true)) :
    (Change.apply (.machineTokens (.update k f)) db).Consistent where
  projectOf := hc.projectOf
  envOfGrant := hc.envOfGrant
  envOfSecret := hc.envOfSecret
  envOfToken := by
    intro k' token h
    obtain ⟨old, hold, ⟨-, rfl⟩ | ⟨-, rfl⟩⟩ := Table.Change.lookup_update.1 h
    · rw [(hf old).1]
      exact hc.envOfToken hold
    · exact hc.envOfToken hold
  originOf h := hc.originOf (Table.Change.isSome_update.1 h)
  grants := hc.grants
  tokens := by
    intro k' token origin o he h hr horigin ho
    obtain ⟨old, hold, ⟨-, rfl⟩ | ⟨-, rfl⟩⟩ := Table.Change.lookup_update.1 h
    · rw [(hf old).1] at ho he
      refine hc.tokens he hold ?_ horigin ho
      by_contra hrevoked
      rw [(hf old).2 (by simpa using hrevoked)] at hr
      cases hr
    · exact hc.tokens he hold hr horigin ho

/-- What a fitting change does to organisations keeps them, and those that are deleted. -/
theorem Fits.organizations {c : Table.Change Ident Organization}
    (h : Fits t db (.organizations c)) :
    (∀ o, (db.lifecycleOf o).isSome →
      ((Change.apply (.organizations c) db).lifecycleOf o).isSome) ∧
    ∀ o, db.lifecycleOf o = some .deleted →
      (Change.apply (.organizations c) db).lifecycleOf o = some .deleted := by
  cases h with
  | @putOrg o org _ hnone _ _ =>
      have hne : ∀ o', (db.lifecycleOf o').isSome → ¬ o' = (Table.Change.put o org).key := by
        intro o' h heq
        obtain rfl : o' = o := heq
        rw [Db.lifecycleOf, hnone] at h
        cases h
      refine ⟨fun o' h => ?_, fun o' h => ?_⟩
      · rw [lifecycleOf_organizations, if_neg (hne o' h)]
        exact h
      · rw [lifecycleOf_organizations, if_neg (hne o' (by rw [h]; rfl))]
        exact h
  | @updateOrg o f _ hf =>
      refine ⟨fun o' h => ?_, fun o' h => ?_⟩ <;> rw [lifecycleOf_organizations] <;> split
      · simpa [Table.Change.effect, Db.lifecycleOf] using h
      · exact h
      · next heq =>
          obtain rfl : o' = o := heq
          obtain ⟨org, horg, hdeleted⟩ := Option.map_eq_some_iff.1 h
          rcases hf org horg with hiff | ⟨hne, -⟩
          · simp [Table.Change.effect, horg, hiff.1 hdeleted]
          · exact absurd hdeleted hne
      · exact h

/-- A fitting change keeps the database consistent. -/
theorem Db.Consistent.apply (hc : db.Consistent) (h : Fits t db c) : (c.apply db).Consistent := by
  cases h with
  | putUser | email | putOrg | updateOrg | plan | version | putDeletion | updateDeletion
  | auditEvent => exact ⟨hc.1, hc.2, hc.3, hc.4, hc.5, hc.6, hc.7⟩
  | putMember =>
      exact hc.memberships (fun _ _ _ _ _ _ h => isSome_roleOf_put h)
        fun _ _ _ _ _ _ _ _ _ h => isSome_roleOf_put h
  | keepMember | updateMember =>
      exact hc.memberships (fun _ _ _ _ _ _ h => isSome_roleOf_update h)
        fun _ _ _ _ _ _ _ _ _ h => isSome_roleOf_update h
  | @deleteMember o u _ _ hnoGrants hnoTokens _ =>
      refine hc.memberships ?_ ?_
      · intro e u' o' he hg ho h
        rw [roleOf_memberships, if_neg]
        · exact h
        · rintro ⟨rfl, rfl⟩
          rw [hnoGrants e he ho] at hg
          cases hg
      · intro k token origin o' he htoken hr horigin ho h
        rw [roleOf_memberships, if_neg]
        · exact h
        · intro heq
          cases heq
          exact hnoTokens k token origin he htoken hr horigin rfl ho
  | putProject _ hnone => exact hc.putProject hnone
  | deleteProject _ _ _ _ _ hempty => exact hc.deleteProject hempty
  | putEnv _ hnone hproject => exact hc.putEnv hnone hproject
  | updateEnv _ hf => exact hc.updateEnv hf
  | deleteEnv _ _ _ _ _ _ hgrants hsecrets htokens => exact hc.deleteEnv hgrants hsecrets htokens
  | @putGrant e u v _ henv hmember _ =>
      refine ⟨hc.1, ?_, hc.3, hc.4, hc.5, ?_, hc.7⟩
      · intro e' u' h
        rcases Table.Change.isSome_put.1 h with heq | h
        · cases heq
          exact henv
        · exact hc.envOfGrant h
      · intro e' u' o he h ho
        rcases Table.Change.isSome_put.1 h with heq | h
        · cases heq
          exact (hmember he o ho).2.1
        · exact hc.grants he h ho
  | deleteGrant =>
      exact ⟨hc.1, fun h => hc.envOfGrant (Table.Change.isSome_delete.1 h).2, hc.3, hc.4, hc.5,
        fun he h => hc.grants he (Table.Change.isSome_delete.1 h).2, hc.7⟩
  | putSecret _ _ henv =>
      refine ⟨hc.1, hc.2, ?_, hc.4, hc.5, hc.6, hc.7⟩
      intro s' secret' h
      rcases Table.Change.lookup_put.1 h with ⟨-, rfl⟩ | ⟨-, h⟩
      · exact henv
      · exact hc.envOfSecret h
  | updateSecret hf =>
      refine ⟨hc.1, hc.2, ?_, hc.4, hc.5, hc.6, hc.7⟩
      intro s' secret' h
      obtain ⟨old, hold, ⟨-, rfl⟩ | ⟨-, rfl⟩⟩ := Table.Change.lookup_update.1 h
      · rw [hf]
        exact hc.envOfSecret hold
      · exact hc.envOfSecret hold
  | deleteSecret =>
      exact ⟨hc.1, hc.2, fun h => hc.envOfSecret (Table.Change.lookup_delete.1 h).2, hc.4, hc.5,
        hc.6, hc.7⟩
  | putToken _ _ hnone henv horigin hmember _ =>
      refine ⟨hc.1, hc.2, hc.3, ?_, ?_, hc.6, ?_⟩
      · intro k' token' h
        rcases Table.Change.lookup_put.1 h with ⟨-, rfl⟩ | ⟨-, h⟩
        · exact henv
        · exact hc.envOfToken h
      · intro k' h
        rcases Table.Change.isSome_put.1 h with rfl | h
        · exact Option.isSome_of_mem horigin
        · exact hc.originOf h
      · intro k' token' origin' o he h hr horigin' ho
        rcases Table.Change.lookup_put.1 h with ⟨rfl, rfl⟩ | ⟨-, h⟩
        · cases horigin.symm.trans horigin'
          exact (hmember he o ho).2
        · exact hc.tokens he h hr horigin' ho
  | updateToken hf => exact hc.updateToken hf
  | deleteToken =>
      exact ⟨hc.1, hc.2, hc.3, fun h => hc.envOfToken (Table.Change.lookup_delete.1 h).2,
        fun h => hc.originOf (Table.Change.isSome_delete.1 h).2, hc.6,
        fun he h => hc.tokens he (Table.Change.lookup_delete.1 h).2⟩
  | @origin c hnone =>
      have hsame : ∀ {k}, (db.machineTokens.lookup k).isSome →
          (c.apply db.tokenOrigins).lookup k = db.tokenOrigins.lookup k := by
        intro k h
        rw [lookup_apply, if_neg]
        rintro rfl
        rw [hnone] at h
        cases h
      refine ⟨hc.1, hc.2, hc.3, hc.4, ?_, hc.6, ?_⟩
      · intro k h
        show ((c.apply db.tokenOrigins).lookup k).isSome
        rw [hsame h]
        exact hc.originOf h
      · intro k token origin o he htoken hr horigin ho
        change (c.apply db.tokenOrigins).lookup k = some origin at horigin
        rw [hsame (Option.isSome_of_mem htoken)] at horigin
        exact hc.tokens he htoken hr horigin ho

end Consistent

section Owners

variable {t : Terms} {db : Db} {c : Change}

theorem roleOf_memberships_of_ne {c : Table.Change (Ident × Ident) Membership} {o u : Ident}
    (h : (o, u) ≠ c.key) : (Change.apply (.memberships c) db).roleOf o u = db.roleOf o u := by
  rw [roleOf_memberships, if_neg h]

/-- Changes to memberships keep the owners of each organisation, or leave it another one. -/
theorem Db.OwnedBut.memberships {excepted : Ident → Prop} (ho : db.OwnedBut excepted)
    {c : Table.Change (Ident × Ident) Membership}
    (h : ∀ o u, db.roleOf o u = some .owner →
      (∃ u', (Change.apply (.memberships c) db).roleOf o u' = some .owner) ∨ excepted o) :
    (Change.apply (.memberships c) db).OwnedBut excepted := by
  intro o l hl hne
  rcases ho o l hl hne with ⟨u, hu⟩ | hexcepted
  · exact h o u hu
  · exact .inr hexcepted

/-- An organisation keeps an owner, unless it is deleted or gets one in the same transaction. -/
theorem Db.OwnedBut.apply (ho : db.OwnedBut fun o => t.gone o ∨ t.owned o) (h : Fits t db c) :
    (c.apply db).OwnedBut fun o => t.gone o ∨ t.owned o := by
  cases h with
  | putUser | email | plan | putProject | deleteProject | putEnv | updateEnv | deleteEnv | putGrant
  | deleteGrant | putSecret | updateSecret | deleteSecret | version | putToken | updateToken
  | deleteToken | origin | putDeletion | updateDeletion | auditEvent => exact ho
  | putOrg _ _ _ howned =>
      intro o' l hl hne
      rw [lifecycleOf_organizations] at hl
      split at hl
      · next heq => exact .inr (.inr (heq ▸ howned))
      · exact ho o' l hl hne
  | @updateOrg o f _ hf =>
      intro o' l hl hne
      rw [lifecycleOf_organizations] at hl
      split at hl
      · next heq =>
          obtain rfl : o' = o := heq
          cases horg : db.organizations.lookup o' with
          | none =>
              rw [horg] at hl
              cases hl
          | some org =>
              rw [horg] at hl
              injection hl with hl
              rcases hf org horg with hiff | ⟨-, hgone⟩
              · refine ho o' org.lifecycle (by rw [Db.lifecycleOf, horg]; rfl) ?_
                intro hdeleted
                exact hne (hl ▸ hiff.1 hdeleted)
              · exact .inr (.inl hgone)
      · exact ho o' l hl hne
  | @putMember o u m _ hnone _ _ =>
      refine ho.memberships fun o' u' hu => .inl ⟨u', ?_⟩
      rw [roleOf_memberships_of_ne, hu]
      intro heq
      rw [Db.roleOf, heq, show db.memberships.lookup (Table.Change.put (o, u) m).key = none
        from hnone] at hu
      cases hu
  | keepMember hf _ =>
      refine ho.memberships fun o' u' hu => .inl ⟨u', ?_⟩
      rw [roleOf_memberships]
      split
      · simpa [Table.Change.effect, hf, Function.comp_def, Db.roleOf] using hu
      · exact hu
  | @updateMember o u f _ howner _ =>
      refine ho.memberships fun o' u' hu => .inl ?_
      by_cases heq : (o', u') = (o, u)
      · obtain ⟨rfl, rfl⟩ := Prod.mk.inj heq
        rcases howner hu with hf | ⟨u₂, hne, hu₂⟩
        · refine ⟨u', ?_⟩
          rw [roleOf_memberships, if_pos (show (o', u') = (Table.Change.update _ f).key from rfl)]
          obtain ⟨m, hm, -⟩ := Option.map_eq_some_iff.1 hu
          simp [Table.Change.effect, hm, hf]
        · refine ⟨u₂, ?_⟩
          rw [roleOf_memberships_of_ne, hu₂]
          exact fun h => hne (Prod.mk.inj h).2
      · exact ⟨u', by rw [roleOf_memberships_of_ne heq, hu]⟩
  | @deleteMember o u _ howner _ _ _ =>
      refine ho.memberships fun o' u' hu => ?_
      by_cases heq : (o', u') = (o, u)
      · obtain ⟨rfl, rfl⟩ := Prod.mk.inj heq
        rcases howner hu with hgone | ⟨u₂, hne, hu₂⟩
        · exact .inr (.inl hgone)
        · refine .inl ⟨u₂, ?_⟩
          rw [roleOf_memberships_of_ne, hu₂]
          exact fun h => hne (Prod.mk.inj h).2
      · exact .inl ⟨u', by rw [roleOf_memberships_of_ne heq, hu]⟩

end Owners

section Evolution

variable {t : Terms} {db : Db} {c : Change} {gone : Ident → Prop}

theorem LaterBut.refl (gone : Ident → Prop) (db : Db) : LaterBut gone db db :=
  ⟨fun _ h => h, fun _ h => h, fun _ h => h, fun _ _ h => .inl h, fun _ h => h,
    fun _ env _ h hp => .inl ⟨hp, env, h, rfl⟩⟩

theorem LaterBut.trans {d d' db : Db} (h : LaterBut gone d d') (h' : LaterBut gone d' db) :
    LaterBut gone d db where
  users u hu := h'.users u (h.users u hu)
  organizations o ho := h'.organizations o (h.organizations o ho)
  deleted o ho := h'.deleted o (h.deleted o ho)
  projects := by
    intro p project hp
    rcases h.projects p project hp with hp | ⟨o, ho, hgone | hdeleted⟩
    · exact h'.projects p project hp
    · exact .inr ⟨o, ho, .inl hgone⟩
    · exact .inr ⟨o, ho, .inr (h'.deleted o hdeleted)⟩
  retired e he := h'.retired e (h.retired e he)
  environments := by
    intro e env project he hp
    rcases h.environments e env project he hp with ⟨hp', env', he', heq⟩ | hretired
    · have hnext := h'.environments e env' project he' (heq ▸ hp')
      rw [heq] at hnext
      exact hnext
    · exact .inr (h'.retired e hretired)

/-- Where those that were to be deleted are deleted, nothing was excepted. -/
theorem LaterBut.later {d db : Db} (h : LaterBut gone d db)
    (hgone : ∀ o, gone o → db.lifecycleOf o = some .deleted) : Later d db where
  users := h.users
  organizations := h.organizations
  deleted := h.deleted
  projects := by
    intro p project hp
    rcases h.projects p project hp with hp | ⟨o, ho, hg | hdeleted⟩
    · exact .inl hp
    · exact .inr ⟨o, ho, .inr (hgone o hg)⟩
    · exact .inr ⟨o, ho, .inr hdeleted⟩
  retired := h.retired
  environments := h.environments

/-- How a fitting change lets the database evolve. -/
theorem Fits.laterBut (h : Fits t db c) : LaterBut t.gone db (c.apply db) := by
  have hrefl := LaterBut.refl t.gone db
  cases h with
  | email | plan | putMember | keepMember | updateMember | deleteMember | putGrant | deleteGrant
  | putSecret | updateSecret | deleteSecret | version | putToken | updateToken | deleteToken
  | origin | putDeletion | updateDeletion | auditEvent =>
      exact ⟨hrefl.1, hrefl.2, hrefl.3, hrefl.4, hrefl.5, hrefl.6⟩
  | putUser _ =>
      exact ⟨fun _ h => Table.Change.isSome_put.2 (.inr h), hrefl.2, hrefl.3, hrefl.4, hrefl.5,
        hrefl.6⟩
  | putOrg hlock hnone hactive howned =>
      obtain ⟨hsome, hdeleted⟩ := (Fits.putOrg hlock hnone hactive howned).organizations
      exact ⟨hrefl.1, hsome, hdeleted, fun _ _ h => .inl h, fun _ h => h,
        fun _ env _ h hp => .inl ⟨hp, env, h, rfl⟩⟩
  | updateOrg hlock hf =>
      obtain ⟨hsome, hdeleted⟩ := (Fits.updateOrg hlock hf).organizations
      exact ⟨hrefl.1, hsome, hdeleted, fun _ _ h => .inl h, fun _ h => h,
        fun _ env _ h hp => .inl ⟨hp, env, h, rfl⟩⟩
  | @putProject p project _ hnone _ =>
      have hkeep : ∀ p' project', db.projects.lookup p' = some project' →
          ((Table.Change.put p project).apply db.projects).lookup p' = some project' := by
        intro p' project' h
        refine Table.Change.lookup_put.2 (.inr ⟨?_, h⟩)
        rintro rfl
        rw [hnone] at h
        cases h
      exact ⟨hrefl.1, hrefl.2, hrefl.3, fun p' project' h => .inl (hkeep p' project' h),
        fun _ h => h, fun e env project' he hp => .inl ⟨hkeep _ _ hp, env, he, rfl⟩⟩
  | @deleteProject p project o _ hp ho _ hgone hempty =>
      refine ⟨hrefl.1, hrefl.2, hrefl.3, ?_, fun _ h => h, ?_⟩
      · intro p' project' h
        by_cases heq : p' = p
        · subst heq
          cases hp.symm.trans h
          exact .inr ⟨o, ho, .inl hgone⟩
        · exact .inl (Table.Change.lookup_delete.2 ⟨heq, h⟩)
      · intro e env project' he h
        exact .inl ⟨Table.Change.lookup_delete.2 ⟨hempty e env he, h⟩, env, he, rfl⟩
  | @putEnv e env project _ hnone _ _ =>
      refine ⟨hrefl.1, hrefl.2, hrefl.3, hrefl.4, fun _ h => h, ?_⟩
      intro e' env' project' he hp
      refine .inl ⟨hp, env', Table.Change.lookup_put.2 (.inr ⟨?_, he⟩), rfl⟩
      rintro rfl
      rw [hnone] at he
      cases he
  | @updateEnv e f _ hf =>
      refine ⟨hrefl.1, hrefl.2, hrefl.3, hrefl.4, fun _ h => h, ?_⟩
      intro e' env project' he hp
      by_cases heq : e' = e
      · exact .inl ⟨hp, f env, Table.Change.lookup_update.2 ⟨env, he, .inl ⟨heq, rfl⟩⟩, hf env⟩
      · exact .inl ⟨hp, env, Table.Change.lookup_update.2 ⟨env, he, .inr ⟨heq, rfl⟩⟩, rfl⟩
  | @deleteEnv e env project o _ _ _ _ _ _ _ _ _ =>
      refine ⟨hrefl.1, hrefl.2, hrefl.3, hrefl.4, fun _ h => List.mem_cons_of_mem _ h, ?_⟩
      intro e' env' project' he' hp'
      by_cases heq : e' = e
      · exact .inr (heq ▸ List.mem_cons_self)
      · exact .inl ⟨hp', env', Table.Change.lookup_delete.2 ⟨heq, he'⟩, rfl⟩

end Evolution

end Org

end Sotto
