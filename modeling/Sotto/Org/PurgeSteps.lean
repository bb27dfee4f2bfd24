import Sotto.Org.DeletionSteps

/-!
# The commit of a purge

A purge deletes what is below an organisation from the bottom up, under the locks of its projects and
environments: nothing new refers to what it deletes.
-/

namespace Sotto

namespace Org

open Core (Ident Bytes)
open Server (Error LifecycleState Organization Environment Project)
open Billing (Deletion)
open Sessions (check require statement)
open Sessions.Discipline

section Chains

variable {t : Terms} {db : Db} {o : Ident}

theorem chain_deleteVersions {ks : List (Ident × Int)}
    (h : ∀ k ∈ ks, ∀ secret, db.secrets.lookup k.1 = some secret →
      ∀ o, db.orgOf secret.envId = some o → t.touched o) :
    Chain t db (ks.map fun k => .secretVersions (.delete k)) := by
  induction ks generalizing db with
  | nil => exact .nil
  | cons k ks ih =>
      exact .cons (.version (h k List.mem_cons_self))
        (ih fun k' hk => h k' (List.mem_cons_of_mem k hk))

theorem chain_deleteSecrets {ids : List Ident}
    (h : ∀ s ∈ ids, ∀ secret, db.secrets.lookup s = some secret →
      .environment secret.envId ∈ t.locks ∧ ∀ o, db.orgOf secret.envId = some o → t.touched o) :
    Chain t db (ids.map fun s => .secrets (.delete s)) := by
  induction ids generalizing db with
  | nil => exact .nil
  | cons s ids ih =>
      refine .cons (.deleteSecret (h s List.mem_cons_self)) (ih fun s' hs' secret hsecret => ?_)
      exact h s' (List.mem_cons_of_mem s hs') secret (Table.Change.lookup_delete.1 hsecret).2

theorem chain_deleteTokens {ids : List Ident}
    (h : ∀ k ∈ ids, ∀ token, db.machineTokens.lookup k = some token →
      ∀ o, db.orgOf token.envId = some o → .organization o ∈ t.locks ∧ t.touched o) :
    Chain t db (ids.map fun k => .machineTokens (.delete k)) := by
  induction ids generalizing db with
  | nil => exact .nil
  | cons k ids ih =>
      refine .cons (.deleteToken (h k List.mem_cons_self)) (ih fun k' hk' token htoken => ?_)
      exact h k' (List.mem_cons_of_mem k hk') token (Table.Change.lookup_delete.1 htoken).2

theorem chain_deleteOrigins {ids : List Ident}
    (h : ∀ k ∈ ids, db.machineTokens.lookup k = none) :
    Chain t db (ids.map fun k => .tokenOrigins (.delete k)) := by
  induction ids generalizing db with
  | nil => exact .nil
  | cons k ids ih =>
      exact .cons (.origin (h k List.mem_cons_self))
        (ih fun k' hk' => h k' (List.mem_cons_of_mem k hk'))

theorem chain_deleteEnvs {ids : List Ident} (hnodup : ids.Nodup)
    (hlock : .organization o ∈ t.locks) (hpurging : t.purging)
    (hlocks : ∀ e ∈ ids, .environment e ∈ t.locks) (horg : ∀ e ∈ ids, db.orgOf e = some o)
    (hgrants : ∀ e ∈ ids, ∀ u, db.grants.lookup (e, u) = none)
    (hsecrets : ∀ s secret, db.secrets.lookup s = some secret → secret.envId ∉ ids)
    (htokens : ∀ k token, db.machineTokens.lookup k = some token → token.envId ∉ ids) :
    Chain t db (ids.map fun e => .environments (.delete e)) := by
  induction ids generalizing db with
  | nil => exact .nil
  | cons e ids ih =>
      obtain ⟨hnot, hnodup⟩ := List.nodup_cons.1 hnodup
      obtain ⟨env, project, he, hp, ho⟩ := orgOf_eq_some.1 (horg e List.mem_cons_self)
      refine .cons (.deleteEnv (hlocks e List.mem_cons_self) he hp ho hlock hpurging
        (hgrants e List.mem_cons_self)
        (fun s secret hs heq => hsecrets s secret hs (heq ▸ List.mem_cons_self))
        fun k token hk heq => htokens k token hk (heq ▸ List.mem_cons_self))
        (ih hnodup (fun e' he' => hlocks e' (List.mem_cons_of_mem e he')) (fun e' he' => ?_)
          (fun e' he' => hgrants e' (List.mem_cons_of_mem e he'))
          (fun s secret hs hmem => hsecrets s secret hs (List.mem_cons_of_mem e hmem))
          fun k token hk hmem => htokens k token hk (List.mem_cons_of_mem e hmem))
      rw [orgOf_deleteEnv, if_neg]
      · exact horg e' (List.mem_cons_of_mem e he')
      · rintro rfl
        exact hnot he'

theorem chain_deleteProjects {ids : List Ident} (hnodup : ids.Nodup)
    (hlock : .organization o ∈ t.locks) (hgone : t.gone o)
    (hlocks : ∀ p ∈ ids, .project p ∈ t.locks)
    (horg : ∀ p ∈ ids, ∃ project, db.projects.lookup p = some project ∧ project.orgId = some o)
    (hempty : ∀ e env, db.environments.lookup e = some env → env.projectId ∉ ids) :
    Chain t db (ids.map fun p => .projects (.delete p)) := by
  induction ids generalizing db with
  | nil => exact .nil
  | cons p ids ih =>
      obtain ⟨hnot, hnodup⟩ := List.nodup_cons.1 hnodup
      obtain ⟨project, hp, ho⟩ := horg p List.mem_cons_self
      refine .cons (.deleteProject (hlocks p List.mem_cons_self) hp ho hlock hgone
        fun e env he heq => hempty e env he (heq ▸ List.mem_cons_self))
        (ih hnodup (fun p' hp' => hlocks p' (List.mem_cons_of_mem p hp')) (fun p' hp' => ?_)
          fun e env he hmem => hempty e env he (List.mem_cons_of_mem p hmem))
      obtain ⟨project', hlookup, ho'⟩ := horg p' (List.mem_cons_of_mem p hp')
      refine ⟨project', Table.Change.lookup_delete.2 ⟨?_, hlookup⟩, ho'⟩
      rintro rfl
      exact hnot hp'

theorem chain_deleteMembers {ks : List (Ident × Ident)} (hlock : .organization o ∈ t.locks)
    (hgone : t.gone o) (htouched : t.touched o) (hks : ∀ k ∈ ks, k.1 = o)
    (hempty : ∀ e, db.orgOf e ≠ some o) :
    Chain t db (ks.map fun k => .memberships (.delete k)) := by
  induction ks generalizing db with
  | nil => exact .nil
  | cons k ks ih =>
      obtain ⟨o', u⟩ := k
      obtain rfl : o' = o := hks (o', u) List.mem_cons_self
      exact .cons (.deleteMember hlock (fun _ => .inl hgone)
        (fun e _ ho => absurd ho (hempty e)) (fun _ _ _ _ _ _ _ _ => hempty _) htouched)
        (ih (fun k' hk' => hks k' (List.mem_cons_of_mem _ hk')) hempty)

end Chains

section Below

variable {locks : List Lock} {d db : Db} {o : Ident} {envs projects secrets tokens : List Ident}
  {versions : List (Ident × Int)} {grants : List (Ident × Ident)}

/-- What is below an organisation, under the locks of its projects and environments. -/
structure Below (db : Db) (locks : List Lock) (o : Ident) (envs projects secrets tokens : List Ident)
    (versions : List (Ident × Int)) (grants : List (Ident × Ident)) : Prop where
  org : .organization o ∈ locks
  envLocks : ∀ e ∈ envs, .environment e ∈ locks
  projectLocks : ∀ p ∈ projects, .project p ∈ locks
  nodupEnvs : envs.Nodup
  nodupProjects : projects.Nodup
  envsMem : ∀ e, e ∈ envs ↔ db.orgOf e = some o
  projectsMem : ∀ p ∈ projects, ∃ project, db.projects.lookup p = some project ∧
    project.orgId = some o
  secretsMem : ∀ s ∈ secrets, ∃ secret, db.secrets.lookup s = some secret ∧ secret.envId ∈ envs
  allSecrets : ∀ s secret, db.secrets.lookup s = some secret → secret.envId ∈ envs → s ∈ secrets
  versionsMem : ∀ k ∈ versions, k.1 ∈ secrets
  tokensMem : ∀ k ∈ tokens, ∃ token, db.machineTokens.lookup k = some token ∧ token.envId ∈ envs
  allTokens : ∀ k token, db.machineTokens.lookup k = some token → token.envId ∈ envs → k ∈ tokens
  grantsMem : ∀ k ∈ grants, k.1 ∈ envs
  allGrants : ∀ e ∈ envs, ∀ u, (db.grants.lookup (e, u)).isSome → (e, u) ∈ grants

theorem Below.since (h : Below d locks o envs projects secrets tokens versions grants)
    (hs : Since locks d db) : Below db locks o envs projects secrets tokens versions grants where
  org := h.org
  envLocks := h.envLocks
  projectLocks := h.projectLocks
  nodupEnvs := h.nodupEnvs
  nodupProjects := h.nodupProjects
  envsMem e := (h.envsMem e).trans ((hs.org h.org).orgOf e).symm
  projectsMem p hp := by
    rw [hs.project (h.projectLocks p hp)]
    exact h.projectsMem p hp
  secretsMem := by
    intro s hmem
    obtain ⟨secret, hsecret, he⟩ := h.secretsMem s hmem
    obtain ⟨secret', hsecret', heq⟩ :=
      (hs.environment (h.envLocks _ he)).secrets s secret hsecret rfl
    exact ⟨secret', hsecret', heq ▸ he⟩
  allSecrets := by
    intro s secret hsecret he
    obtain ⟨secret', hsecret', heq⟩ :=
      (hs.environment (h.envLocks _ he)).noSecret s secret hsecret rfl
    exact h.allSecrets s secret' hsecret' (heq ▸ he)
  versionsMem := h.versionsMem
  tokensMem := by
    intro k hmem
    obtain ⟨token, htoken, he⟩ := h.tokensMem k hmem
    obtain ⟨token', htoken', heq⟩ := (hs.org h.org).tokenEnvs k token ((h.envsMem _).1 he) htoken
    exact ⟨token', htoken', heq ▸ he⟩
  allTokens := by
    intro k token htoken he
    obtain ⟨token', htoken', heq⟩ :=
      (hs.environment (h.envLocks _ he)).noToken k token htoken rfl
    exact h.allTokens k token' htoken' (heq ▸ he)
  grantsMem := h.grantsMem
  allGrants e he u hg := h.allGrants e he u ((hs.environment (h.envLocks e he)).noGrant u hg)

theorem nodup_keys {K V : Type} [DecidableEq K] (t : Table K V) (p : K × V → Bool) :
    ((t.rows.filter p).map Prod.fst).Nodup :=
  t.nodup_rows.sublist (List.Sublist.map _ List.filter_sublist)

/-- What a purge finds below an organisation, with the locks it takes. -/
theorem below_cascade : Below db (db.cascadeLocks o ++ [.organization o]) o (db.envsOf o)
    (db.projectsOf o) (db.secretsIn (db.envsOf o)) (db.tokensIn (db.envsOf o))
    (db.versionsIn (db.envsOf o)) (db.grantsIn (db.envsOf o)) where
  org := List.mem_append_right _ List.mem_cons_self
  envLocks e he :=
    List.mem_append_left _ (List.mem_append_right _ (List.mem_map_of_mem he))
  projectLocks p hp :=
    List.mem_append_left _ (List.mem_append_left _ (List.mem_map_of_mem hp))
  nodupEnvs := db.environments.nodup_rows.filter _
  nodupProjects := nodup_keys _ _
  envsMem e := by
    refine ⟨fun h => of_decide_eq_true (List.mem_filter.1 h).2, fun h => ?_⟩
    obtain ⟨env, project, he, -, -⟩ := orgOf_eq_some.1 h
    exact List.mem_filter.2 ⟨List.mem_map_of_mem (Table.mem_rows.2 he), decide_eq_true h⟩
  projectsMem p hp := by
    obtain ⟨⟨p', project⟩, hrow, rfl⟩ := List.mem_map.1 hp
    obtain ⟨hrow, ho⟩ := List.mem_filter.1 hrow
    exact ⟨project, Table.mem_rows.1 hrow, of_decide_eq_true ho⟩
  secretsMem s hs := by
    obtain ⟨⟨s', secret⟩, hrow, rfl⟩ := List.mem_map.1 hs
    obtain ⟨hrow, he⟩ := List.mem_filter.1 hrow
    exact ⟨secret, Table.mem_rows.1 hrow, by simpa using he⟩
  allSecrets s secret hs he := by
    refine List.mem_map.2 ⟨(s, secret), List.mem_filter.2 ⟨Table.mem_rows.2 hs, ?_⟩, rfl⟩
    simpa using he
  versionsMem k hk := by simpa using (List.mem_filter.1 hk).2
  tokensMem k hk := by
    obtain ⟨⟨k', token⟩, hrow, rfl⟩ := List.mem_map.1 hk
    obtain ⟨hrow, he⟩ := List.mem_filter.1 hrow
    exact ⟨token, Table.mem_rows.1 hrow, by simpa using he⟩
  allTokens k token hk he := by
    refine List.mem_map.2 ⟨(k, token), List.mem_filter.2 ⟨Table.mem_rows.2 hk, ?_⟩, rfl⟩
    simpa using he
  grantsMem k hk := by simpa using (List.mem_filter.1 hk).2
  allGrants e he u hg := by
    obtain ⟨v, hv⟩ := Option.isSome_iff_exists.1 hg
    refine List.mem_filter.2 ⟨List.mem_map_of_mem (Table.mem_rows.2 hv), ?_⟩
    simpa using he

/-- What is deleted before the environments. -/
def rowChanges (versions : List (Ident × Int)) (secrets tokens : List Ident)
    (grants : List (Ident × Ident)) : List Change :=
  versions.map (fun k => .secretVersions (.delete k)) ++
    secrets.map (fun id => .secrets (.delete id)) ++
    tokens.map (fun id => .machineTokens (.delete id)) ++
    tokens.map (fun id => .tokenOrigins (.delete id)) ++
    grants.map (fun k => .grants (.delete k))

theorem rowChanges_quiet {c : Change} (hc : c ∈ rowChanges versions secrets tokens grants) :
    c.Quiet := by
  simp only [rowChanges, List.mem_append, List.mem_map] at hc
  rcases hc with (((⟨x, -, rfl⟩ | ⟨x, -, rfl⟩) | ⟨x, -, rfl⟩) | ⟨x, -, rfl⟩) | ⟨x, -, rfl⟩ <;>
    exact ⟨rfl, rfl, rfl⟩

theorem secrets_rowChanges (s : Ident) :
    (db.after (rowChanges versions secrets tokens grants)).secrets.lookup s =
      if s ∈ secrets then none else db.secrets.lookup s := by
  have hchanges : (rowChanges versions secrets tokens grants).filterMap Change.secret? =
      secrets.map Table.Change.delete := by
    simp [rowChanges, List.filterMap_map, Function.comp_def, Change.secret?]
  rw [after_secrets, hchanges, Table.lookup_applyAll_delete]

theorem machineTokens_rowChanges (k : Ident) :
    (db.after (rowChanges versions secrets tokens grants)).machineTokens.lookup k =
      if k ∈ tokens then none else db.machineTokens.lookup k := by
  have hchanges : (rowChanges versions secrets tokens grants).filterMap Change.machineToken? =
      tokens.map Table.Change.delete := by
    simp [rowChanges, List.filterMap_map, Function.comp_def, Change.machineToken?]
  rw [after_machineTokens, hchanges, Table.lookup_applyAll_delete]

theorem grants_rowChanges (k : Ident × Ident) :
    (db.after (rowChanges versions secrets tokens grants)).grants.lookup k =
      if k ∈ grants then none else db.grants.lookup k := by
  have hchanges : (rowChanges versions secrets tokens grants).filterMap Change.grant? =
      grants.map Table.Change.delete := by
    simp [rowChanges, List.filterMap_map, Function.comp_def, Change.grant?]
  rw [after_grants, hchanges, Table.lookup_applyAll_delete]
  congr

/-- Deleting the rows of environments of the organisation, and what refers to them first. -/
theorem Below.chain_rows {t : Terms}
    (h : Below db t.locks o envs projects secrets tokens versions grants) (htouched : t.touched o) :
    Chain t db (rowChanges versions secrets tokens grants) := by
  have hplace : ∀ changes, changes <+: rowChanges versions secrets tokens grants → ∀ e ∈ envs,
      ∀ o', (db.after changes).orgOf e = some o' → o' = o := by
    intro changes hpre e he o' ho'
    rw [(samePlaces_after fun c hc => rowChanges_quiet (hpre.subset hc)).orgOf] at ho'
    exact Option.some.inj (ho'.symm.trans ((h.envsMem e).1 he))
  have hversions : (db.after (versions.map fun k => .secretVersions (.delete k))).secrets =
      db.secrets := by
    rw [after_secrets, List.filterMap_eq_nil_iff.2]
    · rfl
    · intro c hc
      obtain ⟨k, -, rfl⟩ := List.mem_map.1 hc
      rfl
  have htokens : (db.after (versions.map (fun k => Change.secretVersions (.delete k)) ++
      secrets.map fun s => .secrets (.delete s))).machineTokens = db.machineTokens := by
    rw [after_machineTokens, List.filterMap_eq_nil_iff.2]
    · rfl
    · intro c hc
      rcases List.mem_append.1 hc with hc | hc <;> obtain ⟨k, -, rfl⟩ := List.mem_map.1 hc <;> rfl
  have hdeleted : (versions.map (fun k => Change.secretVersions (.delete k)) ++
      secrets.map (fun s => Change.secrets (.delete s)) ++
      tokens.map fun k => Change.machineTokens (.delete k)).filterMap Change.machineToken? =
      tokens.map Table.Change.delete := by
    simp [List.filterMap_map, Function.comp_def, Change.machineToken?]
  unfold rowChanges at hplace ⊢
  refine Chain.append (Chain.append (Chain.append (Chain.append (chain_deleteVersions ?_)
    (chain_deleteSecrets ?_)) (chain_deleteTokens ?_)) (chain_deleteOrigins ?_))
    (chain_deleteGrants ?_)
  · intro k hk secret hs o' ho'
    obtain ⟨secret', hs', he⟩ := h.secretsMem k.1 (h.versionsMem k hk)
    cases hs.symm.trans hs'
    rw [hplace [] List.nil_prefix _ he o' ho']
    exact htouched
  · intro s hs secret hlookup
    rw [hversions] at hlookup
    obtain ⟨secret', hs', he⟩ := h.secretsMem s hs
    cases hlookup.symm.trans hs'
    refine ⟨h.envLocks _ he, fun o' ho' => ?_⟩
    rw [hplace _ (((((List.prefix_append _ _).trans (List.prefix_append _ _)).trans
      (List.prefix_append _ _)).trans (List.prefix_append _ _))) _ he o' ho']
    exact htouched
  · intro k hk token hlookup o' ho'
    rw [htokens] at hlookup
    obtain ⟨token', ht', he⟩ := h.tokensMem k hk
    cases hlookup.symm.trans ht'
    rw [hplace _ ((((List.prefix_append _ _).trans (List.prefix_append _ _)).trans
      (List.prefix_append _ _))) _ he o' ho']
    exact ⟨h.org, htouched⟩
  · intro k hk
    rw [after_machineTokens, hdeleted, Table.lookup_applyAll_delete, if_pos hk]
  · intro k hk o' ho'
    rw [hplace _ (List.prefix_append _ _) _ (h.grantsMem k hk) o' ho']
    exact htouched

/-- What is deleted with the projects. -/
def belowChanges (envs projects secrets tokens : List Ident) (versions : List (Ident × Int))
    (grants : List (Ident × Ident)) : List Change :=
  rowChanges versions secrets tokens grants ++ envs.map (fun id => .environments (.delete id)) ++
    projects.map fun id => .projects (.delete id)

theorem environments_belowChanges {rest : List Change}
    (hrest : ∀ c ∈ rest, c.environment? = none) (e : Ident) :
    (db.after (rowChanges versions secrets tokens grants ++
      envs.map (fun id => .environments (.delete id)) ++ rest)).environments.lookup e =
      if e ∈ envs then none else db.environments.lookup e := by
  have hchanges : (rowChanges versions secrets tokens grants ++
      envs.map (fun id => Change.environments (.delete id)) ++ rest).filterMap
        Change.environment? =
      envs.map Table.Change.delete := by
    rw [List.filterMap_append, List.filterMap_append, List.filterMap_eq_nil_iff.2 hrest,
      List.filterMap_eq_nil_iff.2 fun c hc => (rowChanges_quiet hc).1]
    simp [List.filterMap_map, Function.comp_def, Change.environment?]
  rw [after_environments, hchanges, Table.lookup_applyAll_delete]

/-- An environment that is left is of no project of the organisation. -/
theorem Below.projectId_notMem
    (h : Below db locks o envs projects secrets tokens versions grants) {e : Ident}
    {env : Environment} (he : db.environments.lookup e = some env) (hnot : e ∉ envs) :
    env.projectId ∉ projects := by
  intro hmem
  obtain ⟨project, hp, ho⟩ := h.projectsMem _ hmem
  exact hnot ((h.envsMem e).2 (orgOf_eq_some.2 ⟨env, project, he, hp, ho⟩))

theorem Below.chain {t : Terms}
    (h : Below db t.locks o envs projects secrets tokens versions grants) (hgone : t.gone o)
    (hpurging : t.purging) (htouched : t.touched o) :
    Chain t db (belowChanges envs projects secrets tokens versions grants) := by
  have hplaces : SamePlaces db (db.after (rowChanges versions secrets tokens grants)) :=
    samePlaces_after fun c hc => rowChanges_quiet hc
  refine Chain.append (Chain.append (h.chain_rows htouched)
    (chain_deleteEnvs h.nodupEnvs h.org hpurging h.envLocks (fun e he => ?_) (fun e he u => ?_)
      (fun s secret hs hmem => ?_) fun k token hk hmem => ?_))
    (chain_deleteProjects h.nodupProjects h.org hgone h.projectLocks (fun p hp => ?_)
      fun e env he => ?_)
  · exact (hplaces.orgOf e).trans ((h.envsMem e).1 he)
  · refine (grants_rowChanges _).trans ?_
    split
    · rfl
    · next hnot =>
        refine Option.not_isSome_iff_eq_none.1 fun hg => hnot (h.allGrants e he u hg)
  · replace hs := (secrets_rowChanges s).symm.trans hs
    split at hs
    · cases hs
    · next hnot => exact hnot (h.allSecrets s secret hs hmem)
  · replace hk := (machineTokens_rowChanges k).symm.trans hk
    split at hk
    · cases hk
    · next hnot => exact hnot (h.allTokens k token hk hmem)
  · have hprojects : (db.after (rowChanges versions secrets tokens grants ++
        envs.map fun id => .environments (.delete id))).projects = db.projects := by
      rw [after_projects, List.filterMap_eq_nil_iff.2]
      · rfl
      · intro c hc
        rcases List.mem_append.1 hc with hc | hc
        · exact (rowChanges_quiet hc).2.1
        · obtain ⟨id, -, rfl⟩ := List.mem_map.1 hc
          rfl
    obtain ⟨project, hlookup, ho⟩ := h.projectsMem p hp
    exact ⟨project, hprojects ▸ hlookup, ho⟩
  · have hnone : ∀ c ∈ ([] : List Change), c.environment? = none :=
      fun _ hc => absurd hc List.not_mem_nil
    rw [← List.append_nil (rowChanges versions secrets tokens grants ++ _)] at he
    replace he := (environments_belowChanges hnone e).symm.trans he
    split at he
    · cases he
    · next hnot => exact h.projectId_notMem he hnot

/-- Nothing of the organisation is left. -/
theorem Below.orgOf_after (h : Below db locks o envs projects secrets tokens versions grants)
    (e : Ident) :
    (db.after (belowChanges envs projects secrets tokens versions grants)).orgOf e ≠ some o := by
  intro ho
  obtain ⟨env, project, he, hp, hproject⟩ := orgOf_eq_some.1 ho
  have hrest : ∀ c ∈ projects.map (fun id => Change.projects (.delete id)),
      c.environment? = none := by
    intro c hc
    obtain ⟨id, -, rfl⟩ := List.mem_map.1 hc
    rfl
  replace he := (environments_belowChanges hrest e).symm.trans he
  split at he
  · cases he
  · next hnot =>
      have hchanges : (belowChanges envs projects secrets tokens versions grants).filterMap
          Change.project? = projects.map Table.Change.delete := by
        rw [belowChanges, List.filterMap_append, List.filterMap_append,
          List.filterMap_eq_nil_iff.2 fun c hc => (rowChanges_quiet hc).2.1]
        simp [List.filterMap_map, Function.comp_def, Change.project?]
      rw [after_projects, hchanges, Table.lookup_applyAll_delete] at hp
      split at hp
      · cases hp
      · exact hnot ((h.envsMem e).2 (orgOf_eq_some.2 ⟨env, project, he, hp, hproject⟩))

/-- The changes of a purge. -/
def purgeChanges (below : List Change) (members : List (Ident × Ident)) (o id : Ident)
    (f : Organization → Organization) (event : AuditEvent) (change : Deletion → Deletion) :
    List Change :=
  below ++ members.map (fun k => .memberships (.delete k)) ++
    [.organizations (.update o f), .plans (.put o ⟨none, none⟩)] ++ [.auditEvent event] ++
    [.deletions (.update id change)]

/-- A purge leaves the organisation deleted. -/
theorem lifecycleOf_purgeChanges {below : List Change} {members : List (Ident × Ident)}
    {id : Ident} {f : Organization → Organization} {event : AuditEvent}
    {change : Deletion → Deletion} (hbelow : ∀ c ∈ below, c.organization? = none)
    (hf : ∀ org, (f org).lifecycle = .deleted) {l : LifecycleState}
    (hl : db.lifecycleOf o = some l) :
    (db.after (purgeChanges below members o id f event change)).lifecycleOf o =
      some .deleted := by
  have hchanges : (purgeChanges below members o id f event change).filterMap
      Change.organization? = [.update o f] := by
    simp only [purgeChanges, List.filterMap_append, List.filterMap_eq_nil_iff.2 hbelow]
    simp [List.filterMap_map, Function.comp_def, Change.organization?]
  obtain ⟨org, horg, -⟩ := Option.map_eq_some_iff.1 hl
  unfold Db.lifecycleOf
  rw [after_organizations, hchanges]
  show (((Table.Change.update o f).apply db.organizations).lookup o).map _ = _
  rw [Table.Change.lookup_update.2 ⟨org, horg, .inl ⟨rfl, rfl⟩⟩, Option.map_some, hf]

theorem belowChanges_organization {c : Change}
    (hc : c ∈ belowChanges envs projects secrets tokens versions grants) :
    c.organization? = none := by
  simp only [belowChanges, rowChanges, List.mem_append, List.mem_map] at hc
  rcases hc with (((((⟨x, -, rfl⟩ | ⟨x, -, rfl⟩) | ⟨x, -, rfl⟩) | ⟨x, -, rfl⟩) | ⟨x, -, rfl⟩) |
    ⟨x, -, rfl⟩) | ⟨x, -, rfl⟩ <;> rfl

theorem commits_purge {workerId id : Ident} {change change' : Deletion → Deletion}
    {members : List (Ident × Ident)} {f : Organization → Organization} {event : AuditEvent}
    (h : Below db locks o envs projects secrets tokens versions grants)
    (hl : db.lifecycleOf o = some .deleting) (hf : ∀ org, (f org).lifecycle = .deleted)
    (hmembers : ∀ k ∈ members, k.1 = o) :
    Commits (.purge workerId id o change) locks db
      (purgeChanges (belowChanges envs projects secrets tokens versions grants) members o id f
        event change') := by
  refine commits_of_chain rfl ?_
  have hgone : (terms (.purge workerId id o change) locks db
      (purgeChanges (belowChanges envs projects secrets tokens versions grants) members o id f
        event change')).gone o :=
    lifecycleOf_purgeChanges (fun _ => belowChanges_organization) hf hl
  have htouched : (terms (.purge workerId id o change) locks db
      (purgeChanges (belowChanges envs projects secrets tokens versions grants) members o id f
        event change')).touched o := .inr rfl
  refine Chain.append (Chain.append (Chain.append (Chain.append (h.chain hgone trivial htouched)
    (chain_deleteMembers h.org hgone htouched hmembers h.orgOf_after))
    (.cons (.updateOrg h.org fun org horg => .inr ⟨?_, hgone⟩) (.cons (.plan h.org) .nil)))
    (.cons .auditEvent .nil)) (.cons .updateDeletion .nil)
  have hsame : (db.after (belowChanges envs projects secrets tokens versions grants ++
      members.map fun k => .memberships (.delete k))).organizations = db.organizations := by
    rw [after_organizations, List.filterMap_eq_nil_iff.2]
    · rfl
    · intro c hc
      rcases List.mem_append.1 hc with hc | hc
      · exact belowChanges_organization hc
      · obtain ⟨k, -, rfl⟩ := List.mem_map.1 hc
        rfl
  rw [hsame] at horg
  rw [Db.lifecycleOf, horg] at hl
  intro hdeleted
  cases hdeleted.symm.trans (Option.some.inj hl)

end Below

variable {ι : Type} [DecidableEq ι] {d db : Db} {workerId id orgId : Ident}
  {change : Deletion → Deletion} {late : Prop}

theorem secures_purge :
    Secures ι (AtEnd late) (.purge workerId id orgId change) d (outside false)
      (Call.purge workerId id orgId change).handler := by
  refine Secures.of_bind_pure (secures_closing ?_ fun _ => ⟨_, rfl⟩)
  refine Secures.of_bind_pure ?_
  simp only [bind_assoc]
  refine secures_whereLifecycle (fun _ _ => rfl) (fun db locks => ?_) fun db₁ _ hl => ?_
  · simp only [bind_assoc]
    refine secures_put (fun _ => rfl) ?_
    refine secures_commit (fun _ => rfl) (fun _ _ _ => commits_events ⟨rfl, rfl⟩ fun c hc => ?_)
      fun _ _ => secures_pure trivial
    exact .inr ⟨_, _, List.mem_singleton.1 hc⟩
  · simp only [bind_assoc]
    refine secures_writeLocking (fun _ => rfl) fun db₂ below _ hsince₂ hf => ?_
    cases hf
    refine secures_writes (fun _ => rfl) fun db₃ members _ _ hf => ?_
    obtain rfl := Except.ok.inj hf
    refine secures_put (fun _ => rfl) (secures_record (fun _ => rfl) (secures_put (fun _ => rfl) ?_))
    refine secures_commit (fun _ => rfl) (fun db₄ _ hsince => ?_) fun _ _ => secures_pure trivial
    have hlock : Lock.organization orgId ∈ [Lock.organization orgId] := List.mem_cons_self
    have hl₂ : db₂.lifecycleOf orgId = some .deleting :=
      (Since.org hsince₂ hlock).lifecycleOf.trans hl
    have hbelow := below_cascade.since hsince
    refine commits_purge hbelow ?_ (fun _ => rfl) fun k hk => ?_
    · exact (Since.org hsince hbelow.org).lifecycleOf.trans hl₂
    · simpa using (List.mem_filter.1 hk).2

end Org

end Sotto
