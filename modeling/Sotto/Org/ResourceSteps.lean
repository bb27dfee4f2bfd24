import Sotto.Org.FoundingSteps

/-!
# The commits of projects, environments, grants and machine tokens

What they commit is checked against the organisation that the project was found in, under its lock.
An environment that is looked up before its project may have moved only if an organisation has been
purged in between.
-/

namespace Sotto

namespace Org

open Core (Ident Bytes)
open Api (NewProject NewEnvironment CreateGrant)
open Server (Error ProjectAccess Project MachineToken freeMaxOrgProjects)
open Sessions (check require statement)
open Sessions.Discipline

section Facts

variable {locks : List Lock} {d db : Db} {orgId : Option Ident} {userId e : Ident}

theorem Since.orgs (h : Since locks d db) (hlocks : ∀ o, orgId = some o → .organization o ∈ locks) :
    ∀ o, orgId = some o → GuardedOrg o d db :=
  fun o ho => h.org (hlocks o ho)

theorem Locked.since (h : Locked d orgId userId) (hs : Since locks d db)
    (hlocks : ∀ o, orgId = some o → .organization o ∈ locks) : Locked db orgId userId := by
  intro o ho
  obtain ⟨hactive, hrole⟩ := h o ho
  have hguard := hs.org (hlocks o ho)
  exact ⟨hguard.lifecycleOf.trans hactive, by rw [hguard.roles]; exact hrole⟩

/-- A project stays as it is while its organisation is active. -/
theorem Locked.project {p : Ident} {project : Project} (h : Locked db project.orgId userId)
    (hlater : Later d db) (hp : d.projects.lookup p = some project) :
    db.projects.lookup p = some project := by
  refine hlater.project hp fun o ho hdeleted => ?_
  rw [(h o ho).1] at hdeleted
  cases hdeleted

end Facts

variable {ι : Type} [DecidableEq ι] {d db : Db} {op : Call} {userId envId : Ident}
  {β : Type} {Q : Except Error β → Stage Change Lock → Prop} {wrote : Bool}

section Projects

variable {orgId : Option Ident} {id : Ident}

theorem secures_requireOrgAdmin {k : Unit → Session β} (hQ : ∀ e, Q (.error e) (outside wrote))
    (h : ∀ db, Later d db → Secures ι Q op db (outside wrote) (k ())) :
    Secures ι Q op d (outside wrote) (requireOrgAdmin userId orgId >>= k) := by
  cases orgId with
  | none => exact h d (LaterBut.refl _ _)
  | some o =>
      simp only [requireOrgAdmin, bind_assoc]
      refine secures_access hQ fun db _ hlater => ?_
      exact secures_check hQ fun _ _ => h db hlater

/-- There is room for another project, or the organisation was judged to be on the team tier, or
the id of the project was in use. -/
def HasRoomFor (locks : List Lock) (db : Db) (o id : Ident) : Prop :=
  ∃ now, .judged o now ∈ locks ∧
    (db.isTeam now o = true ∨ .named id ∈ locks ∨ db.projectCount o < freeMaxOrgProjects)

theorem HasRoomFor.since {locks locks' : List Lock} {o : Ident} (h : HasRoomFor locks d o id)
    (hs : Since locks' d db) (hlock : .organization o ∈ locks') (hsub : ∀ k ∈ locks, k ∈ locks') :
    HasRoomFor locks' db o id := by
  obtain ⟨now, hjudged, hroom⟩ := h
  refine ⟨now, hsub _ hjudged, ?_⟩
  rw [(hs.org hlock).isTeam, (hs.org hlock).projectCount]
  exact hroom.imp_right fun hroom => hroom.imp_left (hsub _)

theorem secures_checkCanCreateOrgProject {o : Ident} {k : Unit → Session β} {locks : List Lock}
    (hQ : ∀ e locks, Q (.error e) ⟨[], locks, wrote⟩)
    (h : ∀ db locks', Since locks d db → .organization o ∈ locks' → HasRoomFor locks' db o id →
      Secures ι Q op db ⟨[], locks', wrote⟩ (k ())) :
    Secures ι Q op d ⟨[], locks, wrote⟩ (checkCanCreateOrgProject o id >>= k) := by
  simp only [checkCanCreateOrgProject, bind_assoc]
  refine secures_effectiveTierLocked hQ fun db now locks' hsince hsub hlock hjudged => ?_
  split
  · next hteam =>
      rw [pure_bind]
      exact h db locks' hsince hlock ⟨now, hjudged, .inl hteam⟩
  · simp only [bind_assoc]
    refine secures_lock (hQ · _) fun db₁ found new _ hsince₁ hf => ?_
    cases hf
    show Secures ι Q op db₁ ⟨[], (if (db₁.projects.lookup id).isSome then [.named id] else []) ++
      locks', wrote⟩ ((if (db₁.projects.lookup id).isSome then pure () else _) >>= k)
    have hsince' := hsince.trans hsince₁ hsub
    by_cases hfound : (db₁.projects.lookup id).isSome
    · rw [if_pos hfound, if_pos hfound, pure_bind]
      exact h db₁ _ hsince' (List.mem_cons_of_mem _ hlock)
        ⟨now, List.mem_cons_of_mem _ hjudged, .inr (.inl List.mem_cons_self)⟩
    · rw [if_neg hfound, if_neg hfound]
      simp only [bind_assoc]
      refine secures_read (hQ · _) fun db₂ _ hsince₂ => ?_
      refine secures_require (hQ · _) fun hroom => ?_
      refine h db₁ locks' hsince' hlock ⟨now, hjudged, .inr (.inr ?_)⟩
      rw [← (hsince₂.org hlock).projectCount]
      exact hroom

theorem secures_requireOrgAdminTx {k : Unit → Session β}
    (hQ : ∀ e locks, Q (.error e) ⟨[], locks, wrote⟩)
    (h : ∀ db locks, (∀ o, orgId = some o → .organization o ∈ locks ∧ HasRoomFor locks db o id) →
      Secures ι Q op db ⟨[], locks, wrote⟩ (k ())) :
    Secures ι Q op d (outside wrote) (requireOrgAdminTx userId id orgId >>= k) := by
  cases orgId with
  | none => exact h d [] nofun
  | some o =>
      simp only [requireOrgAdminTx, bind_assoc]
      refine secures_accessForUpdate hQ fun db _ _ _ _ => ?_
      refine secures_check (hQ · _) fun _ _ => ?_
      refine secures_checkCanCreateOrgProject hQ fun db locks _ hlock hroom => ?_
      refine h db locks fun o' ho' => ?_
      cases ho'
      exact ⟨hlock, hroom⟩

/-- A project is inserted under the lock of its id. -/
theorem secures_insertProject {encName : Bytes} {locks : List Lock} {k : Bool → Session β}
    (hQ : ∀ e, Q (.error e) ⟨[], locks, wrote⟩)
    (htaken : ∀ db, Secures ι Q op db ⟨[], locks, wrote⟩ (k false))
    (hnew : ∀ db, Since locks d db → db.projects.lookup id = none → Secures ι Q op db
      ⟨[.projects (.put id ⟨userId, orgId, encName⟩)], .project id :: locks, wrote⟩ (k true)) :
    Secures ι Q op d ⟨[], locks, wrote⟩ (insertProject id userId orgId encName >>= k) := by
  refine secures_lock hQ fun db a new _ hsince hf => ?_
  change (if (db.projects.lookup id).isSome then _ else _) = _ at hf
  show Secures ι Q op db ⟨[] ++ new, (if (db.projects.lookup id).isSome then [] else
    [.project id]) ++ locks, wrote⟩ (k a)
  by_cases h : (db.projects.lookup id).isSome
  · rw [if_pos h] at hf ⊢
    cases hf
    exact htaken db
  · rw [if_neg h] at hf ⊢
    split at hf
    · cases hf
    · cases hf
      exact hnew db hsince (by simpa using h)

/-- A project more. -/
theorem projectCount_put {project : Project} {o : Ident} (hnone : db.projects.lookup id = none)
    (ho : project.orgId = some o) :
    (db.after [.projects (.put id project)]).projectCount o = db.projectCount o + 1 := by
  unfold Db.projectCount
  show ((Table.rows (AList.insert id project db.projects)).filter _).length = _
  rw [Table.rows_insert hnone]
  simp [ho]

/-- A project is created in an organisation that has room for it. -/
theorem commits_createProject {body : NewProject} {encName : Bytes} {locks : List Lock}
    (hlock : .project body.id ∈ locks) (hnone : db.projects.lookup body.id = none)
    (hroom : ∀ o, body.orgId = some o → .organization o ∈ locks ∧ HasRoomFor locks db o body.id) :
    Commits (.createProject userId body) locks db
      [.projects (.put body.id ⟨userId, body.orgId, encName⟩)] := by
  have hhouses : ∀ o, body.orgId = some o →
      (Call.createProject userId body).houses? = some (o, body.id) := by
    intro o ho
    rw [Call.houses?, ho]
    rfl
  refine commits_of_projects rfl (.cons (.putProject hlock hnone fun o ho =>
    ⟨(hroom o ho).1, hhouses o ho⟩) .nil) fun o p hop => ?_
  obtain ⟨o', ho', heq⟩ := Option.map_eq_some_iff.1 hop
  cases heq
  obtain ⟨now, hjudged, hroom⟩ := (hroom o ho').2
  refine ⟨now, hjudged, hroom.imp_right fun hroom => hroom.imp_right fun hcount => ?_⟩
  rw [projectCount_put hnone ho']
  exact hcount

theorem secures_createProject {body : NewProject} {late : Prop} :
    Secures ι (AtEnd late) (.createProject userId body) d (outside false)
      (Call.createProject userId body).handler := by
  refine secures_discard ?_
  simp only [createProject, bind_assoc]
  refine secures_check (fun _ => atEnd_error) fun _ _ => ?_
  refine secures_check (fun _ => atEnd_error) fun encName _ => ?_
  refine secures_requireOrgAdmin (fun _ => atEnd_error) fun db _ => ?_
  refine secures_transaction (B := fun created wrote => created = false → wrote = false) ?_
    (fun _ => atEnd_error) fun db created wrote _ hwrote => ?_
  · refine secures_requireOrgAdminTx (fun _ _ => rfl) fun db locks hroom => ?_
    refine secures_insertProject (fun _ => rfl) (fun db => ?_) fun db₁ hsince₁ hnone => ?_
    · exact secures_commits (fun _ _ _ => commits_nil rfl) fun _ => rfl
    · refine secures_commits (fun db₂ _ hsince₂ => ?_) fun h => by cases h
      refine commits_createProject List.mem_cons_self
        ((hsince₂.project List.mem_cons_self).trans hnone) fun o ho => ?_
      obtain ⟨hlock, hroom⟩ := hroom o ho
      have hlock' := List.mem_cons_of_mem (.project body.id) hlock
      have hsub : ∀ k ∈ locks, k ∈ .project body.id :: locks := fun _ => List.mem_cons_of_mem _
      exact ⟨hlock', (hroom.since hsince₁ hlock fun _ => id).since hsince₂ hlock' hsub⟩
  · split
    · rw [pure_bind]
      exact secures_pure atEnd_ok
    · next hcreated =>
        rw [hwrote (by simpa using hcreated)]
        simp only [bind_assoc]
        refine secures_look (fun _ => atEnd_error) fun _ _ _ => ?_
        refine secures_require (fun _ => atEnd_error) fun _ => ?_
        refine secures_attempt (.of_bind_pure ?_) fun _ _ _ => ?_
        · exact secures_projectAccess (fun _ => rfl) fun _ _ _ _ _ _ _ => secures_pure rfl
        · exact secures_require (fun _ => atEnd_error) fun _ => secures_pure atEnd_ok

end Projects

section Environments

variable {projectId id : Ident}

/-- An environment is inserted under the lock of its id. -/
theorem secures_insertEnvironment {encName : Bytes} {locks : List Lock} {k : Bool → Session β}
    (hQ : ∀ e, Q (.error e) ⟨[], locks, wrote⟩)
    (htaken : ∀ db, Secures ι Q op db ⟨[], locks, wrote⟩ (k false))
    (hnew : ∀ db, Since locks d db → db.environments.lookup id = none → Secures ι Q op db
      ⟨[.environments (.put id ⟨projectId, encName, 0⟩)], .environment id :: locks, wrote⟩
      (k true)) :
    Secures ι Q op d ⟨[], locks, wrote⟩ (insertEnvironment id projectId encName >>= k) := by
  refine secures_lock hQ fun db a new _ hsince hf => ?_
  change (if (db.environments.lookup id).isSome then _ else _) = _ at hf
  show Secures ι Q op db ⟨[] ++ new, (if (db.environments.lookup id).isSome then [] else
    [.environment id]) ++ locks, wrote⟩ (k a)
  by_cases h : (db.environments.lookup id).isSome
  · rw [if_pos h] at hf ⊢
    cases hf
    exact htaken db
  · rw [if_neg h] at hf ⊢
    split at hf
    · cases hf
    · cases hf
      exact hnew db hsince (by simpa using h)

/-- A grant that was inserted refers to an environment, and replaces one only as it may. -/
theorem secures_insertGrant {g : Stage Change Lock} {e u : Ident} {v : Bytes}
    {conflict : Except Error (List Change)} {noUser : Error} {k : Unit → Session β}
    (hQ : ∀ e, Q (.error e) g)
    (h : ∀ db new, db.Sound → Since g.locks d db →
      conflict = .ok new ∧ ((db.after g.changes).grants.lookup (e, u)).isSome ∨
        new = [.grants (.put (e, u) v)] ∧ ((db.after g.changes).environments.lookup e).isSome →
      Secures ι Q op db ⟨g.changes ++ new, .environmentKey e :: g.locks, g.wrote⟩ (k ())) :
    Secures ι Q op d g (insertGrant e u v conflict noUser >>= k) := by
  refine secures_writeLocking hQ fun db new hs hsince hf => h db new hs hsince ?_
  split at hf
  · next hsome => exact .inl ⟨hf, hsome⟩
  · split at hf
    · cases hf
    · split at hf
      · cases hf
      · next henv =>
          cases hf
          exact .inr ⟨rfl, by simpa [Option.isSome_iff_ne_none] using henv⟩

/-- The grant of the creator of an environment is recorded by no event. -/
theorem commits_createEnvironment {body : NewEnvironment} {project : Project} {encName : Bytes}
    {locks : List Lock} {grants : List Change}
    (henv : .environment body.id ∈ locks) (hkey : .environmentKey body.id ∈ locks)
    (hnone : db.environments.lookup body.id = none)
    (hp : db.projects.lookup projectId = some project)
    (hlocks : ∀ o, project.orgId = some o → .organization o ∈ locks)
    (hmember : Locked db project.orgId userId)
    (hgrants : grants = [] ∨ ∃ v, grants = [.grants (.put (body.id, userId) v)]) :
    Commits (.createEnvironment userId projectId body) locks db
      (.environments (.put body.id ⟨projectId, encName, 0⟩) :: grants) := by
  refine commits_of_chain rfl (.cons (.putEnv henv hnone hp hlocks) ?_)
  rcases hgrants with rfl | ⟨v, rfl⟩
  · exact .nil
  · have horg : ∀ o, ((Change.environments (.put body.id ⟨projectId, encName, 0⟩)).apply db).orgOf
        body.id = some o → project.orgId = some o := by
      intro o ho
      rw [orgOf_putEnv, if_pos rfl, hp] at ho
      exact ho
    refine .cons (.putGrant hkey (Table.Change.isSome_put.2 (.inl rfl)) (fun _ o ho => ?_)
      fun o ho => .inr ⟨project, hp, horg o ho⟩) .nil
    have ho' := horg o ho
    exact ⟨hlocks o ho', (hmember o ho').2, (hmember o ho').2⟩

theorem secures_createEnvironment {body : NewEnvironment} {late : Prop} :
    Secures ι (AtEnd late) (.createEnvironment userId projectId body) d (outside false)
      (Call.createEnvironment userId projectId body).handler := by
  refine secures_discard ?_
  simp only [createEnvironment, bind_assoc]
  refine secures_check (fun _ => atEnd_error) fun _ _ => ?_
  refine secures_check (fun _ => atEnd_error) fun encName _ => ?_
  refine secures_check (fun _ => atEnd_error) fun encVaultKey _ => ?_
  refine secures_projectAccess (fun _ => atEnd_error) fun db₀ access project _ hp horg huser => ?_
  refine secures_check (fun _ => atEnd_error) fun _ _ => ?_
  refine secures_transaction (B := fun created wrote => created = false → wrote = false) ?_
    (fun _ => atEnd_error) fun db created wrote _ hwrote => ?_
  · refine secures_requireManageStructureTx (fun _ _ => rfl) fun db₁ hlater₁ hlocked₁ => ?_
    rw [horg, huser] at hlocked₁
    rw [horg]
    have hp₁ := hlocked₁.project hlater₁ hp
    have hlocks : ∀ o, project.orgId = some o → .organization o ∈ orgLocks project.orgId :=
      fun o => mem_orgLocks.2
    refine secures_insertEnvironment (fun _ => rfl) (fun _ => secures_pure fun _ => rfl)
      fun db₂ hsince₂ hnone => ?_
    have hlocked₂ := hlocked₁.since hsince₂ hlocks
    have hp₂ := hlocked₂.project hsince₂.later hp₁
    refine secures_insertGrant (fun _ => rfl) fun db₃ new _ hsince₃ hnew => ?_
    have hlocked₃ := hlocked₂.since hsince₃ fun o ho => List.mem_cons_of_mem _ (hlocks o ho)
    have hp₃ := hlocked₃.project hsince₃.later hp₂
    have hnone₃ := (hsince₃.environment List.mem_cons_self).environment.trans hnone
    refine secures_commits (fun db₄ _ hsince₄ => ?_) fun h => by cases h
    have hlocks₄ : ∀ o, project.orgId = some o →
        .organization o ∈ .environmentKey body.id :: .environment body.id ::
          orgLocks project.orgId :=
      fun o ho => List.mem_cons_of_mem _ (List.mem_cons_of_mem _ (hlocks o ho))
    have hlocked₄ := hlocked₃.since hsince₄ hlocks₄
    have henv : Lock.environment body.id ∈ .environmentKey body.id :: .environment body.id ::
        orgLocks project.orgId := List.mem_cons_of_mem _ List.mem_cons_self
    refine commits_createEnvironment henv List.mem_cons_self ((hsince₄.environment henv).environment.trans hnone₃)
      (hlocked₄.project hsince₄.later hp₃) hlocks₄ hlocked₄ ?_
    rcases hnew with ⟨hnew, -⟩ | ⟨rfl, -⟩
    · cases hnew
      exact .inl rfl
    · exact .inr ⟨_, rfl⟩
  · split
    · rw [pure_bind]
      exact secures_pure atEnd_ok
    · next hcreated =>
        rw [hwrote (by simpa using hcreated)]
        simp only [bind_assoc]
        refine secures_look (fun _ => atEnd_error) fun _ _ _ => ?_
        exact secures_require (fun _ => atEnd_error) fun _ => secures_pure atEnd_ok

end Environments

end Org

end Sotto
