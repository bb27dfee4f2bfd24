import Sotto.Org.SharingSteps

/-!
# The commits of rotations and batches

Both hold the lock of the environment, under which its secrets stay its own. A batch locks each
secret it sets; the id of one that is inserted is that of no other environment.
-/

namespace Sotto

namespace Org

open Core (Ident Bytes)
open Api (RotateRequest SecretChange BatchRequest)
open Server (Error Secret SecretVersion MachineToken Environment decodeRotation sameKeys)
open Sessions (check require statement)
open Sessions.Discipline

section Chains

variable {t : Terms} {db : Db} {changes : List Change} {envId : Ident}

/-- Whether a change leaves every environment where it is, with its members. -/
def Change.Quiet (c : Change) : Prop :=
  c.environment? = none ∧ c.project? = none ∧ c.membership? = none

/-- Databases with the same environments, in the same places, with the same members. -/
structure SamePlaces (db db' : Db) : Prop where
  environments : db'.environments = db.environments
  projects : db'.projects = db.projects
  memberships : db'.memberships = db.memberships
  retired : db'.retired = db.retired

theorem samePlaces_after (h : ∀ c ∈ changes, c.Quiet) : SamePlaces db (db.after changes) where
  environments := by
    rw [after_environments, List.filterMap_eq_nil_iff.2 fun c hc => (h c hc).1]
    rfl
  projects := by
    rw [after_projects, List.filterMap_eq_nil_iff.2 fun c hc => (h c hc).2.1]
    rfl
  memberships := by
    rw [after_memberships, List.filterMap_eq_nil_iff.2 fun c hc => (h c hc).2.2]
    rfl
  retired := retired_after fun c hc => (h c hc).1

theorem SamePlaces.orgOf {db' : Db} (h : SamePlaces db db') (e : Ident) :
    db'.orgOf e = db.orgOf e := by
  unfold Server.Db.orgOf
  rw [h.environments, h.projects]

theorem SamePlaces.roleOf {db' : Db} (h : SamePlaces db db') (o u : Ident) :
    db'.roleOf o u = db.roleOf o u := by
  unfold Db.roleOf
  rw [h.memberships]

theorem chain_rewrapVersions {xs : List ((Ident × Int) × Bytes)}
    (h : ∀ x ∈ xs, ∀ secret, db.secrets.lookup x.1.1 = some secret →
      ∀ o, db.orgOf secret.envId = some o → t.touched o) :
    Chain t db (xs.map fun x => .secretVersions (.update x.1 fun v =>
      { v with encDataKey := x.2 })) := by
  induction xs generalizing db with
  | nil => exact .nil
  | cons x xs ih =>
      exact .cons (.version (h x List.mem_cons_self))
        (ih fun x' hx => h x' (List.mem_cons_of_mem x hx))

theorem chain_resealTokens {xs : List (Ident × Bytes)}
    (h : ∀ o, db.orgOf envId = some o →
      (envId ∉ db.retired → .organization o ∈ t.locks) ∧ t.touched o) :
    Chain t db (xs.map fun m => .machineTokens (.update m.1 fun token =>
      if token.envId = envId then { token with encVaultKey := m.2 } else token)) := by
  induction xs generalizing db with
  | nil => exact .nil
  | cons x xs ih =>
      refine .cons (.updateToken (fun token => ?_) fun token _ hne o ho => ?_) (ih h)
      · split <;> exact ⟨rfl, id⟩
      · have henv : token.envId = envId := by
          by_contra hother
          rw [if_neg hother] at hne
          exact hne rfl
        rw [henv] at ho ⊢
        exact h o ho

theorem chain_rewrapSecrets {xs : List (Ident × Bytes)}
    (h : ∀ o, db.orgOf envId = some o → t.touched o) :
    Chain t db (xs.map fun d => .secrets (.update d.1 fun secret =>
      if secret.envId = envId then { secret with encDataKey := d.2 } else secret)) := by
  induction xs generalizing db with
  | nil => exact .nil
  | cons x xs ih =>
      refine .cons (.updateSecret (fun secret => ?_) fun secret _ hne o ho => ?_) (ih h)
      · split <;> rfl
      · have henv : secret.envId = envId := by
          by_contra hother
          rw [if_neg hother] at hne
          exact hne rfl
        exact h o (henv ▸ ho)

theorem chain_putGrants {xs : List (Ident × Bytes)}
    (hkey : ∀ x ∈ xs, .environmentKey envId ∈ t.locks)
    (henv : (db.environments.lookup envId).isSome)
    (hmember : ∀ x ∈ xs, envId ∉ db.retired → ∀ o, db.orgOf envId = some o →
      .organization o ∈ t.locks ∧ (db.roleOf o x.1).isSome ∧ (t.base.roleOf o x.1).isSome)
    (h : ∀ o, db.orgOf envId = some o → t.touched o) :
    Chain t db (xs.map fun x => .grants (.put (envId, x.1) x.2)) := by
  induction xs generalizing db with
  | nil => exact .nil
  | cons x xs ih =>
      exact .cons (.putGrant (hkey x List.mem_cons_self) henv (hmember x List.mem_cons_self) h)
        (ih (fun x' hx => hkey x' (List.mem_cons_of_mem x hx)) henv
          (fun x' hx => hmember x' (List.mem_cons_of_mem x hx)) h)

end Chains

variable {ι : Type} [DecidableEq ι] {d db : Db} {op : Call} {userId envId : Ident}
  {β : Type} {Q : Except Error β → Stage Change Lock → Prop} {wrote : Bool}

section Loops

/-- A loop of writes that always succeed. -/
theorem secures_forM_put {A : Type} {f : A → Session PUnit} {c : A → Change}
    (hf : ∀ x, f x = write fun _ => .ok [c x]) {xs : List A} {changes : List Change}
    {locks : List Lock} {k : PUnit → Session β}
    (hQ : ∀ e changes, Q (.error e) ⟨changes, locks, wrote⟩)
    (h : Secures ι Q op d ⟨changes ++ xs.map c, locks, wrote⟩ (k ⟨⟩)) :
    Secures ι Q op d ⟨changes, locks, wrote⟩ (xs.forM f >>= k) := by
  induction xs generalizing changes with
  | nil =>
      rw [List.map_nil, List.append_nil] at h
      exact h
  | cons x xs ih =>
      have hcons : (x :: xs).forM f >>= k = f x >>= fun _ => xs.forM f >>= k := bind_assoc _ _ _
      rw [hcons, hf]
      refine secures_put (hQ · _) (ih ?_)
      rwa [List.append_assoc]

/-- The lock of an environment, with its revision. -/
theorem secures_lockRevision {locks : List Lock} {k : Int → Session β}
    (hQ : ∀ e locks, Q (.error e) ⟨[], locks, wrote⟩)
    (h : ∀ db env, Since locks d db → db.environments.lookup envId = some env →
      Secures ι Q op db ⟨[], .environment envId :: locks, wrote⟩ (k env.revision)) :
    Secures ι Q op d ⟨[], locks, wrote⟩ (lockRevision envId >>= k) := by
  simp only [lockRevision, bind_assoc]
  refine secures_lock (hQ · _) fun db a new _ hsince hf => ?_
  cases hf
  simp only [Sessions.applyAll_nil, List.nil_append]
  obtain he | ⟨env, he⟩ := (db.environments.lookup envId).eq_none_or_eq_some
  · simp only [he]
    exact secures_throw (hQ _ _)
  · simp only [he]
    rw [pure_bind]
    exact h db env hsince he

end Loops

section Rotations

variable {orgId : Ident} {locks : List Lock}

/-- Who is listed as a member is one. -/
theorem isSome_roleOf_of_mem {u : Ident} (h : u ∈ (db.memberships.rows.filter fun m =>
    m.1.1 = orgId).map fun m => m.1.2) : (db.roleOf orgId u).isSome := by
  obtain ⟨⟨⟨o, u'⟩, m⟩, hm, rfl⟩ := List.mem_map.1 h
  obtain ⟨hrow, ho⟩ := List.mem_filter.1 hm
  obtain rfl : o = orgId := of_decide_eq_true ho
  rw [Db.roleOf, Table.mem_rows.1 hrow]
  rfl

/-- The changes of a rotation before the new grants. -/
def rewrapChanges (envId : Ident) (historyKeys : List ((Ident × Int) × Bytes))
    (machineGrants dataKeys : List (Ident × Bytes)) (dropped : List (Ident × Ident)) :
    List Change :=
  (historyKeys.map fun h => .secretVersions (.update h.1 fun v => { v with encDataKey := h.2 })) ++
    (machineGrants.map fun m => .machineTokens (.update m.1 fun token =>
      if token.envId = envId then { token with encVaultKey := m.2 } else token)) ++
    (dataKeys.map fun d => .secrets (.update d.1 fun secret =>
      if secret.envId = envId then { secret with encDataKey := d.2 } else secret)) ++
    dropped.map fun k => .grants (.delete k)

theorem rewrapChanges_quiet {historyKeys : List ((Ident × Int) × Bytes)}
    {machineGrants dataKeys : List (Ident × Bytes)} {dropped : List (Ident × Ident)} {c : Change}
    (hc : c ∈ rewrapChanges envId historyKeys machineGrants dataKeys dropped) : c.Quiet := by
  simp only [rewrapChanges, List.mem_append, List.mem_map] at hc
  rcases hc with ((⟨x, -, rfl⟩ | ⟨x, -, rfl⟩) | ⟨x, -, rfl⟩) | ⟨x, -, rfl⟩ <;>
    exact ⟨rfl, rfl, rfl⟩

/-- The versions that a rotation rewraps are of secrets of the environment. -/
theorem envId_of_sameKeys {keys : List (Ident × Int)}
    (h : sameKeys keys ((db.historyOf envId).map (·.1))) {key : Ident × Int} (hkey : key ∈ keys) :
    ∃ secret, db.secrets.lookup key.1 = some secret ∧ secret.envId = envId := by
  simp only [sameKeys, Bool.and_eq_true, List.all_eq_true, decide_eq_true_eq] at h
  obtain ⟨v, hv, rfl⟩ := List.mem_map.1 (h.1 key hkey)
  have hany := (List.mem_filter.1 hv).2
  rw [Option.any_eq_true] at hany
  obtain ⟨secret, hs, he⟩ := hany
  exact ⟨secret, hs, of_decide_eq_true he⟩

/-- What a rotation has found out when it commits. -/
structure Rotatable (db : Db) (locks : List Lock) (envId orgId : Ident)
    (historyKeys : List ((Ident × Int) × Bytes)) (grants : List (Ident × Bytes)) : Prop where
  situated : Situated db locks envId (some orgId)
  environment : .environment envId ∈ locks
  key : ∀ g ∈ grants, .environmentKey envId ∈ locks
  present : (db.environments.lookup envId).isSome
  own : ∀ h ∈ historyKeys, ∀ secret, db.secrets.lookup h.1.1 = some secret → secret.envId = envId
  members : envId ∉ db.retired → ∀ g ∈ grants, (db.roleOf orgId g.1).isSome

/-- The changes of a rotation fit, in their order. -/
theorem Rotatable.chain {t : Terms} {historyKeys : List ((Ident × Int) × Bytes)}
    {machineGrants dataKeys grants : List (Ident × Bytes)} {dropped : List (Ident × Ident)}
    {revision : Int} {event : AuditEvent}
    (h : Rotatable t.base t.locks envId orgId historyKeys grants)
    (hdropped : ∀ k ∈ dropped, k.1 = envId)
    (htouched : ∀ o, t.base.orgOf envId = some o → t.touched o) :
    Chain t t.base (rewrapChanges envId historyKeys machineGrants dataKeys dropped ++
      (grants.map fun g => .grants (.put (envId, g.1) g.2)) ++
      [.environments (.update envId fun env => { env with revision })] ++
      [.auditEvent event]) := by
  have hquiet : ∀ c ∈ rewrapChanges envId historyKeys machineGrants dataKeys dropped, c.Quiet :=
    fun _ hc => rewrapChanges_quiet hc
  have hsame : ∀ changes, changes <+: rewrapChanges envId historyKeys machineGrants dataKeys
      dropped → SamePlaces t.base (t.base.after changes) :=
    fun changes hpre => samePlaces_after fun c hc => hquiet c (hpre.subset hc)
  unfold rewrapChanges at hsame ⊢
  have hend := hsame _ (List.prefix_refl _)
  refine Chain.append (Chain.append (Chain.append (Chain.append (Chain.append (Chain.append
    (chain_rewrapVersions fun x hx secret hs o ho => ?_) (chain_resealTokens fun o ho => ?_))
    (chain_rewrapSecrets fun o ho => ?_)) (chain_deleteGrants fun k hk o ho => ?_))
    (chain_putGrants h.key ?_ (fun g hg hkept o ho => ?_) fun o ho => ?_))
    (.cons (.updateEnv h.environment fun _ => rfl) .nil)) (.cons .auditEvent .nil)
  · exact htouched o (h.own x hx secret hs ▸ ho)
  · have hplaces := hsame _ (((List.prefix_append _ _).trans (List.prefix_append _ _)).trans
      (List.prefix_append _ _))
    rw [hplaces.orgOf] at ho
    exact ⟨fun hkept => h.situated.locked (hplaces.retired ▸ hkept) ho, htouched o ho⟩
  · rw [(hsame _ ((List.prefix_append _ _).trans (List.prefix_append _ _))).orgOf] at ho
    exact htouched o ho
  · rw [(hsame _ (List.prefix_append _ _)).orgOf, hdropped k hk] at ho
    exact htouched o ho
  · rw [hend.environments]
    exact h.present
  · rw [hend.orgOf] at ho
    have hkept' : envId ∉ t.base.retired := hend.retired ▸ hkept
    have hlock := h.situated.locked hkept' ho
    cases (h.situated hkept').1.symm.trans ho
    rw [hend.roleOf]
    exact ⟨hlock, h.members hkept' g hg, h.members hkept' g hg⟩
  · rw [hend.orgOf] at ho
    exact htouched o ho

theorem commits_rotate {req : RotateRequest} {historyKeys : List ((Ident × Int) × Bytes)}
    {machineGrants dataKeys grants : List (Ident × Bytes)} {dropped : List (Ident × Ident)}
    {revision : Int} {event : AuditEvent} (h : Rotatable db locks envId orgId historyKeys grants)
    (hdropped : ∀ k ∈ dropped, k.1 = envId) (hevent : event.orgId = orgId ∧ event.actor = userId) :
    Commits (.rotate userId envId req) locks db
      (rewrapChanges envId historyKeys machineGrants dataKeys dropped ++
        (grants.map fun g => .grants (.put (envId, g.1) g.2)) ++
        [.environments (.update envId fun env => { env with revision })] ++
        [.auditEvent event]) := by
  refine commits_of_chain rfl (h.chain hdropped ?_)
  refine h.situated.touched (fun o ho => ?_) fun _ h => h
  cases ho
  exact ⟨event, by simp, hevent⟩

/-- The new grants of a rotation, each of which locks the key of the environment once more. -/
theorem secures_insertGrants {xs : List (Ident × Bytes)} {changes : List Change} {noUser : Error}
    {k : PUnit → Session β} (hQ : ∀ e changes locks, Q (.error e) ⟨changes, locks, wrote⟩)
    (h : ∀ db locks', Since locks d db → (∀ k ∈ locks, k ∈ locks') →
      (∀ g ∈ xs, .environmentKey envId ∈ locks') → Secures ι Q op db
      ⟨changes ++ xs.map (fun g => .grants (.put (envId, g.1) g.2)), locks', wrote⟩ (k ⟨⟩)) :
    Secures ι Q op d ⟨changes, locks, wrote⟩ (xs.forM (fun g =>
      insertGrant envId g.1 g.2 (.error .internal) noUser) >>= k) := by
  induction xs generalizing changes locks d with
  | nil =>
      have hnil := h d locks (Sessions.Discipline.Since.refl _ _ _) (fun _ h => h) nofun
      rw [List.map_nil, List.append_nil] at hnil
      exact hnil
  | cons x xs ih =>
      have hcons : (x :: xs).forM (fun g => insertGrant envId g.1 g.2 (.error .internal) noUser) >>=
          k = insertGrant envId x.1 x.2 (.error .internal) noUser >>= fun _ => xs.forM (fun g =>
            insertGrant envId g.1 g.2 (.error .internal) noUser) >>= k := bind_assoc _ _ _
      rw [hcons]
      refine secures_insertGrant (hQ · _ _) fun db₁ new _ hsince₁ hnew => ?_
      obtain ⟨herror, -⟩ | ⟨rfl, -⟩ := hnew
      · cases herror
      refine ih fun db₂ locks' hsince₂ hsub _ => ?_
      have hsub' : ∀ k ∈ locks, k ∈ Lock.environmentKey envId :: locks :=
        fun k hk => List.mem_cons_of_mem _ hk
      have hrest := h db₂ locks' (hsince₁.trans hsince₂ hsub')
        (fun k hk => hsub k (hsub' k hk)) fun _ _ => hsub _ List.mem_cons_self
      rw [List.map_cons] at hrest
      rw [List.append_assoc]
      exact hrest

theorem secures_rotate {req : RotateRequest} {late : Prop} :
    Secures ι (AtEnd late) (.rotate userId envId req) d (outside false)
      (Call.rotate userId envId req).handler := by
  refine secures_discard ?_
  simp only [rotate, bind_assoc]
  refine secures_envAccess (fun _ => atEnd_error) fun db₀ projectId access _ hplaced huser => ?_
  refine secures_check (fun _ => atEnd_error) fun _ _ => ?_
  refine secures_selectOrgId (fun _ => atEnd_error) fun db₁ selected hlater₁ hselected => ?_
  cases selected with
  | none => exact secures_throw atEnd_error
  | some orgId =>
      simp only [bind_assoc]
      refine secures_check (fun _ => atEnd_error) fun rotation _ => ?_
      refine secures_closing ?_ fun _ => ⟨_, rfl⟩
      refine secures_requireManageStructureTx (fun _ _ => rfl) fun db₂ hlater₂ _ => ?_
      refine secures_read_moving (fun _ => rfl) fun db₃ _ hsince₃ => ?_
      refine secures_require (fun _ => rfl) fun hmembers => ?_
      refine secures_lockRevision (fun _ _ => rfl) fun db₄ env hsince₄ henv => ?_
      refine secures_require (fun _ => rfl) fun _ => ?_
      refine secures_read (fun _ => rfl) fun _ _ _ => ?_
      refine secures_require (fun _ => rfl) fun _ => ?_
      refine secures_read_moving (fun _ => rfl) fun db₅ _ hsince₅ => ?_
      refine secures_require (fun _ => rfl) fun hversions => ?_
      refine secures_forM_put (fun _ => rfl) (fun _ _ => rfl) ?_
      refine secures_read (fun _ => rfl) fun _ _ _ => ?_
      refine secures_require (fun _ => rfl) fun _ => ?_
      refine secures_forM_put (fun _ => rfl) (fun _ _ => rfl) ?_
      refine secures_forM_put (fun _ => rfl) (fun _ _ => rfl) ?_
      refine secures_writes (fun _ => rfl) fun db₆ dropped _ _ hdropped => ?_
      cases hdropped
      refine secures_insertGrants (fun _ _ _ => rfl) fun db₇ locks hsince₇ hsub hkey => ?_
      refine secures_put (fun _ => rfl) ?_
      refine secures_record (fun _ => rfl) ?_
      refine secures_commits (fun db₈ _ hsince₈ => ?_) trivial
      have henvLock : Lock.environment envId ∈ .environment envId :: orgLocks access.orgId :=
        List.mem_cons_self
      have horgLock : ∀ o, access.orgId = some o →
          Lock.organization o ∈ .environment envId :: orgLocks access.orgId :=
        fun o ho => List.mem_cons_of_mem _ (mem_orgLocks.2 ho)
      have hsince := hsince₇.trans hsince₈ hsub
      have hrotatable : Rotatable db₈ locks envId orgId rotation.historyKeys rotation.grants := by
        have hlater := (hlater₂.trans hsince₃.later).trans
          (hsince₄.later.trans (hsince₅.later.trans hsince.later))
        have horg := fun hkept => (hselected db₈ hlater hkept).2
        have hfound := fun hkept =>
          (hplaced db₈ (hlater₁.trans hlater) hkept).2.symm.trans (horg hkept)
        refine ⟨fun hkept => ⟨horg hkept, fun o ho => hsub _ (horgLock o ?_)⟩, hsub _ henvLock, hkey, ?_,
          fun h hh secret hs => ?_, fun hkept g hg => ?_⟩
        · exact (hfound hkept).trans ho
        · rw [(Since.environment (Since.trans hsince₅ hsince fun _ h => h) henvLock).environment,
            henv]
          rfl
        · obtain ⟨old, hold, he⟩ := envId_of_sameKeys hversions (List.mem_map_of_mem hh)
          obtain ⟨secret', hs', he'⟩ := (Since.environment hsince henvLock).secrets _ old hold he
          cases hs.symm.trans hs'
          exact he'
        · have hlock := mem_orgLocks.2 (hfound hkept)
          have hmember := hmembers g hg
          have hsinceOrg := hsince₄.trans (hsince₅.trans hsince fun _ h => h)
            fun _ h => List.mem_cons_of_mem _ h
          rw [(Since.org hsinceOrg hlock).roles]
          exact isSome_roleOf_of_mem hmember
      refine commits_rotate hrotatable (fun k hk => ?_) ⟨rfl, rfl⟩
      simpa using (List.mem_filter.1 hk).2

end Rotations

section Batches

/-- What a batch changes: secrets of the environment, which it locks to set them. -/
inductive Written (envId : Ident) (locks : List Lock) : Change → Prop
  | set {s secret} : .secret s ∈ locks → secret.envId = envId →
      Written envId locks (.secrets (.put s secret))
  | version {s v row} : .secret s ∈ locks → Written envId locks (.secretVersions (.put (s, v) row))
  | deleted {s} : Written envId locks (.secrets (.update s fun secret =>
      if secret.envId = envId then { secret with deleted := true } else secret))

theorem Written.mono {locks locks' : List Lock} {c : Change} (h : Written envId locks c)
    (hsub : ∀ k ∈ locks, k ∈ locks') : Written envId locks' c := by
  cases h with
  | set hlock he => exact .set (hsub _ hlock) he
  | version hlock => exact .version (hsub _ hlock)
  | deleted => exact .deleted

/-- The secrets that are locked are of the environment. -/
def OwnSecrets (db : Db) (locks : List Lock) (envId : Ident) : Prop :=
  ∀ s, .secret s ∈ locks → ∀ secret, db.secrets.lookup s = some secret → secret.envId = envId

theorem OwnSecrets.since {locks : List Lock} (h : OwnSecrets d locks envId)
    (hs : Since locks d db) : OwnSecrets db locks envId := by
  intro s hlock secret hsecret
  obtain ⟨old, hold, heq⟩ := hs.secret hlock secret hsecret
  exact heq.symm.trans (h s hlock old hold)

/-- A secret that is not locked stays where it is. -/
theorem lookup_written {locks : List Lock} {changes : List Change} {s : Ident} {secret : Secret}
    (h : ∀ c ∈ changes, Written envId locks c) (hs : .secret s ∉ locks)
    (hsecret : db.secrets.lookup s = some secret) :
    ∃ secret', (db.after changes).secrets.lookup s = some secret' ∧
      secret'.envId = secret.envId := by
  induction changes generalizing db secret with
  | nil => exact ⟨secret, hsecret, rfl⟩
  | cons c changes ih =>
      have hrest := fun c' hc => h c' (List.mem_cons_of_mem c hc)
      cases h c List.mem_cons_self with
      | @set s' secret' hlock _ =>
          refine ih hrest (Table.Change.lookup_put.2 (.inr ⟨?_, hsecret⟩))
          rintro rfl
          exact hs hlock
      | version _ => exact ih hrest hsecret
      | @deleted s' =>
          by_cases hsame : s = s'
          · obtain ⟨secret', hs', heq⟩ := ih hrest
              (show (Change.apply (.secrets (.update s' _)) db).secrets.lookup s = some _ from
                Table.Change.lookup_update.2 ⟨secret, hsecret, .inl ⟨hsame, rfl⟩⟩)
            refine ⟨secret', hs', heq.trans ?_⟩
            split <;> rfl
          · exact ih hrest
              (show (Change.apply (.secrets (.update s' _)) db).secrets.lookup s = some _ from
                Table.Change.lookup_update.2 ⟨secret, hsecret, .inr ⟨hsame, rfl⟩⟩)

theorem chain_written {t : Terms} {changes : List Change}
    (h : ∀ c ∈ changes, Written envId t.locks c) (hown : OwnSecrets db t.locks envId)
    (henvLock : .environment envId ∈ t.locks) (henv : (db.environments.lookup envId).isSome)
    (htouched : ∀ o, db.orgOf envId = some o → t.touched o) : Chain t db changes := by
  induction changes generalizing db with
  | nil => exact .nil
  | cons c changes ih =>
      have hrest := fun c' hc => h c' (List.mem_cons_of_mem c hc)
      cases h c List.mem_cons_self with
      | @set s secret hlock he =>
          refine .cons (.putSecret hlock (he ▸ henvLock) (he ▸ henv)
            (fun old hold => (hown s hlock old hold).trans he.symm) (he ▸ htouched))
            (ih hrest (fun s' hlock' secret' hs' => ?_) henv htouched)
          rcases Table.Change.lookup_put.1 hs' with ⟨-, rfl⟩ | ⟨-, hs'⟩
          · exact he
          · exact hown s' hlock' secret' hs'
      | @version s v row hlock =>
          refine .cons (.version fun secret hs o ho => ?_) (ih hrest hown henv htouched)
          exact htouched o (hown s hlock secret hs ▸ ho)
      | @deleted s =>
          refine .cons (.updateSecret (fun secret => ?_) fun secret _ hne o ho => ?_)
            (ih hrest (fun s' hlock' secret' hs' => ?_) henv htouched)
          · split <;> rfl
          · have he : secret.envId = envId := by
              by_contra hother
              rw [if_neg hother] at hne
              exact hne rfl
            exact htouched o (he ▸ ho)
          · obtain ⟨old, hold, ⟨-, rfl⟩ | ⟨-, rfl⟩⟩ := Table.Change.lookup_update.1 hs'
            · have hold := hown s' hlock' old hold
              split <;> exact hold
            · exact hown s' hlock' secret' hold

theorem secret_notMem_locks {s : Ident} {orgId : Option Ident} :
    .secret s ∉ Lock.environment envId :: orgLocks orgId := by
  cases orgId <;> simp [orgLocks]

/-- What holds in a batch between two changes. -/
structure Batched (d₀ : Db) (locks₀ : List Lock) (envId : Ident) (d : Db)
    (g : Stage Change Lock) : Prop where
  since : Since locks₀ d₀ d
  locks : ∀ k ∈ locks₀, k ∈ g.locks
  changes : ∀ c ∈ g.changes, Written envId g.locks c
  own : OwnSecrets d g.locks envId

theorem secures_applySet {d₀ : Db} {locks₀ : List Lock} {g : Stage Change Lock}
    {change : SecretChange} {k : PUnit → Session β} (hQ : ∀ e changes locks,
      Q (.error e) ⟨changes, locks, g.wrote⟩) (hg : Batched d₀ locks₀ envId d g)
    (h : ∀ d' changes locks, Batched d₀ locks₀ envId d' ⟨changes, locks, g.wrote⟩ →
      Secures ι Q op d' ⟨changes, locks, g.wrote⟩ (k ⟨⟩)) :
    Secures ι Q op d g (applySet envId change >>= k) := by
  simp only [applySet, bind_assoc]
  refine secures_require (hQ · _ _) fun _ => ?_
  refine secures_check (hQ · _ _) fun encName _ => ?_
  refine secures_check (hQ · _ _) fun encValue _ => ?_
  refine secures_check (hQ · _ _) fun encDataKey _ => ?_
  refine secures_writeLocking (hQ · _ _) fun db₁ new _ hsince₁ hf => ?_
  split at hf
  · cases hf
  next hown =>
  cases hf
  refine secures_writes (hQ · _ _) fun db₂ new _ _ hf => ?_
  split at hf
  · cases hf
  cases hf
  refine h db₁ _ _ ⟨hg.since.trans hsince₁ hg.locks,
    fun k hk => List.mem_cons_of_mem _ (hg.locks k hk), fun c hc => ?_, ?_⟩
  · rcases List.mem_append.1 hc with hc | hc
    · rcases List.mem_append.1 hc with hc | hc
      · exact (hg.changes c hc).mono fun k hk => List.mem_cons_of_mem _ hk
      · cases List.mem_singleton.1 hc
        exact .set List.mem_cons_self rfl
    · cases List.mem_singleton.1 hc
      exact .version List.mem_cons_self
  · intro s hlock secret hs
    by_cases hheld : .secret s ∈ g.locks
    · exact hg.own.since hsince₁ s hheld secret hs
    · rcases List.mem_cons.1 hlock with heq | hlock
      · cases heq
        obtain ⟨secret', hs', heq⟩ := lookup_written hg.changes hheld hs
        by_contra hne
        exact hown ⟨secret', hs', fun he => hne (heq.symm.trans he)⟩
      · exact absurd hlock hheld

theorem secures_applyChange {d₀ : Db} {locks₀ : List Lock} {g : Stage Change Lock}
    {change : SecretChange} {k : PUnit → Session β} (hQ : ∀ e changes locks,
      Q (.error e) ⟨changes, locks, g.wrote⟩) (hg : Batched d₀ locks₀ envId d g)
    (h : ∀ d' changes locks, Batched d₀ locks₀ envId d' ⟨changes, locks, g.wrote⟩ →
      Secures ι Q op d' ⟨changes, locks, g.wrote⟩ (k ⟨⟩)) :
    Secures ι Q op d g (applyChange envId change >>= k) := by
  simp only [applyChange, bind_assoc]
  refine secures_check (hQ · _ _) fun _ _ => ?_
  cases change.op with
  | set => exact secures_applySet hQ hg h
  | delete =>
      refine secures_put (hQ · _ _) (h d _ _ ⟨hg.since, hg.locks, fun c hc => ?_, hg.own⟩)
      rcases List.mem_append.1 hc with hc | hc
      · exact hg.changes c hc
      · cases List.mem_singleton.1 hc
        exact .deleted

theorem commits_writeSecrets {req : BatchRequest} {locks : List Lock} {orgId : Option Ident}
    {changes : List Change} {revision : Int} {event : Ident → AuditEvent}
    (h : Situated db locks envId orgId) (hchanges : ∀ c ∈ changes, Written envId locks c)
    (hown : OwnSecrets db locks envId) (henvLock : .environment envId ∈ locks)
    (henv : (db.environments.lookup envId).isSome)
    (hevent : ∀ o, (event o).orgId = o ∧ (event o).actor = userId) :
    Commits (.writeSecrets userId envId req) locks db
      (changes ++ [.environments (.update envId fun env => { env with revision })] ++
        orgEvents orgId event) := by
  refine commits_of_chain rfl (Chain.append (Chain.append (chain_written hchanges hown henvLock henv ?_)
    (.cons (.updateEnv henvLock fun _ => rfl) .nil)) chain_auditEvents)
  refine h.touched (records_orgEvents hevent) ?_
  exact fun _ h => h

theorem secures_writeSecrets {req : BatchRequest} {late : Prop} :
    Secures ι (AtEnd late) (.writeSecrets userId envId req) d (outside false)
      (Call.writeSecrets userId envId req).handler := by
  refine secures_discard ?_
  simp only [writeSecrets, bind_assoc]
  refine secures_require (fun _ => atEnd_error) fun _ => ?_
  refine secures_envAccess (fun _ => atEnd_error) fun db₀ projectId access _ hplaced huser => ?_
  refine secures_check (fun _ => atEnd_error) fun _ _ => ?_
  refine secures_closing ?_ fun _ => ⟨_, rfl⟩
  refine secures_requireWriteTx (fun _ _ => rfl) fun db₁ hlater₁ _ => ?_
  refine secures_lockRevision (fun _ _ => rfl) fun db₂ env hsince₂ henv => ?_
  refine secures_require (fun _ => rfl) fun _ => ?_
  have hplaced₂ := (hplaced.later hlater₁).later hsince₂.later
  have horgLock : ∀ o, access.orgId = some o →
      Lock.organization o ∈ .environment envId :: orgLocks access.orgId :=
    fun o ho => List.mem_cons_of_mem _ (mem_orgLocks.2 ho)
  refine secures_forM (I := fun _ d g => g.wrote = false ∧
    Batched db₂ (.environment envId :: orgLocks access.orgId) envId d g) ?_ ?_ ?_
  · rintro x rest d ⟨changes, locks, wrote⟩ k ⟨rfl, hg⟩ hk
    exact secures_applyChange (fun _ _ _ => rfl) hg fun d' changes locks hg' =>
      hk d' ⟨changes, locks, false⟩ ⟨rfl, hg'⟩
  · rintro db₃ ⟨changes, locks, wrote⟩ ⟨rfl, hg⟩
    refine secures_put (fun _ => rfl) ?_
    refine secures_recordIfOrg (fun _ => rfl) ?_
    refine secures_commits (fun db₄ _ hsince₄ => ?_) trivial
    have hsince := hg.since.trans hsince₄ hg.locks
    refine commits_writeSecrets (fun hkept => ?_) hg.changes (hg.own.since hsince₄)
      (hg.locks _ List.mem_cons_self) ?_ fun _ => ⟨rfl, rfl⟩
    · exact ⟨(hplaced₂ db₄ hsince.later hkept).2, fun o ho => hg.locks _ (horgLock o ho)⟩
    · rw [(Since.environment hsince List.mem_cons_self).environment, henv]
      rfl
  · refine ⟨rfl, Sessions.Discipline.Since.refl discipline _ db₂, fun _ h => h,
      fun _ h => absurd h List.not_mem_nil, fun s hs => absurd hs ?_⟩
    exact secret_notMem_locks

end Batches

end Org

end Sotto
