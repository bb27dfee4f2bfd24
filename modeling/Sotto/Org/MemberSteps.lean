import Sotto.Org.Parts

/-!
# The commits of the requests about members

Every one commits, under the lock of the organisation, what it has found out under that lock.
-/

namespace Sotto

namespace Org

open Core (Ident Bytes)
open Server (Membership Error Role OrgAccess)
open Sessions (check require statement)
open Sessions.Discipline

section Chains

variable {t : Terms} {db : Db} {changes : List Change}

/-- Deleting grants of organisations that may be touched. -/
theorem chain_deleteGrants {ks : List (Ident × Ident)}
    (h : ∀ k ∈ ks, ∀ o, db.orgOf k.1 = some o → t.touched o) :
    Chain t db (ks.map fun k => .grants (.delete k)) := by
  induction ks generalizing db with
  | nil => exact .nil
  | cons k ks ih =>
      exact .cons (.deleteGrant fun o ho _ => h k List.mem_cons_self o ho)
        (ih fun k' hk' => h k' (List.mem_cons_of_mem k hk'))

/-- Changes that leave the memberships alone leave the roles alone. -/
theorem roleOf_after (h : ∀ c ∈ changes, c.membership? = none) (o u : Ident) :
    (db.after changes).roleOf o u = db.roleOf o u := by
  unfold Db.roleOf
  rw [after_memberships, List.filterMap_eq_nil_iff.2 h]
  rfl

/-- Changes to other tables than those of environments and projects move no environment. -/
theorem orgOf_after (h : ∀ c ∈ changes, c.environment? = none ∧ c.project? = none) (e : Ident) :
    (db.after changes).orgOf e = db.orgOf e := by
  unfold Server.Db.orgOf
  rw [after_environments, after_projects, List.filterMap_eq_nil_iff.2 fun c hc => (h c hc).1,
    List.filterMap_eq_nil_iff.2 fun c hc => (h c hc).2]
  rfl

/-- Changes that leave the environments alone make no id free. -/
theorem retired_after (h : ∀ c ∈ changes, c.environment? = none) :
    (db.after changes).retired = db.retired := by
  induction changes generalizing db with
  | nil => rfl
  | cons c changes ih =>
      refine (ih fun c' hc => h c' (List.mem_cons_of_mem c hc)).trans ?_
      have hc := h c List.mem_cons_self
      cases c <;> first | rfl | cases hc

/-- Events are recorded of whatever happens. -/
theorem chain_auditEvents {events : List AuditEvent} : Chain t db (events.map .auditEvent) := by
  induction events generalizing db with
  | nil => exact .nil
  | cons e events ih => exact .cons .auditEvent ih

/-- Revoking tokens of organisations that may be touched. -/
theorem chain_revokeTokens {A : Type} {key : A → Ident} {xs : List A}
    (h : ∀ x ∈ xs, ∀ token, db.machineTokens.lookup (key x) = some token →
      ∀ o, db.orgOf token.envId = some o → .organization o ∈ t.locks ∧ t.touched o) :
    Chain t db (xs.map fun x => .machineTokens (.update (key x) fun token =>
      { token with revoked := true })) := by
  induction xs generalizing db with
  | nil => exact .nil
  | cons x xs ih =>
      refine .cons (.updateToken (fun _ => ⟨rfl, fun _ => rfl⟩) fun token htoken _ o ho => ?_)
        (ih fun x' hx' token htoken o ho => ?_)
      · obtain ⟨hlock, htouched⟩ := h x List.mem_cons_self token htoken o ho
        exact ⟨fun _ => hlock, htouched⟩
      · obtain ⟨old, hold, ⟨-, rfl⟩ | ⟨-, rfl⟩⟩ := Table.Change.lookup_update.1 htoken
        · exact h x' (List.mem_cons_of_mem x hx') _ hold o ho
        · exact h x' (List.mem_cons_of_mem x hx') _ hold o ho

theorem membership?_eq_none_of_grants {ks : List (Ident × Ident)} {c : Change}
    (hc : c ∈ ks.map fun k => Change.grants (.delete k)) : c.membership? = none := by
  obtain ⟨k, -, rfl⟩ := List.mem_map.1 hc
  rfl

theorem mem_orgGrantsOf {orgId userId : Ident} {k : Ident × Ident}
    (h : k ∈ db.orgGrantsOf orgId userId) : k.2 = userId ∧ db.orgOf k.1 = some orgId := by
  simpa using (List.mem_filter.1 h).2

end Chains

section Found

variable {locks : List Lock} {d db : Db} {orgId userId : Ident} {a : OrgAccess}

theorem Found.since (h : Found d orgId userId a) (hs : Since locks d db)
    (hlock : .organization orgId ∈ locks) : Found db orgId userId a where
  lifecycle := (hs.org hlock).lifecycleOf.trans h.lifecycle
  role := ((hs.org hlock).roles userId).trans h.role
  kept := h.kept

end Found

section Joining

variable {ι : Type} [DecidableEq ι] {d db : Db} {op : Call} {orgId userId target : Ident}
  {α β : Type} {Q : Except Error β → Stage Change Lock → Prop} {wrote : Bool}

/-- The tier is judged under the lock of the organisation, which is taken once more. -/
theorem secures_effectiveTierLocked {k : Bool → Session β} {locks : List Lock}
    (hQ : ∀ e locks, Q (.error e) ⟨[], locks, wrote⟩)
    (h : ∀ db now locks', Since locks d db → (∀ k ∈ locks, k ∈ locks') →
      .organization orgId ∈ locks' → .judged orgId now ∈ locks' →
      Secures ι Q op db ⟨[], locks', wrote⟩ (k (db.isTeam now orgId))) :
    Secures ι Q op d ⟨[], locks, wrote⟩ (effectiveTierLocked orgId >>= k) := by
  simp only [effectiveTierLocked, bind_assoc]
  refine secures_draw fun now => ?_
  refine secures_lockOrganization (hQ · _) (fun db _ => secures_throw (hQ _ _))
    fun db l _ hsince _ => ?_
  simp only [bind_assoc]
  refine secures_check (hQ · _) fun _ _ => ?_
  refine secures_lock (hQ · _) fun db₁ team new _ hsince₁ hf => ?_
  cases hf
  refine h db₁ now _ (hsince.trans hsince₁ fun _ => List.mem_cons_of_mem _) ?_ ?_
    List.mem_cons_self
  · exact fun _ hk => List.mem_cons_of_mem _ (List.mem_cons_of_mem _ hk)
  · exact List.mem_cons_of_mem _ List.mem_cons_self

/-- There is room for another member, or the organisation was judged to be on the team tier. -/
def HasRoom (locks : List Lock) (db : Db) (orgId : Ident) : Prop :=
  ∃ now, .judged orgId now ∈ locks ∧
    (db.isTeam now orgId = true ∨ db.memberCount orgId < freeMaxMembers)

theorem HasRoom.since {locks : List Lock} (h : HasRoom locks d orgId) (hs : Since locks d db)
    (hlock : .organization orgId ∈ locks) : HasRoom locks db orgId := by
  obtain ⟨now, hjudged, hroom⟩ := h
  refine ⟨now, hjudged, ?_⟩
  rw [(hs.org hlock).isTeam, (hs.org hlock).memberCount]
  exact hroom

theorem secures_checkCanAddMember {k : Unit → Session β} {locks : List Lock}
    (hQ : ∀ e locks, Q (.error e) ⟨[], locks, wrote⟩)
    (h : ∀ db locks', Since locks d db → .organization orgId ∈ locks' →
      HasRoom locks' db orgId → Secures ι Q op db ⟨[], locks', wrote⟩ (k ())) :
    Secures ι Q op d ⟨[], locks, wrote⟩ (checkCanAddMember orgId >>= k) := by
  simp only [checkCanAddMember, bind_assoc]
  refine secures_effectiveTierLocked hQ fun db now locks' hsince _ hlock hjudged => ?_
  split
  · next hteam =>
      rw [pure_bind]
      exact h db locks' hsince hlock ⟨now, hjudged, .inl hteam⟩
  · simp only [bind_assoc]
    refine secures_read (hQ · _) fun db₁ _ hsince₁ => ?_
    refine secures_require (hQ · _) fun hroom => ?_
    refine h db locks' hsince hlock ⟨now, hjudged, .inr ?_⟩
    rw [← (hsince₁.org hlock).memberCount]
    exact hroom

/-- The changes of a request that adds a member. -/
def joinChanges (orgId target : Ident) (m : Membership) (ks : List (Ident × Ident))
    (event : AuditEvent) : List Change :=
  .memberships (.put (orgId, target) m) :: ks.map (fun k => .grants (.delete k)) ++
    [.auditEvent event]

theorem roleOf_joinChanges (m : Membership) (ks : List (Ident × Ident)) (event : AuditEvent)
    (o u : Ident) : (db.after (joinChanges orgId target m ks event)).roleOf o u =
      if (o, u) = (orgId, target) then some m.role else db.roleOf o u := by
  show (((Change.memberships (.put (orgId, target) m)).apply db).after (_ ++ _)).roleOf o u = _
  rw [roleOf_after, roleOf_memberships]
  · rfl
  · intro c hc
    rcases List.mem_append.1 hc with hc | hc
    · exact membership?_eq_none_of_grants hc
    · rw [List.mem_singleton.1 hc]
      rfl

/-- A member more. -/
theorem memberCount_joinChanges {m : Membership} {ks : List (Ident × Ident)} {event : AuditEvent}
    (hnone : db.roleOf orgId target = none) :
    (db.after (joinChanges orgId target m ks event)).memberCount orgId =
      db.memberCount orgId + 1 := by
  have hchanges : (joinChanges orgId target m ks event).filterMap Change.membership? =
      [.put (orgId, target) m] := by
    simp [joinChanges, List.filterMap_map, Function.comp_def, Change.membership?]
  unfold Db.memberCount
  rw [after_memberships, hchanges]
  show ((Table.rows (AList.insert (orgId, target) m db.memberships)).filter _).length = _
  rw [Table.rows_insert (by simpa [Db.roleOf] using hnone)]
  simp

theorem houses?_of_membership? {x : Ident × Ident} (h : op.membership? = some x) :
    op.houses? = none := by
  cases op <;> first | rfl | cases h

/-- A request that is not to leave room leaves what it changes members for within its quota. -/
theorem withinQuota_of_membership {locks : List Lock} {changes : List Change} {x : Ident × Ident}
    (hop : op.membership? = some x) (h : ∀ o, op.joins? = some o → ∃ now, .judged o now ∈ locks ∧
      (db.isTeam now o = true ∨ (db.after changes).memberCount o ≤ freeMaxMembers)) :
    WithinQuota op locks db changes := by
  refine ⟨h, fun o p hhouses => ?_⟩
  rw [houses?_of_membership? hop] at hhouses
  cases hhouses

/-- Adding a member, whose grants from before are deleted. -/
theorem commits_join {locks : List Lock} {m : Membership} {ks : List (Ident × Ident)}
    {event : AuditEvent} (hop : op.membership? = some (userId, orgId))
    (hjoins : op.joins? = some orgId) (hroom : HasRoom locks db orgId) (hactor : op.actor = userId)
    (hlock : .organization orgId ∈ locks) (hmanages : Manages db orgId userId)
    (hnone : db.roleOf orgId target = none)
    (howner : m.role = .owner → db.roleOf orgId userId = some .owner)
    (hks : ∀ k ∈ ks, db.orgOf k.1 = some orgId)
    (hevent : event.orgId = orgId ∧ event.actor = userId) :
    Commits op locks db (joinChanges orgId target m ks event) := by
  have htouched : Records op.actor (joinChanges orgId target m ks event) orgId :=
    ⟨event, by simp [joinChanges], hevent.1, by rw [hevent.2, hactor]⟩
  refine ⟨?_, ?_, ?_, withinQuota_of_membership hop fun o ho => ?_⟩
  · refine Chain.append
      (.cons (.putMember hlock (by simpa [Db.roleOf] using hnone) (.inl htouched) (.inl hjoins))
        (chain_deleteGrants fun k hk o ho => ?_)) (.cons .auditEvent .nil)
    cases (hks k hk).symm.trans ho
    exact .inl htouched
  · intro userId' orgId' hop'
    cases hop.symm.trans hop'
    exact hmanages
  · intro userId' orgId' hop' o u hne
    cases hop.symm.trans hop'
    rw [roleOf_joinChanges] at hne
    split at hne
    · next heq =>
        obtain ⟨rfl, rfl⟩ := Prod.mk.inj heq
        rw [hnone] at hne
        exact howner (by simpa using hne)
    · exact absurd Iff.rfl hne
  · cases hjoins.symm.trans ho
    obtain ⟨now, hjudged, hroom⟩ := hroom
    refine ⟨now, hjudged, hroom.imp_right fun hcount => ?_⟩
    rw [memberCount_joinChanges hnone]
    exact hcount

/-- What a request that adds a member does once its checks are through. -/
def join (orgId target : Ident) (m : Membership) (noUser conflict : Error) (event : AuditEvent)
    (a : α) : Session α := do
  let inserted ← insertMembership orgId target m noUser
  require inserted conflict
  let _ ← deleteOrgGrants orgId target
  record event
  Sessions.commit
  return a

theorem secures_join {locks : List Lock} {m : Membership} {noUser conflict : Error}
    {event : AuditEvent} {a : α} {access : OrgAccess}
    (hop : op.membership? = some (userId, orgId)) (hjoins : op.joins? = some orgId)
    (hroom : HasRoom locks d orgId) (hactor : op.actor = userId)
    (hlock : .organization orgId ∈ locks) (hfound : Found d orgId userId access)
    (hmanages : Manages d orgId userId)
    (howner : m.role = .owner → access.role = .owner)
    (hevent : event.orgId = orgId ∧ event.actor = userId) :
    Secures ι (InBody fun _ _ => True) op d ⟨[], locks, false⟩
      (join orgId target m noUser conflict event a) := by
  unfold join insertMembership deleteOrgGrants
  refine secures_statement (fun _ => rfl) fun db inserted new hs hsince hf => ?_
  refine secures_require (fun _ => rfl) fun hinserted => ?_
  have hguard := hsince.org hlock
  -- the membership was not there, and the lock keeps it so
  have hnone : d.roleOf orgId target = none ∧ new = [.memberships (.put (orgId, target) m)] := by
    rw [← hguard.roles]
    change (if (db.memberships.lookup (orgId, target)).isSome then _ else _ :
      Except Error (Bool × List Change)) = _ at hf
    split at hf
    · cases hf
      cases hinserted
    · next h =>
        split at hf
        · cases hf
        · split at hf
          · cases hf
          · cases hf
            exact ⟨by simpa [Db.roleOf] using h, rfl⟩
  obtain ⟨hnone, rfl⟩ := hnone
  refine secures_statement (fun _ => rfl) fun db' n new' hs' hsince' hf' => ?_
  cases hf'
  have hguard' := hsince'.org hlock
  refine secures_record (fun _ => rfl) ?_
  refine secures_commits (fun db'' hs'' hsince'' => ?_) trivial
  have hguard'' := hsince''.org hlock
  refine commits_join hop hjoins (hroom.since hsince'' hlock) hactor hlock ⟨hguard''.lifecycleOf.trans hmanages.active, ?_⟩
    ((hguard''.roles target).trans hnone) ?_ ?_ hevent
  · rw [hguard''.roles]
    exact hmanages.admin
  · intro howner'
    rw [hguard''.roles, hfound.role, howner howner']
  · intro k hk
    exact (hguard''.orgOf k.1).2 ((hguard'.orgOf k.1).1 (mem_orgGrantsOf hk).2)

theorem secures_addMember {body : AddMember} {late : Prop} :
    Secures ι (AtEnd late) (.addMember userId orgId body) d (outside false)
      (Call.addMember userId orgId body).handler := by
  refine secures_discard ?_
  simp only [addMember, bind_assoc]
  refine secures_access (fun _ => atEnd_error) fun d _ _ => ?_
  refine secures_check (fun _ => atEnd_error) fun _ _ => ?_
  refine secures_require (fun _ => atEnd_error) fun _ => ?_
  refine secures_require (fun _ => atEnd_error) fun _ => ?_
  refine secures_closing ?_ fun _ => ⟨_, rfl⟩
  refine secures_accessForUpdate (fun _ _ => rfl) fun db locked _ _ hfound => ?_
  refine secures_check (fun _ => rfl) fun _ hwrite => ?_
  refine secures_require (fun _ => rfl) fun hadmin => ?_
  refine secures_require (fun _ => rfl) fun howner => ?_
  refine secures_checkCanAddMember (fun _ _ => rfl) fun db' locks' hsince hlock hroom => ?_
  have hfound' := hfound.since hsince List.mem_cons_self
  exact secures_join rfl rfl hroom rfl hlock hfound'
    (hfound'.manages (requireWrite_eq_ok.1 hwrite) hadmin) howner ⟨rfl, rfl⟩

theorem secures_inviteMember {email : String} {late : Prop} :
    Secures ι (AtEnd late) (.inviteMember userId orgId email) d (outside false)
      (Call.inviteMember userId orgId email).handler := by
  refine secures_discard ?_
  simp only [inviteMember, bind_assoc]
  refine secures_access (fun _ => atEnd_error) fun d _ _ => ?_
  refine secures_check (fun _ => atEnd_error) fun _ _ => ?_
  refine secures_require (fun _ => atEnd_error) fun _ => ?_
  refine secures_look (fun _ => atEnd_error) fun db _ _ => ?_
  split
  · exact secures_throw atEnd_error
  · refine secures_closing ?_ fun _ => ⟨_, rfl⟩
    refine secures_accessForUpdate (fun _ _ => rfl) fun db locked _ _ hfound => ?_
    refine secures_check (fun _ => rfl) fun _ hwrite => ?_
    refine secures_require (fun _ => rfl) fun hadmin => ?_
    refine secures_checkCanAddMember (fun _ _ => rfl) fun db' locks' hsince hlock hroom => ?_
    have hfound' := hfound.since hsince List.mem_cons_self
    exact secures_join rfl rfl hroom rfl hlock hfound'
      (hfound'.manages (requireWrite_eq_ok.1 hwrite) hadmin) (by simp) ⟨rfl, rfl⟩
  · exact secures_throw atEnd_error

end Joining

/-! ### The owners -/

section Owners

variable {db : Db} {o u : Ident}

theorem mem_ownersOf : u ∈ db.ownersOf o ↔ db.roleOf o u = some .owner := by
  constructor
  · intro h
    obtain ⟨⟨⟨o', u'⟩, m⟩, hmem, rfl⟩ := List.mem_map.1 h
    obtain ⟨hrow, hp⟩ := List.mem_filter.1 hmem
    simp only [decide_eq_true_eq] at hp
    obtain ⟨rfl, howner⟩ := hp
    rw [Db.roleOf, Table.mem_rows.1 hrow]
    exact congrArg some howner
  · intro h
    obtain ⟨m, hm, howner⟩ := Option.map_eq_some_iff.1 h
    exact List.mem_map.2 ⟨((o, u), m),
      List.mem_filter.2 ⟨Table.mem_rows.2 hm, by simpa using howner⟩, rfl⟩

theorem nodup_ownersOf : (db.ownersOf o).Nodup := by
  refine List.Nodup.map_on ?_ ((Table.nodup_rows db.memberships).of_map.filter _)
  rintro ⟨⟨o₁, u₁⟩, m₁⟩ h₁ ⟨⟨o₂, u₂⟩, m₂⟩ h₂ heq
  obtain ⟨hrow₁, hp₁⟩ := List.mem_filter.1 h₁
  obtain ⟨hrow₂, hp₂⟩ := List.mem_filter.1 h₂
  simp only [decide_eq_true_eq] at hp₁ hp₂ heq
  obtain ⟨rfl, -⟩ := hp₁
  obtain ⟨rfl, -⟩ := hp₂
  subst heq
  cases (Table.mem_rows.1 hrow₁).symm.trans (Table.mem_rows.1 hrow₂)
  rfl

/-- An owner who is not the only one leaves another. -/
theorem exists_other_owner (h : db.roleOf o u = some .owner) (hcount : (db.ownersOf o).length ≠ 1) :
    ∃ u', u' ≠ u ∧ db.roleOf o u' = some .owner := by
  by_contra hnone
  have hall : ∀ u' ∈ db.ownersOf o, u' = u := by
    intro u' hu'
    by_contra hne
    exact hnone ⟨u', hne, mem_ownersOf.1 hu'⟩
  have hnodup : (db.ownersOf o).Nodup := nodup_ownersOf
  match hl : db.ownersOf o with
  | [] => exact absurd (hl ▸ mem_ownersOf.2 h) List.not_mem_nil
  | [_] => exact hcount (by rw [hl]; rfl)
  | u₁ :: u₂ :: rest =>
      rw [hl] at hall hnodup
      have h₁ : u₁ = u := hall u₁ List.mem_cons_self
      have h₂ : u₂ = u := hall u₂ (List.mem_cons_of_mem _ List.mem_cons_self)
      exact (List.nodup_cons.1 hnodup).1 (h₁.trans h₂.symm ▸ List.mem_cons_self)

end Owners

section Leaving

variable {ι : Type} [DecidableEq ι] {d db : Db} {op : Call} {orgId userId target : Ident}
  {α β : Type} {Q : Except Error β → Stage Change Lock → Prop}

/-- The role of a member is read under the lock of the organisation. -/
theorem secures_memberRole {g : Stage Change Lock} {k : Role → Session β}
    (hQ : ∀ e, Q (.error e) g) (hlock : .organization orgId ∈ g.locks) (hg : g.changes = [])
    (h : ∀ role, d.roleOf orgId target = some role → Secures ι Q op d g (k role)) :
    Secures ι Q op d g (memberRole orgId target >>= k) := by
  simp only [memberRole, bind_assoc]
  refine secures_read hQ fun db _ hsince => ?_
  rw [hg, show db.after [] = db from rfl, (hsince.org hlock).roles]
  cases hrole : d.roleOf orgId target with
  | none => exact secures_throw (hQ _)
  | some role => exact h role hrole

/-- Whoever changes the role of an owner is one, and an owner is left. -/
theorem commits_updateMember {role current : Role} {event : AuditEvent}
    (hmanages : Manages db orgId userId) (hcurrent : db.roleOf orgId target = some current)
    (howner : role = .owner ∨ current = .owner → db.roleOf orgId userId = some .owner)
    (hleft : current = .owner → role = .owner ∨
      ∃ u', u' ≠ target ∧ db.roleOf orgId u' = some .owner)
    (hevent : event.orgId = orgId ∧ event.actor = userId) :
    Commits (.updateMember userId orgId target role) [.organization orgId] db
      [.memberships (.update (orgId, target) fun m => { m with role := role }),
        .auditEvent event] := by
  refine ⟨.cons (.updateMember (List.mem_singleton.2 rfl) ?_ (.inl ⟨event, by simp, hevent⟩))
    (.cons .auditEvent .nil), ?_, ?_, withinQuota_of_membership rfl nofun⟩
  · intro h
    cases hcurrent.symm.trans h
    rcases hleft rfl with rfl | hother
    · exact .inl fun _ => rfl
    · exact .inr hother
  · intro userId' orgId' hop
    cases hop
    exact hmanages
  · intro userId' orgId' hop o u hne
    cases hop
    have hafter := @roleOf_memberships db (.update (orgId, target) fun m =>
      { m with role := role }) o u
    change ¬ (_ ↔ ((Change.memberships (.update (orgId, target) fun m =>
      { m with role := role })).apply db).roleOf o u = some .owner) at hne
    rw [hafter] at hne
    split at hne
    · next heq =>
        obtain ⟨rfl, rfl⟩ := Prod.mk.inj heq
        obtain ⟨m, hm, hrole⟩ := Option.map_eq_some_iff.1 hcurrent
        rw [hcurrent] at hne
        refine howner ?_
        by_contra hno
        rw [not_or] at hno
        refine hne ⟨fun h => absurd (Option.some.inj h) hno.2, fun h => absurd ?_ hno.1⟩
        simpa [Table.Change.effect, hm] using h
    · exact absurd Iff.rfl hne

theorem secures_updateMember {role : Role} {late : Prop} :
    Secures ι (AtEnd late) (.updateMember userId orgId target role) d (outside false)
      (Call.updateMember userId orgId target role).handler := by
  refine secures_discard ?_
  simp only [updateMember, bind_assoc]
  refine secures_access (fun _ => atEnd_error) fun d _ _ => ?_
  refine secures_check (fun _ => atEnd_error) fun _ _ => ?_
  refine secures_require (fun _ => atEnd_error) fun _ => ?_
  refine secures_closing ?_ fun _ => ⟨_, rfl⟩
  refine secures_accessForUpdate (fun _ _ => rfl) fun db locked _ _ hfound => ?_
  have hlock : Lock.organization orgId ∈ [Lock.organization orgId] := List.mem_singleton.2 rfl
  refine secures_check (fun _ => rfl) fun _ hwrite => ?_
  refine secures_require (fun _ => rfl) fun hadmin => ?_
  refine secures_read (fun _ => rfl) fun db₁ _ hsince₁ => ?_
  refine secures_memberRole (fun _ => rfl) hlock rfl fun current hcurrent => ?_
  refine secures_require (fun _ => rfl) fun howner => ?_
  refine secures_require (fun _ => rfl) fun hlast => ?_
  refine secures_put (fun _ => rfl) ?_
  refine secures_record (fun _ => rfl) ?_
  refine secures_commits (fun db₂ _ hsince₂ => ?_) trivial
  have hroles₁ := (hsince₁.org hlock).roles
  have hroles₂ := (hsince₂.org hlock).roles
  refine commits_updateMember
    ((hfound.since hsince₂ hlock).manages (requireWrite_eq_ok.1 hwrite) hadmin)
    ((hroles₂ target).trans hcurrent) ?_ ?_ ⟨rfl, rfl⟩
  · intro h
    rw [hroles₂, hfound.role, howner h]
  · intro h
    subst h
    by_cases hrole : role = .owner
    · exact .inl hrole
    · have hcount : (db₁.ownersOf orgId).length ≠ 1 := fun hone => hlast ⟨rfl, hrole, hone⟩
      obtain ⟨u', hne, hu'⟩ :=
        exists_other_owner ((hroles₁ target).trans hcurrent) hcount
      exact .inr ⟨u', hne, by rw [hroles₂, ← hroles₁, hu']⟩

end Leaving

section Removal

variable {ι : Type} [DecidableEq ι] {d db : Db} {orgId userId target : Ident}

theorem orgTokensOf_deleteGrants (ks : List (Ident × Ident)) :
    (db.after (ks.map fun k => .grants (.delete k))).orgTokensOf orgId target =
      db.orgTokensOf orgId target := by
  have hquiet : ∀ c ∈ ks.map fun k => Change.grants (.delete k), c.machineToken? = none ∧
      c.tokenOrigin? = none ∧ c.environment? = none ∧ c.project? = none := by
    intro c hc
    obtain ⟨k, -, rfl⟩ := List.mem_map.1 hc
    exact ⟨rfl, rfl, rfl, rfl⟩
  unfold Db.orgTokensOf
  simp only [orgOf_after fun c hc => (hquiet c hc).2.2]
  rw [after_machineTokens, after_tokenOrigins,
    List.filterMap_eq_nil_iff.2 fun c hc => (hquiet c hc).1,
    List.filterMap_eq_nil_iff.2 fun c hc => (hquiet c hc).2.1]
  rfl

/-- What the checks of a removal establish. -/
structure Removable (db : Db) (orgId userId target : Ident) (current : Role) : Prop where
  manages : Manages db orgId userId
  role : db.roleOf orgId target = some current
  byOwner : current = .owner → db.roleOf orgId userId = some .owner
  left : current = .owner → ∃ u, u ≠ target ∧ db.roleOf orgId u = some .owner

theorem Removable.since {current : Role} {locks : List Lock}
    (h : Removable d orgId userId target current) (hs : Since locks d db)
    (hlock : .organization orgId ∈ locks) : Removable db orgId userId target current := by
  have hguard := hs.org hlock
  refine ⟨⟨hguard.lifecycleOf.trans h.manages.active, ?_⟩, (hguard.roles target).trans h.role,
    fun hc => (hguard.roles userId).trans (h.byOwner hc), fun hc => ?_⟩
  · rw [hguard.roles]
    exact h.manages.admin
  · obtain ⟨u, hne, hu⟩ := h.left hc
    exact ⟨u, hne, (hguard.roles u).trans hu⟩

/-- The grants of a user on the environments of an organisation are among these. -/
def GrantsWithin (db : Db) (orgId target : Ident) (ks : List (Ident × Ident)) : Prop :=
  ∀ e, e ∉ db.retired → db.orgOf e = some orgId → (db.grants.lookup (e, target)).isSome →
    (e, target) ∈ ks

theorem GrantsWithin.since {ks : List (Ident × Ident)} {locks : List Lock}
    (h : GrantsWithin d orgId target ks) (hs : Since locks d db)
    (hlock : .organization orgId ∈ locks) : GrantsWithin db orgId target ks := by
  have hguard := hs.org hlock
  intro e he ho hg
  exact h e (fun hd => he (hguard.retired e hd)) ((hguard.orgOf e).1 ho)
    (hguard.grants e target he ho hg)

/-- The unrevoked tokens of a user in the environments of an organisation are among these, which
are all of the organisation. -/
structure TokensWithin (db : Db) (orgId target : Ident) (ids : List Ident) : Prop where
  mem : ∀ k token origin, token.envId ∉ db.retired → db.machineTokens.lookup k = some token →
    token.revoked = false → db.tokenOrigins.lookup k = some origin → origin.createdBy = target →
    db.orgOf token.envId = some orgId → k ∈ ids
  placed : ∀ k ∈ ids, ∃ token, db.machineTokens.lookup k = some token ∧
    db.orgOf token.envId = some orgId

theorem TokensWithin.since {ids : List Ident} {locks : List Lock}
    (h : TokensWithin d orgId target ids) (hs : Since locks d db)
    (hlock : .organization orgId ∈ locks) : TokensWithin db orgId target ids := by
  have hguard := hs.org hlock
  refine ⟨fun k token origin he ht hr horigin hby ho => ?_, fun k hk => ?_⟩
  · have ho' := (hguard.orgOf _).1 ho
    have ht' := (hguard.tokens k token he ho').1 ht
    exact h.mem k token origin (fun hd => he (hguard.retired _ hd)) ht' hr
      ((hguard.origins k token ho' ht').symm.trans horigin) hby ho'
  · obtain ⟨token, ht, ho⟩ := h.placed k hk
    obtain ⟨token', ht', heq⟩ := hguard.tokenEnvs k token ho ht
    exact ⟨token', ht', by rw [heq]; exact (hguard.orgOf _).2 ho⟩

theorem tokensWithin_orgTokensOf : TokensWithin db orgId target
    ((db.orgTokensOf orgId target).map RevokedTokenRef.tokenId) := by
  refine ⟨fun k token origin _ ht hr horigin hby ho => ?_, fun k hk => ?_⟩
  · refine List.mem_map.2 ⟨⟨k, origin.name, token.envId⟩, List.mem_filterMap.2
      ⟨(k, token), Table.mem_rows.2 ht, ?_⟩, rfl⟩
    simp [horigin, hr, ho, hby]
  · obtain ⟨r, hmem, rfl⟩ := List.mem_map.1 hk
    obtain ⟨⟨k', token⟩, hrow, hr⟩ := List.mem_filterMap.1 hmem
    dsimp only at hr
    split at hr
    · next origin horigin =>
        split at hr
        · next hcond =>
            cases hr
            exact ⟨token, Table.mem_rows.1 hrow, hcond.2.1⟩
        · cases hr
    · cases hr

section Commit

variable {current : Role} {ks : List (Ident × Ident)} {revoked : List RevokedTokenRef}
  {events : List AuditEvent}

/-- The changes of a removal before that of the membership. -/
def revocationChanges (ks : List (Ident × Ident)) (revoked : List RevokedTokenRef) : List Change :=
  ks.map (fun k => .grants (.delete k)) ++
    revoked.map (fun r => .machineTokens (.update r.tokenId fun token =>
      { token with revoked := true }))

/-- The changes of a removal. -/
def removalChanges (orgId target : Ident) (ks : List (Ident × Ident))
    (revoked : List RevokedTokenRef) (events : List AuditEvent) : List Change :=
  revocationChanges ks revoked ++ [.memberships (.delete (orgId, target))] ++
    events.map .auditEvent

theorem mem_revocationChanges {c : Change} (hc : c ∈ revocationChanges ks revoked) :
    (∃ k ∈ ks, c = .grants (.delete k)) ∨
      ∃ r ∈ revoked, c = .machineTokens (.update r.tokenId fun token =>
        { token with revoked := true }) := by
  rcases List.mem_append.1 hc with hc | hc
  · obtain ⟨k, hk, rfl⟩ := List.mem_map.1 hc
    exact .inl ⟨k, hk, rfl⟩
  · obtain ⟨r, hr, rfl⟩ := List.mem_map.1 hc
    exact .inr ⟨r, hr, rfl⟩

theorem revocationChanges_quiet {c : Change} (hc : c ∈ revocationChanges ks revoked) :
    c.membership? = none ∧ c.organization? = none ∧ (c.environment? = none ∧ c.project? = none) ∧
      c.tokenOrigin? = none := by
  rcases mem_revocationChanges hc with ⟨k, -, rfl⟩ | ⟨r, -, rfl⟩ <;>
    exact ⟨rfl, rfl, ⟨rfl, rfl⟩, rfl⟩

theorem grants_revocationChanges (k : Ident × Ident) :
    (db.after (revocationChanges ks revoked)).grants.lookup k =
      if k ∈ ks then none else db.grants.lookup k := by
  have hchanges : (revocationChanges ks revoked).filterMap Change.grant? =
      ks.map Table.Change.delete := by
    simp [revocationChanges, List.filterMap_map, Function.comp_def, Change.grant?]
  rw [after_grants, hchanges, Table.lookup_applyAll_delete]
  congr

theorem machineTokens_revocationChanges (k : Ident) :
    (db.after (revocationChanges ks revoked)).machineTokens.lookup k =
      if k ∈ revoked.map RevokedTokenRef.tokenId then
        (db.machineTokens.lookup k).map fun token => { token with revoked := true }
      else db.machineTokens.lookup k := by
  have hchanges : (revocationChanges ks revoked).filterMap Change.machineToken? =
      (revoked.map RevokedTokenRef.tokenId).map fun k => Table.Change.update k fun token =>
        { token with revoked := true } := by
    simp [revocationChanges, List.filterMap_map, Function.comp_def, Change.machineToken?]
  rw [after_machineTokens, hchanges]
  refine (Table.lookup_applyAll_update (f := fun token : Server.MachineToken =>
    { token with revoked := true }) (fun _ => rfl) _ _ _).trans ?_
  congr

theorem tokenOrigins_revocationChanges :
    (db.after (revocationChanges ks revoked)).tokenOrigins = db.tokenOrigins := by
  rw [after_tokenOrigins, List.filterMap_eq_nil_iff.2 fun c hc => (revocationChanges_quiet hc).2.2.2]
  rfl

theorem roleOf_removalChanges (o u : Ident) :
    (db.after (removalChanges orgId target ks revoked events)).roleOf o u =
      if (o, u) = (orgId, target) then none else db.roleOf o u := by
  have hevents : ∀ c ∈ events.map Change.auditEvent, c.membership? = none := by
    intro c hc
    obtain ⟨e, -, rfl⟩ := List.mem_map.1 hc
    rfl
  rw [removalChanges, List.append_assoc, after_append, List.singleton_append, after_cons]
  refine (roleOf_after hevents o u).trans ((roleOf_memberships _ o u).trans ?_)
  rw [roleOf_after fun c hc => (revocationChanges_quiet hc).1]
  rfl

theorem commits_removal (h : Removable db orgId userId target current)
    (hks : ∀ k ∈ ks, db.orgOf k.1 = some orgId) (hgrants : GrantsWithin db orgId target ks)
    (htokens : TokensWithin db orgId target (revoked.map RevokedTokenRef.tokenId))
    (hevent : ∃ e ∈ events, e.orgId = orgId ∧ e.actor = userId) :
    Commits (.removeMember userId orgId target) [.organization orgId] db
      (removalChanges orgId target ks revoked events) := by
  have hlock : Lock.organization orgId ∈ [Lock.organization orgId] := List.mem_singleton.2 rfl
  have htouched : Records userId (removalChanges orgId target ks revoked events) orgId := by
    obtain ⟨e, he, ho, hactor⟩ := hevent
    exact ⟨e, by simp [removalChanges, he], ho, hactor⟩
  refine ⟨?_, ?_, ?_, withinQuota_of_membership rfl nofun⟩
  · refine Chain.append (Chain.append (Chain.append (chain_deleteGrants fun k hk o ho => ?_)
      (chain_revokeTokens fun r hr token htoken o ho => ?_)) (.cons ?_ .nil)) chain_auditEvents
    · cases (hks k hk).symm.trans ho
      exact .inl htouched
    · rw [orgOf_after fun c hc => ?_] at ho
      · have hgrantsOnly : ∀ c ∈ ks.map fun k => Change.grants (.delete k),
            c.machineToken? = none := by
          intro c hc
          obtain ⟨k, -, rfl⟩ := List.mem_map.1 hc
          rfl
        rw [after_machineTokens, List.filterMap_eq_nil_iff.2 hgrantsOnly] at htoken
        obtain ⟨token', htoken', ho'⟩ := htokens.placed r.tokenId (List.mem_map_of_mem hr)
        cases htoken'.symm.trans htoken
        cases ho'.symm.trans ho
        exact ⟨hlock, .inl htouched⟩
      · obtain ⟨k, -, rfl⟩ := List.mem_map.1 hc
        exact ⟨rfl, rfl⟩
    · have hquiet := fun c (hc : c ∈ revocationChanges ks revoked) => revocationChanges_quiet hc
      have horgOf := @orgOf_after db _ fun c hc => (hquiet c hc).2.2.1
      refine .deleteMember hlock ?_ ?_ ?_ (.inl htouched)
      · intro howner
        rw [show (db.after _).roleOf orgId target = _ from
          roleOf_after (fun c hc => (hquiet c hc).1) orgId target, h.role] at howner
        cases howner
        obtain ⟨u, hne, hu⟩ := h.left rfl
        exact .inr ⟨u, hne, (roleOf_after (fun c hc => (hquiet c hc).1) orgId u).trans hu⟩
      · intro e he ho
        replace he : e ∉ db.retired :=
          @retired_after db _ (fun c hc => (hquiet c hc).2.2.1.1) ▸ he
        rw [show (db.after _).orgOf e = _ from horgOf e] at ho
        refine (grants_revocationChanges _).trans ?_
        split
        · rfl
        · next hnot =>
            refine Option.not_isSome_iff_eq_none.1 fun hg => ?_
            exact hnot (hgrants e he ho hg)
      · intro k token origin he ht hr horigin hby ho
        replace he : token.envId ∉ db.retired :=
          @retired_after db _ (fun c hc => (hquiet c hc).2.2.1.1) ▸ he
        rw [show (db.after _).orgOf token.envId = _ from horgOf token.envId] at ho
        replace ht := (machineTokens_revocationChanges k).symm.trans ht
        split at ht
        · obtain ⟨old, -, rfl⟩ := Option.map_eq_some_iff.1 ht
          cases hr
        · next hnot =>
            refine hnot (htokens.mem k token origin he ht hr ?_ hby ho)
            rw [← horigin, ← @tokenOrigins_revocationChanges _ ks revoked]
  · intro userId' orgId' hop
    cases hop
    exact h.manages
  · intro userId' orgId' hop o u hne
    cases hop
    rw [roleOf_removalChanges] at hne
    split at hne
    · next heq =>
        obtain ⟨rfl, rfl⟩ := Prod.mk.inj heq
        rw [h.role] at hne
        exact h.byOwner (by simpa using hne)
    · exact absurd Iff.rfl hne

end Commit

variable {β : Type} {Q : Except Error β → Stage Change Lock → Prop}

theorem secures_requireHeld {op : Call} {g : Stage Change Lock} {envs : List Ident}
    {k : Unit → Session β} (hQ : ∀ e, Q (.error e) g) (h : Secures ι Q op d g (k ())) :
    Secures ι Q op d g (requireHeld orgId userId envs >>= k) := by
  unfold requireHeld
  split
  · exact h
  · simp only [bind_assoc]
    refine secures_read hQ fun db _ _ => ?_
    exact secures_require hQ fun _ => h

/-- One event is recorded for each element of a list. -/
theorem secures_forM_record {A : Type} {op : Call} {event : A → AuditEvent} {xs : List A}
    {changes : List Change} {locks : List Lock} {wrote : Bool} {k : PUnit → Session β}
    (hQ : ∀ e changes, Q (.error e) ⟨changes, locks, wrote⟩)
    (h : Secures ι Q op d ⟨changes ++ (xs.map event).map .auditEvent, locks, wrote⟩ (k ⟨⟩)) :
    Secures ι Q op d ⟨changes, locks, wrote⟩ (xs.forM (fun x => record (event x)) >>= k) := by
  induction xs generalizing changes with
  | nil =>
      rw [List.map_nil, List.map_nil, List.append_nil] at h
      exact h
  | cons x xs ih =>
      have hcons : (x :: xs).forM (fun x => record (event x)) >>= k =
          record (event x) >>= fun _ => xs.forM (fun x => record (event x)) >>= k :=
        bind_assoc _ _ _
      rw [hcons]
      refine secures_record (hQ · _) (ih ?_)
      rwa [List.append_assoc]

theorem secures_removeMember {late : Prop} :
    Secures ι (AtEnd late) (.removeMember userId orgId target) d (outside false)
      (Call.removeMember userId orgId target).handler := by
  refine secures_discard ?_
  simp only [removeMember, bind_assoc]
  refine secures_access (fun _ => atEnd_error) fun d _ _ => ?_
  refine secures_check (fun _ => atEnd_error) fun _ _ => ?_
  refine secures_require (fun _ => atEnd_error) fun _ => ?_
  refine secures_closing ?_ fun _ => ⟨_, rfl⟩
  refine secures_accessForUpdate (fun _ _ => rfl) fun db locked _ _ hfound => ?_
  have hlock : Lock.organization orgId ∈ [Lock.organization orgId] := List.mem_singleton.2 rfl
  refine secures_check (fun _ => rfl) fun _ hwrite => ?_
  refine secures_require (fun _ => rfl) fun hadmin => ?_
  refine secures_read (fun _ => rfl) fun db₁ _ hsince₁ => ?_
  refine secures_memberRole (fun _ => rfl) hlock rfl fun current hcurrent => ?_
  refine secures_require (fun _ => rfl) fun howner => ?_
  refine secures_require (fun _ => rfl) fun hlast => ?_
  have hremovable : Removable db orgId userId target current := by
    refine ⟨hfound.manages (requireWrite_eq_ok.1 hwrite) hadmin, hcurrent,
      fun hc => by rw [hfound.role, howner hc], fun hc => ?_⟩
    have hroles := (hsince₁.org hlock).roles
    obtain ⟨u, hne, hu⟩ := exists_other_owner ((hroles target).trans (hc ▸ hcurrent))
      fun hone => hlast ⟨hc, hone⟩
    exact ⟨u, hne, (hroles u).symm.trans hu⟩
  refine secures_read (fun _ => rfl) fun _ _ _ => ?_
  refine secures_requireHeld (fun _ => rfl) ?_
  refine secures_statement_moving (fun _ => rfl) fun db₂ n new _ hsince₂ hf => ?_
  generalize hks : Db.orgGrantsOf _ orgId target = ks at hf
  cases hf
  have hremovable₂ := hremovable.since hsince₂ hlock
  have hplaced₂ : ∀ k ∈ ks, db₂.orgOf k.1 = some orgId := by
    intro k hk
    exact (mem_orgGrantsOf (hks ▸ hk)).2
  have hgrants₂ : GrantsWithin db₂ orgId target ks := by
    intro e _ ho hg
    rw [← hks]
    obtain ⟨v, hv⟩ := Option.isSome_iff_exists.1 hg
    exact List.mem_filter.2 ⟨List.mem_map_of_mem (Table.mem_rows.2 hv), decide_eq_true ⟨rfl, ho⟩⟩
  refine secures_statement_moving (fun _ => rfl) fun db₃ revoked new _ hsince₃ hf => ?_
  generalize hrevoked : Db.orgTokensOf _ orgId target = revoked' at hf
  cases hf
  replace hrevoked := (orgTokensOf_deleteGrants ks).symm.trans hrevoked
  have htokens₃ : TokensWithin db₃ orgId target (revoked.map RevokedTokenRef.tokenId) :=
    hrevoked ▸ tokensWithin_orgTokensOf
  refine secures_put (fun _ => rfl) ?_
  refine secures_forM_record (fun _ _ => rfl) ?_
  refine secures_record (fun _ => rfl) ?_
  refine secures_commits (fun db₄ _ hsince₄ => ?_) trivial
  have hcommits := @commits_removal _ _ _ _ _ _ revoked ((revoked.map fun r =>
      ⟨orgId, userId, "token.revoked", some r.tokenId, some r.envId, some r.name⟩) ++
      [⟨orgId, userId, "member.removed", some target, none,
        some s!"removed {ks.length} grant(s), revoked {revoked.length} token(s)"⟩])
    ((hremovable₂.since hsince₃ hlock).since hsince₄ hlock) (fun k hk => ?_)
    ((hgrants₂.since hsince₃ hlock).since hsince₄ hlock) (htokens₃.since hsince₄ hlock)
    ⟨_, List.mem_append_right _ (List.mem_singleton.2 rfl), rfl, rfl⟩
  · simpa [removalChanges, revocationChanges] using hcommits
  · exact ((hsince₄.org hlock).orgOf k.1).2 (((hsince₃.org hlock).orgOf k.1).2 (hplaced₂ k hk))

end Removal

end Org

end Sotto
