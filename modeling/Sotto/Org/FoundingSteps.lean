import Sotto.Org.MemberSteps

/-!
# The commits of the creation of an organisation

An organisation is inserted with the membership of its first owner. The grant of an organisation's
key changes a membership, but not its role.
-/

namespace Sotto

namespace Org

open Core (Ident Bytes)
open Server (Membership Error Role)
open Sessions (check require statement)
open Sessions.Discipline

section Founding

variable {ι : Type} [DecidableEq ι] {d db : Db} {op : Call} {orgId userId target id : Ident}
  {β : Type} {Q : Except Error β → Stage Change Lock → Prop} {wrote : Bool}

/-- An organisation is inserted under the lock of its id. -/
theorem secures_insertOrganization {encName : Bytes} {now : Int} {k : Bool → Session β}
    (hQ : ∀ e, Q (.error e) (outside wrote))
    (htaken : ∀ db, Secures ι Q op db (outside wrote) (k false))
    (hnew : ∀ db, db.organizations.lookup id = none →
      Secures ι Q op db ⟨[.organizations (.put id ⟨encName, .active, .free⟩),
        .plans (.put id ⟨some (now + trialLength), none⟩)], [.organization id], wrote⟩ (k true)) :
    Secures ι Q op d (outside wrote) (insertOrganization id userId encName now >>= k) := by
  refine secures_lock hQ fun db a new _ _ hf => ?_
  change (if (db.lifecycleOf id).isSome then _ else _) = _ at hf
  show Secures ι Q op db ⟨[] ++ new, (if (db.lifecycleOf id).isSome then [] else
    [.organization id]) ++ [], wrote⟩ (k a)
  by_cases h : (db.lifecycleOf id).isSome
  · rw [if_pos h] at hf ⊢
    cases hf
    exact htaken db
  · rw [if_neg h] at hf ⊢
    split at hf
    · cases hf
    · cases hf
      exact hnew db (by simpa [Db.lifecycleOf] using h)

/-- A membership that was inserted was not there. -/
theorem insertMembership_eq_ok {m : Membership} {noUser : Error} {inserted : Bool}
    {new : List Change}
    (h : (if (db.memberships.lookup (orgId, userId)).isSome then .ok (false, [])
      else if (db.users.lookup userId).isNone then .error noUser
      else if (db.organizations.lookup orgId).isNone then .error .internal
      else .ok (true, [.memberships (.put (orgId, userId) m)]) :
        Except Error (Bool × List Change)) = .ok (inserted, new)) (hinserted : inserted = true) :
    db.roleOf orgId userId = none ∧ new = [.memberships (.put (orgId, userId) m)] := by
  split at h
  · cases h
    cases hinserted
  · next hnone =>
      split at h
      · cases h
      · split at h
        · cases h
        · cases h
          exact ⟨by simpa [Db.roleOf] using hnone, rfl⟩

theorem commits_createOrg {body : CreateOrg} {org : Server.Organization} {plan : Plan}
    {key : Option Bytes} {event : AuditEvent} (hnone : db.organizations.lookup body.id = none)
    (hactive : org.lifecycle = .active) (hmember : db.roleOf body.id userId = none)
    (hevent : event.orgId = body.id ∧ event.actor = userId) :
    Commits (.createOrg userId body) [.organization body.id] db
      [.organizations (.put body.id org), .plans (.put body.id plan),
        .memberships (.put (body.id, userId) ⟨.owner, key⟩), .auditEvent event] := by
  have hlock : Lock.organization body.id ∈ [Lock.organization body.id] := List.mem_singleton.2 rfl
  refine commits_of_chain rfl (.cons (.putOrg hlock hnone hactive ⟨userId, ?_⟩) (.cons (.plan hlock)
    (.cons (.putMember hlock ?_ (.inl ⟨event, by simp, hevent⟩) (.inr rfl))
      (.cons .auditEvent .nil))))
  · exact (roleOf_memberships _ _ _).trans (if_pos rfl)
  · exact (Option.map_eq_none_iff (f := Membership.role)).1 hmember

theorem secures_createOrg {body : CreateOrg} {late : Prop} :
    Secures ι (AtEnd late) (.createOrg userId body) d (outside false)
      (Call.createOrg userId body).handler := by
  refine secures_discard ?_
  simp only [createOrg, bind_assoc]
  refine secures_check (fun _ => atEnd_error) fun _ _ => ?_
  refine secures_check (fun _ => atEnd_error) fun encName _ => ?_
  refine secures_check (fun _ => atEnd_error) fun encOrgKey _ => ?_
  refine secures_transaction (B := fun created wrote => created = false → wrote = false) ?_
    (fun _ => atEnd_error) fun db created wrote _ hwrote => ?_
  · refine secures_draw fun now => ?_
    refine secures_insertOrganization (fun _ => rfl) (fun db => secures_pure fun _ => rfl)
      fun db hnone => ?_
    have hlock : Lock.organization body.id ∈ [Lock.organization body.id] :=
      List.mem_singleton.2 rfl
    refine secures_statement (fun _ => rfl) fun db₁ inserted new _ hsince₁ hf => ?_
    refine secures_require (fun _ => rfl) fun hinserted => ?_
    obtain ⟨hmember, rfl⟩ := insertMembership_eq_ok hf hinserted
    refine secures_record (fun _ => rfl) ?_
    refine secures_commits (fun db₂ _ hsince₂ => ?_) fun h => by cases h
    refine commits_createOrg ((hsince₂.org hlock).organization.trans hnone) rfl ?_ ⟨rfl, rfl⟩
    rw [(hsince₂.org hlock).roles, ← (hsince₁.org hlock).roles]
    exact hmember
  · split
    · rw [pure_bind]
      exact secures_pure atEnd_ok
    · next hcreated =>
        rw [hwrote (by simpa using hcreated)]
        simp only [bind_assoc]
        refine secures_look (fun _ => atEnd_error) fun _ _ _ => ?_
        exact secures_require (fun _ => atEnd_error) fun _ => secures_pure atEnd_ok

theorem secures_grantOrgKey {encOrgKey : Base64} {late : Prop} :
    Secures ι (AtEnd late) (.grantOrgKey userId orgId target encOrgKey) d (outside false)
      (Call.grantOrgKey userId orgId target encOrgKey).handler := by
  refine secures_discard ?_
  simp only [grantOrgKey]
  refine secures_closing ?_ fun _ => ⟨_, rfl⟩
  refine secures_accessForUpdate (fun _ _ => rfl) fun db locked _ _ _ => ?_
  refine secures_check (fun _ => rfl) fun _ _ => ?_
  refine secures_require (fun _ => rfl) fun _ => ?_
  refine secures_check (fun _ => rfl) fun key _ => ?_
  refine secures_statement (fun _ => rfl) fun db₁ updated new _ _ hf => ?_
  refine secures_require (fun _ => rfl) fun hupdated => ?_
  have hnew : new = [.memberships (.update (orgId, target) fun m =>
      { m with encOrgKey := some key })] := by
    split at hf
    · cases hf
      rfl
    · cases hf
      cases hupdated
  subst hnew
  refine secures_record (fun _ => rfl) ?_
  refine secures_commits (fun db₂ _ _ => ?_) trivial
  refine commits_of_chain rfl
    (.cons (.keepMember (fun _ => rfl) fun _ _ _ => .inl ?_) (.cons .auditEvent .nil))
  exact ⟨_, List.mem_cons_of_mem _ List.mem_cons_self, rfl, rfl⟩

end Founding

end Org

end Sotto
