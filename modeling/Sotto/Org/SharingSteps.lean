import Sotto.Org.ResourceSteps

/-!
# The commits of grants and machine tokens

What is committed about an environment is checked under the lock of the organisation that it was
found in. It is still there, unless its id has become free in between.
-/

namespace Sotto

namespace Org

open Core (Ident Bytes)
open Api (CreateGrant)
open Server (Error ProjectAccess Project MachineToken)
open Sessions (check require statement)
open Sessions.Discipline

section Facts

variable {locks : List Lock} {d db : Db} {op : Call} {changes : List Change}
  {orgId : Option Ident} {envId userId : Ident}

/-- An environment is where it was found, under the lock of its organisation. -/
def Situated (db : Db) (locks : List Lock) (envId : Ident) (orgId : Option Ident) : Prop :=
  envId ∉ db.retired → db.orgOf envId = orgId ∧ ∀ o, orgId = some o → .organization o ∈ locks

theorem Situated.locked (h : Situated db locks envId orgId) (hkept : envId ∉ db.retired) {o : Ident}
    (ho : db.orgOf envId = some o) : .organization o ∈ locks :=
  (h hkept).2 o ((h hkept).1.symm.trans ho)

/-- What is changed in an environment is recorded, unless its id has been free. -/
theorem Situated.touched (h : Situated db locks envId orgId)
    (hevents : ∀ o, orgId = some o → Records op.actor changes o)
    (hop : ∀ o, db.orgOf envId = some o ∧ envId ∈ db.retired → op.Unrecorded locks db o) :
    ∀ o, db.orgOf envId = some o → (terms op locks db changes).touched o := by
  intro o ho
  by_cases hretired : envId ∈ db.retired
  · exact .inr (hop o ⟨ho, hretired⟩)
  · exact .inl (hevents o ((h hretired).1.symm.trans ho))

/-- The event of an environment, if that is of an organisation. -/
def orgEvents (orgId : Option Ident) (event : Ident → AuditEvent) : List Change :=
  (orgId.toList.map event).map .auditEvent

theorem records_orgEvents {event : Ident → AuditEvent}
    (hevent : ∀ o, (event o).orgId = o ∧ (event o).actor = userId) :
    ∀ o, orgId = some o → Records userId (changes ++ orgEvents orgId event) o := by
  rintro o rfl
  exact ⟨event o, List.mem_append_right _ (List.mem_singleton.2 rfl), hevent o⟩

end Facts

variable {ι : Type} [DecidableEq ι] {d db : Db} {op : Call} {userId envId : Ident}
  {β : Type} {Q : Except Error β → Stage Change Lock → Prop} {wrote : Bool}

section Parts

theorem secures_recordIfOrg {g : Stage Change Lock} {orgId : Option Ident}
    {event : Ident → AuditEvent} {k : Unit → Session β} (hQ : ∀ e, Q (.error e) g)
    (h : Secures ι Q op d ⟨g.changes ++ orgEvents orgId event, g.locks, g.wrote⟩ (k ())) :
    Secures ι Q op d g (recordIfOrg orgId event >>= k) := by
  cases orgId with
  | none =>
      rw [orgEvents, Option.toList_none, List.map_nil, List.map_nil, List.append_nil] at h
      exact h
  | some o => exact secures_record hQ h

theorem secures_selectOrgId {k : Option Ident → Session β}
    (hQ : ∀ e, Q (.error e) (outside wrote))
    (h : ∀ db orgId, Later d db → Placed db envId orgId →
      Secures ι Q op db (outside wrote) (k orgId)) :
    Secures ι Q op d (outside wrote) (selectOrgId envId >>= k) := by
  refine secures_fetch hQ fun db orgId _ hlater hf => ?_
  split at hf
  · cases hf
  · next project hproject =>
      cases hf
      obtain ⟨env, he, hp⟩ := Option.bind_eq_some_iff.1 hproject
      exact h db project.orgId hlater (placed_of_lookup he hp)

end Parts

section Tokens

variable {tokenId : Ident} {orgId : Option Ident} {locks : List Lock}

theorem commits_createToken {body : CreateToken} {name : String} {publicKey encVaultKey : Bytes}
    {event : Ident → AuditEvent} (h : Situated db locks envId orgId)
    (hmember : Locked db orgId userId) (hlock : .machineToken tokenId ∈ locks)
    (hkey : .environmentKey envId ∈ locks)
    (hnone : db.machineTokens.lookup tokenId = none)
    (henv : (db.environments.lookup envId).isSome)
    (hevent : ∀ o, (event o).orgId = o ∧ (event o).actor = userId) :
    Commits (.createToken userId envId body) locks db
      ([.tokenOrigins (.put tokenId ⟨name, userId⟩),
        .machineTokens (.put tokenId ⟨envId, publicKey, encVaultKey, false⟩)] ++
        orgEvents orgId event) := by
  refine commits_of_chain rfl (.cons (.origin hnone) (.cons ?_ chain_auditEvents))
  refine .putToken hlock hkey hnone henv
    (Table.Change.lookup_put.2 (.inl ⟨rfl, rfl⟩)) (fun hkept o ho => ?_)
    (h.touched (records_orgEvents hevent) fun _ h => h)
  exact ⟨h.locked hkept ho, (hmember o ((h hkept).1.symm.trans ho)).2⟩

theorem secures_createToken {body : CreateToken} {late : Prop} :
    Secures ι (AtEnd late) (.createToken userId envId body) d (outside false)
      (Call.createToken userId envId body).handler := by
  refine secures_discard ?_
  simp only [createToken, bind_assoc]
  refine secures_require (fun _ => atEnd_error) fun _ => ?_
  refine secures_check (fun _ => atEnd_error) fun publicKey _ => ?_
  refine secures_require (fun _ => atEnd_error) fun _ => ?_
  refine secures_check (fun _ => atEnd_error) fun encVaultKey _ => ?_
  refine secures_envAccess (fun _ => atEnd_error) fun db₀ projectId access _ hplaced huser => ?_
  refine secures_check (fun _ => atEnd_error) fun _ _ => ?_
  refine secures_draw fun tokenId => ?_
  refine secures_draw fun token => ?_
  refine secures_closing ?_ fun _ => ⟨_, rfl⟩
  refine secures_requireManageStructureTx (fun _ _ => rfl) fun db₁ hlater₁ hlocked₁ => ?_
  rw [huser] at hlocked₁
  have hplaced₁ := hplaced.later hlater₁
  refine secures_writeLocking (fun _ => rfl) fun db₂ new _ hsince₂ hf => ?_
  have hlocked₂ := hlocked₁.since hsince₂ fun o => mem_orgLocks.2
  have hplaced₂ := hplaced₁.later hsince₂.later
  split at hf
  · cases hf
  · next hnot =>
      cases hf
      simp only [not_or, Bool.not_eq_true, Option.isSome_eq_false_iff,
        Option.isNone_iff_eq_none] at hnot
      obtain ⟨hnone, henv, -⟩ := hnot
      refine secures_recordIfOrg (fun _ => rfl) ?_
      refine secures_commits (fun db₃ _ hsince₃ => ?_) trivial
      have hlocks : ∀ o, access.orgId = some o → Lock.organization o ∈ .machineToken tokenId ::
          .environmentKey envId :: orgLocks access.orgId :=
        fun o ho => List.mem_cons_of_mem _ (List.mem_cons_of_mem _ (mem_orgLocks.2 ho))
      refine commits_createToken (fun hkept => ?_) (hlocked₂.since hsince₃ hlocks)
        List.mem_cons_self (List.mem_cons_of_mem _ List.mem_cons_self) (hsince₃.machineToken List.mem_cons_self hnone)
        (hsince₃.environmentKey (List.mem_cons_of_mem _ List.mem_cons_self) (Option.isSome_iff_ne_none.2 henv))
        fun _ => ⟨rfl, rfl⟩
      exact ⟨(hplaced₂ db₃ hsince₃.later hkept).2, hlocks⟩

theorem commits_revokeToken {event : Ident → AuditEvent} (h : Situated db locks envId orgId)
    (hevent : ∀ o, (event o).orgId = o ∧ (event o).actor = userId) :
    Commits (.revokeToken userId envId tokenId) locks db
      ([.machineTokens (.update tokenId fun t =>
        if t.envId = envId then { t with revoked := true } else t)] ++ orgEvents orgId event) := by
  refine commits_of_chain rfl (.cons ?_ chain_auditEvents)
  refine .updateToken (fun t => ?_) fun token _ hne o ho => ?_
  · split
    · exact ⟨rfl, fun _ => rfl⟩
    · exact ⟨rfl, id⟩
  · have henv : token.envId = envId := by
      by_contra hother
      rw [if_neg hother] at hne
      exact hne rfl
    rw [henv] at ho ⊢
    refine ⟨fun hkept => h.locked hkept ho, ?_⟩
    refine h.touched (records_orgEvents hevent) ?_ o ho
    exact fun _ h => h

theorem secures_revokeToken {late : Prop} :
    Secures ι (AtEnd late) (.revokeToken userId envId tokenId) d (outside false)
      (Call.revokeToken userId envId tokenId).handler := by
  refine secures_discard ?_
  simp only [revokeToken, bind_assoc]
  refine secures_check (fun _ => atEnd_error) fun _ _ => ?_
  refine secures_envAccess (fun _ => atEnd_error) fun db₀ projectId access _ hplaced huser => ?_
  refine secures_check (fun _ => atEnd_error) fun _ _ => ?_
  refine secures_closing ?_ fun _ => ⟨_, rfl⟩
  refine secures_requireManageStructureTx (fun _ _ => rfl) fun db₁ hlater₁ _ => ?_
  have hplaced₁ := hplaced.later hlater₁
  refine secures_statement (fun _ => rfl) fun db₂ revoked new _ _ hf => ?_
  refine secures_require (fun _ => rfl) fun hrevoked => ?_
  have hnew : new = [.machineTokens (.update tokenId fun t =>
      if t.envId = envId then { t with revoked := true } else t)] := by
    split at hf
    · split at hf
      · cases hf
        rfl
      · cases hf
        cases hrevoked
    · cases hf
      cases hrevoked
  subst hnew
  refine secures_recordIfOrg (fun _ => rfl) ?_
  refine secures_commits (fun db₃ _ hsince₃ => ?_) trivial
  refine commits_revokeToken (fun hkept => ?_) fun _ => ⟨rfl, rfl⟩
  exact ⟨(hplaced₁ db₃ hsince₃.later hkept).2, fun o => mem_orgLocks.2⟩

end Tokens

section Grants

variable {locks : List Lock} {orgId target : Ident}

theorem commits_createGrant {body : CreateGrant} {v : Bytes} {event : AuditEvent}
    (h : Situated db locks envId (some orgId))
    (hmember : .organization orgId ∈ locks → (db.roleOf orgId target).isSome)
    (hkey : .environmentKey envId ∈ locks) (henv : (db.environments.lookup envId).isSome)
    (hevent : event.orgId = orgId ∧ event.actor = userId) :
    Commits (.createGrant userId envId body) locks db
      [.grants (.put (envId, target) v), .auditEvent event] := by
  refine commits_of_chain rfl (.cons (.putGrant hkey henv (fun hkept o ho => ?_) ?_)
    (.cons .auditEvent .nil))
  · have hlock := h.locked hkept ho
    cases (h hkept).1.symm.trans ho
    exact ⟨hlock, hmember hlock, hmember hlock⟩
  · refine h.touched (fun o ho => ?_) fun _ h => h
    cases ho
    exact ⟨event, by simp, hevent⟩

theorem secures_createGrant {body : CreateGrant} {late : Prop} :
    Secures ι (AtEnd late) (.createGrant userId envId body) d (outside false)
      (Call.createGrant userId envId body).handler := by
  refine secures_discard ?_
  simp only [createGrant, bind_assoc]
  refine secures_check (fun _ => atEnd_error) fun encVaultKey _ => ?_
  refine secures_envAccess (fun _ => atEnd_error) fun db₀ projectId access _ hplaced huser => ?_
  refine secures_check (fun _ => atEnd_error) fun _ _ => ?_
  refine secures_selectOrgId (fun _ => atEnd_error) fun db₁ selected hlater₁ hselected => ?_
  cases selected with
  | none => exact secures_throw atEnd_error
  | some orgId =>
      refine secures_closing ?_ fun _ => ⟨_, rfl⟩
      refine secures_requireManageStructureTx (fun _ _ => rfl) fun db₂ hlater₂ _ => ?_
      refine secures_read (fun _ => rfl) fun db₃ _ hsince₃ => ?_
      refine secures_require (fun _ => rfl) fun htarget => ?_
      have htarget₂ : .organization orgId ∈ orgLocks access.orgId →
          (db₂.roleOf orgId body.userId).isSome := by
        intro hlock
        rw [← (hsince₃.org hlock).roles]
        exact htarget
      refine secures_insertGrant (fun _ => rfl) fun db₄ new hs₄ hsince₄ hnew => ?_
      have henv₄ : (db₄.environments.lookup envId).isSome := by
        rcases hnew with ⟨-, hgrant⟩ | ⟨-, henv⟩
        · exact hs₄.1.envOfGrant hgrant
        · exact henv
      have hnew' : new = [.grants (.put (envId, body.userId) encVaultKey)] := by
        rcases hnew with ⟨hnew, -⟩ | ⟨hnew, -⟩
        · exact (Except.ok.inj hnew).symm
        · exact hnew
      subst hnew'
      refine secures_record (fun _ => rfl) ?_
      refine secures_commits (fun db₅ _ hsince₅ => ?_) trivial
      have hsince := hsince₄.trans hsince₅ fun k hk => List.mem_cons_of_mem _ hk
      refine commits_createGrant (fun hkept => ?_) (fun hlock => ?_)
        List.mem_cons_self (hsince₅.environmentKey List.mem_cons_self henv₄) ⟨rfl, rfl⟩
      · have hlater := hlater₂.trans hsince.later
        have horg := (hselected db₅ hlater hkept).2
        have hsame := (hplaced db₅ (hlater₁.trans hlater) hkept).2.symm.trans horg
        exact ⟨horg, fun o ho => List.mem_cons_of_mem _ (mem_orgLocks.2 (hsame.trans ho))⟩
      · have hlock' : Lock.organization orgId ∈ orgLocks access.orgId := by
          rcases List.mem_cons.1 hlock with heq | hlock
          · cases heq
          · exact hlock
        rw [(Since.org hsince hlock').roles]
        exact htarget₂ hlock'

end Grants

end Org

end Sotto
