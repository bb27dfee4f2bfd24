import Sotto.Org.AccountSteps

/-!
# The commits of deletions and plans

The requests of owners, the writes of the worker other than the purge, and those of the webhooks.
An organisation that is not deleted when it is locked is not deleted by them.
-/

namespace Sotto

namespace Org

open Core (Ident)
open Server (Error LifecycleState Organization Tier)
open Billing (Deletion)
open Sessions (check require statement)
open Sessions.Discipline

variable {ι : Type} [DecidableEq ι] {d db : Db} {op : Call} {userId orgId : Ident}
  {β : Type} {Q : Except Error β → Stage Change Lock → Prop} {wrote : Bool}

section Facts

variable {locks : List Lock}

/-- An organisation that is not deleted may be changed to any state that is not deleted. -/
theorem fits_updateOrg {t : Terms} {f : Organization → Organization} {l : LifecycleState}
    (hlock : .organization orgId ∈ t.locks) (hl : db.lifecycleOf orgId = some l)
    (hkept : l ≠ .deleted) (hf : ∀ org : Organization, (f org).lifecycle = .deleted →
      org.lifecycle = .deleted) : Fits t db (.organizations (.update orgId f)) := by
  refine .updateOrg hlock fun org horg => .inl ⟨fun hdeleted => absurd ?_ hkept, hf org⟩
  rw [Db.lifecycleOf, horg] at hl
  exact (Option.some.inj hl).symm.trans hdeleted

/-- What a request commits that changes nothing but operations and events. -/
theorem commits_events {changes : List Change} (hop : op.membership? = none ∧ op.houses? = none)
    (h : ∀ c ∈ changes, (∃ e, c = .auditEvent e) ∨ ∃ id f, c = .deletions (.update id f)) :
    Commits op locks db changes := by
  refine commits_of_chain hop.1 ?_ hop.2
  generalize terms op locks db changes = t
  induction changes generalizing db with
  | nil => exact .nil
  | cons c changes ih =>
      have hrest := @ih (c.apply db) fun c' hc => h c' (List.mem_cons_of_mem c hc)
      rcases h c List.mem_cons_self with ⟨e, rfl⟩ | ⟨id, f, rfl⟩
      · exact .cons .auditEvent hrest
      · exact .cons .updateDeletion hrest

end Facts

section Requests

theorem secures_lockForOwner {deleted : Error} {k : LifecycleState → Session β}
    (hQ : ∀ e locks, Q (.error e) ⟨[], locks, wrote⟩)
    (h : ∀ db l, db.lifecycleOf orgId = some l → l ≠ .deleted →
      Secures ι Q op db ⟨[], [.organization orgId], wrote⟩ (k l)) :
    Secures ι Q op d (outside wrote) (lockForOwner orgId userId deleted >>= k) := by
  simp only [lockForOwner, bind_assoc]
  refine secures_lockOrganization (hQ · _) (fun db _ => secures_throw (hQ _ _))
    fun db l _ _ hl => ?_
  dsimp only
  split
  · simp only [bind_assoc]
    refine secures_read (hQ · _) fun _ _ _ => ?_
    split <;> exact secures_throw (hQ _ _)
  · next hkept =>
      simp only [requireOwner, bind_assoc]
      refine secures_read (hQ · _) fun _ _ _ => ?_
      split
      · exact secures_throw (hQ _ _)
      · refine secures_require (hQ · _) fun _ => ?_
        rw [pure_bind]
        exact h db l hl hkept

theorem secures_statusForOperation {id : Ident} {k : DeletionStatus → Session β}
    (hQ : ∀ e, Q (.error e) (outside wrote))
    (h : ∀ db status, Secures ι Q op db (outside wrote) (k status)) :
    Secures ι Q op d (outside wrote) (statusForOperation orgId id >>= k) := by
  simp only [statusForOperation, bind_assoc]
  refine secures_look hQ fun db _ _ => ?_
  split
  · exact secures_throw (hQ _)
  · rw [pure_bind]
    exact h db _

theorem secures_resumeDeletion {now : Int} {locks : List Lock}
    (hop : op.membership? = none ∧ op.houses? = none) :
    Secures ι (InBody fun _ _ => True) op d ⟨[], locks, false⟩
      (resumeDeletion now orgId userId) := by
  refine Secures.of_bind_pure ?_
  simp only [resumeDeletion, bind_assoc]
  refine secures_read (fun _ => rfl) fun _ _ _ => ?_
  split
  · exact secures_throw rfl
  · split
    · split
      · exact secures_throw rfl
      · simp only [bind_assoc, pure_bind]
        refine secures_put (fun _ => rfl) (secures_record (fun _ => rfl) ?_)
        refine secures_commits (fun db _ _ => commits_events hop fun c hc => ?_) trivial
        rcases List.mem_append.1 hc with hc | hc
        · exact .inr ⟨_, _, List.mem_singleton.1 hc⟩
        · exact .inl ⟨_, List.mem_singleton.1 hc⟩
    · simp only [bind_assoc, pure_bind]
      exact secures_commits (fun db _ _ => commits_nil hop.1) trivial

theorem commits_startDeletion {l : LifecycleState} {id : Ident} {operation : Deletion}
    {event : AuditEvent} (hop : op.membership? = none ∧ op.houses? = none)
    (hl : db.lifecycleOf orgId = some l) (hkept : l ≠ .deleted) : Commits op [.deletion id, .organization orgId] db
      [.deletions (.put id operation),
        .organizations (.update orgId fun org => { org with lifecycle := .deleting }),
        .auditEvent event] := by
  refine commits_of_chain hop.1 (.cons (.putDeletion List.mem_cons_self)
    (.cons (fits_updateOrg ?_ hl hkept fun _ h => by cases h) (.cons .auditEvent .nil))) hop.2
  exact List.mem_cons_of_mem _ List.mem_cons_self

theorem secures_startDeletion {now retentionDays : Int} {l : LifecycleState}
    (hop : op.membership? = none ∧ op.houses? = none) (hl : d.lifecycleOf orgId = some l)
    (hkept : l ≠ .deleted) :
    Secures ι (InBody fun _ _ => True) op d ⟨[], [.organization orgId], false⟩
      (startDeletion now orgId userId retentionDays) := by
  refine Secures.of_bind_pure ?_
  simp only [startDeletion, bind_assoc]
  refine secures_draw fun id => ?_
  refine secures_writeLocking (fun _ => rfl) fun db₁ new _ hsince₁ hf => ?_
  split at hf
  · cases hf
  cases hf
  refine secures_put (fun _ => rfl) (secures_record (fun _ => rfl) ?_)
  simp only [pure_bind]
  refine secures_commits (fun db₂ _ hsince₂ => ?_) trivial
  have hsince := hsince₁.trans hsince₂ fun k hk => List.mem_cons_of_mem _ hk
  refine commits_startDeletion hop ?_ hkept
  exact (Since.org hsince List.mem_cons_self).lifecycleOf.trans hl

theorem secures_requestDeletion {body : Option RequestDeletion} {retentionDays : Int} :
    Secures ι (AtEnd True) (.requestDeletion userId orgId body retentionDays) d (outside false)
      (Call.requestDeletion userId orgId body retentionDays).handler := by
  have hlate : ∀ {wrote e}, AtEnd (Δ := Change) (K := Lock) True (.error e : Except Error PUnit)
      (outside wrote) := ⟨rfl, rfl, fun _ _ _ => trivial⟩
  refine secures_discard ?_
  simp only [requestDeletion, requestWithRetention, bind_assoc]
  refine secures_check (fun _ => hlate) fun _ _ => ?_
  refine secures_check (fun _ => hlate) fun _ _ => ?_
  refine secures_require (fun _ => hlate) fun _ => ?_
  refine secures_require (fun _ => hlate) fun _ => ?_
  refine secures_require (fun _ => hlate) fun _ => ?_
  refine secures_transaction (B := fun _ _ => True) ?_ (fun _ => hlate) fun db view wrote _ _ =>
    secures_statusForOperation (fun _ => hlate) fun _ _ => secures_pure atEnd_ok
  refine secures_draw fun now => ?_
  refine secures_lockForOwner (fun _ _ => rfl) fun db l hl hkept => ?_
  split
  · exact secures_resumeDeletion ⟨rfl, rfl⟩
  · exact secures_startDeletion ⟨rfl, rfl⟩ hl hkept

theorem secures_cancelDeletion :
    Secures ι (AtEnd True) (.cancelDeletion userId orgId) d (outside false)
      (Call.cancelDeletion userId orgId).handler := by
  have hlate : ∀ {wrote e}, AtEnd (Δ := Change) (K := Lock) True (.error e : Except Error PUnit)
      (outside wrote) := ⟨rfl, rfl, fun _ _ _ => trivial⟩
  refine secures_discard ?_
  simp only [cancelDeletion, cancel, bind_assoc]
  refine secures_transaction (B := fun _ _ => True) ?_ (fun _ => hlate) fun db view wrote _ _ =>
    secures_statusForOperation (fun _ => hlate) fun _ _ => secures_pure atEnd_ok
  refine secures_draw fun now => ?_
  refine secures_lockForOwner (fun _ _ => rfl) fun db l hl hkept => ?_
  refine secures_read (fun _ => rfl) fun _ _ _ => ?_
  split
  · exact secures_throw rfl
  · split
    · refine Secures.of_bind_pure ?_
      simp only [bind_assoc, pure_bind]
      refine secures_put (fun _ => rfl) (secures_record (fun _ => rfl) ?_)
      refine secures_commits (fun db _ _ => commits_events ⟨rfl, rfl⟩ fun c hc => ?_) trivial
      rcases List.mem_append.1 hc with hc | hc
      · exact .inr ⟨_, _, List.mem_singleton.1 hc⟩
      · exact .inl ⟨_, List.mem_singleton.1 hc⟩
    · refine Secures.of_bind_pure ?_
      simp only [bind_assoc, pure_bind]
      refine secures_require (fun _ => rfl) fun _ => ?_
      exact secures_commits (fun db _ _ => commits_nil rfl) trivial

end Requests

section Workers

variable {workerId id : Ident} {change : Deletion → Deletion} {late : Prop}

theorem secures_advanceDeletion {event : Option (Ident × String × Option String)} :
    Secures ι (AtEnd late) (.advanceDeletion workerId id change event) d (outside false)
      (Call.advanceDeletion workerId id change event).handler := by
  refine Secures.of_bind_pure (secures_closing ?_ fun _ => ⟨_, rfl⟩)
  refine Secures.of_bind_pure ?_
  simp only [bind_assoc]
  refine secures_put (fun _ => rfl) ?_
  cases event with
  | none =>
      refine secures_commit (fun _ => rfl) (fun db _ _ => commits_events ⟨rfl, rfl⟩ fun c hc => ?_)
        fun _ _ => secures_pure trivial
      exact .inr ⟨_, _, List.mem_singleton.1 hc⟩
  | some event =>
      simp only [bind_assoc]
      refine secures_record (fun _ => rfl) ?_
      refine secures_commit (fun _ => rfl) (fun db _ _ => commits_events ⟨rfl, rfl⟩ fun c hc => ?_)
        fun _ _ => secures_pure trivial
      rcases List.mem_append.1 hc with hc | hc
      · exact .inr ⟨_, _, List.mem_singleton.1 hc⟩
      · exact .inl ⟨_, List.mem_singleton.1 hc⟩

/-- What a worker or a webhook does to an organisation that it finds in a state, under its lock. -/
theorem secures_whereLifecycle {changes : List Change} {expected : LifecycleState}
    {body rest : Session Unit} {k : Unit → Session β}
    (hQ : ∀ e locks, Q (.error e) ⟨changes, locks, wrote⟩)
    (hrest : ∀ db locks, Secures ι Q op db ⟨changes, locks, wrote⟩ (rest >>= k))
    (hbody : ∀ db, db.Sound → (db.after changes).lifecycleOf orgId = some expected →
      Secures ι Q op db ⟨changes, [.organization orgId], wrote⟩ (body >>= k)) :
    Secures ι Q op d ⟨changes, [], wrote⟩ (lockOrganization orgId >>= fun lifecycle =>
      (if lifecycle = some expected then body else rest) >>= k) := by
  refine secures_lockOrganization (hQ · _) (fun db _ => ?_) fun db l hs _ hl => ?_
  · rw [if_neg nofun]
    exact hrest db _
  · split
    · next heq => exact hbody db hs (hl.trans heq)
    · exact hrest db _

theorem secures_changePlan {tier : Tier} {subscription : Option Ident} {action detail : String} :
    Secures ι (AtEnd late) (.changePlan orgId tier subscription action detail) d (outside false)
      (Call.changePlan orgId tier subscription action detail).handler := by
  refine Secures.of_bind_pure (secures_closing ?_ fun _ => ⟨_, rfl⟩)
  refine Secures.of_bind_pure ?_
  simp only [bind_assoc]
  refine secures_whereLifecycle (fun _ _ => rfl) (fun db locks => ?_) fun db₁ _ hl => ?_
  · exact secures_commit (fun _ => rfl) (fun _ _ _ => commits_nil rfl) fun _ _ =>
      secures_pure trivial
  · simp only [bind_assoc]
    refine secures_put (fun _ => rfl) (secures_record (fun _ => rfl) ?_)
    refine secures_commit (fun _ => rfl) (fun db₂ _ hsince => ?_) fun _ _ => secures_pure trivial
    have hlock : Lock.organization orgId ∈ [Lock.organization orgId] := List.mem_cons_self
    have hl₂ := (Since.org hsince hlock).lifecycleOf.trans hl
    exact commits_of_chain rfl (.cons (fits_updateOrg hlock hl₂ (by simp) fun _ => id)
      (.cons (.plan hlock) (.cons .auditEvent .nil)))

theorem secures_finishRecovery {tier : Tier} :
    Secures ι (AtEnd late) (.finishRecovery workerId id orgId tier change) d (outside false)
      (Call.finishRecovery workerId id orgId tier change).handler := by
  refine Secures.of_bind_pure (secures_closing ?_ fun _ => ⟨_, rfl⟩)
  refine Secures.of_bind_pure ?_
  simp only [bind_assoc]
  refine secures_put (fun _ => rfl) ?_
  refine secures_whereLifecycle (fun _ _ => rfl) (fun db locks => ?_) fun db₁ _ hl => ?_
  · simp only [bind_assoc]
    refine secures_record (fun _ => rfl) ?_
    refine secures_commit (fun _ => rfl) (fun _ _ _ => ?_) fun _ _ => secures_pure trivial
    exact commits_of_chain rfl (.cons .updateDeletion (.cons .auditEvent .nil))
  · simp only [bind_assoc]
    refine secures_put (fun _ => rfl) (secures_record (fun _ => rfl) ?_)
    refine secures_commit (fun _ => rfl) (fun db₂ _ hsince => ?_) fun _ _ => secures_pure trivial
    have hlock : Lock.organization orgId ∈ [Lock.organization orgId] := List.mem_cons_self
    have hl₂ : db₂.lifecycleOf orgId = some .deleting := (Since.org hsince hlock).lifecycleOf.trans hl
    exact commits_of_chain rfl (.cons .updateDeletion
      (.cons (fits_updateOrg hlock hl₂ (by simp) fun _ h => by cases h) (.cons .auditEvent .nil)))

end Workers

end Org

end Sotto
