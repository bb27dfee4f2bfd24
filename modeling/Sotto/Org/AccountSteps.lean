import Sotto.Org.SecretSteps

/-!
# The commits of account requests

A reset records an event of each organisation that it has locked. Of one that its user joined after
the memberships were listed it changes the grants and the memberships, but records nothing.
-/

namespace Sotto

namespace Org

open Core (Ident)
open Api (AccountBundle)
open Server (Account Error LifecycleState Membership)
open Sessions (check require statement)
open Sessions.Discipline

variable {ι : Type} [DecidableEq ι] {d db : Db} {op : Call} {userId : Ident}
  {β : Type} {Q : Except Error β → Stage Change Lock → Prop} {wrote : Bool}

theorem commits_upsertUser {email : Option String} {known : Prop} [Decidable known] :
    Commits (.upsertUser userId email) [.user userId] db
      ((if known then [] else [.users (.put userId none)]) ++
        (email.map fun email => Change.emails (.put userId email)).toList) := by
  refine commits_of_chain rfl (Chain.append ?_ ?_)
  · split
    · exact .nil
    · exact .cons (.putUser fun _ => List.mem_cons_self) .nil
  · cases email with
    | none => exact .nil
    | some email => exact .cons .email .nil

theorem secures_upsertUser {email : Option String} {late : Prop} :
    Secures ι (AtEnd late) (.upsertUser userId email) d (outside false)
      (Call.upsertUser userId email).handler := by
  refine Secures.of_bind_pure (secures_closing ?_ fun _ => ⟨_, rfl⟩)
  refine secures_writeLocking (fun _ => rfl) fun db₁ new _ _ hf => ?_
  cases hf
  exact Secures.of_bind_pure (secures_commit (fun _ => rfl) (fun _ _ _ => commits_upsertUser)
    fun _ _ => secures_pure trivial)

/-- Whatever an update of a user changes is its account. -/
theorem secures_updateUser {g : Stage Change Lock} {initialised : Bool} {account : Account}
    {k : Bool → Session β} (hQ : ∀ e locks, Q (.error e) ⟨g.changes, locks, g.wrote⟩)
    (h : ∀ db updated new locks, Since g.locks d db →
      (∀ o, .organization o ∈ locks → .organization o ∈ g.locks) →
      new = [] ∨ new = [.users (.put userId (some account))] ∧ .user userId ∈ locks →
      Secures ι Q op db ⟨g.changes ++ new, locks, g.wrote⟩ (k updated)) :
    Secures ι Q op d g (updateUser userId initialised account >>= k) := by
  refine secures_lock (hQ · _) fun db a new _ hsince hf => ?_
  refine h db a new _ hsince (fun o ho => ?_) ?_
  · rcases List.mem_append.1 ho with ho | ho
    · split at ho
      · cases List.mem_singleton.1 ho
      · cases ho
    · exact ho
  · cases hu : (Sessions.applyAll discipline.apply g.changes db).users.lookup userId with
    | none =>
        simp only [hu] at hf
        cases hf
        exact .inl rfl
    | some existing =>
        simp only [hu] at hf
        split at hf
        · cases hf
          exact .inr ⟨rfl, List.mem_append_left _ List.mem_cons_self⟩
        · cases hf
          exact .inl rfl

theorem chain_updateUser {t : Terms} {account : Account} {new : List Change}
    (h : new = [] ∨ new = [.users (.put userId (some account))] ∧ .user userId ∈ t.locks) :
    Chain t db new := by
  obtain rfl | ⟨rfl, hlock⟩ := h
  · exact .nil
  · exact .cons (.putUser fun _ => hlock) .nil

theorem secures_putAccount {bundle : AccountBundle} {late : Prop} :
    Secures ι (AtEnd late) (.putAccount userId bundle) d (outside false)
      (Call.putAccount userId bundle).handler := by
  refine secures_discard ?_
  simp only [putAccount, bind_assoc]
  refine secures_check (fun _ => atEnd_error) fun account _ => ?_
  refine secures_closing ?_ fun _ => ⟨_, rfl⟩
  refine secures_updateUser (fun _ _ => rfl) fun db₁ updated new locks _ _ hnew => ?_
  refine secures_require (fun _ => rfl) fun _ => ?_
  exact secures_commits (fun db₂ _ _ => commits_of_chain rfl (chain_updateUser hnew)) trivial

/-- The organisations that are locked are those of the rows that are found. -/
theorem secures_lockOrganizations {orgIds : List Ident} {locks : List Lock}
    {k : List (Ident × LifecycleState) → Session β}
    (hQ : ∀ e locks, Q (.error e) ⟨[], locks, wrote⟩)
    (h : ∀ db rows locks', (∀ o, .organization o ∈ locks' →
      .organization o ∈ locks ∨ o ∈ rows.map Prod.fst) →
      Secures ι Q op db ⟨[], locks', wrote⟩ (k rows)) :
    Secures ι Q op d ⟨[], locks, wrote⟩ (lockOrganizations orgIds >>= k) := by
  induction orgIds generalizing d locks k with
  | nil => exact h d [] locks fun o ho => .inl ho
  | cons orgId orgIds ih =>
      simp only [lockOrganizations, bind_assoc]
      refine secures_lockOrganization (hQ · _) (fun db₁ _ => ?_) fun db₁ l _ _ _ => ?_
      · simp only [pure_bind]
        exact ih fun db₂ rows locks' hrows => h db₂ _ locks' hrows
      · simp only [pure_bind]
        refine ih fun db₂ rows locks' hrows => h db₂ _ locks' fun o ho => ?_
        rcases hrows o ho with ho | ho
        · rcases List.mem_cons.1 ho with heq | ho
          · cases heq
            exact .inr List.mem_cons_self
          · exact .inl ho
        · exact .inr (List.mem_cons_of_mem _ ho)

/-- A loop of checks. -/
theorem secures_forM_check {A : Type} {f : A → Except Error PUnit} {xs : List A}
    {g : Stage Change Lock} {k : PUnit → Session β} (hQ : ∀ e, Q (.error e) g)
    (h : Secures ι Q op d g (k ⟨⟩)) :
    Secures ι Q op d g (xs.forM (fun x => check (f x)) >>= k) := by
  induction xs with
  | nil => exact h
  | cons x xs ih =>
      have hcons : (x :: xs).forM (fun x => check (f x)) >>= k =
          check (f x) >>= fun _ => xs.forM (fun x => check (f x)) >>= k := bind_assoc _ _ _
      rw [hcons]
      exact secures_check hQ fun _ _ => ih

theorem chain_clearKeys {t : Terms} {ks : List (Ident × Ident)}
    (h : ∀ o, t.touched o) : Chain t db (ks.map fun k =>
      .memberships (.update k fun m => { m with encOrgKey := none })) := by
  induction ks generalizing db with
  | nil => exact .nil
  | cons k ks ih => exact .cons (.keepMember (fun _ => rfl) fun _ _ _ => h _) ih

theorem commits_resetAccount {bundle : AccountBundle} {account : Account} {locks : List Lock}
    {new : List Change} {grants memberships : List (Ident × Ident)} {events : List AuditEvent}
    (hnew : new = [] ∨ new = [.users (.put userId (some account))] ∧ .user userId ∈ locks)
    (hevents : ∀ o, .organization o ∈ locks → ∃ e ∈ events, e.orgId = o ∧ e.actor = userId) :
    Commits (.resetAccount userId bundle) locks db
      (new ++ (grants.map fun k => .grants (.delete k)) ++
        (memberships.map fun k => .memberships (.update k fun m => { m with encOrgKey := none })) ++
        events.map .auditEvent) := by
  have htouched : ∀ changes o, (terms (.resetAccount userId bundle) locks db
      (changes ++ events.map .auditEvent)).touched o := by
    intro changes o
    by_cases hlock : .organization o ∈ locks
    · obtain ⟨e, he, ho, hactor⟩ := hevents o hlock
      exact .inl ⟨e, List.mem_append_right _ (List.mem_map_of_mem he), ho, hactor⟩
    · exact .inr hlock
  exact commits_of_chain rfl (Chain.append (Chain.append (Chain.append (chain_updateUser hnew)
    (chain_deleteGrants fun _ _ o _ => htouched _ o)) (chain_clearKeys (htouched _)))
    chain_auditEvents)

theorem secures_resetAccount {bundle : AccountBundle} {late : Prop} :
    Secures ι (AtEnd late) (.resetAccount userId bundle) d (outside false)
      (Call.resetAccount userId bundle).handler := by
  refine secures_discard ?_
  simp only [resetAccount, bind_assoc]
  refine secures_check (fun _ => atEnd_error) fun account _ => ?_
  refine secures_closing ?_ fun _ => ⟨_, rfl⟩
  refine secures_read (fun _ => rfl) fun _ _ _ => ?_
  refine secures_lockOrganizations (fun _ _ => rfl) fun db₁ rows locks hrows => ?_
  refine secures_forM_check (fun _ => rfl) ?_
  refine secures_updateUser (fun _ _ => rfl) fun db₂ updated new locks₂ _ hlocks hnew => ?_
  refine secures_require (fun _ => rfl) fun _ => ?_
  refine secures_writes (fun _ => rfl) fun db₃ new₃ _ _ hgrants => ?_
  cases hgrants
  refine secures_writes (fun _ => rfl) fun db₄ new₄ _ _ hmemberships => ?_
  cases hmemberships
  refine secures_forM_record (fun _ _ => rfl) ?_
  refine secures_commits (fun db₅ _ _ => commits_resetAccount hnew fun o ho => ?_) trivial
  rcases hrows o (hlocks o ho) with hnil | hmem
  · cases hnil
  · obtain ⟨row, hrow, rfl⟩ := List.mem_map.1 hmem
    exact ⟨_, List.mem_map_of_mem hrow, rfl, rfl⟩

end Org

end Sotto
