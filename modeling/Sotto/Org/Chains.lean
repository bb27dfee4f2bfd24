import Sotto.Org.Guards

/-!
# Chains of fitting changes

What a fitting change leaves alone of the holdings of organisations, and what a chain of fitting
changes preserves: what each of its changes does.
-/

namespace Sotto

namespace Org

open Core (Ident Bytes)
open Server (Membership Project Environment MachineToken Secret)
open Table.Change (lookup_apply)

section Holdings

variable {t : Terms} {db : Db} {o : Ident}

/-- Holdings depend on where the environments are that something is held in. -/
theorem holdings_of_orgOf {db' : Db} (hm : db'.memberships = db.memberships)
    (hg : db'.grants = db.grants) (ht : db'.machineTokens = db.machineTokens)
    (horigins : db'.tokenOrigins = db.tokenOrigins) (hs : db'.secrets = db.secrets)
    (hv : db'.secretVersions = db.secretVersions)
    (h : ∀ e, (∃ u, (db.grants.lookup (e, u)).isSome) ∨
      (∃ k token, db.machineTokens.lookup k = some token ∧ token.envId = e) ∨
      (∃ s secret, db.secrets.lookup s = some secret ∧ secret.envId = e) →
      db'.orgOf e = db.orgOf e) : db'.holdings o = db.holdings o := by
  have htoken : ∀ k, db'.tokenIn o k = db.tokenIn o k := by
    intro k
    unfold Db.tokenIn
    rw [ht]
    cases hk : db.machineTokens.lookup k with
    | none => rfl
    | some token => simp only [Option.filter, h _ (.inr (.inl ⟨k, token, hk, rfl⟩))]
  have hsecret : ∀ s, db'.secretIn o s = db.secretIn o s := by
    intro s
    unfold Db.secretIn
    rw [hs]
    cases hlookup : db.secrets.lookup s with
    | none => rfl
    | some secret => simp only [Option.filter, h _ (.inr (.inr ⟨s, secret, hlookup, rfl⟩))]
  have hgrant : ∀ e u, (if db'.orgOf e = some o then db'.grants.lookup (e, u) else none) =
      if db.orgOf e = some o then db.grants.lookup (e, u) else none := by
    intro e u
    rw [hg]
    cases hlookup : db.grants.lookup (e, u) with
    | none => simp
    | some v => rw [h e (.inl ⟨u, by rw [hlookup]; rfl⟩)]
  unfold Db.holdings
  simp only [hm, htoken, hsecret, hgrant, horigins, hv]

/-- Changes to the memberships of other organisations. -/
theorem holdings_memberships {c : Table.Change (Ident × Ident) Membership}
    (h : ∀ u, (c.apply db.memberships).lookup (o, u) = db.memberships.lookup (o, u)) :
    (Change.apply (.memberships c) db).holdings o = db.holdings o :=
  Holdings.ext (funext h) rfl rfl rfl rfl rfl

theorem holdings_grants {c : Table.Change (Ident × Ident) Bytes}
    (h : db.orgOf c.key.1 = some o →
      c.effect (db.grants.lookup c.key) = db.grants.lookup c.key) :
    (Change.apply (.grants c) db).holdings o = db.holdings o := by
  refine Holdings.ext rfl ?_ rfl rfl rfl rfl
  funext e u
  show (if db.orgOf e = some o then (c.apply db.grants).lookup (e, u) else none) =
    if db.orgOf e = some o then db.grants.lookup (e, u) else none
  split
  · next ho =>
      rw [lookup_apply]
      split
      · next hkey =>
          rw [hkey]
          exact h (hkey ▸ ho)
      · rfl
  · rfl

theorem holdings_machineTokens {c : Table.Change Ident MachineToken}
    (h : (c.effect (db.machineTokens.lookup c.key)).filter (fun token =>
        db.orgOf token.envId = some o) = db.tokenIn o c.key) :
    (Change.apply (.machineTokens c) db).holdings o = db.holdings o := by
  have htoken : ∀ k, (Change.apply (.machineTokens c) db).tokenIn o k = db.tokenIn o k := by
    intro k
    show ((c.apply db.machineTokens).lookup k).filter _ = _
    rw [lookup_apply]
    split
    · next hkey =>
        rw [hkey]
        exact h
    · rfl
  refine Holdings.ext rfl rfl (funext htoken) ?_ rfl rfl
  funext k
  show ((Change.apply (.machineTokens c) db).tokenIn o k).bind _ = (db.tokenIn o k).bind _
  rw [htoken]
  rfl

theorem holdings_secrets {c : Table.Change Ident Secret}
    (h : (c.effect (db.secrets.lookup c.key)).filter (fun secret =>
        db.orgOf secret.envId = some o) = db.secretIn o c.key) :
    (Change.apply (.secrets c) db).holdings o = db.holdings o := by
  have hsecret : ∀ s, (Change.apply (.secrets c) db).secretIn o s = db.secretIn o s := by
    intro s
    show ((c.apply db.secrets).lookup s).filter _ = _
    rw [lookup_apply]
    split
    · next hkey =>
        rw [hkey]
        exact h
    · rfl
  refine Holdings.ext rfl rfl rfl rfl (funext hsecret) ?_
  funext s v
  show ((Change.apply (.secrets c) db).secretIn o s).bind _ = (db.secretIn o s).bind _
  rw [hsecret]
  rfl

/-- Updating a row that is in an organisation only if it stays as it is. -/
theorem filter_update {V : Type} {row : Option V} {f : V → V} {p : V → Bool}
    (hf : ∀ v, p (f v) = p v) (h : ∀ v, row = some v → f v ≠ v → p v = false) :
    (row.map f).filter p = row.filter p := by
  cases row with
  | none => rfl
  | some v =>
      by_cases hsame : f v = v
      · simp [hsame]
      · simp [Option.filter, hf, h v rfl hsame]

/-- A fitting change leaves alone what the organisations hold that its transaction does not
touch. -/
theorem Fits.holdings {c : Change} (hc : db.Consistent) (h : Fits t db c) (ho : ¬ t.touched o) :
    (c.apply db).holdings o = db.holdings o := by
  cases h with
  | putUser | email | putOrg | updateOrg | plan | putDeletion | updateDeletion | auditEvent => rfl
  | putMember _ _ htouched _ | updateMember _ _ htouched | deleteMember _ _ _ _ htouched =>
      refine holdings_memberships fun u => ?_
      rw [lookup_apply, if_neg]
      rintro heq
      exact ho ((Prod.mk.inj heq).1 ▸ htouched)
  | @keepMember o' u f hf htouched =>
      refine holdings_memberships fun u' => ?_
      rw [lookup_apply]
      split
      · next heq =>
          obtain ⟨rfl, rfl⟩ := Prod.mk.inj heq
          cases hm : db.memberships.lookup (o, u') with
          | none => rfl
          | some m =>
              have hsame : f m = m := by
                by_contra hne
                exact ho (htouched m hm hne)
              simp [Table.Change.effect, hsame]
      · rfl
  | @putProject p project _ hnone _ =>
      refine holdings_of_orgOf rfl rfl rfl rfl rfl rfl fun e _ => ?_
      exact orgOf_projects (c := .put p project) (fun _ _ he => hc.projectId_ne hnone he) e
  | deleteProject _ _ _ _ _ hempty =>
      exact holdings_of_orgOf rfl rfl rfl rfl rfl rfl fun e _ => orgOf_projects hempty e
  | @putEnv e env project _ hnone hp _ =>
      refine holdings_of_orgOf rfl rfl rfl rfl rfl rfl fun e' hheld => ?_
      have hsome : (db.environments.lookup e').isSome := by
        rcases hheld with ⟨u, hu⟩ | ⟨k, token, hk, rfl⟩ | ⟨s, secret, hs, rfl⟩
        · exact hc.envOfGrant hu
        · exact hc.envOfToken hk
        · exact hc.envOfSecret hs
      rw [orgOf_putEnv, if_neg]
      rintro rfl
      rw [hnone] at hsome
      cases hsome
  | updateEnv _ hf =>
      exact holdings_of_orgOf rfl rfl rfl rfl rfl rfl fun e _ => orgOf_updateEnv hf e
  | @deleteEnv e env project o' _ _ _ _ _ _ hgrants hsecrets htokens =>
      refine holdings_of_orgOf rfl rfl rfl rfl rfl rfl fun e' hheld => ?_
      rw [orgOf_deleteEnv, if_neg]
      rintro rfl
      rcases hheld with ⟨u, hu⟩ | ⟨k, token, hk, htoken⟩ | ⟨s, secret, hs, hsecret⟩
      · rw [hgrants u] at hu
        cases hu
      · exact htokens k token hk htoken
      · exact hsecrets s secret hs hsecret
  | putGrant _ _ _ htouched => exact holdings_grants fun h => absurd (htouched o h) ho
  | @deleteGrant e u htouched =>
      refine holdings_grants fun h => ?_
      cases hg : db.grants.lookup (e, u) with
      | none => exact hg.symm
      | some v => exact absurd (htouched o h (by rw [hg]; rfl)) ho
  | @putSecret s secret _ _ _ hold htouched =>
      refine holdings_secrets ?_
      have hne : db.orgOf secret.envId ≠ some o := fun h => ho (htouched o h)
      unfold Db.secretIn
      cases hs : db.secrets.lookup s with
      | none => simp [Table.Change.effect, Table.Change.key, Option.filter, hs, hne]
      | some old =>
          simp [Table.Change.effect, Table.Change.key, Option.filter, hs, hne, hold old hs]
  | updateSecret hf htouched =>
      refine holdings_secrets (filter_update ?_ ?_)
      · intro secret
        rw [hf]
      · intro secret hs hne
        simpa using fun h => ho (htouched secret hs hne o h)
  | deleteSecret htouched =>
      refine holdings_secrets ?_
      symm
      simpa [Db.secretIn, Table.Change.effect, Table.Change.key, Option.filter_eq_none_iff] using
        fun secret hs h => ho ((htouched secret hs).2 o h)
  | @version c htouched =>
      refine Holdings.ext rfl rfl rfl rfl rfl ?_
      funext s v
      show ((db.secretIn o s).bind fun _ => (c.apply db.secretVersions).lookup (s, v)) =
        (db.secretIn o s).bind fun _ => db.secretVersions.lookup (s, v)
      rw [lookup_apply]
      split
      · next hkey =>
          have hnone : db.secretIn o s = none := by
            rw [Db.secretIn, Option.filter_eq_none_iff]
            intro secret hs h
            exact ho (htouched secret (hkey ▸ hs) o (by simpa using h))
          rw [hnone]
          rfl
      · rfl
  | @putToken k token origin _ _ hnone _ _ _ htouched =>
      refine holdings_machineTokens ?_
      have hne : db.orgOf token.envId ≠ some o := fun h => ho (htouched o h)
      simp [Db.tokenIn, Table.Change.effect, Table.Change.key, Option.filter, hne, hnone]
  | updateToken hf htouched =>
      refine holdings_machineTokens (filter_update ?_ ?_)
      · intro token
        rw [(hf token).1]
      · intro token ht hne
        simpa using fun h => ho (htouched token ht hne o h).2
  | deleteToken htouched =>
      refine holdings_machineTokens ?_
      symm
      simpa [Db.tokenIn, Table.Change.effect, Table.Change.key, Option.filter_eq_none_iff] using
        fun token ht h => ho (htouched token ht o h).2
  | @origin c hnone =>
      refine Holdings.ext rfl rfl rfl ?_ rfl rfl
      funext k
      show ((db.tokenIn o k).bind fun _ => (c.apply db.tokenOrigins).lookup k) =
        (db.tokenIn o k).bind fun _ => db.tokenOrigins.lookup k
      rw [lookup_apply]
      split
      · next hkey =>
          rw [Db.tokenIn, hkey, hnone]
          rfl
      · rfl

end Holdings

/-! ### Grants and members -/

section Grants

variable {t : Terms} {db : Db}

/-- Who holds a grant on an environment of an organisation was a member of it before the
transaction. -/
def Db.GrantsOf (db base : Db) : Prop :=
  ∀ e u o, e ∉ db.retired → (db.grants.lookup (e, u)).isSome → db.orgOf e = some o →
    (base.roleOf o u).isSome

theorem Db.GrantsOf.apply {c : Change} (hg : db.GrantsOf t.base) (hc : db.Consistent)
    (h : Fits t db c) : (c.apply db).GrantsOf t.base := by
  cases h with
  | putUser | email | putOrg | updateOrg | plan | putMember | keepMember | updateMember
  | deleteMember | putSecret | updateSecret | deleteSecret | version | putToken | updateToken | deleteToken | origin
  | putDeletion | updateDeletion | auditEvent => exact hg
  | @putProject p project _ hnone _ =>
      intro e u o he h ho
      rw [orgOf_projects (c := .put p project) (fun _ _ henv => hc.projectId_ne hnone henv)] at ho
      exact hg e u o he h ho
  | @deleteProject p _ _ _ _ _ _ _ hempty =>
      intro e u o he h ho
      rw [orgOf_projects (c := .delete p) hempty] at ho
      exact hg e u o he h ho
  | putEnv _ hnone _ _ =>
      intro e u o he h ho
      rw [orgOf_putEnv] at ho
      split at ho
      · next heq =>
          have hsome := hc.envOfGrant h
          rw [heq, hnone] at hsome
          cases hsome
      · exact hg e u o he h ho
  | updateEnv _ hf =>
      intro e u o he h ho
      rw [orgOf_updateEnv hf] at ho
      exact hg e u o he h ho
  | deleteEnv =>
      intro e u o he h ho
      rw [orgOf_deleteEnv] at ho
      split at ho
      · cases ho
      · exact hg e u o (fun hd => he (List.mem_cons_of_mem _ hd)) h ho
  | putGrant _ _ hmember _ =>
      intro e u o he h ho
      rcases Table.Change.isSome_put.1 h with heq | h
      · cases heq
        exact (hmember he o ho).2.2
      · exact hg e u o he h ho
  | deleteGrant =>
      intro e u o he h ho
      exact hg e u o he (Table.Change.isSome_delete.1 h).2 ho

end Grants

/-- Only a purge makes the id of an environment free again. -/
theorem Fits.retired {t : Terms} {db : Db} {c : Change} (h : Fits t db c) (hp : ¬ t.purging) :
    (c.apply db).retired = db.retired := by
  cases h with
  | deleteEnv _ _ _ _ _ hpurging => exact absurd hpurging hp
  | _ => rfl

/-! ### New members and projects -/

section Growth

variable {t : Terms} {db : Db} {c : Change}

/-- Who is a member after a fitting change was one before, or was added. -/
theorem Fits.joined {o u : Ident} (h : Fits t db c) (hu : ((c.apply db).roleOf o u).isSome) :
    (db.roleOf o u).isSome ∨ t.joined o := by
  cases h with
  | putMember _ _ _ hjoined =>
      rw [roleOf_memberships] at hu
      split at hu
      · next heq =>
          cases heq
          exact .inr hjoined
      · exact .inl hu
  | keepMember | updateMember =>
      rw [roleOf_memberships] at hu
      split at hu
      · exact .inl (by simpa [Table.Change.effect, Db.roleOf] using hu)
      · exact .inl hu
  | deleteMember =>
      rw [roleOf_memberships] at hu
      split at hu
      · cases hu
      · exact .inl hu
  | _ => exact .inl hu

/-- A project that is there after a fitting change was there before, or was created. -/
theorem Fits.housed {p : Ident} {project : Project} (h : Fits t db c)
    (hp : (c.apply db).projects.lookup p = some project) :
    db.projects.lookup p = some project ∨ ∀ o, project.orgId = some o → t.housed o p := by
  cases h with
  | putProject _ _ hlocks =>
      rcases Table.Change.lookup_put.1 hp with ⟨rfl, rfl⟩ | ⟨-, hp⟩
      · exact .inr fun o ho => (hlocks o ho).2
      · exact .inl hp
  | deleteProject => exact .inl (Table.Change.lookup_delete.1 hp).2
  | _ => exact .inl hp

end Growth

/-! ### Chains -/

namespace Chain

variable {t : Terms} {db : Db} {changes : List Change}

theorem append {changes' : List Change} (h : Chain t db changes)
    (h' : Chain t (db.after changes) changes') : Chain t db (changes ++ changes') := by
  induction h with
  | nil => exact h'
  | cons hfits _ ih => exact .cons hfits (ih h')

theorem consistent (h : Chain t db changes) (hc : db.Consistent) :
    (db.after changes).Consistent := by
  induction h with
  | nil => exact hc
  | cons hfits _ ih => exact ih (hc.apply hfits)

theorem ownedBut (h : Chain t db changes) (ho : db.OwnedBut fun o => t.gone o ∨ t.owned o) :
    (db.after changes).OwnedBut fun o => t.gone o ∨ t.owned o := by
  induction h with
  | nil => exact ho
  | cons hfits _ ih => exact ih (ho.apply hfits)

theorem laterBut (h : Chain t db changes) : LaterBut t.gone db (db.after changes) := by
  induction h with
  | nil => exact LaterBut.refl _ _
  | cons hfits _ ih => exact hfits.laterBut.trans ih

theorem guarded (h : Chain t db changes) (hc : db.Consistent) {k : Lock}
    (hk : ∀ k' ∈ t.locks, ¬ k.Conflicts k') : Guarded k db (db.after changes) := by
  induction h with
  | nil => exact Guarded.refl _ _
  | cons hfits _ ih => exact (hfits.guarded hc hk).trans (ih (hc.apply hfits))

theorem retired (h : Chain t db changes) (hp : ¬ t.purging) :
    (db.after changes).retired = db.retired := by
  induction h with
  | nil => rfl
  | cons hfits _ ih => exact ih.trans (hfits.retired hp)

theorem holdings (h : Chain t db changes) (hc : db.Consistent) {o : Ident}
    (ho : ¬ t.touched o) : (db.after changes).holdings o = db.holdings o := by
  induction h with
  | nil => rfl
  | cons hfits _ ih => exact (ih (hc.apply hfits)).trans (hfits.holdings hc ho)

theorem grantsOf (h : Chain t db changes) (hc : db.Consistent) (hg : db.GrantsOf t.base) :
    (db.after changes).GrantsOf t.base := by
  induction h with
  | nil => exact hg
  | cons hfits _ ih => exact ih (hc.apply hfits) (hg.apply hc hfits)

theorem joined (h : Chain t db changes) {o u : Ident}
    (hu : ((db.after changes).roleOf o u).isSome) : (db.roleOf o u).isSome ∨ t.joined o := by
  induction h with
  | nil => exact .inl hu
  | cons hfits _ ih =>
      rcases ih hu with hu | hjoined
      · exact hfits.joined hu
      · exact .inr hjoined

theorem housed (h : Chain t db changes) {p : Ident} {project : Project}
    (hp : (db.after changes).projects.lookup p = some project) :
    db.projects.lookup p = some project ∨ ∀ o, project.orgId = some o → t.housed o p := by
  induction h with
  | nil => exact .inl hp
  | cons hfits _ ih =>
      rcases ih hp with hp | hhoused
      · exact hfits.housed hp
      · exact .inr hhoused

end Chain

end Org

end Sotto
