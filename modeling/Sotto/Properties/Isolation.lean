import Sotto.Hostile

/-!
# Isolation of the environments of a store

A sync of one environment changes nothing of another one, unless the server sends it a secret
under an id that the store holds for another environment. Rows are found by environment and id
but replaced by id alone, so such a row moves to the synced environment.
-/

namespace Sotto

open Core Cli

/-- What a store holds of an environment is what another store holds of it. -/
structure SameEnvironment (envId : Ident) (before store : Store) : Prop where
  environment : store.environments.lookup envId = before.environments.lookup envId
  revision : store.syncState.lookup envId = before.syncState.lookup envId
  secrets : ∀ id row, row.envId = envId →
    (store.secrets.lookup id = some row ↔ before.secrets.lookup id = some row)
  history : ∀ id row version, before.secrets.lookup id = some row → row.envId = envId →
    store.secretVersions.lookup (id, version) = before.secretVersions.lookup (id, version)

/-- No secret changes its environment. -/
def SameOwners (before store : Store) : Prop :=
  ∀ id row row', before.secrets.lookup id = some row → store.secrets.lookup id = some row' →
    row'.envId = row.envId

/-- An operation has changed only the environment that it opened. -/
structure Host.Isolated (l : Host) : Prop where
  others : ∀ envId, (∀ grant, l.target ≠ some (envId, grant)) →
    SameEnvironment envId l.before l.store
  owners : SameOwners l.before l.store

/-- How the store of an operation on `envId` stands beside the one it began with. -/
structure Beside (envId : Ident) (before store : Store) (crossed : Bool) : Prop where
  environments : ∀ e, e ≠ envId → store.environments.lookup e = before.environments.lookup e
  revisions : ∀ e, e ≠ envId → store.syncState.lookup e = before.syncState.lookup e
  own : ∀ id row row', before.secrets.lookup id = some row → row.envId = envId →
    store.secrets.lookup id = some row' → row'.envId = envId
  kept : crossed = false → ∀ id row, row.envId ≠ envId →
    (store.secrets.lookup id = some row ↔ before.secrets.lookup id = some row)
  history : crossed = false → ∀ id row version, before.secrets.lookup id = some row →
    row.envId ≠ envId →
    store.secretVersions.lookup (id, version) = before.secretVersions.lookup (id, version)
  moved : crossed = true → ∃ id row row', before.secrets.lookup id = some row ∧
    row.envId ≠ envId ∧ store.secrets.lookup id = some row' ∧ row'.envId = envId

namespace Beside

variable {envId : Ident} {before store : Store} {crossed : Bool}

theorem refl (envId : Ident) (store : Store) : Beside envId store store false where
  environments _ _ := rfl
  revisions _ _ := rfl
  own id row row' h henv h' := by
    obtain rfl : row = row' := Option.some.inj (h.symm.trans h')
    exact henv
  kept _ _ _ _ := Iff.rfl
  history _ _ _ _ _ _ := rfl
  moved h := by cases h

theorem withGrant (h : Beside envId before store crossed) (grant : Bytes) :
    Beside envId before (store.withGrant envId grant) crossed where
  environments e he := by
    rw [← h.environments e he]
    exact Table.lookup_modify_of_ne he _ _
  revisions := h.revisions
  own := h.own
  kept := h.kept
  history := h.history
  moved := h.moved

theorem withRevision (h : Beside envId before store crossed) (revision : Int) :
    Beside envId before (store.withRevision envId revision) crossed where
  environments := h.environments
  revisions e he := by
    rw [← h.revisions e he]
    exact AList.lookup_insert_ne he
  own := h.own
  kept := h.kept
  history := h.history
  moved := h.moved

/-- Replacing a row keeps what is of other environments exactly when none of them holds it. -/
theorem replaceSecret (h : Beside envId before store crossed) (secret : SyncSecret) :
    Beside envId before (store.replaceSecret envId secret)
      (crossed || Host.heldElsewhere envId secret.id store) where
  environments := h.environments
  revisions := h.revisions
  own id row row' hrow henv hrow' := by
    rw [Store.replaceSecret, Table.lookup_insert] at hrow'
    split at hrow'
    · cases hrow'
      rfl
    · exact h.own id row row' hrow henv hrow'
  kept hcrossed id row henv := by
    rw [Bool.or_eq_false_iff] at hcrossed
    rw [← h.kept hcrossed.1 id row henv, Store.replaceSecret, Table.lookup_insert]
    split
    · next hid =>
        subst hid
        constructor
        · intro hrow
          cases hrow
          exact absurd rfl henv
        · intro hrow
          simp [Host.heldElsewhere, hrow, henv] at hcrossed
    · exact Iff.rfl
  history hcrossed id row version hrow henv := by
    rw [Bool.or_eq_false_iff] at hcrossed
    rw [← h.history hcrossed.1 id row version hrow henv]
    have hne : secret.id ≠ id := by
      rintro rfl
      have hheld := (h.kept hcrossed.1 _ row henv).2 hrow
      simp [Host.heldElsewhere, hheld, henv] at hcrossed
    unfold Store.replaceSecret
    dsimp only
    split
    · rfl
    · refine AList.lookup_insert_ne ?_
      rintro ⟨⟩
      exact hne rfl
  moved hcrossed := by
    cases hc : crossed with
    | true =>
        obtain ⟨id, row, row', hrow, henv, hrow', henv'⟩ := h.moved hc
        by_cases hid : id = secret.id
        · subst hid
          exact ⟨_, row, _, hrow, henv, AList.lookup_insert _, rfl⟩
        · refine ⟨id, row, row', hrow, henv, ?_, henv'⟩
          rw [← hrow']
          exact AList.lookup_insert_ne hid
    | false =>
        rw [hc, Bool.false_or, Host.heldElsewhere, Option.any_eq_true] at hcrossed
        obtain ⟨row, hrow, henv⟩ := hcrossed
        rw [decide_eq_true_eq] at henv
        exact ⟨_, row, _, (h.kept hc _ row henv).1 hrow, henv, AList.lookup_insert _, rfl⟩

/-- The operation is isolated exactly when it wrote no secret of another environment. -/
theorem isolated_iff (h : Beside envId before store crossed) {grant : Bytes}
    {answered : List Bytes} :
    (Host.mk store before (some (envId, grant)) answered crossed).Isolated ↔ crossed = false := by
  constructor
  · intro hisolated
    by_contra hcrossed
    rw [Bool.not_eq_false] at hcrossed
    obtain ⟨id, row, row', hrow, henv, hrow', henv'⟩ := h.moved hcrossed
    exact henv ((hisolated.owners id row row' hrow hrow').symm.trans henv')
  · intro hcrossed
    constructor
    · intro e he
      have hne : e ≠ envId := by
        rintro rfl
        exact he grant rfl
      exact ⟨h.environments e hne, h.revisions e hne,
        fun id row hrow => h.kept hcrossed id row (hrow.trans_ne hne),
        fun id row version hrow henv => h.history hcrossed id row version hrow (henv.trans_ne hne)⟩
    · intro id row row' hrow hrow'
      by_cases henv : row.envId = envId
      · rw [h.own id row row' hrow henv hrow', henv]
      · have hkept := (h.kept hcrossed id row henv).2 hrow
        rw [Option.some.inj (hkept.symm.trans hrow')]

end Beside

/-- What holds of a device in every configuration. -/
def Host.Apart (l : Host) : Prop :=
  match l.target with
  | none => l.store = l.before ∧ l.crossed = false
  | some (envId, _) => Beside envId l.before l.store l.crossed

namespace Host

variable {l : Host}

theorem Apart.isolated_iff (h : l.Apart) : l.Isolated ↔ l.crossed = false := by
  obtain ⟨store, before, target, answered, crossed⟩ := l
  cases target with
  | none =>
      obtain ⟨hstore, hcrossed⟩ : store = before ∧ crossed = false := h
      subst hstore hcrossed
      refine iff_of_true ⟨?_, ?_⟩ rfl
      · intro e _
        exact ⟨rfl, rfl, fun _ _ _ => Iff.rfl, fun _ _ _ _ _ => rfl⟩
      · intro id row row' hrow hrow'
        rw [Option.some.inj (hrow.symm.trans hrow')]
  | some opened => exact Beside.isolated_iff h

/-- Every step of a sync keeps what is of other environments apart. -/
theorem Apart.takes {c : Call} {r : c.Reply} {l' : Host} (h : l.Apart) (hs : l.Takes c r l') :
    l'.Apart := by
  obtain ⟨store, before, target, answered, crossed⟩ := l
  cases hs with
  | nothing => exact h
  | answered => exact h
  | opened htarget _ =>
      obtain rfl : target = none := htarget
      obtain ⟨hstore, hcrossed⟩ : store = before ∧ crossed = false := h
      subst hstore hcrossed
      exact Beside.refl _ _
  | granted htarget =>
      obtain rfl : target = some _ := htarget
      exact Beside.withGrant h _
  | synced htarget =>
      obtain rfl : target = some _ := htarget
      exact Beside.withRevision h _
  | replaced htarget _ =>
      obtain rfl : target = some _ := htarget
      exact Beside.replaceSecret h _

end Host

theorem hostile_apart {store : Store} {w : HostWorld} (hw : hostile.Reaches (hostIdle store) w) :
    (w.threads ()).own.Apart := by
  refine System.Reaches.own (I := Host.Apart) ?_ ?_ ?_ ?_
    ((hostile_good store).reaches_condition hostile_valid hw)
  · intro op s l l' _ hs
    obtain rfl : l' = ⟨l.store, l.store, none, [], false⟩ := hs.1
    exact ⟨rfl, rfl⟩
  · intro c s l r s' l' hl he
    exact hl.takes (he.2.2.2.takes he.1)
  · intro op a s l l' hl hf
    obtain rfl : l' = l := hf.1
    exact hl
  · exact ⟨rfl, rfl⟩

/-- Throughout every run of pulls and pushes against any server, an operation has changed
nothing of other environments than its own, and moved no secret to another environment, if and
only if it wrote no secret under an id that the store held for another environment. -/
theorem sync_isolated {store : Store} {w : HostWorld} (hw : hostile.Reaches (hostIdle store) w) :
    (w.threads ()).own.Isolated ↔ (w.threads ()).own.crossed = false :=
  (hostile_apart hw).isolated_iff

/-- A store with two environments, one of which has a secret. -/
def twoEnvironments : Store where
  accountKeys := none
  projects := AList.insert (.text "project") "project" ∅
  environments := AList.insert (.text "dev") ⟨.text "project", "dev", .raw .empty⟩
    (AList.insert (.text "prod") ⟨.text "project", "prod", .raw .empty⟩ ∅)
  secrets := AList.insert (.text "token")
    ⟨.text "prod", .raw .empty, .raw .empty, .raw .empty, 2, false⟩ ∅
  secretVersions := AList.insert (.text "token", 2) ⟨.raw .empty, .raw .empty, .raw .empty⟩ ∅
  syncState := ∅

/-- A version of a secret. -/
def versionOf (id : Ident) (version : Int) : Api.SecretEntry :=
  ⟨id, .valid (.raw .empty), .valid (.raw .empty), .valid (.raw .empty), version, false⟩

/-- A pull of the environment without secrets. -/
def pullDev : SyncOp := .pull ⟨.text "alice"⟩ ⟨.text "project", "dev", none⟩

/-- A secret that the server sends under a new id changes nothing of the other environment. -/
theorem sync_isolated_new :
    (hostAfter (answersSecret (versionOf (.text "key") 1) none) pullDev twoEnvironments
      |>.threads ()).own.Isolated :=
  (sync_isolated (reaches_hostAfter _ _ _)).2 (by decide +kernel)

/-- A secret that the server sends under an id of the other environment moves to the one that is
pulled. -/
theorem sync_not_isolated : ¬ ∀ store w, hostile.Reaches (hostIdle store) w →
    (w.threads ()).own.Isolated := by
  intro h
  have hisolated := h twoEnvironments _
    (reaches_hostAfter (answersSecret (versionOf (.text "token") 1) none) pullDev
      twoEnvironments)
  have hmoved := hisolated.owners (.text "token")
    ⟨.text "prod", .raw .empty, .raw .empty, .raw .empty, 2, false⟩
    ⟨.text "dev", .raw .empty, .raw .empty, .raw .empty, 1, false⟩
    (by decide +kernel) (by decide +kernel)
  exact absurd hmoved (by decide)

end Sotto
