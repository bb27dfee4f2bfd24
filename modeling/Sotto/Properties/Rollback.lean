import Sotto.Properties.Isolation

/-!
# Stored versions against a hostile server

A sync replaces a row by one of a lower version only by force, after it was answered a grant with
other bytes than its own, or under an id of another environment. Where every such grant was really
issued to the member and seals another key, a server cannot roll back a store.
-/

namespace Sotto

open Core Cli

/-- No stored secret is lost or has a lower version than before. -/
def KeepsVersions (before store : Store) : Prop :=
  ∀ id row, before.secrets.lookup id = some row →
    ∃ row', store.secrets.lookup id = some row' ∧ row.version ≤ row'.version

theorem KeepsVersions.refl (store : Store) : KeepsVersions store store :=
  fun _ row hrow => ⟨row, hrow, Int.le_refl _⟩

theorem KeepsVersions.trans {store₁ store₂ store₃ : Store} (h : KeepsVersions store₁ store₂)
    (h' : KeepsVersions store₂ store₃) : KeepsVersions store₁ store₃ := by
  intro id row hrow
  obtain ⟨row', hrow', hle⟩ := h id row hrow
  obtain ⟨row'', hrow'', hle'⟩ := h' id row' hrow'
  exact ⟨row'', hrow'', Int.le_trans hle hle'⟩

theorem keepsVersions_replaceSecret {envId : Ident} {secret : SyncSecret} {store : Store}
    (h : ∀ row, store.secrets.lookup secret.id = some row → row.version ≤ secret.version) :
    KeepsVersions store (store.replaceSecret envId secret) := by
  intro id row hrow
  by_cases hid : id = secret.id
  · subst hid
    exact ⟨_, AList.lookup_insert _, h row hrow⟩
  · exact ⟨row, (AList.lookup_insert_ne hid).trans hrow, Int.le_refl _⟩

/-- A grant that the member was issued and that seals another key than the grant held. -/
structure IssuedAnew (keypair : Keypair) (issued : Bytes → Prop) (held grant : Bytes) : Prop where
  issued : issued grant
  sealed : ∃ key, Core.Vault.openVaultKey keypair grant = .ok key ∧
    Core.Vault.openVaultKey keypair held ≠ .ok key

/-- The operation was answered such a grant for the environment that it opened. -/
def Host.Reissued (keypair : Keypair) (issued : Bytes → Prop) (l : Host) : Prop :=
  ∃ envId held, l.target = some (envId, held) ∧
    ∃ grant ∈ l.answered, IssuedAnew keypair issued held grant

/-- The condition that every grant answered is the one held or issued anew, and that no row is
replaced under an id of another environment that has a higher version there. -/
def honestGrants (keypair : Keypair) (issued : Bytes → Prop) :
    System.Condition Unit Call.Reply Unit Host SyncOp (Except Cli.Error Int) where
  start _ _ _ _ := True
  exec _ c _ l r _ _ :=
    match c, r with
    | .http (.getGrant ..), .ok (some (.valid grant)) => ∀ envId held,
        l.target = some (envId, held) → grant = held ∨ IssuedAnew keypair issued held grant
    | .store (.putRemoteSecret envId secret), _ => ∀ row,
        l.store.secrets.lookup secret.id = some row → row.envId ≠ envId →
        row.version ≤ secret.version
    | _, _ => True
  finish _ _ _ _ _ := True

section Honest

variable {keypair : Keypair} {issued : Bytes → Prop}

/-- Every grant that the operation was answered is the one held or issued anew. -/
def Host.Answered (keypair : Keypair) (issued : Bytes → Prop) (l : Host) : Prop :=
  ∀ envId held, l.target = some (envId, held) →
    ∀ grant ∈ l.answered, grant = held ∨ IssuedAnew keypair issued held grant

theorem Host.Answered.takes {l l' : Host} {c : Call} {r : c.Reply}
    (h : l.Answered keypair issued) (hs : l.Takes c r l')
    (hK : (honestGrants keypair issued).exec () c () l r () l') : l'.Answered keypair issued := by
  cases hs with
  | opened _ hanswered =>
      intro envId held _ grant hgrant
      rw [show l.answered = [] from hanswered] at hgrant
      cases hgrant
  | answered =>
      intro envId held htarget grant hgrant
      rcases List.mem_cons.1 hgrant with rfl | hgrant
      · exact hK envId held htarget
      · exact h envId held htarget grant hgrant
  | _ => exact h

theorem honest_answered {store : Store} {w : HostWorld}
    (hw : (hostile.restrict (honestGrants keypair issued)).Reaches (hostIdle store) w) :
    (w.threads ()).own.Answered keypair issued := by
  refine System.Reaches.own (I := Host.Answered keypair issued) ?_ ?_ ?_ ?_ (hostile_bounded hw)
  · intro op s l l' _ hs
    obtain rfl : l' = ⟨l.store, l.store, none, [], false⟩ := hs.1.1
    intro envId held htarget
    cases htarget
  · intro c s l r s' l' hl he
    exact hl.takes (he.1.2.2.2.takes he.1.1) he.2
  · intro op a s l l' hl hf
    obtain rfl : l' = l := hf.1.1
    exact hl
  · intro envId held htarget
    cases htarget

/-- A command keeps every stored version, or a grant was issued anew. -/
theorem Host.Takes.keepsVersions {l l' : Host} {c : Call} {r : c.Reply} (hs : l.Takes c r l')
    (h : l.Answered keypair issued)
    (hK : (honestGrants keypair issued).exec () c () l r () l') :
    KeepsVersions l.store l'.store ∨ l'.Reissued keypair issued := by
  cases hs with
  | nothing => exact Or.inl (KeepsVersions.refl _)
  | opened => exact Or.inl (KeepsVersions.refl _)
  | answered => exact Or.inl (KeepsVersions.refl _)
  | granted => exact Or.inl (KeepsVersions.refl _)
  | synced => exact Or.inl (KeepsVersions.refl _)
  | @replaced envId held secret _ htarget hversion =>
      rcases hversion with ⟨grant, hgrant, hne⟩ | hversion
      · rcases h envId held htarget grant hgrant with heq | hissued
        · exact absurd heq hne
        · exact Or.inr ⟨envId, held, htarget, grant, hgrant, hissued⟩
      · refine Or.inl (keepsVersions_replaceSecret ?_)
        intro row hrow
        by_cases henv : row.envId = envId
        · exact hversion row hrow henv
        · exact hK row hrow henv

/-- A step keeps every stored version, or a grant was issued anew. -/
theorem honest_step {store : Store} {w w' : HostWorld}
    (hw : (hostile.restrict (honestGrants keypair issued)).Reaches (hostIdle store) w)
    (hstep : (hostile.restrict (honestGrants keypair issued)).Step w w') :
    KeepsVersions (w.threads ()).own.store (w'.threads ()).own.store ∨
      (w'.threads ()).own.Reissued keypair issued := by
  have hgood : hostileOutline.Good w := (hostile_good store).reaches hostile_valid hw.of_restrict
  cases hstep with
  | start hr hs =>
      obtain rfl := hs.1
      exact Or.inl (by simpa using KeepsVersions.refl _)
  | call hr he =>
      have htakes := (hgood.exec hr he.1).1.takes he.1
      simpa using htakes.keepsVersions (honest_answered hw) he.2
  | finish hr hf =>
      obtain rfl := hf.1
      exact Or.inl (by simpa using KeepsVersions.refl _)

end Honest

/-- A run of pulls and pushes against a server whose grants are the one held or issued anew, and
that sends no row under an id of another environment that has a higher version there, keeps every
stored version, unless an operation of it was answered a grant that was issued anew. -/
theorem sync_keeps_versions {keypair : Keypair} {issued : Bytes → Prop} {store : Store}
    {w w' : HostWorld}
    (hw : (hostile.restrict (honestGrants keypair issued)).Reaches (hostIdle store) w)
    (hw' : (hostile.restrict (honestGrants keypair issued)).Reaches w w') :
    KeepsVersions (w.threads ()).own.store (w'.threads ()).own.store ∨
      ∃ w₁, (hostile.restrict (honestGrants keypair issued)).Reaches w w₁ ∧
        (hostile.restrict (honestGrants keypair issued)).Reaches w₁ w' ∧
        (w₁.threads ()).own.Reissued keypair issued := by
  induction hw' with
  | refl => exact Or.inl (KeepsVersions.refl _)
  | @tail w₁ w₂ hw₁ hstep ih =>
      rcases ih with hkeeps | ⟨w₀, hw₀, hw₁', hreissued⟩
      · rcases honest_step (hw.trans hw₁) hstep with hkeeps' | hreissued
        · exact Or.inl (hkeeps.trans hkeeps')
        · exact Or.inr ⟨w₂, hw₁.tail hstep, .refl, hreissued⟩
      · exact Or.inr ⟨w₀, hw₀, hw₁'.tail hstep, hreissued⟩

/-- A pull of the environment with the secret. -/
def pullProd : SyncOp := .pull ⟨.text "alice"⟩ ⟨.text "project", "prod", some (.text "org")⟩

/-- A check of the answers to a pull whose grant is the one held. -/
def sameGrant (c : Call) (l : Host) : Bool :=
  match c with
  | .http (.getGrant ..) => l.target.all fun opened => opened.2 = .raw .empty
  | .store (.putRemoteSecret envId secret) => (l.store.secrets.lookup secret.id).all fun row =>
      decide (row.envId ≠ envId → row.version ≤ secret.version)
  | _ => true

theorem honest_of_sameGrant {keypair : Keypair} {issued : Bytes → Prop} {entry : Api.SecretEntry}
    {c : Call} {l : Host} (h : sameGrant c l) :
    (honestGrants keypair issued).exec () c () l
      (l.perform (answersSecret entry (some (.valid (.raw .empty)))) c).1 ()
      (l.perform (answersSecret entry (some (.valid (.raw .empty)))) c).2 := by
  cases c with
  | fresh => trivial
  | store c =>
      cases c with
      | putRemoteSecret envId secret =>
          intro row hrow henv
          simp only [sameGrant, hrow, Option.all_some, decide_eq_true_eq] at h
          exact h henv
      | _ => trivial
  | http r =>
      cases r with
      | getGrant userId e =>
          intro envId held htarget
          simp only [sameGrant, htarget, Option.all_some, decide_eq_true_eq] at h
          exact Or.inl h.symm
      | _ => trivial

/-- A server that sends a newer version under the grant held keeps what the store has. -/
theorem sync_keeps_versions_newer :
    KeepsVersions twoEnvironments ((hostAfter (answersSecret (versionOf (.text "token") 3)
      (some (.valid (.raw .empty)))) pullProd twoEnvironments).threads ()).own.store := by
  have hpasses : pullProd.action.run.passes (hostHandle (answersSecret (versionOf (.text "token") 3)
      (some (.valid (.raw .empty))))) (fun c t => sameGrant c t.2)
      ((), ⟨twoEnvironments, twoEnvironments, none, [], false⟩) := by decide +kernel
  rcases @sync_keeps_versions ⟨.raw .empty⟩ (fun _ => False) _ _ _ .refl
    (restrict_hostAfter trivial (fun _ _ => honest_of_sameGrant) hpasses) with
    hkeeps | ⟨w₁, -, -, envId, held, -, grant, -, hissued, -⟩
  · exact hkeeps
  · exact hissued.elim

/-- A server that answers other bytes than the grant held rolls a secret back, although no grant
was issued anew. -/
theorem sync_rolls_back : ¬ ∀ keypair issued store w w', hostile.Reaches (hostIdle store) w →
    hostile.Reaches w w' → KeepsVersions (w.threads ()).own.store (w'.threads ()).own.store ∨
      ∃ w₁, hostile.Reaches w w₁ ∧ hostile.Reaches w₁ w' ∧
        (w₁.threads ()).own.Reissued keypair issued := by
  intro h
  rcases h ⟨.raw .empty⟩ (fun _ => False) twoEnvironments _ _ .refl
    (reaches_hostAfter (answersSecret (versionOf (.text "token") 1)
      (some (.valid (.raw "rotated".toUTF8)))) pullProd twoEnvironments) with
    hkeeps | ⟨w₁, -, -, envId, held, -, grant, -, hissued, -⟩
  · obtain ⟨row', hrow', hle⟩ := hkeeps (.text "token")
      ⟨.text "prod", .raw .empty, .raw .empty, .raw .empty, 2, false⟩ (by decide +kernel)
    have hrolled : row' = ⟨.text "prod", .raw .empty, .raw .empty, .raw .empty, 1, false⟩ := by
      refine Option.some.inj (hrow'.symm.trans ?_)
      decide +kernel
    rw [hrolled] at hle
    exact absurd hle (by decide)
  · exact hissued

end Sotto
