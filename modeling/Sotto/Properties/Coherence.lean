import Sotto.Properties.Healing

/-!
# Adopted rotations and local rows

A pull that adopts a rotation refreshes the rows of the snapshot and no others, so a row
that only the device has stays under the key before. It never has one when it replaces its
grant only with a server row for each of its rows, live or tombstoned; and then a pull
leaves every row under the key of the stored grant.
-/

namespace Sotto

open Core Cli

/-- A row that the server does not have is sealed under `key`. -/
def LocalSealed (S : Setup) (key : Bytes) (s : Shared) (l : Device) : Prop :=
  ∀ id row, l.store.secrets.lookup id = some row → s.db.secrets.lookup id = none →
    SealedUnder S s.created key id row.version row.enc

/-- Every row of a device, live or tombstoned, is among the rows it last read. -/
def AllCovered (l : Device) : Prop :=
  ∀ id row, l.store.secrets.lookup id = some row → l.seen.secrets.lookup id ≠ none

/-- A device replaces its grant only when it has read a row of each of its rows. -/
def allCoveredAdoption : Limit where
  start _ _ _ _ := True
  exec _ c _ l r _ _ :=
    match c, r with
    | .store (.updateEnvVaultKey _ _), .ok _ => AllCovered l
    | _, _ => True
  finish _ _ _ _ _ := True

section Device

variable {S : Setup} {d : Nat} {s s' : Shared} {l l' : Device} {key : Bytes}

theorem LocalSealed.evolves (h : LocalSealed S key s l) (hs : Evolves S s s') :
    LocalSealed S key s' l := by
  intro id row hrow hnone
  refine (h id row hrow ?_).mono hs.created
  cases hr : s.db.secrets.lookup id with
  | none => rfl
  | some r =>
      obtain ⟨r', hr', -⟩ := hs.rows id r hr
      rw [hnone] at hr'
      cases hr'

theorem LocalSealed.of_secrets (h : LocalSealed S key s l)
    (hl : l'.store.secrets = l.store.secrets) : LocalSealed S key s l' := by
  intro id row hrow
  rw [hl] at hrow
  exact h id row hrow

theorem LocalSealed.of_store (h : LocalSealed S key s l) (hl : l'.store = l.store) :
    LocalSealed S key s l' :=
  h.of_secrets (by rw [hl])

theorem LocalSealed.merge (h : LocalSealed S key s' l) {force : Bool}
    {rows : List (Ident × Server.Secret)} (hs : Evolves S s s')
    (hrows : rows ⊆ s.db.secretsOf S.envId) : LocalSealed S key s' (l.merge S force rows) := by
  intro id row hrow hnone
  rcases Device.lookup_merge_cases hrow with hkeep | ⟨r, hr, -⟩
  · exact h id row hkeep hnone
  · obtain ⟨r', hr', -⟩ := hs.rows id r (mem_secretsOf.1 (hrows hr)).1
    rw [hnone] at hr'
    cases hr'

/-- A device whose rows the server all has. -/
theorem LocalSealed.of_allCovered (h : AllCovered l) (hseen : l.seen = s.db)
    (hs : Evolves S s s') : LocalSealed S key s' l := by
  intro id row hrow hnone
  have hsome := h id row hrow
  rw [hseen] at hsome
  obtain ⟨r, hr⟩ := Option.ne_none_iff_exists'.1 hsome
  obtain ⟨r', hr', -⟩ := hs.rows id r hr
  rw [hnone] at hr'
  cases hr'

end Device

/-! ### The outline -/

/-- What the outline adds: a device's own rows are sealed under the key it holds. -/
def coherenceExtension (S : Setup) :
    Outline.Extension Nat Cmd.Reply Shared Device Op (Except Cli.Error Unit) where
  limit := allCoveredAdoption
  inv _ := True
  guar _ _ _ _ _ := True
  idle d s l := ∃ grant key, Holder S d grant key s l ∧ LocalSealed S key s l
  post d _ _ s l := ∃ grant key, Holder S d grant key s l ∧ LocalSealed S key s l

/-- The outline over the base outline. -/
def coherence (S : Setup) : Outline (S.grounded.restrict allCoveredAdoption) :=
  (base S).extend (coherenceExtension S)

/-- The setting of a device. -/
abbrev coherenceSetting (S : Setup) (d : Nat) : Setting Cmd.Reply Shared Device :=
  (coherence S).setting d

theorem coherence_grounded {S : Setup} (d : Nat) : Grounded S d (coherenceSetting S d) :=
  (base_grounded d).extend (fun h => h) fun _ _ _ => trivial

/-- A device in the middle of an operation. -/
abbrev SealedLocally (S : Setup) (_ : Nat) (_ key : Bytes) (s : Shared) (l : Device) : Prop :=
  LocalSealed S key s l

section Rounds

variable {S : Setup} {d : Nat} {s s' : Shared} {l l' : Device} {grant key : Bytes}
  {s₁ s₂ s₃ : Shared} {revision : Int} {l₁ l₂ : Device} {grant' : Bytes}

theorem LocalSealed.fetched (h : LocalSealed S key s l)
    (hfetch : Fetched S d (coherenceSetting S d) s l s₁ s₂ revision l₁) (hs : Later S d s₂ s') :
    LocalSealed S key s' l₁ :=
  (h.evolves ((hfetch.later (coherence_grounded d)).trans hs).toEvolves).of_store
    hfetch.same.store

theorem LocalSealed.forward (h : LocalSealed S key s l)
    (hfetch : Fetched S d (coherenceSetting S d) s l s₁ s₂ revision l₁) (hs : Later S d s₂ s') :
    LocalSealed S key s' (l₁.forward S (s₂.db.secretsOf S.envId) revision) :=
  ((h.fetched hfetch hs).merge hs.toEvolves (List.Subset.refl _)).of_secrets rfl

/-- After a grant was adopted, the server has every row of the device. -/
theorem Adopted.localSealed (hseen : l₁.seen = s₂.db)
    (h : Adopted S d (coherenceSetting S d) grant s₂ l₁ s₃ grant' s' l₂) :
    LocalSealed S key s' l₂ := by
  have hs : Later S d s₂ s' := (coherence_grounded d).later h.rely
  obtain ⟨_, l₄, hl₄, -, -, hexec, rfl⟩ := h.exec
  have hcovered : AllCovered l₄ := hexec.2
  have h₄ : LocalSealed S key s' l₄ :=
    .of_allCovered hcovered (hl₄.seen.trans hseen) hs.toEvolves
  exact h₄.of_secrets rfl

theorem LocalSealed.pulled {r : Except Cli.Error Int} (hg : Holder S d grant key s l)
    (h : LocalSealed S key s l) (hi : s'.Sound S)
    (hpulled : Pulled S d (coherenceSetting S d) grant s l r s' l') :
    ∃ grant key, Holder S d grant key s' l' ∧ LocalSealed S key s' l' := by
  have Gr : Grounded S d (coherenceSetting S d) := coherence_grounded d
  cases hpulled with
  | stopped hlooked =>
      have hs : Later S d s s' := Gr.later hlooked.rely
      have hsame := hlooked.same
      exact ⟨grant, key, (hg.later hs hi).same hsame, (h.evolves hs.toEvolves).of_store hsame.store⟩
  | current hs₁ _ _ hs' hsame =>
      have hs : Later S d s s' := (Gr.later hs₁).trans (Gr.later hs')
      exact ⟨grant, key, (hg.later hs hi).same hsame.toSame,
        (h.evolves hs.toEvolves).of_store hsame.store⟩
  | kept _ hfetch hkept happly =>
      have hs : Later S d _ s' := Gr.later hkept.rely
      refine ⟨grant, key, (hg.fetched Gr hfetch hs hi).applied Gr hfetch hs.toEvolves happly, ?_⟩
      cases happly with
      | part e n => exact (h.fetched hfetch hs).merge hs.toEvolves (List.take_subset _ _)
      | whole => exact h.forward hfetch hs
  | @adopted _ s₂ _ _ l₁ _ _ _ _ _ _ hfetch hadopt happly =>
      have hs : Later S d s₂ s' := Gr.later hadopt.rely
      have hl₁ : l₁.Sound S d s' := (hg.fetched Gr hfetch hs hi).sound
      obtain ⟨key', -, hg'⟩ := Holder.adopted Gr hl₁ hi hadopt
      refine ⟨_, key', hg'.applied Gr hfetch hs.toEvolves happly, ?_⟩
      have h₂ : LocalSealed S key' s' _ := hadopt.localSealed hfetch.seen
      cases happly with
      | part e n => exact h₂.merge hs.toEvolves (List.take_subset _ _)
      | whole => exact (h₂.merge hs.toEvolves (List.Subset.refl _)).of_secrets rfl

/-- A round of a push that ends with a result. -/
theorem LocalSealed.pushRound {r : Except Cli.Error Int} (hg : Holder S d grant key s l)
    (h : LocalSealed S key s l) (hi : s'.Sound S)
    (hround : PushRound S d (coherenceSetting S d) grant s l (some r) s' l') :
    ∃ grant key, Holder S d grant key s' l' ∧ LocalSealed S key s' l' := by
  have Gr : Grounded S d (coherenceSetting S d) := coherence_grounded d
  have hforward : ∀ {s₁ s₂ : Shared} {revision : Int} {l₁ m : Device},
      Fetched S d (coherenceSetting S d) s l s₁ s₂ revision l₁ → Later S d s₂ s' →
      (l₁.forward S (s₂.db.secretsOf S.envId) revision).Still m →
      ∃ grant key, Holder S d grant key s' m ∧ LocalSealed S key s' m := by
    intro s₁ s₂ revision l₁ m hfetch hs hm
    exact ⟨grant, key, (hg.forward Gr hfetch hs hi).same hm.toSame,
      (h.forward hfetch hs).of_store hm.store⟩
  cases hround with
  | stopped _ hlooked =>
      have hs : Later S d s s' := Gr.later hlooked.rely
      have hsame := hlooked.same
      exact ⟨grant, key, (hg.later hs hi).same hsame, (h.evolves hs.toEvolves).of_store hsame.store⟩
  | part _ hfetch hs =>
      have hs : Later S d _ s' := Gr.later hs
      exact ⟨grant, key, (hg.fetched Gr hfetch hs hi).merge Gr hfetch hs.toEvolves
        (List.take_subset _ _), (h.fetched hfetch hs).merge hs.toEvolves (List.take_subset _ _)⟩
  | forwarded _ hfetch hs hl' => exact hforward hfetch (Gr.later hs) hl'
  | refused hfetch hchanged hl' _ => exact hforward hfetch (Gr.later hchanged.rely) hl'
  | unchanged hfetch hkept hl' _ => exact hforward hfetch (Gr.later hkept.rely) hl'
  | @adopted s₁ s₂ s₃ revision l₁ grant' l₂ _ rows _ hfetch _ hadopt hrows =>
      have hs : Later S d s₂ s' := Gr.later hadopt.rely
      obtain ⟨key', -, hg'⟩ := Holder.adopted Gr (hg.forward Gr hfetch hs hi).sound hi hadopt
      have hsub : rows ⊆ s₂.db.secretsOf S.envId := by
        rcases hrows with ⟨rfl, -⟩ | ⟨_, n, -, rfl, -⟩
        · exact List.Subset.refl _
        · exact List.take_subset _ _
      have hseen : (l₁.forward S (s₂.db.secretsOf S.envId) revision).seen = s₂.db := hfetch.seen
      have h₂ : LocalSealed S key' s' l₂ := hadopt.localSealed hseen
      exact ⟨grant', key', hg'.merge Gr hfetch hs.toEvolves hsub, h₂.merge hs.toEvolves hsub⟩
  | @wrote s₁ s₂ s₄ revision l₁ access v l₄ l₅ _ _ _ hwrote hs hr =>
      have hs : Later S d _ s' := Gr.later hs
      obtain ⟨-, hg₅⟩ := hg.wrote Gr hwrote
      obtain ⟨hevolves, -, -⟩ := hwrote.guarantees Gr hg.sound
      have h₄ : LocalSealed S key s₄ l₄ :=
        (h.forward hwrote.fetched (Gr.later hwrote.before)).of_store hwrote.forward.store
      have h₅ : LocalSealed S key s' l₅ :=
        (h₄.evolves (hevolves.trans hs.toEvolves)).of_store (by rw [hwrote.seen])
      rcases hr with ⟨-, rfl⟩ | ⟨_, -, -, rfl⟩
      · exact ⟨grant, key, (hg₅.later hs hi).synced, h₅.of_secrets rfl⟩
      · exact ⟨grant, key, hg₅.later hs hi, h₅⟩

end Rounds

theorem coherence_layer {S : Setup} :
    Layer S (base S) (coherenceExtension S) (SealedLocally S) where
  guar_refl := fun _ _ _ _ => trivial
  start := by
    intro d op s l grant key _ _ _ hidle _ hg
    obtain ⟨grant', key', hg', h⟩ := hidle
    obtain ⟨rfl, rfl⟩ := hg.grant_unique hg'.begin
    exact h.of_store rfl
  later := fun h _ hs _ hlooked => (h.evolves hs.toEvolves).of_store hlooked.same.store
  set := by
    intro d grant key s l name value store h hg _ hby _
    refine ⟨trivial, trivial, ?_⟩
    intro id row hrow hnone
    rcases hby.lookup hrow with hold | ⟨-, hunder, -⟩
    · exact (h id row hold hnone).mono (List.suffix_append _ _)
    · exact hunder
  delete := by
    intro d grant key s l name id row h hg _ hrow _ hsealed _ id' row' hrow' hnone
    rcases lookup_withTombstone hrow' with hold | ⟨row₀, rfl, hrow₀, rfl⟩
    · exact h id' row' hold hnone
    · rw [hrow] at hrow₀
      cases hrow₀
      exact hsealed
  ended := fun h hg _ _ => ⟨_, _, hg, h⟩
  pulled := fun _ h hg hi' hpulled => LocalSealed.pulled hg h hi'.1 hpulled
  retried := by
    intro d grant key s l s' l' h hg hi' hround
    cases hround with
    | forwarded _ hfetch hs hl' =>
        exact (h.forward hfetch ((coherence_grounded d).later hs)).of_store hl'.store
  wrote := fun _ _ _ => ⟨trivial, trivial⟩
  pushed := fun h hg hi' hround => LocalSealed.pushRound hg h hi'.1 hround
  rotated := by
    intro d grant key s l s₁ s₂ s₇ revision keySeed access orgId rotation v l₇ _ _ h hg hrot
    have Gr := coherence_grounded (S := S) d
    obtain ⟨hevolves, -, -, -⟩ := hrot.guarantees Gr hg.sound
    exact ⟨trivial, trivial,
      (h.evolves ((hrot.later Gr).toEvolves.trans hevolves)).of_store hrot.same.store⟩
  finish := by
    intro d op r s l _ _ _ hafter _
    obtain ⟨grant, key, hg, h⟩ := hafter
    exact ⟨grant, key, hg.finish, h.of_store rfl⟩
  idle_stable := by
    intro d s s' l _ hi' hs _ hidle
    obtain ⟨grant, key, hg, h⟩ := hidle
    exact ⟨grant, key, hg.later hs hi'.1, h.evolves hs.toEvolves⟩

theorem coherence_valid {S : Setup} : (coherence S).Valid :=
  coherence_layer.valid (faithful_system S) base_grounded (fun h => h) base_valid (le_anyRun _)

theorem coherence_init {S : Setup} : (coherence S).Good S.init where
  inv := ⟨sound_init S, trivial⟩
  thread d := by
    obtain ⟨grant, key, hg⟩ := Holder.exists_of_sound (soundDevice_init S d)
    refine ⟨hg.sound, grant, key, hg, ?_⟩
    intro id row hrow
    have hrow : (S.store d).secrets.lookup id = some row := hrow
    rw [(S.noSecrets d).1] at hrow
    cases hrow

/-! ### Pulls -/

/-- Every row of a device, live or tombstoned, opens under the vault key sealed in its
grant. -/
def Coherent (S : Setup) (d : Nat) (l : Device) : Prop :=
  ∃ grant key, l.store.environments.lookup S.envId = some ⟨S.projectId, S.envName, grant⟩ ∧
    Core.Vault.openVaultKey (S.keypair (S.user d)) grant = .ok key ∧
    ∀ id row, l.store.secrets.lookup id = some row → row.envId = S.envId ∧ ∃ name value,
      Core.Vault.decryptSecret key S.envId id row.version row.encName row.encValue
        row.encDataKey = .ok (Vault.nameBytes name, value)

/-- The condition under which adopted rotations leave no row behind. -/
def coherentAdoption (S : Setup) : Limit where
  start _ _ _ _ := True
  exec d c s l r s' l' := (healingAdoption S).exec d c s l r s' l' ∧
    allCoveredAdoption.exec d c s l r s' l'
  finish d op r s l := (healingAdoption S).finish d op r s l

theorem coherentAdoption_le_healing {S : Setup} : (coherentAdoption S).Le (healingAdoption S) :=
  ⟨fun _ => trivial, fun h => h.1, fun h => h⟩

theorem coherentAdoption_le_allCovered {S : Setup} :
    (coherentAdoption S).Le allCoveredAdoption :=
  ⟨fun _ => trivial, fun h => h.2, fun _ => trivial⟩

/-- The server's grant of a device's user is the stored one, or the device adopts it: it is not
at the server's revision, and the server has all its rows. -/
def KeepsOrCovers (S : Setup) (d : Nat) (s : Shared) (l : Device) : Prop :=
  ∃ grant, grantAt S d s.db = some grant ∧
    (l.store.environments.lookup S.envId = some ⟨S.projectId, S.envName, grant⟩ ∨
      (¬ RevisionAt S s (l.store.syncedRevision S.envId) ∧
        ∀ id row, l.store.secrets.lookup id = some row → s.db.secrets.lookup id ≠ none))

section Rows

variable {S : Setup} {d : Nat} {s : Shared} {l l' : Device} {grant key : Bytes}

/-- A row under the key of a device's grant opens. -/
theorem Holder.opens (hg : Holder S d grant key s l) {id : Ident} {row : SecretRow}
    (hrow : l.store.secrets.lookup id = some row)
    (h : SealedUnder S s.created key id row.version row.enc) :
    row.envId = S.envId ∧ ∃ name value,
      Core.Vault.decryptSecret key S.envId id row.version row.encName row.encValue
        row.encDataKey = .ok (Vault.nameBytes name, value) := by
  obtain ⟨name, value, -, hopens⟩ := h
  exact ⟨(hg.sound.rows id row hrow).1, name, value, hopens.decryptSecret_eq⟩

theorem Coherent.of_upToDate (hg : Holder S d grant key s l) (hi : s.Sound S)
    (hdate : UpToDate S key s l) (hlocal : LocalSealed S key s l) : Coherent S d l := by
  refine ⟨grant, key, hg.opened.environment, hg.openVaultKey hi, ?_⟩
  intro id row hrow
  cases hr : s.db.secrets.lookup id with
  | none => exact hg.opens hrow (hlocal id row hrow hr)
  | some r =>
      obtain ⟨row', hrow', hunder⟩ := hdate id r hr
      rw [hrow] at hrow'
      cases hrow'
      exact hg.opens hrow hunder

end Rows

/-- In every run in which adopted rotations leave no row behind, a pull without concurrent
changes that returns Ok leaves every row of the device under the key of its grant, if the
device keeps the grant or the server has all its rows. -/
theorem pull_coherent (S : Setup) {w : Setup.World}
    (hw : (S.system.restrict (coherentAdoption S)).Reaches S.init w) {d : Nat}
    (hidle : (w.threads d).running = none)
    (hgrant : S.orgId ≠ none → KeepsOrCovers S d w.shared (w.threads d).own) {s' : Shared}
    {l' : Device} (hpull : S.Alone d .pull w.shared (w.threads d).own (.ok ()) s' l') :
    Coherent S d l' := by
  obtain ⟨hi, hkeyed, grant, key, hg, hheal⟩ :=
    exists_healing (hw.restrict_mono coherentAdoption_le_healing) hidle
  have hgood : (coherence S).Good w := coherence_init.reaches coherence_valid
    (grounded_reaches (hw.restrict_mono coherentAdoption_le_allCovered))
  obtain ⟨grant₀, key₀, hg₀, hlocal⟩ := (hgood.idle hidle).2
  obtain ⟨rfl, rfl⟩ := hg.grant_unique hg₀
  obtain ⟨rfl, hrefreshed⟩ := hpull.pull hi.linked hg.opened
  have hcurrent : GrantCurrent S d w.shared ((w.threads d).own.launched .pull) := by
    intro horg
    obtain ⟨grant', hgrant', hcases⟩ := hgrant horg
    refine ⟨grant', hgrant', ?_⟩
    intro hrev
    rcases hcases with hstored | ⟨hne, -⟩
    · exact hstored
    · exact absurd hrev hne
  have hheal' : Healing S key₀ w.shared ((w.threads d).own.launched .pull) := hheal.of_store rfl
  obtain ⟨grant', key', hg', hdate⟩ := hrefreshed.upToDate hg.begin hheal' hi hkeyed hcurrent
  refine Coherent.of_upToDate hg' hi hdate ?_
  have hsub := List.Subset.refl (w.shared.db.secretsOf S.envId)
  have hkept : ∀ {m : Device}, Opened S m.store grant₀ → Holder S d grant' key' w.shared m →
      key' = key₀ := by
    intro m ho hm
    have henv := ho.environment
    rw [hm.opened.environment] at henv
    obtain rfl : grant' = grant₀ := by simpa using henv
    exact hm.holds.key_unique hg.holds
  cases hrefreshed with
  | current _ hl =>
      obtain rfl := hkept (hg.opened.same (l := (w.threads d).own.launched .pull) hl.toSame) hg'
      exact hlocal.of_store hl.store
  | @kept l₁ revision _ _ hl₁ _ _ =>
      have ho₁ : Opened S l₁.store grant₀ := hg.begin.opened.same hl₁
      obtain rfl := hkept ho₁.mergeAll.withRevision hg'
      have h₁ : LocalSealed S key' w.shared l₁ := hlocal.of_store hl₁.store
      exact (h₁.merge (Evolves.refl _) hsub).of_secrets rfl
  | @adopted l₁ revision grant'' _ _ hl₁ _ horg hgrant'' hne =>
      obtain ⟨grant₃, hgrant₃, hcases⟩ := hgrant horg
      rw [hgrant''] at hgrant₃
      cases hgrant₃
      rcases hcases with hstored | ⟨-, hall⟩
      · rw [hg.opened.environment] at hstored
        exact absurd (by simpa using hstored.symm) hne
      · have h₁ : LocalSealed S key' w.shared (l₁.adopt S grant'') := by
          intro id row hrow hnone
          have hrow : l₁.store.secrets.lookup id = some row := hrow
          rw [hl₁.store] at hrow
          exact absurd hnone (hall id row hrow)
        exact (h₁.merge (Evolves.refl _) hsub).of_secrets rfl

/-! ### Runs of the team -/

/-- Whether every row of a device opens under the vault key sealed in its grant. -/
def coherent (S : Setup) (d : Nat) (l : Device) : Bool :=
  (l.store.environments.lookup S.envId).any fun env =>
    match Core.Vault.openVaultKey (S.keypair (S.user d)) env.encVaultKey with
    | .error _ => false
    | .ok key => l.store.secrets.rows.all fun e =>
        (Core.Vault.decryptSecret key S.envId e.1 e.2.version e.2.encName e.2.encValue
          e.2.encDataKey).toBool

theorem Coherent.coherent {S : Setup} {d : Nat} {l : Device} (h : Coherent S d l) :
    Sotto.coherent S d l = true := by
  obtain ⟨grant, key, henv, hopen, hrows⟩ := h
  rw [Sotto.coherent, henv, Option.any_some]
  simp only [hopen, List.all_eq_true]
  rintro ⟨id, row⟩ hrow
  obtain ⟨-, name, value, hdecrypt⟩ := hrows id row (Table.mem_rows.1 hrow)
  simp [hdecrypt, Except.toBool]

/-- A device creates a secret that it does not push, and another rotates the key. -/
def unpushedRun : List Move := Team.whole 0 (.set "X" Team.value) ++ Team.whole 1 .rotate

set_option maxRecDepth 10000 in
/-- The pull returns Ok and leaves a row under the key before. -/
theorem pull_incoherent : ∃ w, Team.setup.system.Reaches Team.setup.init w ∧
    (w.threads 0).running = none ∧
    ∃ s' l', Team.setup.Alone 0 .pull w.shared (w.threads 0).own (.ok ()) s' l' ∧
      ¬ Coherent Team.setup 0 l' := by
  have hidle : ((Team.setup.run unpushedRun Team.setup.init).threads 0).running.isNone = true := by
    decide +kernel
  have hpull : (Team.pulledAlone 0 (Team.setup.run unpushedRun Team.setup.init)).1 = .ok () := by
    decide +kernel
  refine ⟨_, Setup.reaches_run, Option.isNone_iff_eq_none.1 hidle, _, _,
    Team.alone_pulledAlone hpull, ?_⟩
  intro h
  have hnot : coherent Team.setup 0
      (Team.pulledAlone 0 (Team.setup.run unpushedRun Team.setup.init)).2.2 = false := by
    decide +kernel
  rw [h.coherent] at hnot
  cases hnot

theorem noAdoption_le_coherent {S : Setup} : noAdoption.limit.Le (coherentAdoption S) where
  start := fun _ => trivial
  exec := by
    intro d c s l r s' l' h
    refine ⟨noAdoption_le_healing.exec h, ?_⟩
    simp only [allCoveredAdoption]
    split
    · exact absurd h.1 (by simp [noAdoption])
    · trivial
  finish := noAdoption_le_healing.finish

/-- A device has a secret of another, who then rotates the key. -/
def rotatedRun : List Move :=
  sharedRun ++ Team.whole 0 .pull ++ Team.whole 1 (.rotateEnv none)

set_option maxRecDepth 10000 in
/-- The pull adopts the rotation. -/
theorem pull_coherent_rotated : ∃ l', Coherent Team.setup 0 l' ∧ l'.store.secrets.rows ≠ [] ∧
    l'.adopted = true := by
  have hreaches : (Team.setup.system.restrict (coherentAdoption Team.setup)).Reaches
      Team.setup.init (Team.setup.run rotatedRun Team.setup.init) :=
    (Setup.run_reaches (C := noAdoption) (by decide +kernel)).restrict_mono noAdoption_le_coherent
  have hidle : ((Team.setup.run rotatedRun Team.setup.init).threads 0).running.isNone = true := by
    decide +kernel
  have hpull : (Team.pulledAlone 0 (Team.setup.run rotatedRun Team.setup.init)).1 = .ok () := by
    decide +kernel
  refine ⟨_, pull_coherent Team.setup hreaches (Option.isNone_iff_eq_none.1 hidle) ?_
    (Team.alone_pulledAlone hpull), by decide +kernel, by decide +kernel⟩
  have hgrant : (grantAt Team.setup 0
      (Team.setup.run rotatedRun Team.setup.init).shared.db).isSome = true := by
    decide +kernel
  have hrev : ((Team.setup.run rotatedRun Team.setup.init).shared.db.environments.lookup
      Team.setup.envId).map (·.revision) ≠
      some (((Team.setup.run rotatedRun Team.setup.init).threads 0).own.store.syncedRevision
        Team.setup.envId) := by
    decide +kernel
  have hall : ((Team.setup.run rotatedRun Team.setup.init).threads 0).own.store.secrets.rows.all
      (fun e => ((Team.setup.run rotatedRun Team.setup.init).shared.db.secrets.lookup
        e.1).isSome) = true := by
    decide +kernel
  intro _
  obtain ⟨grant, hgrant⟩ := Option.isSome_iff_exists.1 hgrant
  refine ⟨grant, hgrant, Or.inr ⟨?_, ?_⟩⟩
  · rintro ⟨env, henv, hrev'⟩
    rw [henv] at hrev
    exact hrev (congrArg some hrev')
  · intro id row hrow hnone
    have := List.all_eq_true.1 hall _ (Table.mem_rows.2 hrow)
    rw [hnone] at this
    cases this

end Sotto
