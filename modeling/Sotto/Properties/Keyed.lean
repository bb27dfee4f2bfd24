import Sotto.Base.Holder
import Sotto.Team

/-!
# What an accepted batch is sealed under

The batch of a push is checked against the server's grant, but the rows it uploads
keep the vault key they were written under. It is sealed under the current key as
long as no device adopts another grant while it has a live row that is ahead of the
server: such a row stays under the key before, and the next push uploads it.
-/

namespace Sotto

open Core Cli

/-- The rows of the server are sealed under the current vault key. Without an
organisation there is only one. -/
structure Shared.Keyed (S : Setup) (s : Shared) : Prop where
  rows : ∀ id r, s.db.secrets.lookup id = some r →
    ∃ key, s.keys.head? = some key ∧ SealedUnder S s.created key id r.version r.enc
  personal : S.orgId = none → ∃ key, s.keys = [key]

/-- A live local row that the server does not have yet is sealed under `key`. -/
def Device.Keyed (S : Setup) (key : Bytes) (s : Shared) (l : Device) : Prop :=
  ∀ id row, l.store.secrets.lookup id = some row → row.deleted = false →
    Behind s.db id row ∨ SealedUnder S s.created key id row.version row.enc

/-- Every secret that a batch sets is stored as the batch has it, and opens under the
current vault key, which every grant of the environment opens to. -/
def Readable (S : Setup) (batch : Api.BatchRequest) (s : Shared) : Prop :=
  ∃ key, s.keys.head? = some key ∧
    (∀ u grant, s.db.grants.lookup (S.envId, u) = some grant →
      Core.Vault.openVaultKey (S.keypair u) grant = .ok key) ∧
    ∀ c ∈ batch.changes, c.op = .set → ∃ r name value,
      s.db.secrets.lookup c.id = some r ∧ r.version = c.version ∧
      c.encDataKey = some (.valid r.encDataKey) ∧
      Core.Vault.decryptSecret key S.envId c.id c.version r.encName r.encValue r.encDataKey =
        .ok (name, value)

/-- Every live row of a device is among the rows it last read. -/
def Covered (l : Device) : Prop :=
  ∀ id row, l.store.secrets.lookup id = some row → row.deleted = false →
    l.seen.secrets.lookup id ≠ none

/-- No live row of a device is ahead of the rows it last read. -/
def NoneAhead (l : Device) : Prop :=
  ∀ id row, l.store.secrets.lookup id = some row → row.deleted = false → Behind l.seen id row

/-- A device replaces its grant only when it has read a row of each of its live secrets,
and when the operation fails after that, no live row is left ahead of what it read. -/
def coveredAdoption : Limit where
  start _ _ _ _ := True
  exec _ c _ l r _ _ :=
    match c, r with
    | .store (.updateEnvVaultKey _ _), .ok _ => Covered l
    | _, _ => True
  finish _ _ r _ l := l.adopted = true → r.toBool = false → NoneAhead l

section Device

variable {S : Setup} {d : Nat} {s s' : Shared} {l l' : Device} {key : Bytes}

theorem Device.Keyed.evolves (h : l.Keyed S key s) (hs : Evolves S s s') : l.Keyed S key s' := by
  intro id row hrow hlive
  rcases h id row hrow hlive with hbehind | hunder
  · exact Or.inl (hbehind.evolves hs)
  · exact Or.inr (hunder.mono hs.created)

theorem Device.Keyed.of_store (h : l.Keyed S key s) (hl : l'.store = l.store) :
    l'.Keyed S key s := by
  intro id row hrow
  rw [hl] at hrow
  exact h id row hrow

theorem Device.Keyed.merge (h : l.Keyed S key s') {force : Bool}
    {rows : List (Ident × Server.Secret)} (hs : Evolves S s s')
    (hrows : rows ⊆ s.db.secretsOf S.envId) : (l.merge S force rows).Keyed S key s' := by
  intro id row hrow hlive
  rcases Device.lookup_merge_cases hrow with hkeep | ⟨r, hr, rfl⟩
  · exact h id row hkeep hlive
  · have hbehind : Behind s.db id (localRow S.envId r) :=
      ⟨r, (mem_secretsOf.1 (hrows hr)).1, Int.le_refl _⟩
    exact Or.inl (hbehind.evolves hs)

theorem Device.Keyed.set (h : l.Keyed S key s) {name : String} {value : Bytes} {store : Store}
    (hset : SetBy S d s l key name value store) :
    ({ l.edited store with draws := l.draws + 2 } : Device).Keyed S key
      (afterSet name l.store store s) := by
  intro id row hrow hlive
  rcases hset.lookup hrow with hold | ⟨-, hunder, -⟩
  · exact h.evolves evolves_afterSet id row hold hlive
  · exact Or.inr hunder

theorem Device.Keyed.delete (h : l.Keyed S key s) {id : Ident} :
    (l.edited (l.store.withTombstone id)).Keyed S key s := by
  intro id' row hrow hlive
  rcases lookup_withTombstone hrow with hold | ⟨_, -, -, rfl⟩
  · exact h id' row hold hlive
  · cases hlive

/-- A device none of whose live rows is ahead of the server. -/
theorem Device.Keyed.of_noneAhead (h : NoneAhead l)
    (hs : ∀ id r, l.seen.secrets.lookup id = some r → ∃ r', s.db.secrets.lookup id = some r' ∧
      r.version ≤ r'.version) : l.Keyed S key s := by
  intro id row hrow hlive
  obtain ⟨r, hr, hv⟩ := h id row hrow hlive
  obtain ⟨r', hr', hv'⟩ := hs id r hr
  exact Or.inl ⟨r', hr', Int.le_trans hv hv'⟩

end Device

/-- After a snapshot was applied by force, a device that was covered by it has no live row
ahead of the server. -/
theorem Device.Keyed.of_covered {S : Setup} {s s' : Shared} {l : Device} {key : Bytes}
    (h : Covered l) (hseen : l.seen = s.db) (hi : s.Sound S) (hs : Evolves S s s') :
    (l.merge S true (s.db.secretsOf S.envId)).Keyed S key s' := by
  intro id row hrow hlive
  cases hr : s.db.secrets.lookup id with
  | none =>
      rw [Device.merge, Store.lookup_mergeAll_of_notMem (notMem_secretsOf hr)] at hrow
      have := h id row hrow hlive
      rw [hseen] at this
      exact absurd hr this
  | some r =>
      have hmem : (id, r) ∈ s.db.secretsOf S.envId := mem_secretsOf.2 ⟨hr, (hi.rows id r hr).1⟩
      rw [Device.merge, Store.lookup_mergeAll (nodup_secretsOf _ _) hmem] at hrow
      obtain rfl : localRow S.envId r = row := by simpa [Store.takes] using hrow
      have hbehind : Behind s.db id (localRow S.envId r) := ⟨r, hr, Int.le_refl _⟩
      exact Or.inl (hbehind.evolves hs)

/-! ### The outline -/

/-- A device after an operation: unless the operation failed after it replaced the grant,
what is ahead of the server is sealed under the device's key; and then what it last read
is behind the server. -/
structure KeyedAfter (S : Setup) (d : Nat) (ok : Bool) (s : Shared) (l : Device) : Prop where
  failed : l.adopted = true → ok = false → ∀ id r, l.seen.secrets.lookup id = some r →
    ∃ r', s.db.secrets.lookup id = some r' ∧ r.version ≤ r'.version
  keyed : (l.adopted = true → ok = true) → ∃ grant key, Holder S d grant key s l ∧ l.Keyed S key s

/-- What the outline adds: the server's rows are keyed, what a device has ahead of them is
sealed under its key, and a batch that changes the database is readable after it. -/
def keyedExtension (S : Setup) :
    Outline.Extension Nat Cmd.Reply Shared Device Op (Except Cli.Error Unit) where
  limit := coveredAdoption
  inv s := s.Keyed S
  guar _ c s _ s' :=
    match c with
    | .server (.writeSecrets _ envId batch) =>
        envId = S.envId → s'.db ≠ s.db → Readable S batch s'
    | _ => True
  idle d s l := ∃ grant key, Holder S d grant key s l ∧ l.Keyed S key s
  post d _ r s l := KeyedAfter S d r.toBool s l

/-- The outline over the base outline. -/
def keyed (S : Setup) : Outline (S.grounded.restrict coveredAdoption) :=
  (base S).extend (keyedExtension S)

/-- The setting of a device. -/
abbrev keyedSetting (S : Setup) (d : Nat) : Setting Cmd.Reply Shared Device :=
  (keyed S).setting d

theorem keyed_grounded {S : Setup} (d : Nat) : Grounded S d (keyedSetting S d) := by
  refine (base_grounded d).extend (fun h => h) ?_
  intro c s l
  simp only [keyedExtension]
  split
  · exact fun _ hne => absurd rfl hne
  · trivial

section Rounds

variable {S : Setup} {d : Nat} {s s' : Shared} {l l' : Device} {grant key : Bytes}

theorem KeyedAfter.of_kept {ok : Bool} (hg : Holder S d grant key s l) (hk : l.Keyed S key s)
    (ha : l.adopted = false) : KeyedAfter S d ok s l := by
  refine ⟨?_, fun _ => ⟨grant, key, hg, hk⟩⟩
  intro ha'
  rw [ha] at ha'
  cases ha'

/-- A device adopts a grant only when what it has read covers its live rows. -/
theorem Adopted.covered {s₃ : Shared} {grant' : Bytes}
    (h : Adopted S d (keyedSetting S d) grant s l s₃ grant' s' l') :
    Covered l' ∧ l'.adopted = true ∧ l'.seen = l.seen := by
  obtain ⟨_, l₄, hl₄, -, -, hexec, rfl⟩ := h.exec
  have hcovered : Covered l₄ := hexec.2
  exact ⟨hcovered, rfl, hl₄.seen⟩

theorem KeyedAfter.adopted {s₁ s₂ s₃ : Shared} {revision : Int} {l₀ l₁ l₂ : Device}
    {grant' : Bytes} {ok : Bool} {rows : List (Ident × Server.Secret)}
    (hl : l₁.Sound S d s') (hi : s'.Sound S)
    (hfetch : Fetched S d (keyedSetting S d) s l s₁ s₂ revision l₀) (hseen : l₁.seen = l₀.seen)
    (hadopt : Adopted S d (keyedSetting S d) grant s₂ l₁ s₃ grant' s' l₂)
    (hrows : (ok = true ∧ rows = s₂.db.secretsOf S.envId) ∨
      (ok = false ∧ rows ⊆ s₂.db.secretsOf S.envId)) :
    KeyedAfter S d ok s' (l₂.merge S true rows) := by
  have Gr : Grounded S d (keyedSetting S d) := keyed_grounded d
  have hs : Evolves S s₂ s' := (Gr.later hadopt.rely).toEvolves
  obtain ⟨hcovered, hadopted, hseen₂⟩ := hadopt.covered
  have hseen' : l₂.seen = s₂.db := hseen₂.trans (hseen.trans hfetch.seen)
  constructor
  · intro _ _ id r hr
    have hr : l₂.seen.secrets.lookup id = some r := hr
    rw [hseen'] at hr
    obtain ⟨r', hr', hlater⟩ := hs.rows id r hr
    exact ⟨r', hr', hlater.version_le⟩
  · intro hok
    rcases hrows with ⟨-, rfl⟩ | ⟨hfalse, -⟩
    · obtain ⟨key', -, hg⟩ := Holder.adopted Gr hl hi hadopt
      refine ⟨grant', key', hg.merge Gr hfetch hs (List.Subset.refl _), ?_⟩
      exact Device.Keyed.of_covered hcovered hseen' (Gr.sound hfetch.inv₂) hs
    · rw [hok hadopted] at hfalse
      cases hfalse

/-- A pull leaves what is ahead of the server sealed under the key it holds. -/
theorem KeyedAfter.pulled {r : Except Cli.Error Int} (hg : Holder S d grant key s l)
    (hk : l.Keyed S key s) (ha : l.adopted = false) (hi : s'.Sound S)
    (h : Pulled S d (keyedSetting S d) grant s l r s' l') : KeyedAfter S d r.toBool s' l' := by
  have Gr : Grounded S d (keyedSetting S d) := keyed_grounded d
  cases h with
  | stopped hlooked =>
      have hs : Later S d s s' := Gr.later hlooked.rely
      have hsame := hlooked.same
      refine .of_kept ((hg.later hs hi).same hsame) ?_ (hsame.adopted.trans ha)
      exact (hk.evolves hs.toEvolves).of_store hsame.store
  | current hs₁ _ _ hs' hsame =>
      have hs : Later S d s s' := (Gr.later hs₁).trans (Gr.later hs')
      refine .of_kept ((hg.later hs hi).same hsame.toSame) ?_ (hsame.adopted.trans ha)
      exact (hk.evolves hs.toEvolves).of_store hsame.store
  | @kept s₁ s₂ _ l₁ _ _ _ _ hfetch hkept happly =>
      have h₂ : Later S d s₂ s' := Gr.later hkept.rely
      have hg₁ : Holder S d grant key s' l₁ := hg.fetched Gr hfetch h₂ hi
      have hk₁ : l₁.Keyed S key s' :=
        (hk.evolves ((hfetch.later Gr).trans h₂).toEvolves).of_store hfetch.same.store
      have ha₁ : l₁.adopted = false := hfetch.same.adopted.trans ha
      refine .of_kept (hg₁.applied Gr hfetch h₂.toEvolves happly) ?_ ?_
      · cases happly with
        | part e n => exact hk₁.merge h₂.toEvolves (List.take_subset _ _)
        | whole => exact hk₁.merge h₂.toEvolves (List.Subset.refl _)
      · cases happly with
        | part e n => exact ha₁
        | whole => exact ha₁
  | @adopted s₁ s₂ _ _ l₁ _ l₂ _ _ _ _ hfetch hadopt happly =>
      have h₂ : Later S d s₂ s' := Gr.later hadopt.rely
      have hl₁ : l₁.Sound S d s' := (hg.fetched Gr hfetch h₂ hi).sound
      cases happly with
      | part e n =>
          exact .adopted hl₁ hi hfetch rfl hadopt (Or.inr ⟨rfl, List.take_subset _ _⟩)
      | whole =>
          have hafter := KeyedAfter.adopted hl₁ hi hfetch rfl hadopt (Or.inl ⟨rfl, rfl⟩)
          refine ⟨hafter.failed, ?_⟩
          intro hok
          obtain ⟨grant', key', hg', hk'⟩ := hafter.keyed hok
          exact ⟨grant', key', hg'.synced, hk'⟩

/-- The device in the middle of a push. -/
structure Pushing (S : Setup) (d : Nat) (grant key : Bytes) (s : Shared) (l : Device) : Prop where
  holder : Holder S d grant key s l
  keyed : l.Keyed S key s
  kept : l.adopted = false

theorem Pushing.later (h : Pushing S d grant key s l) (hs : Later S d s s') (hi : s'.Sound S)
    (hl : l.Same l') : Pushing S d grant key s' l' :=
  ⟨(h.holder.later hs hi).same hl, (h.keyed.evolves hs.toEvolves).of_store hl.store,
    hl.adopted.trans h.kept⟩

theorem Pushing.merge {s₁ s₂ : Shared} {revision : Int} {l₁ : Device}
    {rows : List (Ident × Server.Secret)} (h : Pushing S d grant key s l)
    (hfetch : Fetched S d (keyedSetting S d) s l s₁ s₂ revision l₁) (hs : Later S d s₂ s')
    (hi : s'.Sound S) (hrows : rows ⊆ s₂.db.secretsOf S.envId) :
    Pushing S d grant key s' (l₁.merge S false rows) := by
  have Gr : Grounded S d (keyedSetting S d) := keyed_grounded d
  have h₁ := h.later ((hfetch.later Gr).trans hs) hi hfetch.same
  exact ⟨h₁.holder.merge Gr hfetch hs.toEvolves hrows, h₁.keyed.merge hs.toEvolves hrows, h₁.kept⟩

theorem Pushing.forward {s₁ s₂ : Shared} {revision : Int} {l₁ : Device}
    (h : Pushing S d grant key s l)
    (hfetch : Fetched S d (keyedSetting S d) s l s₁ s₂ revision l₁) (hs : Later S d s₂ s')
    (hi : s'.Sound S) (hl : (l₁.forward S (s₂.db.secretsOf S.envId) revision).Still l') :
    Pushing S d grant key s' l' := by
  have hm := h.merge hfetch hs hi (List.Subset.refl _)
  have hf : Pushing S d grant key s' (l₁.forward S (s₂.db.secretsOf S.envId) revision) :=
    ⟨hm.holder.synced, hm.keyed, hm.kept⟩
  exact hf.later (Later.refl s') hi hl.toSame

theorem Pushing.wrote {s₁ s₂ s₄ : Shared} {revision : Int} {l₁ : Device}
    {access : Server.ProjectAccess} {v : Int} {l₄ l₅ : Device} (h : Pushing S d grant key s l)
    (hwrote : Wrote S d (keyedSetting S d) grant s l s₁ s₂ s₄ revision l₁ access v l₄ l₅) :
    Pushing S d grant key (afterBatch S s₂ s₄ revision access l₄) l₅ := by
  have Gr : Grounded S d (keyedSetting S d) := keyed_grounded d
  have h₄ : Pushing S d grant key s₄ l₄ :=
    h.forward hwrote.fetched (Gr.later hwrote.before) (Gr.sound hwrote.inv₄) hwrote.forward
  obtain ⟨hevolves, -, -⟩ := hwrote.guarantees Gr h.holder.sound
  have hk := h₄.keyed.evolves hevolves
  obtain ⟨-, hg⟩ := h.holder.wrote Gr hwrote
  have hseen := hwrote.seen
  subst hseen
  exact ⟨hg, hk, h₄.kept⟩

/-- A round of a push that ends with a result. -/
theorem KeyedAfter.pushRound {r : Except Cli.Error Int} (h : Pushing S d grant key s l)
    (hi : s'.Sound S) (hround : PushRound S d (keyedSetting S d) grant s l (some r) s' l') :
    KeyedAfter S d r.toBool s' l' := by
  have Gr : Grounded S d (keyedSetting S d) := keyed_grounded d
  have hkept : ∀ {t : Shared} {m : Device}, Pushing S d grant key t m →
      KeyedAfter S d r.toBool t m := fun ht => .of_kept ht.holder ht.keyed ht.kept
  cases hround with
  | stopped _ hlooked => exact hkept (h.later (Gr.later hlooked.rely) hi hlooked.same)
  | part _ hfetch hs => exact hkept (h.merge hfetch (Gr.later hs) hi (List.take_subset _ _))
  | forwarded _ hfetch hs hl' => exact hkept (h.forward hfetch (Gr.later hs) hi hl')
  | refused hfetch hchanged hl' _ =>
      exact hkept (h.forward hfetch (Gr.later hchanged.rely) hi hl')
  | unchanged hfetch hsame hl' _ => exact hkept (h.forward hfetch (Gr.later hsame.rely) hi hl')
  | adopted hfetch _ hadopt hrows =>
      have hl := (h.forward hfetch (Gr.later hadopt.rely) hi (Device.Still.refl _)).holder.sound
      refine .adopted hl hi hfetch rfl hadopt ?_
      rcases hrows with ⟨rfl, rfl⟩ | ⟨e, n, -, rfl, rfl⟩
      · exact Or.inl ⟨rfl, rfl⟩
      · exact Or.inr ⟨rfl, List.take_subset _ _⟩
  | @wrote s₁ s₂ s₄ revision l₁ access v l₄ l₅ _ _ _ hwrote hs hr =>
      refine hkept ?_
      have h' : Pushing S d grant key s' l₅ :=
        (h.wrote hwrote).later (Gr.later hs) hi (Device.Same.refl l₅)
      rcases hr with ⟨-, rfl⟩ | ⟨_, -, -, rfl⟩
      · exact ⟨h'.holder.synced, h'.keyed, h'.kept⟩
      · exact h'

/-- What a batch owes: the rows it writes are sealed under the current key. -/
theorem Pushing.guarantees {s₁ s₂ s₄ : Shared} {revision : Int} {l₁ : Device}
    {access : Server.ProjectAccess} {v : Int} {l₄ l₅ : Device} (h : Pushing S d grant key s l)
    (hwrote : Wrote S d (keyedSetting S d) grant s l s₁ s₂ s₄ revision l₁ access v l₄ l₅) :
    (afterBatch S s₂ s₄ revision access l₄).Keyed S ∧
      Readable S ⟨revision, changesOf S (s₂.db.secretsOf S.envId) l₄.store⟩
        (afterBatch S s₂ s₄ revision access l₄) := by
  have Gr : Grounded S d (keyedSetting S d) := keyed_grounded d
  have hi₄ : s₄.Sound S := Gr.sound hwrote.inv₄
  have hkeyed₄ : s₄.Keyed S := hwrote.inv₄.2
  obtain ⟨-, hdb, -⟩ := hwrote.same_db Gr
  have h₄ : Pushing S d grant key s₄ l₄ :=
    h.forward hwrote.fetched (Gr.later hwrote.before) hi₄ hwrote.forward
  obtain ⟨-, hup⟩ := hwrote.uploaded Gr fun id row hrow => (h₄.holder.sound.rows id row hrow).1
  obtain ⟨-, -, hi⟩ := hwrote.guarantees Gr h.holder.sound
  generalize afterBatch S s₂ s₄ revision access l₄ = s' at hup hi
  have hhead : s₄.keys.head? = some key := by
    by_cases horg : S.orgId = none
    · obtain ⟨key', hkeys⟩ := hkeyed₄.personal horg
      have hknown := h₄.holder.holds.known
      rw [hkeys, List.mem_singleton] at hknown
      rw [hkeys, hknown]
      rfl
    · exact h.holder.current Gr hwrote horg
  have hahead : ∀ id row, l₄.store.secrets.lookup id = some row → row.deleted = false →
      (∀ r ∈ s₄.db.secrets.lookup id, r.version < row.version) →
      SealedUnder S s'.created key id row.version row.enc := by
    intro id row hrow hlive hnew
    rw [hup.created]
    rcases h₄.keyed id row hrow hlive with ⟨r, hr, hv⟩ | hunder
    · have := hnew r hr
      omega
    · exact hunder
  refine ⟨⟨?_, ?_⟩, ?_⟩
  · intro id r' hr'
    rw [hup.keys]
    rw [hup.rows] at hr'
    rcases pushed_cases hr' with ⟨r, hr, -, hv, henc⟩ | ⟨row, hrow, hlive, hnew, rfl⟩
    · obtain ⟨key', hhead', hunder⟩ := hkeyed₄.rows id r hr
      rw [hv, henc, hup.created]
      exact ⟨key', hhead', hunder⟩
    · exact ⟨key, hhead, hahead id row hrow hlive hnew⟩
  · intro horg
    rw [hup.keys]
    exact hkeyed₄.personal horg
  · refine ⟨key, by rw [hup.keys]; exact hhead, ?_, ?_⟩
    · intro u grant' hgrant'
      obtain ⟨ephemeral, key', rfl, hhead'⟩ := hi.grants u grant' hgrant'
      rw [hup.keys, hhead] at hhead'
      cases hhead'
      obtain ⟨seed, rfl⟩ := hi₄.keys key (List.mem_of_mem_head? hhead)
      exact Core.Vault.openVaultKey_grantVaultKey ephemeral _ rfl
    · intro c hc hop
      rw [← hdb] at hc
      have hrows : ∀ id r, s₄.db.secrets.lookup id = some r → r.envId = S.envId :=
        fun id r hr => (hi₄.rows id r hr).1
      obtain ⟨row, hrow, hlive, hnew, hset⟩ := set_of_mem_changesOf hrows hc hop
      obtain ⟨name, value, -, hopens⟩ := hahead c.id row hrow hlive hnew
      have hversion : c.version = row.version := by rw [hset]; rfl
      refine ⟨upload S.envId row, Vault.nameBytes name, value, ?_, hversion.symm, ?_, ?_⟩
      · rw [hup.rows, hrow]
        exact pushed_of_new hlive hnew
      · rw [hset]
        rfl
      · rw [hversion]
        exact hopens.decryptSecret_eq

end Rounds

theorem keyed_afterSet {S : Setup} {s : Shared} {name : String} {before after : Store}
    (h : s.Keyed S) : (afterSet name before after s).Keyed S := by
  refine ⟨?_, h.personal⟩
  intro id r hr
  obtain ⟨key, hhead, hunder⟩ := h.rows id r hr
  exact ⟨key, hhead, hunder.mono (List.suffix_append _ _)⟩

theorem Rekeyed.keyed {S : Setup} {key : Bytes} {revision : Int} {s s' : Shared}
    (h : Rekeyed S key revision s s') (hi : s.Sound S) (horg : S.orgId ≠ none) : s'.Keyed S := by
  refine ⟨?_, fun hnone => absurd hnone horg⟩
  intro id r hr
  exact ⟨key, by rw [h.keys]; rfl, (h.rows_sealed hi hr).2⟩

/-- The outline is valid: each operation keeps what is ahead of the server sealed under the
device's key. -/
theorem keyed_valid {S : Setup} : (keyed S).Valid := by
  refine base_valid.extend (le_anyRun _) ?_ ?_ ?_
  · rintro d op s l₀ l hi hki - ⟨grant, key, hg, hk⟩ hstart -
    obtain rfl : l = { l₀ with adopted := false, current := some op } := hstart
    replace hg : Holder S d grant key s { l₀ with adopted := false, current := some op } :=
      hg.begin
    replace hk : ({ l₀ with adopted := false, current := some op } : Device).Keyed S key s :=
      hk.of_store rfl
    have ha : ({ l₀ with adopted := false, current := some op } : Device).adopted = false := rfl
    generalize ({ l₀ with adopted := false, current := some op } : Device) = l at hg hk ha
    have hp : Pushing S d grant key s l := ⟨hg, hk, ha⟩
    have Gr : Grounded S d (keyedSetting S d) := keyed_grounded d
    have hstable : ∀ {s l s' l'}, Pushing S d grant key s l → s'.Sound S ∧ s'.Keyed S →
        Looked (keyedSetting S d) s l s' l' → Pushing S d grant key s' l' :=
      fun h hi' hlooked => h.later (Gr.later hlooked.rely) hi'.1 hlooked.same
    have hafter : ∀ {ok : Bool} {s l}, Pushing S d grant key s l → KeyedAfter S d ok s l :=
      fun h => .of_kept h.holder h.keyed h.kept
    have hrotate : ∀ {s l s₁ s₂ s₇ revision keySeed access orgId rotation v l₇},
        S.orgId ≠ none → Pushing S d grant key s l →
        Rotated S d (keyedSetting S d) s l s₁ s₂ s₇ revision keySeed access orgId rotation v l₇ →
        (keyedSetting S d).guar (.server (.rotate access S.envId orgId rotation)) s₇ l₇
            (afterRotation S s₇ access orgId rotation) ∧
          (keyedSetting S d).inv (afterRotation S s₇ access orgId rotation) ∧
          Pushing S d grant key (afterRotation S s₇ access orgId rotation) l₇ := by
      intro s l s₁ s₂ s₇ revision keySeed access orgId rotation v l₇ horg h hrot
      obtain ⟨hevolves, hlater, hsound, -⟩ := hrot.guarantees Gr h.holder.sound
      have hkeyed := (hrot.rekeyed Gr).keyed (Gr.sound hrot.inv₇) horg
      obtain ⟨_, _, _, hfetch, _⟩ := hrot.fetched
      have hs₇ : Evolves S s s₇ := ((hfetch.later Gr).trans (Gr.later hrot.before)).toEvolves
      refine ⟨⟨⟨hevolves, hlater⟩, trivial⟩, ⟨hsound, hkeyed⟩, h.holder.rotated Gr hrot, ?_, ?_⟩
      · exact (h.keyed.evolves (hs₇.trans hevolves)).of_store hrot.same.store
      · exact hrot.same.adopted.trans h.kept
    apply Follows.wp_of_ensures
    cases op with
    | set name value =>
        refine Gr.follows.ensures_set ?_ ?_
        · intro s₁ store' hs₁ hi₁ hset _
          have h₁ : Pushing S d grant key s₁ l := hp.later hs₁ hi₁.1 (Device.Same.refl l)
          have hby := setBy_of_setTo h₁.holder.sound h₁.holder.opened h₁.holder.holds hset
          have hi₂ := sound_afterSet hby hi₁.1 h₁.holder.sound
          refine ⟨⟨⟨evolves_afterSet, fun i hne => later_afterSet hby hne⟩, trivial⟩,
            ⟨hi₂, keyed_afterSet hi₁.2⟩, ?_⟩
          intro s' hs' hi'
          have h₂ : Pushing S d grant key (afterSet name l.store store' s₁)
              { l.edited store' with draws := l.draws + 2 } :=
            ⟨h₁.holder.set hby, h₁.keyed.set hby, h₁.kept⟩
          exact hafter (h₂.later hs' hi'.1 (Device.Same.refl _))
        · intro e s' l' hs' hi' hsame
          exact hafter (hp.later hs' hi'.1 hsame.toSame)
    | delete name =>
        refine Gr.follows.ensures_delete ?_ ?_
        · intro s₁ s' store' hs₁ hi₁ hdelete _ hs' hi'
          have h₁ : Pushing S d grant key s₁ l := hp.later hs₁ hi₁.1 (Device.Same.refl l)
          obtain ⟨id, row, -, -, -, -, rfl⟩ :=
            deleteBy_of_deleteTo h₁.holder.sound h₁.holder.opened h₁.holder.holds hdelete
          have h₂ : Pushing S d grant key s₁ (l.edited (l.store.withTombstone id)) :=
            ⟨h₁.holder.delete, h₁.keyed.delete, h₁.kept⟩
          exact hafter (h₂.later hs' hi'.1 (Device.Same.refl _))
        · intro e s' l' hs' hi' hsame
          exact hafter (hp.later hs' hi'.1 hsame.toSame)
    | pull =>
        refine Gr.follows.ensures_actionPull hg.opened ?_
        intro r s' l' hi' hpulled
        have h := KeyedAfter.pulled hg hk ha hi'.1 hpulled
        cases r with
        | ok v => exact h
        | error e => exact h
    | push =>
        refine Gr.follows.ensures_actionPush (I := Pushing S d grant key)
          (fun h => h.holder.opened) ?_ ?_ ?_ hg.opened ?_
        · intro s l s' l' h hi' hround
          cases hround with
          | forwarded _ hfetch hs hl' => exact h.forward hfetch (Gr.later hs) hi'.1 hl'
        · intro s l s₁ s₂ s₄ revision l₁ access v l₄ l₅ h hwrote
          obtain ⟨hevolves, hlater, hsound⟩ := hwrote.guarantees Gr h.holder.sound
          obtain ⟨hkeyed, hreadable⟩ := h.guarantees hwrote
          exact ⟨⟨⟨hevolves, hlater⟩, fun _ _ => hreadable⟩, hsound, hkeyed⟩
        · intro s l r s' l' h hi' hround
          have h := KeyedAfter.pushRound h hi'.1 hround
          cases r with
          | ok v => exact h
          | error e => exact h
        · intro s' l' hs' hi' hsame
          exact hp.later hs' hi'.1 hsame.toSame
    | rotate =>
        refine Gr.follows.ensures_rotateActive (I := Pushing S d grant key)
          (fun h => h.holder.opened) hstable hrotate ?_ ?_ hp
        · intro s l r s' l' h hi' hpulled
          have h := KeyedAfter.pulled h.holder h.keyed h.kept hi'.1 hpulled
          cases r with
          | ok v => exact h
          | error e => exact h
        · intro e s l h _
          exact hafter h
    | rotateEnv revoke =>
        refine Gr.follows.ensures_actionRotateEnv (I := Pushing S d grant key) hstable hrotate ?_ hp
        intro r s l h _
        exact hafter h
  · rintro d op r s l l' hi hki hsound hafter hfinish hlimit
    obtain rfl : l' = _ := hfinish
    by_cases hfailed : l.adopted = true ∧ r.toBool = false
    · obtain ⟨grant, key, hg⟩ := Holder.exists_of_sound hsound
      refine ⟨grant, key, hg.finish, ?_⟩
      exact (Device.Keyed.of_noneAhead (hlimit hfailed.1 hfailed.2)
        (hafter.failed hfailed.1 hfailed.2)).of_store rfl
    · obtain ⟨grant, key, hg, hk⟩ := hafter.keyed (by simpa using hfailed)
      exact ⟨grant, key, hg.finish, hk.of_store rfl⟩
  · rintro d s s' l hi hki hi' hki' hs - ⟨grant, key, hg, hk⟩
    exact ⟨grant, key, hg.later hs hi', hk.evolves hs.toEvolves⟩

theorem keyed_init {S : Setup} : (keyed S).Good S.init where
  inv := by
    refine ⟨sound_init S, ?_, fun _ => ⟨_, rfl⟩⟩
    intro id r hr
    have hr : S.db.secrets.lookup id = some r := hr
    rw [S.secrets] at hr
    cases hr
  thread d := by
    obtain ⟨grant, key, hg⟩ := Holder.exists_of_sound (soundDevice_init S d)
    refine ⟨hg.sound, grant, key, hg, ?_⟩
    intro id row hrow
    have hrow : (S.store d).secrets.lookup id = some row := hrow
    rw [(S.noSecrets d).1] at hrow
    cases hrow

/-- In every run in which devices adopt grants only when they have nothing ahead of the
server, what an accepted batch writes opens under the current vault key. -/
theorem accepted_batch_readable (S : Setup) {w : Setup.World}
    (hw : (S.system.restrict coveredAdoption).Reaches S.init w) {d : Nat} {op : Op}
    {access : Server.ProjectAccess} {batch : Api.BatchRequest} {k v s' l'}
    (hr : (w.threads d).running =
      some (op, .call (.server (.writeSecrets access S.envId batch)) k))
    (he : S.system.exec d (.server (.writeSecrets access S.envId batch)) w.shared
      (w.threads d).own (.ok v) s' l') : Readable S batch s' := by
  have hgood : (keyed S).Good w := keyed_init.reaches keyed_valid (grounded_reaches hw)
  have hexec := grounded_exec (base_good hw) hr he
  obtain ⟨⟨-, hreadable⟩, -⟩ := hgood.exec hr ⟨hexec, trivial⟩
  refine hreadable rfl ?_
  rcases he with he | ⟨hfault, -, -⟩
  · simp only [perform, Prod.mk.injEq] at he
    obtain ⟨hv, rfl, -⟩ := he
    have haccepted := Server.writeSecretsTx_eq_ok (Server.commit_run hv)
    obtain ⟨env, henv, hrev⟩ := haccepted.base
    obtain ⟨env', henv', hrev'⟩ := haccepted.next
    have henv' : (w.shared.callServer (.writeSecrets access S.envId batch)).2.db.environments.lookup
        S.envId = some env' := henv'
    intro hdb
    rw [hdb, henv] at henv'
    cases henv'
    omega
  · cases hfault

/-! ### Runs of the team -/

/-- The batch that the next step of a device commits, with the state after it. -/
def nextBatch (S : Setup) (d : Nat) (w : Setup.World) : Option (Api.BatchRequest × Shared) :=
  match (w.threads d).running with
  | some (_, .call (.server (.writeSecrets access envId batch)) _) =>
      match perform d (.server (.writeSecrets access envId batch)) w.shared (w.threads d).own with
      | (.ok _, s', _) => if envId = S.envId then some (batch, s') else none
      | _ => none
  | _ => none

theorem exists_of_nextBatch {S : Setup} {d : Nat} {w : Setup.World} {batch : Api.BatchRequest}
    {s' : Shared} (h : nextBatch S d w = some (batch, s')) :
    ∃ op access k v l', (w.threads d).running =
        some (op, .call (.server (.writeSecrets access S.envId batch)) k) ∧
      S.system.exec d (.server (.writeSecrets access S.envId batch)) w.shared (w.threads d).own
        (.ok v) s' l' := by
  unfold nextBatch at h
  split at h
  · next op access envId batch' k hr =>
      split at h
      · next v s₁ l₁ hperform =>
          split at h
          · next henv =>
              subst henv
              cases h
              exact ⟨op, access, k, v, l₁, hr, Or.inl hperform⟩
          · cases h
      · cases h
  · cases h

/-- Whether the current key fails to open a secret that a batch sets. -/
def unreadable (S : Setup) (batch : Api.BatchRequest) (s : Shared) : Bool :=
  s.keys.head?.all fun key => batch.changes.any fun c => c.op = .set &&
    (s.db.secrets.lookup c.id).all fun r =>
      !(Core.Vault.decryptSecret key S.envId c.id c.version r.encName r.encValue
        r.encDataKey).toBool

theorem not_readable {S : Setup} {batch : Api.BatchRequest} {s : Shared}
    (h : unreadable S batch s = true) : ¬ Readable S batch s := by
  rintro ⟨key, hhead, -, hreadable⟩
  rw [unreadable, hhead] at h
  simp only [Option.all_some, List.any_eq_true, Bool.and_eq_true, decide_eq_true_eq] at h
  obtain ⟨c, hc, hop, hfail⟩ := h
  obtain ⟨r, name, value, hr, -, -, hdecrypt⟩ := hreadable c hc hop
  rw [hr, Option.all_some, hdecrypt] at hfail
  cases hfail

set_option maxRecDepth 10000 in
/-- A device sets a secret, another rotates the key, and the first device pulls and pushes:
the batch is accepted, and the current key does not open it. -/
theorem accepted_batch_unreadable : ∃ w, Team.setup.system.Reaches Team.setup.init w ∧
    ∃ op access batch k v s' l', (w.threads 0).running =
        some (op, .call (.server (.writeSecrets access Team.setup.envId batch)) k) ∧
      Team.setup.system.exec 0 (.server (.writeSecrets access Team.setup.envId batch)) w.shared
        (w.threads 0).own (.ok v) s' l' ∧ ¬ Readable Team.setup batch s' := by
  have hnext : (nextBatch Team.setup 0 (Team.setup.run (Team.whole 0 (.set "X" Team.value) ++
      Team.whole 1 .rotate ++ Team.whole 0 .pull ++ [.begin 0 .push, .ticks 0 32])
        Team.setup.init)).any (fun b => unreadable Team.setup b.1 b.2) = true := by
    decide +kernel
  obtain ⟨⟨batch, s'⟩, hbatch, hunreadable⟩ := (Option.any_eq_true _ _).1 hnext
  obtain ⟨op, access, k, v, l', hr, he⟩ := exists_of_nextBatch hbatch
  exact ⟨_, Setup.reaches_run, op, access, batch, k, v, s', l', hr, he, not_readable hunreadable⟩

/-- The check that no device replaces its grant. -/
def noAdoption : Check where
  start _ _ _ _ := true
  exec _ c _ _ :=
    match c with
    | .store (.updateEnvVaultKey _ _) => false
    | _ => true
  finish _ _ _ _ l := !l.adopted

theorem noAdoption_le : noAdoption.limit.Le coveredAdoption where
  start := fun _ => trivial
  exec := by
    rintro d c s l r s' l' ⟨h, -⟩
    simp only [coveredAdoption]
    split
    · cases h
    · trivial
  finish := by
    intro d op r s l h hadopted
    have h : (!l.adopted) = true := h
    rw [hadopted] at h
    cases h

set_option maxRecDepth 10000 in
/-- A run under the condition: a device sets a secret and pushes it. -/
theorem accepted_batch_readable_first : ∃ batch s', batch.changes ≠ [] ∧
    Readable Team.setup batch s' := by
  have hreaches : (Team.setup.system.restrict coveredAdoption).Reaches Team.setup.init
      (Team.setup.run (Team.whole 0 (.set "X" Team.value) ++ [.begin 0 .push, .ticks 0 32])
        Team.setup.init) :=
    (Setup.run_reaches (C := noAdoption) (by decide +kernel)).restrict_mono noAdoption_le
  have hnext : (nextBatch Team.setup 0 (Team.setup.run (Team.whole 0 (.set "X" Team.value) ++
      [.begin 0 .push, .ticks 0 32]) Team.setup.init)).any
        (fun b => !b.1.changes.isEmpty) = true := by
    decide +kernel
  obtain ⟨⟨batch, s'⟩, hbatch, hchanges⟩ := (Option.any_eq_true _ _).1 hnext
  obtain ⟨op, access, k, v, l', hr, he⟩ := exists_of_nextBatch hbatch
  exact ⟨batch, s', by simpa using hchanges, accepted_batch_readable Team.setup hreaches hr he⟩

end Sotto
