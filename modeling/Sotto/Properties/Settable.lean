import Sotto.Cli.Lookup
import Sotto.Properties.Coherence
import Sotto.Properties.History

/-!
# Sets that succeed

A set opens the name of every row, and writes the version after the current one, which the
history must not have. Every row opens if the grant that a device holds at the end of an
operation is the one that the server had when the device read the rows, and it replaces its
grant only as a whole. The next version is free if no row is replaced by one of a lower
version.
-/

namespace Sotto

open Core Cli

/-! ### Every row opens -/

/-- A device last saw `s₀`, and if `key` was current then, its rows are sealed under it. -/
structure Steady (S : Setup) (key : Bytes) (s₀ s : Shared) (l : Device) : Prop where
  seen : l.seen = s₀.db
  evolves : Evolves S s₀ s
  sound : s₀.Sound S
  sealed : s₀.keys.head? = some key → AllSealed S key s l

/-- A device replaces its grant only when it has read a row of each of its rows, the operation
then succeeds, and the grant it holds at the end of an operation is the one that the server
had when the device last read the rows. -/
def steadyAdoption (S : Setup) : Limit where
  start _ _ _ _ := True
  exec := allCoveredAdoption.exec
  finish d _ r _ l := (l.adopted = true → r.toBool = true) ∧
    ∃ grant, grantAt S d l.seen = some grant ∧
      l.store.environments.lookup S.envId = some ⟨S.projectId, S.envName, grant⟩

theorem steadyAdoption_le {S : Setup} : (steadyAdoption S).Le coveredAdoption where
  start := fun _ => trivial
  exec := by
    rintro d c s l r s' l' h
    simp only [coveredAdoption]
    split
    · intro id row hrow _
      exact h id row hrow
    · trivial
  finish := by
    intro d op r s l h hadopted hfailed
    rw [h.1 hadopted] at hfailed
    cases hfailed

section Device

variable {S : Setup} {d : Nat} {s s' s₀ s₂ : Shared} {l l' : Device} {key : Bytes}

/-- When all rows that a device has were read, applying them by force seals them all. -/
theorem AllSealed.of_merge (hcovered : AllCovered l) (hseen : l.seen = s.db) (hi : s.Sound S)
    (hkeyed : s.Keyed S) (hh : s.keys.head? = some key) :
    AllSealed S key s (l.merge S true (s.db.secretsOf S.envId)) := by
  intro id row hrow
  rcases Device.lookup_merge_cases hrow with hkeep | ⟨r, hr, rfl⟩
  · have hsome := hcovered id row hkeep
    rw [hseen] at hsome
    obtain ⟨r, hr⟩ := Option.ne_none_iff_exists'.1 hsome
    have hmem : (id, r) ∈ s.db.secretsOf S.envId := mem_secretsOf.2 ⟨hr, (hi.rows id r hr).1⟩
    rw [Device.merge, Store.lookup_mergeAll (nodup_secretsOf _ _) hmem] at hrow
    obtain rfl : localRow S.envId r = row := by simpa [Store.takes] using hrow
    exact hkeyed.sealedUnder hh hr
  · exact hkeyed.sealedUnder hh (mem_secretsOf.1 hr).1

theorem Steady.later (h : Steady S key s₀ s l) (hs : Evolves S s s') : Steady S key s₀ s' l :=
  ⟨h.seen, h.evolves.trans hs, h.sound, fun hh => (h.sealed hh).evolves hs⟩

theorem Steady.of_secrets (h : Steady S key s₀ s l) (hl : l'.store.secrets = l.store.secrets)
    (hseen : l'.seen = l.seen) : Steady S key s₀ s l' :=
  ⟨hseen.trans h.seen, h.evolves, h.sound, fun hh => (h.sealed hh).of_secrets hl⟩

/-- A device that reads the rows of a later state. -/
theorem Steady.read (h : Steady S key s₀ s l) (hknown : key ∈ s₀.keys) (h₂ : Evolves S s s₂)
    (hs : Evolves S s₂ s') (hi₂ : s₂.Sound S) (hl : l'.store.secrets = l.store.secrets)
    (hseen : l'.seen = s₂.db) : Steady S key s₂ s' l' := by
  refine ⟨hseen, hs, hi₂, ?_⟩
  intro hh
  have hh₀ := (h.evolves.trans h₂).head_eq hi₂.nodup hknown hh
  exact ((h.sealed hh₀).evolves (h₂.trans hs)).of_secrets hl

theorem Steady.merge (h : Steady S key s₀ s l) {force : Bool}
    {rows : List (Ident × Server.Secret)} (hkeyed : s₀.Keyed S)
    (hrows : rows ⊆ s₀.db.secretsOf S.envId) : Steady S key s₀ s (l.merge S force rows) :=
  ⟨h.seen, h.evolves, h.sound, fun hh => (h.sealed hh).merge h.evolves hrows
    fun _ _ hr => hkeyed.sealedUnder hh hr⟩

end Device

/-- What the outline adds: the rows of an idle device are sealed under the key it holds. -/
def settableExtension (S : Setup) :
    Outline.Extension Nat Cmd.Reply Shared Device Op (Except Cli.Error Unit) where
  limit := steadyAdoption S
  inv _ := True
  guar _ _ _ _ _ := True
  idle d s l := ∃ grant key s₀, Holder S d grant key s l ∧ Steady S key s₀ s l ∧
    s₀.keys.head? = some key
  post d _ r s l := (l.adopted = true → r.toBool = true) → ∃ grant key s₀,
    Holder S d grant key s l ∧ Steady S key s₀ s l

/-- The outline over the one of what is keyed. -/
def settable (S : Setup) : Outline ((S.grounded.restrict (keyed S).condition).restrict
    (steadyAdoption S)) :=
  (keyed S).extend (settableExtension S)

/-- The setting of a device. -/
abbrev settableSetting (S : Setup) (d : Nat) : Setting Cmd.Reply Shared Device :=
  (settable S).setting d

theorem settable_grounded {S : Setup} (d : Nat) : Grounded S d (settableSetting S d) :=
  (keyed_grounded d).extend (fun h => h.1) fun _ _ _ => trivial

/-- A device in the middle of an operation that has not adopted a grant. -/
structure Steadied (S : Setup) (_ : Nat) (_ key : Bytes) (s : Shared) (l : Device) : Prop where
  steady : ∃ s₀, Steady S key s₀ s l ∧ key ∈ s₀.keys
  kept : l.adopted = false

section Rounds

variable {S : Setup} {d : Nat} {s s' : Shared} {l l' : Device} {grant key : Bytes}
  {s₁ s₂ s₃ : Shared} {revision : Int} {l₁ l₂ : Device} {grant' : Bytes}

theorem Steadied.later (h : Steadied S d grant key s l) (hs : Evolves S s s') :
    Steadied S d grant key s' l := by
  obtain ⟨s₀, hsteady, hknown⟩ := h.steady
  exact ⟨⟨s₀, hsteady.later hs, hknown⟩, h.kept⟩

theorem Steadied.still (h : Steadied S d grant key s l) (hl : l.Still l') :
    Steadied S d grant key s l' := by
  obtain ⟨s₀, hsteady, hknown⟩ := h.steady
  exact ⟨⟨s₀, hsteady.of_secrets (by rw [hl.store]) hl.seen, hknown⟩, hl.adopted.trans h.kept⟩

theorem Steadied.looked (h : Steadied S d grant key s l)
    (hlooked : Looked (settableSetting S d) s l s' l') : Steadied S d grant key s' l' := by
  have Gr : Grounded S d (settableSetting S d) := settable_grounded d
  obtain ⟨s₀, hsteady, hknown⟩ := h.steady
  have hs : Evolves S s s' := (Gr.later hlooked.rely).toEvolves
  have hsecrets : l'.store.secrets = l.store.secrets := by rw [hlooked.same.store]
  refine ⟨?_, hlooked.same.adopted.trans h.kept⟩
  rcases hlooked.seen with hseen | ⟨s₂, h₂, hi₂, hs', hseen⟩
  · exact ⟨s₀, (hsteady.later hs).of_secrets hsecrets hseen, hknown⟩
  · have h₂ : Evolves S s s₂ := (Gr.later h₂).toEvolves
    refine ⟨s₂, hsteady.read hknown h₂ (Gr.later hs').toEvolves (Gr.sound hi₂) hsecrets hseen, ?_⟩
    exact (hsteady.evolves.trans h₂).keys.subset hknown

/-- A device that fetched a snapshot. -/
theorem Steadied.fetched (h : Steadied S d grant key s l)
    (hfetch : Fetched S d (settableSetting S d) s l s₁ s₂ revision l₁) (hs : Later S d s₂ s') :
    Steady S key s₂ s' l₁ ∧ key ∈ s₂.keys ∧ l₁.adopted = false := by
  have Gr : Grounded S d (settableSetting S d) := settable_grounded d
  obtain ⟨s₀, hsteady, hknown⟩ := h.steady
  have h₂ : Evolves S s s₂ := (hfetch.later Gr).toEvolves
  refine ⟨hsteady.read hknown h₂ hs.toEvolves (Gr.sound hfetch.inv₂) (by rw [hfetch.same.store])
    hfetch.seen, (hsteady.evolves.trans h₂).keys.subset hknown,
    hfetch.same.adopted.trans h.kept⟩

theorem Steadied.mergeFetched (h : Steadied S d grant key s l)
    (hfetch : Fetched S d (settableSetting S d) s l s₁ s₂ revision l₁) (hs : Later S d s₂ s')
    {rows : List (Ident × Server.Secret)} (hrows : rows ⊆ s₂.db.secretsOf S.envId) :
    Steadied S d grant key s' (l₁.merge S false rows) := by
  obtain ⟨hsteady, hknown, hkept⟩ := h.fetched hfetch hs
  exact ⟨⟨s₂, hsteady.merge hfetch.inv₂.1.2 hrows, hknown⟩, hkept⟩

theorem Steadied.forward (h : Steadied S d grant key s l)
    (hfetch : Fetched S d (settableSetting S d) s l s₁ s₂ revision l₁) (hs : Later S d s₂ s') :
    Steadied S d grant key s' (l₁.forward S (s₂.db.secretsOf S.envId) revision) := by
  obtain ⟨⟨s₀, hsteady, hknown⟩, hkept⟩ := h.mergeFetched hfetch hs (List.Subset.refl _)
  exact ⟨⟨s₀, hsteady.of_secrets rfl rfl, hknown⟩, hkept⟩

/-- After a grant was adopted and all rows were applied. -/
theorem Adopted.steady (hseen : l₁.seen = s₂.db) (hi₂ : s₂.Sound S) (hkeyed₂ : s₂.Keyed S)
    (h : Adopted S d (settableSetting S d) grant s₂ l₁ s₃ grant' s' l₂) :
    Steady S key s₂ s' (l₂.merge S true (s₂.db.secretsOf S.envId)) := by
  have hs : Later S d s₂ s' := (settable_grounded d).later h.rely
  obtain ⟨_, l₄, hl₄, -, -, hexec, rfl⟩ := h.exec
  have hcovered : AllCovered l₄ := hexec.2
  have hseen₄ : l₄.seen = s₂.db := hl₄.seen.trans hseen
  refine ⟨hseen₄, hs.toEvolves, hi₂, ?_⟩
  intro hh
  have hcovered' : AllCovered (l₄.adopt S grant') := hcovered
  exact (AllSealed.of_merge hcovered' hseen₄ hi₂ hkeyed₂ hh).evolves hs.toEvolves

theorem Steadied.post (h : Steadied S d grant key s l) (hg : Holder S d grant key s l) :
    ∃ grant key s₀, Holder S d grant key s l ∧ Steady S key s₀ s l := by
  obtain ⟨s₀, hsteady, -⟩ := h.steady
  exact ⟨grant, key, s₀, hg, hsteady⟩

theorem Adopted.adopted (h : Adopted S d (settableSetting S d) grant s₂ l₁ s₃ grant' s' l₂) :
    l₂.adopted = true := by
  obtain ⟨_, l₄, -, -, -, -, rfl⟩ := h.exec
  rfl

theorem Steadied.pulled {r : Except Cli.Error Int} (hg : Holder S d grant key s l)
    (h : Steadied S d grant key s l) (hi : s'.Sound S)
    (hpulled : Pulled S d (settableSetting S d) grant s l r s' l')
    (hok : l'.adopted = true → r.toBool = true) :
    ∃ grant key s₀, Holder S d grant key s' l' ∧ Steady S key s₀ s' l' := by
  have Gr : Grounded S d (settableSetting S d) := settable_grounded d
  cases hpulled with
  | stopped hlooked =>
      exact (h.looked hlooked).post
        ((hg.later (Gr.later hlooked.rely) hi).same hlooked.same)
  | current hs₁ _ _ hs' hsame =>
      have hs : Later S d s s' := (Gr.later hs₁).trans (Gr.later hs')
      exact ((h.later hs.toEvolves).still hsame).post ((hg.later hs hi).same hsame.toSame)
  | kept _ hfetch hkept happly =>
      have hs : Later S d _ s' := Gr.later hkept.rely
      have hg' := (hg.fetched Gr hfetch hs hi).applied Gr hfetch hs.toEvolves happly
      cases happly with
      | part e n => exact (h.mergeFetched hfetch hs (List.take_subset _ _)).post hg'
      | whole => exact (h.forward hfetch hs).post hg'
  | @adopted _ s₂ _ _ l₁ _ l₂ _ _ _ _ hfetch hadopt happly =>
      have hs : Later S d s₂ s' := Gr.later hadopt.rely
      obtain ⟨key', -, hg'⟩ := Holder.adopted Gr (hg.fetched Gr hfetch hs hi).sound hi hadopt
      have hg' := hg'.applied Gr hfetch hs.toEvolves happly
      cases happly with
      | part e n => exact absurd (hok hadopt.adopted) (by simp [Except.toBool])
      | whole =>
          refine ⟨_, key', s₂, hg', ?_⟩
          exact (hadopt.steady hfetch.seen (Gr.sound hfetch.inv₂) hfetch.inv₂.1.2).of_secrets rfl
            rfl

/-- A device that wrote a batch. -/
theorem Steadied.wrote {s₄ : Shared} {access : Server.ProjectAccess} {v : Int} {l₄ l₅ : Device}
    (hg : Holder S d grant key s l) (h : Steadied S d grant key s l)
    (hwrote : Wrote S d (settableSetting S d) grant s l s₁ s₂ s₄ revision l₁ access v l₄ l₅) :
    Steadied S d grant key (afterBatch S s₂ s₄ revision access l₄) l₅ := by
  have Gr : Grounded S d (settableSetting S d) := settable_grounded d
  obtain ⟨hevolves, -, hsound⟩ := hwrote.guarantees Gr hg.sound
  obtain ⟨⟨s₀, hsteady, hknown⟩, hkept⟩ :=
    (h.forward hwrote.fetched (Gr.later hwrote.before)).still hwrote.forward
  have hseen := hwrote.seen
  refine ⟨⟨_, hsteady.read hknown hevolves (Evolves.refl _) hsound (by rw [hseen]) (by rw [hseen]),
    (hsteady.evolves.trans hevolves).keys.subset hknown⟩, ?_⟩
  rw [hseen]
  exact hkept

/-- A round of a push that ends with a result. -/
theorem Steadied.pushRound {r : Except Cli.Error Int} (hg : Holder S d grant key s l)
    (h : Steadied S d grant key s l) (hi : s'.Sound S)
    (hround : PushRound S d (settableSetting S d) grant s l (some r) s' l')
    (hok : l'.adopted = true → r.toBool = true) :
    ∃ grant key s₀, Holder S d grant key s' l' ∧ Steady S key s₀ s' l' := by
  have Gr : Grounded S d (settableSetting S d) := settable_grounded d
  have hforward : ∀ {s₁ s₂ : Shared} {revision : Int} {l₁ m : Device},
      Fetched S d (settableSetting S d) s l s₁ s₂ revision l₁ → Later S d s₂ s' →
      (l₁.forward S (s₂.db.secretsOf S.envId) revision).Still m →
      ∃ grant key s₀, Holder S d grant key s' m ∧ Steady S key s₀ s' m := by
    intro s₁ s₂ revision l₁ m hfetch hs hm
    exact ((h.forward hfetch hs).still hm).post ((hg.forward Gr hfetch hs hi).same hm.toSame)
  cases hround with
  | stopped _ hlooked =>
      exact (h.looked hlooked).post ((hg.later (Gr.later hlooked.rely) hi).same hlooked.same)
  | part _ hfetch hs =>
      have hs : Later S d _ s' := Gr.later hs
      exact (h.mergeFetched hfetch hs (List.take_subset _ _)).post
        ((hg.fetched Gr hfetch hs hi).merge Gr hfetch hs.toEvolves (List.take_subset _ _))
  | forwarded _ hfetch hs hl' => exact hforward hfetch (Gr.later hs) hl'
  | refused hfetch hchanged hl' _ => exact hforward hfetch (Gr.later hchanged.rely) hl'
  | unchanged hfetch hkept hl' _ => exact hforward hfetch (Gr.later hkept.rely) hl'
  | @adopted s₁ s₂ s₃ revision l₁ grant' l₂ _ rows _ hfetch _ hadopt hrows =>
      have hs : Later S d s₂ s' := Gr.later hadopt.rely
      obtain ⟨key', -, hg'⟩ := Holder.adopted Gr (hg.forward Gr hfetch hs hi).sound hi hadopt
      rcases hrows with ⟨rfl, rfl⟩ | ⟨e, n, -, rfl, rfl⟩
      · have hseen : (l₁.forward S (s₂.db.secretsOf S.envId) revision).seen = s₂.db := hfetch.seen
        exact ⟨grant', key', s₂, hg'.merge Gr hfetch hs.toEvolves (List.Subset.refl _),
          hadopt.steady hseen (Gr.sound hfetch.inv₂) hfetch.inv₂.1.2⟩
      · exact absurd (hok hadopt.adopted) (by simp [Except.toBool])
  | @wrote s₁ s₂ s₄ revision l₁ access v l₄ l₅ _ _ _ hwrote hs hr =>
      have hs : Later S d _ s' := Gr.later hs
      obtain ⟨-, hg₅⟩ := hg.wrote Gr hwrote
      have h₅ := (Steadied.wrote hg h hwrote).later hs.toEvolves
      rcases hr with ⟨-, rfl⟩ | ⟨_, -, -, rfl⟩
      · obtain ⟨s₀, hsteady, -⟩ := h₅.steady
        exact ⟨grant, key, s₀, (hg₅.later hs hi).synced, hsteady.of_secrets rfl rfl⟩
      · exact h₅.post (hg₅.later hs hi)

end Rounds

theorem settable_layer {S : Setup} :
    Layer S (keyed S) (settableExtension S) (Steadied S) where
  guar_refl := fun _ _ _ _ => trivial
  start := by
    intro d op s l grant key hi _ _ hidle _ hg
    obtain ⟨grant', key', s₀, hg', hsteady, hhead⟩ := hidle
    obtain ⟨rfl, rfl⟩ := hg.grant_unique hg'.begin
    exact ⟨⟨s₀, hsteady.of_secrets rfl rfl, List.mem_of_mem_head? hhead⟩, rfl⟩
  later := fun h _ _ _ hlooked => h.looked hlooked
  set := by
    intro d grant key s l name value store h hg _ hby _
    obtain ⟨s₀, hsteady, hknown⟩ := h.steady
    refine ⟨trivial, trivial, ⟨s₀, ⟨hsteady.seen, ?_, hsteady.sound, ?_⟩, hknown⟩, h.kept⟩
    · exact hsteady.evolves.trans evolves_afterSet
    · intro hh id row hrow
      rcases hby.lookup hrow with hold | ⟨-, hunder, -⟩
      · exact (hsteady.sealed hh id row hold).mono (List.suffix_append _ _)
      · exact hunder
  delete := by
    intro d grant key s l name id row h hg _ hrow _ hsealed _
    obtain ⟨s₀, hsteady, hknown⟩ := h.steady
    refine ⟨⟨s₀, ⟨hsteady.seen, hsteady.evolves, hsteady.sound, ?_⟩, hknown⟩, h.kept⟩
    intro hh id' row' hrow'
    rcases lookup_withTombstone hrow' with hold | ⟨row₀, rfl, hrow₀, rfl⟩
    · exact hsteady.sealed hh id' row' hold
    · rw [hrow] at hrow₀
      cases hrow₀
      exact hsealed
  ended := fun h hg _ _ _ => h.post hg
  pulled := by
    intro d op r grant key s l s' l' _ h hg hi' hpulled hok
    refine h.pulled hg hi'.1.1 hpulled ?_
    intro hadopted
    have := hok hadopted
    cases r <;> simp_all [Except.toBool, Except.map]
  retried := by
    intro d grant key s l s' l' h hg hi' hround
    cases hround with
    | forwarded _ hfetch hs hl' =>
        exact (h.forward hfetch ((settable_grounded d).later hs)).still hl'
  wrote := fun _ _ _ => ⟨trivial, trivial⟩
  pushed := by
    intro d r grant key s l s' l' h hg hi' hround hok
    refine h.pushRound hg hi'.1.1 hround ?_
    intro hadopted
    have := hok hadopted
    cases r <;> simp_all [Except.toBool, Except.map]
  rotated := by
    intro d grant key s l s₁ s₂ s₇ revision keySeed access orgId rotation v l₇ _ _ h hg hrot
    have Gr := settable_grounded (S := S) d
    obtain ⟨hevolves, -, -, -⟩ := hrot.guarantees Gr hg.sound
    obtain ⟨l₀, l₁, hl₀, hfetch, hl₇⟩ := hrot.fetched
    have hs : Later S d s₂ s₇ := Gr.later hrot.before
    obtain ⟨hsteady, hknown, hkept⟩ := (h.still hl₀).fetched hfetch hs
    refine ⟨trivial, trivial, ⟨s₂, ?_, hknown⟩, hl₇.adopted.trans hkept⟩
    exact (hsteady.of_secrets (by rw [hl₇.store]) hl₇.seen).later hevolves
  finish := by
    intro d op r s l hi _ _ hafter hlimit
    obtain ⟨hok, grant', hgrant', hstored⟩ := hlimit
    obtain ⟨grant, key, s₀, hg, hsteady⟩ := hafter hok
    refine ⟨grant, key, s₀, hg.finish, hsteady.of_secrets rfl rfl, ?_⟩
    rw [hg.opened.environment] at hstored
    obtain rfl : grant = grant' := by simpa using hstored
    rw [hsteady.seen] at hgrant'
    obtain ⟨key', hhead, hholds⟩ := Holds.of_grantAt hsteady.sound hgrant'
    obtain rfl := hg.holds.key_unique hholds
    exact hhead
  idle_stable := by
    intro d s s' l _ hi' hs _ hidle
    obtain ⟨grant, key, s₀, hg, hsteady, hhead⟩ := hidle
    exact ⟨grant, key, s₀, hg.later hs hi'.1.1, hsteady.later hs.toEvolves, hhead⟩

theorem settable_valid {S : Setup} : (settable S).Valid :=
  settable_layer.valid ((faithful_system S).restrict _) keyed_grounded (fun h => h.1) keyed_valid
    steadyAdoption_le

theorem settable_init {S : Setup} : (settable S).Good S.init where
  inv := ⟨keyed_init.inv, trivial⟩
  thread d := by
    have hkeyed := keyed_init.idle (O := keyed S) (w := S.init) (i := d) rfl
    have hi : S.init.shared.Sound S := keyed_init.inv.1
    obtain ⟨grant, key, hg, -⟩ := hkeyed.2
    refine ⟨hkeyed, grant, key, S.init.shared, hg, ⟨rfl, Evolves.refl _, hi, ?_⟩, ?_⟩
    · intro _ id row hrow
      have hrow : (S.store d).secrets.lookup id = some row := hrow
      rw [(S.noSecrets d).1] at hrow
      cases hrow
    · have hknown : key ∈ [Bytes.random S.vaultKey 0] := hg.holds.known
      rw [List.mem_singleton] at hknown
      rw [hknown]
      rfl

/-! ### The next version is free -/

/-- The history of a store has no version after the current one of its row. -/
def HistoryBound (store : Store) : Prop :=
  ∀ id version, store.secretVersions.lookup (id, version) ≠ none →
    ∃ row, store.secrets.lookup id = some row ∧ version ≤ row.version

/-- No row is replaced by one of a lower version, and no version is the last one of a set. -/
def noLowering : Limit where
  start _ _ _ _ := True
  exec _ c _ l _ _ _ :=
    match c with
    | .store (.putRemoteSecret _ secret) =>
        ∀ row, l.store.secrets.lookup secret.id = some row → row.version ≤ secret.version
    | .store (.vaultSet ..) =>
        ∀ id row, l.store.secrets.lookup id = some row → row.version < i64Max
    | _ => True
  finish _ _ _ _ _ := True

namespace HistoryBound

variable {store store' : Store}

theorem of_tables (h : HistoryBound store) (hs : store'.secrets = store.secrets)
    (hv : store'.secretVersions = store.secretVersions) : HistoryBound store' := by
  intro id version hver
  rw [hv] at hver
  rw [hs]
  exact h id version hver

/-- The history of a secret without a row is empty. -/
theorem eq_none (h : HistoryBound store) {id : Ident} (hid : store.secrets.lookup id = none)
    (version : Int) : store.secretVersions.lookup (id, version) = none := by
  by_contra hver
  obtain ⟨row, hrow, -⟩ := h id version hver
  rw [hid] at hrow
  cases hrow

/-- The version after the current one is not in the history. -/
theorem free (h : HistoryBound store) {id : Ident} {row : SecretRow}
    (hrow : store.secrets.lookup id = some row) (hmax : row.version < i64Max) :
    store.secretVersions.lookup (id, i64Succ row.version) = none := by
  by_contra hver
  obtain ⟨row', hrow', hle⟩ := h id _ hver
  rw [hrow] at hrow'
  cases hrow'
  rw [i64Succ_of_lt hmax] at hle
  omega

/-- A version that is not before the current one is written with its row. -/
theorem insert (h : HistoryBound store) (id : Ident) (row : SecretRow)
    (hle : ∀ row₀, store.secrets.lookup id = some row₀ → row₀.version ≤ row.version)
    (hrow : store'.secrets.lookup id = some row)
    (hother : ∀ id', id' ≠ id → store'.secrets.lookup id' = store.secrets.lookup id')
    (hv : ∀ key, store'.secretVersions.lookup key ≠ none → key ≠ (id, row.version) →
      store.secretVersions.lookup key ≠ none) : HistoryBound store' := by
  intro id' version hver
  by_cases hkey : (id', version) = (id, row.version)
  · obtain ⟨rfl, rfl⟩ := Prod.mk.inj hkey
    exact ⟨row, hrow, Int.le_refl _⟩
  · obtain ⟨row', hrow', hle'⟩ := h id' version (hv _ hver hkey)
    by_cases hid : id' = id
    · subst hid
      exact ⟨row, hrow, Int.le_trans hle' (hle row' hrow')⟩
    · exact ⟨row', (hother id' hid).trans hrow', hle'⟩

theorem withVersion (h : HistoryBound store) {id : Ident} {row : SecretRow} {enc : SecretVersion}
    (hrow : store.secrets.lookup id = some row) (hmax : row.version < i64Max) :
    HistoryBound (store.withVersion id (i64Succ row.version) enc) := by
  refine h.insert id (Store.newVersion (i64Succ row.version) enc row)
    ?_ ?_ (fun id' hid => Table.lookup_modify_of_ne hid _ _) ?_
  · intro row₀ hrow₀
    rw [hrow] at hrow₀
    cases hrow₀
    simp only [Store.newVersion, i64Succ_of_lt hmax]
    omega
  · simp [Store.withVersion, hrow]
  · intro key hkey hne
    have hne' : key ≠ (id, i64Succ row.version) := hne
    rwa [Store.withVersion, Table.lookup_insert, if_neg hne'] at hkey

theorem withSecret (h : HistoryBound store) {id envId : Ident} {enc : SecretVersion}
    (hid : store.secrets.lookup id = none) : HistoryBound (store.withSecret id envId enc) := by
  refine h.insert _ _ ?_ (AList.lookup_insert _)
    (fun id' hne => AList.lookup_insert_ne hne) ?_
  · intro row₀ hrow₀
    rw [hid] at hrow₀
    cases hrow₀
  · intro key hkey hne
    rwa [Store.withSecret, Table.lookup_insert, if_neg hne] at hkey

theorem withTombstone (h : HistoryBound store) {id : Ident} :
    HistoryBound (store.withTombstone id) := by
  intro id' version hver
  obtain ⟨row, hrow, hle⟩ := h id' version hver
  simp only [Store.withTombstone, Table.lookup_modify]
  split
  · exact ⟨{ row with deleted := true }, by rw [hrow]; rfl, hle⟩
  · exact ⟨row, hrow, hle⟩

theorem replaceSecret (h : HistoryBound store) {envId : Ident} {secret : SyncSecret}
    (hle : ∀ row, store.secrets.lookup secret.id = some row → row.version ≤ secret.version) :
    HistoryBound (store.replaceSecret envId secret) := by
  refine h.insert _ _ hle (AList.lookup_insert _) (fun id' hne => AList.lookup_insert_ne hne) ?_
  · intro key hkey hne
    simp only [Store.replaceSecret] at hkey
    split at hkey
    · exact hkey
    · rwa [Table.lookup_insert, if_neg hne] at hkey

theorem writes (h : HistoryBound store) {c : StoreCmd} (hw : c.Writes store store')
    (hremote : ∀ envId secret, c = .putRemoteSecret envId secret →
      ∀ row, store.secrets.lookup secret.id = some row → row.version ≤ secret.version)
    (hset : ∀ keypair projectId envName idSeed seed name value,
      c = .vaultSet keypair projectId envName idSeed seed name value →
      ∀ id row, store.secrets.lookup id = some row → row.version < i64Max) :
    HistoryBound store' := by
  cases hw with
  | nothing => exact h
  | granted => exact h.of_tables rfl rfl
  | replaced => exact h.replaceSecret (hremote _ _ rfl)
  | synced => exact h.of_tables rfl rfl
  | updated hrow _ => exact h.withVersion hrow (hset _ _ _ _ _ _ _ rfl _ _ hrow)
  | inserted hid => exact h.withSecret hid
  | deleted => exact h.withTombstone
  | identified => exact h.of_tables rfl rfl
  | projectCreated _ => exact h.of_tables rfl rfl
  | environmentCreated _ => exact h.of_tables rfl rfl

theorem executes {d : Nat} {c : Cmd} {s : Shared} {l : Device} {r : c.Reply}
    {s' : Shared} {l' : Device} (h : HistoryBound l.store) (he : Executes d c s l r s' l')
    (hlimit : noLowering.exec d c s l r s' l') : HistoryBound l'.store := by
  rcases he.writes with hstore | ⟨c', rfl, hw⟩
  · rw [hstore]
    exact h
  · refine h.writes hw ?_ ?_
    · rintro envId secret rfl
      exact hlimit
    · rintro keypair projectId envName idSeed seed name value rfl
      exact hlimit

end HistoryBound

/-! ### Sets -/

/-- The condition under which a set succeeds. -/
def settableRuns (S : Setup) : Limit where
  start _ _ _ _ := True
  exec d c s l r s' l' := (steadyAdoption S).exec d c s l r s' l' ∧ noLowering.exec d c s l r s' l'
  finish := (steadyAdoption S).finish

theorem settableRuns_le_steady {S : Setup} : (settableRuns S).Le (steadyAdoption S) :=
  ⟨fun h => h, fun h => h.1, fun h => h⟩

theorem settableRuns_le_noLowering {S : Setup} : (settableRuns S).Le noLowering :=
  ⟨fun h => h, fun h => h.2, fun _ => trivial⟩

/-- A set of a device succeeds, and a get of the name then returns the value. -/
def Settable (S : Setup) (d : Nat) (l : Device) (name : String) (value : Bytes) : Prop :=
  ∃ store vault, (setCmd S d l name value).exec l.store = (.ok (), store) ∧
    Vault.open store (S.keypair (S.user d)) S.projectId S.envName = .ok vault ∧
    vault.get name store = .ok value

section Holder

variable {S : Setup} {d : Nat} {s : Shared} {l : Device} {grant key : Bytes}

/-- The environment of a store opens with the key of its grant. -/
theorem Opened.open_eq {store : Store} {keypair : Keypair} (ho : Opened S store grant)
    (hkey : Core.Vault.openVaultKey keypair grant = .ok key) :
    Vault.open store keypair S.projectId S.envName = .ok ⟨S.envId, key⟩ := by
  simp [Vault.open, ho.getEnvironment, hkey, Error.ofCore, bind, Except.bind, pure, Except.pure]

/-- The id that a device draws for a secret is new. -/
theorem Holder.lookup_draw (hg : Holder S d grant key s l) :
    l.store.secrets.lookup (.uuid ⟨d + 1, l.draws⟩) = none := by
  cases hrow : l.store.secrets.lookup (.uuid ⟨d + 1, l.draws⟩) with
  | none => rfl
  | some row =>
      obtain ⟨-, ⟨_, name, _, hname, -⟩, -⟩ := hg.sound.rows _ row hrow
      exact absurd hname ((hg.sound.fresh l.draws (Nat.le_refl _)).1 name)

theorem Holder.settable (hg : Holder S d grant key s l) (hi : s.Sound S)
    (hsealed : AllSealed S key s l) (hbound : HistoryBound l.store)
    (hmax : ∀ id row, l.store.secrets.lookup id = some row → row.version < i64Max)
    (name : String) (value : Bytes) : Settable S d l name value := by
  have hopen := hg.opened.open_eq (hg.openVaultKey hi)
  have hall : Vault.AllShown ⟨S.envId, key⟩ l.store := by
    intro id row hrow _
    have hname : ∃ n, (id, n) ∈ s.created ∧ Cli.Vault.decryptName ⟨S.envId, key⟩ id row = .ok n :=
      decryptName_of_sealedUnder rfl (hsealed id row hrow)
    obtain ⟨n, -, hn⟩ := hname
    exact ⟨n, hn⟩
  have henv : l.store.environments.lookup S.envId ≠ none := by
    rw [hg.opened.environment]
    simp
  obtain ⟨store, hset, hget⟩ := Vault.set_get ⟨d + 1, l.draws⟩ ⟨d + 1, l.draws + 1⟩ name
    value hall henv
    ⟨hg.lookup_draw, hbound.eq_none hg.lookup_draw 1⟩
    fun id row hrow _ => hbound.free hrow (hmax id row hrow)
  have hby := setBy_of_setTo hg.sound hg.opened hg.holds ⟨_, hopen, hset⟩
  refine ⟨store, ⟨S.envId, key⟩, ?_, ?_, hget⟩
  · simp [setCmd, StoreCmd.exec, hopen, bind, Except.bind, hset, StoreCmd.write]
  · exact (hg.opened.of_environments hby.environments).open_eq (hg.openVaultKey hi)

end Holder

/-- In every run under the condition, a set of any name and value on an idle device succeeds,
as long as no row has the last version. -/
theorem set_succeeds (S : Setup) {w : Setup.World}
    (hw : (S.system.restrict (settableRuns S)).Reaches S.init w) {d : Nat}
    (hidle : (w.threads d).running = none)
    (hmax : ∀ id row, (w.threads d).own.store.secrets.lookup id = some row →
      row.version < i64Max) (name : String) (value : Bytes) :
    Settable S d (w.threads d).own name value := by
  have hgood : (settable S).Good w := settable_init.reaches settable_valid
    (keyed_init.layer keyed_valid steadyAdoption_le
      (grounded_reaches (hw.restrict_mono settableRuns_le_steady)))
  obtain ⟨grant, key, s₀, hg, hsteady, hhead⟩ := (hgood.idle hidle).2
  have hbound : HistoryBound (w.threads d).own.store := by
    refine System.Reaches.own (I := fun l => HistoryBound l.store) ?_ ?_ ?_ ?_
      (hw.restrict_mono settableRuns_le_noLowering)
    · intro op s l l' h hs
      rw [hs.1]
      exact h
    · intro c s l r s' l' h he
      exact h.executes he.1 he.2
    · intro op a s l l' h hf
      rw [hf.1]
      exact h
    · intro id version hver
      have hver : (S.store d).secretVersions.lookup (id, version) ≠ none := hver
      rw [(S.noSecrets d).2.1] at hver
      exact absurd rfl hver
  exact hg.settable hgood.inv.1.1 (hsteady.sealed hhead) hbound hmax name value

/-! ### Runs of the team -/

/-- A device changes a secret of another without pushing it, and then adopts a rotation of the
other. -/
def loweredRun : List Move :=
  Team.whole 0 (.set "X" Team.value) ++ Team.whole 0 .push ++ Team.whole 1 .pull ++
  Team.whole 1 (.set "X" (.raw "2".toUTF8)) ++ Team.whole 0 .rotate ++ Team.whole 1 .pull

set_option maxRecDepth 10000 in
/-- The pull puts the row back to its version on the server, and the next version is in the
history. -/
theorem set_fails : ∃ w, Team.setup.system.Reaches Team.setup.init w ∧
    (w.threads 1).running = none ∧
    (∀ id row, (w.threads 1).own.store.secrets.lookup id = some row → row.version < i64Max) ∧
    ((setCmd Team.setup 1 (w.threads 1).own "X" Team.value).exec (w.threads 1).own.store).1 =
      .error (.store
        "UNIQUE constraint failed: secret_versions.secret_id, secret_versions.version") := by
  refine ⟨Team.setup.run loweredRun Team.setup.init, Setup.reaches_run, ?_, ?_, ?_⟩
  · refine Option.isNone_iff_eq_none.1 ?_
    decide +kernel
  · have hall : ((Team.setup.run loweredRun Team.setup.init).threads 1).own.store.secrets.rows.all
        (fun e => e.2.version < i64Max) = true := by
      decide +kernel
    intro id row hrow
    simpa using List.all_eq_true.1 hall _ (Table.mem_rows.2 hrow)
  · decide +kernel

/-- The check of the condition. -/
def settableCheck (S : Setup) : Check where
  start _ _ _ _ := true
  exec _ c _ l :=
    match c with
    | .store (.updateEnvVaultKey _ _) =>
        l.store.secrets.rows.all fun e => (l.seen.secrets.lookup e.1).isSome
    | .store (.putRemoteSecret _ secret) =>
        (l.store.secrets.lookup secret.id).all fun row => row.version ≤ secret.version
    | .store (.vaultSet ..) => l.store.secrets.rows.all fun e => e.2.version < i64Max
    | _ => true
  finish d _ r _ l := (!l.adopted || r.toBool) && (grantAt S d l.seen).any fun grant =>
    decide (l.store.environments.lookup S.envId = some ⟨S.projectId, S.envName, grant⟩)

theorem settableCheck_le {S : Setup} : (settableCheck S).limit.Le (settableRuns S) where
  start := fun _ => trivial
  exec := by
    rintro d c s l r s' l' ⟨h, -⟩
    refine ⟨?_, ?_⟩
    · simp only [steadyAdoption, allCoveredAdoption]
      split
      · intro id row hrow hnone
        have := List.all_eq_true.1 h _ (Table.mem_rows.2 hrow)
        rw [hnone] at this
        cases this
      · trivial
    · simp only [noLowering]
      split
      · intro row hrow
        simpa [settableCheck, hrow] using h
      · intro id row hrow
        simpa using List.all_eq_true.1 h _ (Table.mem_rows.2 hrow)
      · trivial
  finish := by
    intro d op r s l h
    obtain ⟨hok, hgrant⟩ := Bool.and_eq_true_iff.1 h
    obtain ⟨grant, hgrant, hstored⟩ := (Option.any_eq_true _ _).1 hgrant
    refine ⟨?_, grant, hgrant, of_decide_eq_true hstored⟩
    intro hadopted
    simpa [hadopted] using hok

set_option maxRecDepth 10000 in
/-- A run under the condition, in which a device with two versions of a secret adopts a
rotation. -/
theorem set_succeeds_rotated : ∃ l, l.store.secretVersions.rows.length = 2 ∧ l.adopted = true ∧
    Settable Team.setup 1 l "X" (.raw "3".toUTF8) := by
  let moves := Team.whole 0 (.set "X" Team.value) ++ Team.whole 0 .push ++ Team.whole 1 .pull ++
    Team.whole 1 (.set "X" (.raw "2".toUTF8)) ++ Team.whole 1 .push ++ Team.whole 0 .pull ++
    Team.whole 0 .rotate ++ Team.whole 1 .pull
  have hreaches : (Team.setup.system.restrict (settableRuns Team.setup)).Reaches Team.setup.init
      (Team.setup.run moves Team.setup.init) :=
    (Setup.run_reaches (C := settableCheck Team.setup) (by decide +kernel)).restrict_mono
      settableCheck_le
  have hidle : ((Team.setup.run moves Team.setup.init).threads 1).running.isNone = true := by
    decide +kernel
  have hall : ((Team.setup.run moves Team.setup.init).threads 1).own.store.secrets.rows.all
      (fun e => e.2.version < i64Max) = true := by
    decide +kernel
  refine ⟨_, by decide +kernel, by decide +kernel, set_succeeds Team.setup hreaches
    (Option.isNone_iff_eq_none.1 hidle) ?_ "X" (.raw "3".toUTF8)⟩
  intro id row hrow
  simpa using List.all_eq_true.1 hall _ (Table.mem_rows.2 hrow)

end Sotto
