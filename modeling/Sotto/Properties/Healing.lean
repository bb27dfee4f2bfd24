import Sotto.Base.Layer
import Sotto.Properties.Keyed

/-!
# Pulls that heal

A pull without force skips rows of equal version, so what an earlier pull left behind is
healed only if every local row is older than the server's or already sealed under the key of
the stored grant. It is, as long as a device replaces its grant only by the one that was the
server's when it read the rows, and an operation that fails after it replaced the grant
leaves no row of equal version under the key before.
-/

namespace Sotto

open Core Cli

/-- A server row replaces a local row without force. -/
def Wins (r : Server.Secret) (row : SecretRow) : Prop :=
  row.version < r.version ∨ r.version = row.version ∧ r.deleted = true ∧ row.deleted = false

/-- Every local row that the server has a row of is replaced by it, or sealed under `key`. -/
def Healable (S : Setup) (key : Bytes) (s : Shared) (l : Device) : Prop :=
  ∀ id r row, s.db.secrets.lookup id = some r → l.store.secrets.lookup id = some row →
    Wins r row ∨ SealedUnder S s.created key id row.version row.enc

/-- Every row of the server has a local row, which is sealed under `key`. -/
def UpToDate (S : Setup) (key : Bytes) (s : Shared) (l : Device) : Prop :=
  ∀ id r, s.db.secrets.lookup id = some r → ∃ row, l.store.secrets.lookup id = some row ∧
    SealedUnder S s.created key id row.version row.enc

/-- The invariant of a device whose grant seals `key`, while that is the current key: a pull
heals its rows, and at the revision it recorded they are healed. -/
structure Healing (S : Setup) (key : Bytes) (s : Shared) (l : Device) : Prop where
  healable : s.keys.head? = some key → Healable S key s l
  synced : ∀ n, RevisionAt S s n → l.store.syncedRevision S.envId ≤ n ∧
    (l.store.syncedRevision S.envId = n → s.keys.head? = some key → UpToDate S key s l)

/-- A row does not replace its copy. -/
theorem not_wins_localRow {envId : Ident} {r : Server.Secret} : ¬ Wins r (localRow envId r) := by
  rintro (h | ⟨-, hd, hlive⟩)
  · simp only [localRow] at h
    omega
  · simp [localRow, hd] at hlive

theorem Wins.later {p : Prop} {r r' : Server.Secret} {row : SecretRow} (h : Wins r row)
    (hr : RowLater p r r') : Wins r' row := by
  rcases hr.version with hlt | ⟨heq, -, -, hd, -⟩
  · rcases h with h | ⟨h, -⟩
    · exact Or.inl (by omega)
    · exact Or.inl (by omega)
  · rcases h with h | ⟨h, hdel, hlive⟩
    · exact Or.inl (by omega)
    · exact Or.inr ⟨by omega, hd hdel, hlive⟩

section Device

variable {S : Setup} {d : Nat} {s s' : Shared} {l l' : Device} {grant key : Bytes}

theorem UpToDate.of_secrets (h : UpToDate S key s l) (hl : l'.store.secrets = l.store.secrets) :
    UpToDate S key s l' := by
  intro id r hr
  rw [hl]
  exact h id r hr

theorem Healable.evolves (h : Healable S key s l) (hs : Evolves S s s') (hl : NoArrival s s' l) :
    Healable S key s' l := by
  intro id r' row hr' hrow
  obtain ⟨r, hr, hlater⟩ := hl.lookup hs hrow hr'
  rcases h id r row hr hrow with hwins | hunder
  · exact Or.inl (hwins.later hlater)
  · exact Or.inr (hunder.mono hs.created)

theorem Healing.evolves (h : Healing S key s l) (hs : Evolves S s s') (hl : NoArrival s s' l)
    (hi' : s'.Sound S) (hknown : key ∈ s.keys) : Healing S key s' l := by
  have hhead := hs.head_eq hi'.nodup hknown
  refine ⟨fun hh => (h.healable (hhead hh)).evolves hs hl, ?_⟩
  intro n' hn'
  obtain ⟨n, hn⟩ := hs.exists_revision hn'
  obtain ⟨hle, hdate⟩ := h.synced n hn
  have hle' := hs.revision_le hn hn'
  refine ⟨by omega, ?_⟩
  intro heq hh id r' hr'
  obtain rfl : n = n' := by omega
  obtain ⟨hdb, -⟩ := hs.eq_of_revision hn hn'
  rw [hdb] at hr'
  obtain ⟨row, hrow, hunder⟩ := hdate heq (hhead hh) id r' hr'
  exact ⟨row, hrow, hunder.mono hs.created⟩

theorem Healing.of_store (h : Healing S key s l) (hl : l'.store = l.store) : Healing S key s l' := by
  refine ⟨?_, ?_⟩
  · intro hh id r row hr hrow
    rw [hl] at hrow
    exact h.healable hh id r row hr hrow
  · intro n hn
    rw [hl]
    obtain ⟨hle, hdate⟩ := h.synced n hn
    refine ⟨hle, ?_⟩
    intro heq hh id r hr
    rw [hl]
    exact hdate heq hh id r hr

/-- The rows of the server are sealed under the current key. -/
theorem Shared.Keyed.sealedUnder (h : s.Keyed S) (hh : s.keys.head? = some key) {id : Ident}
    {r : Server.Secret} (hr : s.db.secrets.lookup id = some r) :
    SealedUnder S s.created key id (localRow S.envId r).version (localRow S.envId r).enc := by
  obtain ⟨key', hh', hunder⟩ := h.rows id r hr
  rw [hh] at hh'
  cases hh'
  exact hunder

theorem Healable.merge (h : Healable S key s' l) {force : Bool}
    {rows : List (Ident × Server.Secret)} (hs : Evolves S s s') (hkeyed : s.Keyed S)
    (hh : s.keys.head? = some key) (hrows : rows ⊆ s.db.secretsOf S.envId) :
    Healable S key s' (l.merge S force rows) := by
  intro id r' row hr' hrow
  rcases Device.lookup_merge_cases hrow with hkeep | ⟨r, hr, rfl⟩
  · exact h id r' row hr' hkeep
  · exact Or.inr ((hkeyed.sealedUnder hh (mem_secretsOf.1 (hrows hr)).1).mono hs.created)

theorem UpToDate.merge (h : UpToDate S key s' l) {force : Bool}
    {rows : List (Ident × Server.Secret)} (hs : Evolves S s s') (hkeyed : s.Keyed S)
    (hh : s.keys.head? = some key) (hrows : rows ⊆ s.db.secretsOf S.envId) :
    UpToDate S key s' (l.merge S force rows) := by
  intro id r' hr'
  obtain ⟨row, hrow, hunder⟩ := h id r' hr'
  have hcases : (l.merge S force rows).store.secrets.lookup id = l.store.secrets.lookup id ∨
      ∃ r, (id, r) ∈ rows ∧
        (l.merge S force rows).store.secrets.lookup id = some (localRow S.envId r) :=
    Store.lookup_mergeAll_cases id
  rcases hcases with hkeep | ⟨r, hr, hcopy⟩
  · exact ⟨row, by rw [hkeep, hrow], hunder⟩
  · refine ⟨_, hcopy, ?_⟩
    exact (hkeyed.sealedUnder hh (mem_secretsOf.1 (hrows hr)).1).mono hs.created

/-- After all rows were applied, every row of the server has a sealed local row. -/
theorem UpToDate.of_merge {force : Bool} (h : force = false → Healable S key s l)
    (hlocal : ∀ id row, l.store.secrets.lookup id = some row → row.envId = S.envId)
    (hi : s.Sound S) (hkeyed : s.Keyed S) (hh : s.keys.head? = some key) :
    UpToDate S key s (l.merge S force (s.db.secretsOf S.envId)) := by
  intro id r hr
  have hmem : (id, r) ∈ s.db.secretsOf S.envId := mem_secretsOf.2 ⟨hr, (hi.rows id r hr).1⟩
  have hlookup : (l.merge S force (s.db.secretsOf S.envId)).store.secrets.lookup id = _ :=
    Store.lookup_mergeAll (nodup_secretsOf _ _) hmem
  rw [hlookup]
  split
  · exact ⟨_, rfl, hkeyed.sealedUnder hh hr⟩
  · next htakes =>
      cases force with
      | true => simp [Store.takes] at htakes
      | false =>
          cases hrow : l.store.secrets.lookup id with
          | none => simp [Store.takes, Store.findSecret, hrow, remoteWins] at htakes
          | some row =>
              refine ⟨row, rfl, ?_⟩
              rcases h rfl id r row hr hrow with hwins | hunder
              · exact absurd ((Store.takes_iff hrow (hlocal id row hrow)).2 hwins) htakes
              · exact hunder

/-- After all rows were applied, none replaces its local row. -/
theorem exists_not_wins_merge {force : Bool}
    (hlocal : ∀ id row, l.store.secrets.lookup id = some row → row.envId = S.envId)
    (hi : s.Sound S) {id : Ident} {r : Server.Secret} (hr : s.db.secrets.lookup id = some r) :
    ∃ row, (l.merge S force (s.db.secretsOf S.envId)).store.secrets.lookup id = some row ∧
      ¬ Wins r row := by
  have hmem : (id, r) ∈ s.db.secretsOf S.envId := mem_secretsOf.2 ⟨hr, (hi.rows id r hr).1⟩
  have hlookup : (l.merge S force (s.db.secretsOf S.envId)).store.secrets.lookup id = _ :=
    Store.lookup_mergeAll (nodup_secretsOf _ _) hmem
  rw [hlookup]
  split
  · exact ⟨_, rfl, not_wins_localRow⟩
  · next htakes =>
      cases hrow : l.store.secrets.lookup id with
      | none => simp [Store.takes, Store.findSecret, hrow, remoteWins] at htakes
      | some row =>
          refine ⟨row, rfl, ?_⟩
          intro hwins
          have := (Store.takes_iff hrow (hlocal id row hrow)).2 hwins
          cases force with
          | true => simp [Store.takes] at htakes
          | false => exact htakes this

/-- A device that is up to date at a state is healed by a pull at a later one. -/
theorem Healing.of_upToDate (h : s.keys.head? = some key → UpToDate S key s l)
    (hknown : key ∈ s.keys) (hs : Evolves S s s') (hl : NoArrival s s' l) (hi' : s'.Sound S)
    (hrev : ∀ n, RevisionAt S s n → l.store.syncedRevision S.envId ≤ n) : Healing S key s' l := by
  refine Healing.evolves ⟨?_, ?_⟩ hs hl hi' hknown
  · intro hh id r row hr hrow
    obtain ⟨row', hrow', hunder⟩ := h hh id r hr
    rw [hrow] at hrow'
    cases hrow'
    exact Or.inr hunder
  · intro n hn
    exact ⟨hrev n hn, fun _ => h⟩

theorem Healing.merge (h : Healing S key s' l) {force : Bool}
    {rows : List (Ident × Server.Secret)} (hs : Evolves S s s') (hkeyed : s.Keyed S)
    (hhead : s'.keys.head? = some key → s.keys.head? = some key)
    (hrows : rows ⊆ s.db.secretsOf S.envId) : Healing S key s' (l.merge S force rows) := by
  refine ⟨fun hh => (h.healable hh).merge hs hkeyed (hhead hh) hrows, ?_⟩
  intro n hn
  have hsync : (l.merge S force rows).store.syncedRevision S.envId =
      l.store.syncedRevision S.envId := by
    rw [Store.syncedRevision, Store.syncedRevision, Device.merge,
      Store.sameFrame_mergeAll.syncState]
  obtain ⟨hle, hdate⟩ := h.synced n hn
  rw [hsync]
  exact ⟨hle, fun heq hh => (hdate heq hh).merge hs hkeyed (hhead hh) hrows⟩

end Device

/-! ### The outline -/

/-- Every row that a device last read replaces its local row, or the local row is a copy. -/
def Mended (S : Setup) (l : Device) : Prop :=
  ∀ id r row, l.seen.secrets.lookup id = some r → l.store.secrets.lookup id = some row →
    Wins r row ∨ row = localRow S.envId r

/-- A device replaces its grant only by the one that was the server's when it read the rows,
of which there is one for each of its live secrets; and when the operation fails after that,
no live row is ahead of what it read, and every row that a pull would not replace is a copy. -/
def healingAdoption (S : Setup) : Limit where
  start _ _ _ _ := True
  exec d c _ l r _ _ :=
    match c, r with
    | .store (.updateEnvVaultKey _ grant), .ok _ => Covered l ∧ grantAt S d l.seen = some grant
    | _, _ => True
  finish _ _ r _ l := l.adopted = true → r.toBool = false → NoneAhead l ∧ Mended S l

theorem healingAdoption_le {S : Setup} : (healingAdoption S).Le coveredAdoption where
  start := fun _ => trivial
  exec := by
    rintro d c s l r s' l' h
    simp only [coveredAdoption]
    split
    · exact h.1
    · trivial
  finish := fun h ha hr => (h ha hr).1

/-- A device that adopted a grant of `key` and applied a part of the rows it had read. -/
structure Torn (S : Setup) (key : Bytes) (s : Shared) (l : Device) : Prop where
  read : ∃ s₂, l.seen = s₂.db ∧ Evolves S s₂ s ∧ NoArrival s₂ s l ∧ s₂.Keyed S ∧
    s₂.keys.head? = some key ∧
    ∀ n, RevisionAt S s₂ n → l.store.syncedRevision S.envId ≤ n ∧
      (l.store.syncedRevision S.envId = n → ∀ id r, s₂.db.secrets.lookup id = some r →
        ∃ row, l.store.secrets.lookup id = some row ∧ ¬ Wins r row)

/-- A device after an operation. -/
structure HealingAfter (S : Setup) (d : Nat) (ok : Bool) (s : Shared) (l : Device) : Prop where
  healing : (l.adopted = true → ok = true) → ∃ grant key, Holder S d grant key s l ∧
    Healing S key s l
  torn : l.adopted = true → ok = false → ∃ grant key, Holder S d grant key s l ∧ Torn S key s l

/-- What the outline adds: a pull heals the rows of a device. -/
def healingExtension (S : Setup) :
    Outline.Extension Nat Cmd.Reply Shared Device Op (Except Cli.Error Unit) where
  limit := healingAdoption S
  inv _ := True
  guar _ _ _ _ _ := True
  idle d s l := ∃ grant key, Holder S d grant key s l ∧ Healing S key s l
  post d _ r s l := HealingAfter S d r.toBool s l

/-- The outline over the one of what is keyed. -/
def healing (S : Setup) : Outline ((S.grounded.restrict (keyed S).condition).restrict
    (healingAdoption S)) :=
  (keyed S).extend (healingExtension S)

/-- The setting of a device. -/
abbrev healingSetting (S : Setup) (d : Nat) : Setting Cmd.Reply Shared Device :=
  (healing S).setting d

theorem healing_grounded {S : Setup} (d : Nat) : Grounded S d (healingSetting S d) :=
  (keyed_grounded d).extend (fun h => h.1) fun _ _ _ => trivial

/-- A device in the middle of an operation that has not adopted a grant. -/
structure Healed (S : Setup) (_ : Nat) (_ key : Bytes) (s : Shared) (l : Device) : Prop where
  healing : Healing S key s l
  kept : l.adopted = false

section Rounds

variable {S : Setup} {d : Nat} {s s' : Shared} {l l' : Device} {grant key : Bytes}

theorem HealingAfter.of_kept {ok : Bool} (hg : Holder S d grant key s l) (h : Healing S key s l)
    (ha : l.adopted = false) : HealingAfter S d ok s l := by
  refine ⟨fun _ => ⟨grant, key, hg, h⟩, ?_⟩
  intro ha'
  rw [ha] at ha'
  cases ha'

/-- What a torn device is left with is healed by a pull, when its rows are mended. -/
theorem Torn.healing (h : Torn S key s l) (hm : Mended S l) (hi : s.Sound S) :
    Healing S key s l := by
  obtain ⟨s₂, hseen, hs, hno, hkeyed, hhead, hrev⟩ := h.read
  have hcopy : ∀ id r row, s₂.db.secrets.lookup id = some r →
      l.store.secrets.lookup id = some row →
      Wins r row ∨ SealedUnder S s₂.created key id row.version row.enc := by
    intro id r row hr hrow
    rcases hm id r row (by rw [hseen]; exact hr) hrow with hwins | rfl
    · exact Or.inl hwins
    · exact Or.inr (hkeyed.sealedUnder hhead hr)
  refine Healing.evolves ⟨fun _ => hcopy, ?_⟩ hs hno hi (List.mem_of_mem_head? hhead)
  intro n hn
  obtain ⟨hle, hall⟩ := hrev n hn
  refine ⟨hle, ?_⟩
  intro heq _ id r hr
  obtain ⟨row, hrow, hnot⟩ := hall heq id r hr
  rcases hcopy id r row hr hrow with hwins | hunder
  · exact absurd hwins hnot
  · exact ⟨row, hrow, hunder⟩

theorem Healing.later (h : Healing S key s l) (hg : Holder S d grant key s l)
    (hs : Later S d s s') (hi : s'.Sound S) : Healing S key s' l :=
  h.evolves hs.toEvolves (hg.sound.noArrival hs) hi hg.holds.known

section Read

variable {s₁ s₂ s₃ : Shared} {revision : Int} {l₁ l₂ : Device} {grant' : Bytes}

theorem Fetched.revision_le {G : Setting Cmd.Reply Shared Device} (Gr : Grounded S d G)
    (hfetch : Fetched S d G s l s₁ s₂ revision l₁) {n : Int} (hn : RevisionAt S s₂ n) :
    revision ≤ n :=
  (Gr.later hfetch.between).toEvolves.revision_le hfetch.revision hn

theorem Healing.fetched (h : Healing S key s l) (hg : Holder S d grant key s l)
    (hfetch : Fetched S d (healingSetting S d) s l s₁ s₂ revision l₁) (hs : Later S d s₂ s')
    (hi : s'.Sound S) : Healing S key s' l₁ :=
  (h.later hg (((hfetch.later (healing_grounded d)).trans hs)) hi).of_store hfetch.same.store

/-- A device that applied all rows and recorded their revision. -/
theorem Healing.synced_of_upToDate (hl : l'.Sound S d s₂) (hknown : key ∈ s₂.keys)
    (hup : s₂.keys.head? = some key → UpToDate S key s₂ l')
    (hfetch : Fetched S d (healingSetting S d) s l s₁ s₂ revision l₁) (hs : Later S d s₂ s')
    (hi : s'.Sound S) (hsync : l'.store.syncedRevision S.envId = revision) :
    Healing S key s' l' := by
  refine Healing.of_upToDate hup hknown hs.toEvolves (hl.noArrival hs) hi ?_
  intro n hn
  rw [hsync]
  exact hfetch.revision_le (healing_grounded d) hn

theorem Healing.forward (h : Healing S key s l) (hg : Holder S d grant key s l)
    (hfetch : Fetched S d (healingSetting S d) s l s₁ s₂ revision l₁) (hs : Later S d s₂ s')
    (hi : s'.Sound S) : Healing S key s' (l₁.forward S (s₂.db.secretsOf S.envId) revision) := by
  have Gr : Grounded S d (healingSetting S d) := healing_grounded d
  have hi₂ := Gr.sound hfetch.inv₂
  have hg₁ := hg.fetched Gr hfetch (Later.refl s₂) hi₂
  have hg₂ := hg.forward Gr hfetch (Later.refl s₂) hi₂
  have h₁ := h.fetched hg hfetch (Later.refl s₂) hi₂
  refine Healing.synced_of_upToDate hg₂.sound hg₂.holds.known ?_ hfetch hs hi
    Store.syncedRevision_withRevision
  intro hh
  exact (UpToDate.of_merge (fun _ => h₁.healable hh)
    (fun id row hrow => (hg₁.sound.rows id row hrow).1) hi₂ hfetch.inv₂.1.2 hh).of_secrets rfl

theorem Healing.mergeFetched (h : Healing S key s l) (hg : Holder S d grant key s l)
    (hfetch : Fetched S d (healingSetting S d) s l s₁ s₂ revision l₁) (hs : Later S d s₂ s')
    (hi : s'.Sound S) (n : Nat) :
    Healing S key s' (l₁.merge S false ((s₂.db.secretsOf S.envId).take n)) := by
  have Gr : Grounded S d (healingSetting S d) := healing_grounded d
  have hg₂ := hg.fetched Gr hfetch (Later.refl s₂) (Gr.sound hfetch.inv₂)
  exact (h.fetched hg hfetch hs hi).merge hs.toEvolves hfetch.inv₂.1.2
    (hs.toEvolves.head_eq hi.nodup hg₂.holds.known) (List.take_subset _ _)

/-- A device that adopts a grant adopts the one that the rows it read are sealed under. -/
structure Fresh (S : Setup) (d : Nat) (s₂ s' : Shared) (l₁ : Device) (grant key : Bytes)
    (l₂ : Device) : Prop where
  head : s₂.keys.head? = some key
  holder : Holder S d grant key s' l₂
  sound : l₂.Sound S d s₂
  seen : l₂.seen = s₂.db
  adopted : l₂.adopted = true
  secrets : l₂.store.secrets = l₁.store.secrets
  syncState : l₂.store.syncState = l₁.store.syncState

theorem Adopted.fresh (hl : l₁.Sound S d s₂) (hi₂ : s₂.Sound S) (hi : s'.Sound S)
    (hseen : l₁.seen = s₂.db)
    (h : Adopted S d (healingSetting S d) grant s₂ l₁ s₃ grant' s' l₂) :
    ∃ key', Fresh S d s₂ s' l₁ grant' key' l₂ := by
  have Gr : Grounded S d (healingSetting S d) := healing_grounded d
  have hs : Later S d s₂ s' := Gr.later h.rely
  obtain ⟨key', -, hg⟩ := Holder.adopted Gr (hl.later hs hi) hi h
  obtain ⟨_, l₄, hl₄, -, -, hexec, rfl⟩ := h.exec
  have hcurrent : grantAt S d l₄.seen = some grant' := hexec.2.2
  rw [hl₄.seen, hseen] at hcurrent
  obtain ⟨key₂, hhead, hholds⟩ := Holds.of_grantAt hi₂ hcurrent
  have hkey : key₂ = key' := hholds.key_unique hg.holds
  subst hkey
  refine ⟨key₂, hhead, hg, (hl.same hl₄.toSame).adopt ⟨key₂, hholds⟩, ?_, rfl, ?_, ?_⟩
  · exact hl₄.seen.trans hseen
  · rw [← hl₄.store]
    rfl
  · rw [← hl₄.store]
    rfl

namespace Fresh

variable {key' : Bytes}

theorem merge (h : Fresh S d s₂ s' l₁ grant' key' l₂)
    (hfetch : Fetched S d (healingSetting S d) s l s₁ s₂ revision l₀)
    {rows : List (Ident × Server.Secret)} (hrows : rows ⊆ s₂.db.secretsOf S.envId) :
    (l₂.merge S true rows).Sound S d s₂ :=
  h.sound.mergeFetched (healing_grounded d) hfetch (Evolves.refl s₂) hrows

theorem upToDate (h : Fresh S d s₂ s' l₁ grant' key' l₂) (hi₂ : s₂.Sound S)
    (hkeyed₂ : s₂.Keyed S) : UpToDate S key' s₂ (l₂.merge S true (s₂.db.secretsOf S.envId)) :=
  UpToDate.of_merge (by simp) (fun id row hrow => (h.sound.rows id row hrow).1) hi₂ hkeyed₂ h.head

/-- When only a part of the rows was applied, the device is torn. -/
theorem torn (h : Fresh S d s₂ s' l₁ grant' key' l₂)
    (hfetch : Fetched S d (healingSetting S d) s l s₁ s₂ revision l₀) (hs : Later S d s₂ s')
    {rows : List (Ident × Server.Secret)} (hrows : rows ⊆ s₂.db.secretsOf S.envId)
    (hsync : ∀ n, RevisionAt S s₂ n → l₁.store.syncedRevision S.envId ≤ n ∧
      (l₁.store.syncedRevision S.envId = n → ∀ id r, s₂.db.secrets.lookup id = some r →
        ∃ row, l₁.store.secrets.lookup id = some row ∧ ¬ Wins r row)) :
    Torn S key' s' (l₂.merge S true rows) := by
  refine ⟨s₂, h.seen, hs.toEvolves, (h.merge hfetch hrows).noArrival hs, hfetch.inv₂.1.2,
    h.head, ?_⟩
  intro n hn
  obtain ⟨hle, hall⟩ := hsync n hn
  have hrev : (l₂.merge S true rows).store.syncedRevision S.envId =
      l₁.store.syncedRevision S.envId := by
    rw [Store.syncedRevision, Store.syncedRevision, Device.merge,
      Store.sameFrame_mergeAll.syncState, h.syncState]
  rw [hrev]
  refine ⟨hle, ?_⟩
  intro heq id r hr
  obtain ⟨row, hrow, hnot⟩ := hall heq id r hr
  have hcases : (l₂.merge S true rows).store.secrets.lookup id = l₂.store.secrets.lookup id ∨
      ∃ r, (id, r) ∈ rows ∧
        (l₂.merge S true rows).store.secrets.lookup id = some (localRow S.envId r) :=
    Store.lookup_mergeAll_cases id
  rcases hcases with hkeep | ⟨r', hr', hcopy⟩
  · exact ⟨row, by rw [hkeep, h.secrets, hrow], hnot⟩
  · have hr'' := (mem_secretsOf.1 (hrows hr')).1
    rw [hr] at hr''
    cases hr''
    exact ⟨_, hcopy, not_wins_localRow⟩

end Fresh

end Read

/-- A pull heals a device, or leaves it torn. -/
theorem HealingAfter.pulled {r : Except Cli.Error Int} (hg : Holder S d grant key s l)
    (h : Healing S key s l) (ha : l.adopted = false) (hi : s'.Sound S)
    (hpulled : Pulled S d (healingSetting S d) grant s l r s' l') :
    HealingAfter S d r.toBool s' l' := by
  have Gr : Grounded S d (healingSetting S d) := healing_grounded d
  cases hpulled with
  | stopped hlooked =>
      have hs : Later S d s s' := Gr.later hlooked.rely
      have hsame := hlooked.same
      exact .of_kept ((hg.later hs hi).same hsame) ((h.later hg hs hi).of_store hsame.store)
        (hsame.adopted.trans ha)
  | current hs₁ _ _ hs' hsame =>
      have hs : Later S d s s' := (Gr.later hs₁).trans (Gr.later hs')
      exact .of_kept ((hg.later hs hi).same hsame.toSame)
        ((h.later hg hs hi).of_store hsame.store) (hsame.adopted.trans ha)
  | @kept s₁ s₂ revision l₁ _ _ _ _ hfetch hkept happly =>
      have hs : Later S d s₂ s' := Gr.later hkept.rely
      have ha₁ : l₁.adopted = false := hfetch.same.adopted.trans ha
      cases happly with
      | part e n =>
          exact .of_kept ((hg.fetched Gr hfetch hs hi).merge Gr hfetch hs.toEvolves
            (List.take_subset _ _)) (h.mergeFetched hg hfetch hs hi n) ha₁
      | whole =>
          exact .of_kept (hg.forward Gr hfetch hs hi) (h.forward hg hfetch hs hi) ha₁
  | @adopted s₁ s₂ _ revision l₁ grant' l₂ _ _ _ hne hfetch hadopt happly =>
      have hs : Later S d s₂ s' := Gr.later hadopt.rely
      have hi₂ := Gr.sound hfetch.inv₂
      have hg₁ := hg.fetched Gr hfetch (Later.refl s₂) hi₂
      obtain ⟨key', hfresh⟩ := hadopt.fresh hg₁.sound hi₂ hi hfetch.seen
      cases happly with
      | part e n =>
          refine ⟨fun hok => (by simp [Except.toBool, hfresh.adopted, Device.merge] at hok), ?_⟩
          intro _ _
          refine ⟨grant', key', hfresh.holder.merge Gr hfetch hs.toEvolves (List.take_subset _ _),
            hfresh.torn hfetch hs (List.take_subset _ _) ?_⟩
          intro m hm
          obtain ⟨n, hn⟩ := (Gr.later hfetch.before).toEvolves.exists_revision hfetch.revision
          have hle := (h.synced n hn).1
          have hle' := (Gr.later hfetch.before).toEvolves.revision_le hn hfetch.revision
          have hle'' := hfetch.revision_le Gr hm
          rw [hfetch.same.store]
          exact ⟨by omega, fun heq => absurd heq (by omega)⟩
      | whole =>
          refine ⟨fun _ => ⟨grant', key', ?_, ?_⟩, fun _ h => by cases h⟩
          · exact (hfresh.holder.merge Gr hfetch hs.toEvolves (List.Subset.refl _)).synced
          · exact Healing.synced_of_upToDate (hfresh.merge hfetch (List.Subset.refl _)).synced
              (List.mem_of_mem_head? hfresh.head)
              (fun _ => (hfresh.upToDate hi₂ hfetch.inv₂.1.2).of_secrets rfl) hfetch hs hi
              Store.syncedRevision_withRevision


/-- An accepted batch leaves a device that was up to date up to date. -/
theorem UpToDate.uploaded {revision : Int} (h : UpToDate S key s l) (hkeyed : s'.Keyed S)
    (hh : s'.keys.head? = some key) (hup : Uploaded S l.store revision s s') :
    UpToDate S key s' l := by
  intro id r' hr'
  have hunder : SealedUnder S s'.created key id r'.version r'.enc := hkeyed.sealedUnder hh hr'
  rw [hup.rows] at hr'
  rcases pushed_cases hr' with ⟨r, hr, -⟩ | ⟨row, hrow, -, -, rfl⟩
  · obtain ⟨row, hrow, hsealed⟩ := h id r hr
    exact ⟨row, hrow, by rw [hup.created]; exact hsealed⟩
  · exact ⟨row, hrow, hunder⟩

theorem Healing.wrote {s₁ s₂ s₄ : Shared} {revision : Int} {l₁ : Device}
    {access : Server.ProjectAccess} {v : Int} {l₄ l₅ : Device} (h : Healing S key s l)
    (hg : Holder S d grant key s l)
    (hwrote : Wrote S d (healingSetting S d) grant s l s₁ s₂ s₄ revision l₁ access v l₄ l₅)
    (hs : Later S d (afterBatch S s₂ s₄ revision access l₄) s') (hi : s'.Sound S)
    (hkeyed : (afterBatch S s₂ s₄ revision access l₄).Keyed S) :
    Healing S key s' l₅ ∧ Healing S key s' (l₅.synced S v) := by
  have Gr : Grounded S d (healingSetting S d) := healing_grounded d
  obtain ⟨hg₄, hg₅⟩ := hg.wrote Gr hwrote
  obtain ⟨rfl, hup⟩ := hwrote.uploaded Gr fun id row hrow => (hg₄.sound.rows id row hrow).1
  have h₄ : Healing S key s₄ l₄ :=
    (h.forward hg hwrote.fetched (Gr.later hwrote.before) (Gr.sound hwrote.inv₄)).of_store
      hwrote.forward.store
  have hsync : l₄.store.syncedRevision S.envId = revision := by
    rw [hwrote.forward.store]
    exact Store.syncedRevision_withRevision
  have hdate : (afterBatch S s₂ s₄ revision access l₄).keys.head? = some key →
      UpToDate S key (afterBatch S s₂ s₄ revision access l₄) l₅ := by
    intro hh
    have hh₄ := hh
    rw [hup.keys] at hh₄
    have hdate := ((h₄.synced revision hup.base).2 hsync hh₄).uploaded hkeyed hh hup
    rw [hwrote.seen]
    exact hdate.of_secrets rfl
  have hstore : l₅.store = l₄.store := by rw [hwrote.seen]
  constructor
  · refine Healing.of_upToDate hdate hg₅.holds.known hs.toEvolves (hg₅.sound.noArrival hs) hi ?_
    intro n hn
    have := hup.next.unique hn
    rw [hstore, hsync]
    omega
  · refine Healing.of_upToDate (fun hh => (hdate hh).of_secrets rfl) hg₅.holds.known hs.toEvolves
      (hg₅.sound.synced.noArrival hs) hi ?_
    intro n hn
    have hrev : (l₅.synced S (revision + 1)).store.syncedRevision S.envId = revision + 1 :=
      Store.syncedRevision_withRevision
    have := hup.next.unique hn
    rw [hrev]
    omega

/-- A round of a push that ends with a result. -/
theorem HealingAfter.pushRound {r : Except Cli.Error Int} (hg : Holder S d grant key s l)
    (h : Healing S key s l) (ha : l.adopted = false) (hi : s'.Sound S)
    (hround : PushRound S d (healingSetting S d) grant s l (some r) s' l') :
    HealingAfter S d r.toBool s' l' := by
  have Gr : Grounded S d (healingSetting S d) := healing_grounded d
  have hforward : ∀ {s₁ s₂ : Shared} {revision : Int} {l₁ m : Device},
      Fetched S d (healingSetting S d) s l s₁ s₂ revision l₁ → Later S d s₂ s' →
      (l₁.forward S (s₂.db.secretsOf S.envId) revision).Still m →
      HealingAfter S d r.toBool s' m := by
    intro s₁ s₂ revision l₁ m hfetch hs hm
    refine .of_kept ((hg.forward Gr hfetch hs hi).same hm.toSame)
      ((h.forward hg hfetch hs hi).of_store hm.store) ?_
    exact hm.adopted.trans (hfetch.same.adopted.trans ha)
  cases hround with
  | stopped _ hlooked =>
      have hs : Later S d s s' := Gr.later hlooked.rely
      have hsame := hlooked.same
      exact .of_kept ((hg.later hs hi).same hsame) ((h.later hg hs hi).of_store hsame.store)
        (hsame.adopted.trans ha)
  | part _ hfetch hs =>
      have hs : Later S d _ s' := Gr.later hs
      exact .of_kept ((hg.fetched Gr hfetch hs hi).merge Gr hfetch hs.toEvolves
        (List.take_subset _ _)) (h.mergeFetched hg hfetch hs hi _)
        (hfetch.same.adopted.trans ha)
  | forwarded _ hfetch hs hl' => exact hforward hfetch (Gr.later hs) hl'
  | refused hfetch hchanged hl' _ => exact hforward hfetch (Gr.later hchanged.rely) hl'
  | unchanged hfetch hkept hl' _ => exact hforward hfetch (Gr.later hkept.rely) hl'
  | @adopted s₁ s₂ s₃ revision l₁ grant' l₂ _ rows _ hfetch _ hadopt hrows =>
      have hs : Later S d s₂ s' := Gr.later hadopt.rely
      have hi₂ := Gr.sound hfetch.inv₂
      have hg₁ := hg.fetched Gr hfetch (Later.refl s₂) hi₂
      have hg₂ := hg.forward Gr hfetch (Later.refl s₂) hi₂
      obtain ⟨key', hfresh⟩ := hadopt.fresh hg₂.sound hi₂ hi hfetch.seen
      rcases hrows with ⟨rfl, rfl⟩ | ⟨e, n, -, rfl, rfl⟩
      · refine ⟨fun _ => ⟨grant', key', ?_, ?_⟩, fun _ h => by cases h⟩
        · exact hfresh.holder.merge Gr hfetch hs.toEvolves (List.Subset.refl _)
        · refine Healing.synced_of_upToDate (hfresh.merge hfetch (List.Subset.refl _))
            (List.mem_of_mem_head? hfresh.head)
            (fun _ => hfresh.upToDate hi₂ hfetch.inv₂.1.2) hfetch hs hi ?_
          rw [Store.syncedRevision, Device.merge, Store.sameFrame_mergeAll.syncState,
            hfresh.syncState]
          exact Store.syncedRevision_withRevision
      · refine ⟨fun hok => (by simp [Except.toBool, hfresh.adopted, Device.merge] at hok), ?_⟩
        intro _ _
        refine ⟨grant', key', hfresh.holder.merge Gr hfetch hs.toEvolves (List.take_subset _ _),
          hfresh.torn hfetch hs (List.take_subset _ _) ?_⟩
        intro m hm
        have hrev : (l₁.forward S (s₂.db.secretsOf S.envId) revision).store.syncedRevision S.envId =
            revision := Store.syncedRevision_withRevision
        rw [hrev]
        refine ⟨hfetch.revision_le Gr hm, ?_⟩
        intro _ id r hr
        exact exists_not_wins_merge (fun id row hrow => (hg₁.sound.rows id row hrow).1) hi₂ hr
  | @wrote s₁ s₂ s₄ revision l₁ access v l₄ l₅ _ _ _ hwrote hs hr =>
      have hs : Later S d _ s' := Gr.later hs
      obtain ⟨-, hg₅⟩ := hg.wrote Gr hwrote
      have hkeyed := hwrote.committed.exec.1.2.2.1.2
      obtain ⟨h₁, h₂⟩ := h.wrote hg hwrote hs hi hkeyed
      have ha₅ : l₅.adopted = false := by
        rw [hwrote.seen]
        exact hwrote.forward.adopted.trans (hwrote.fetched.same.adopted.trans ha)
      rcases hr with ⟨-, rfl⟩ | ⟨_, -, -, rfl⟩
      · exact .of_kept (hg₅.later hs hi).synced h₂ ha₅
      · exact .of_kept (hg₅.later hs hi) h₁ ha₅

end Rounds

theorem healing_layer {S : Setup} : Layer S (keyed S) (healingExtension S) (Healed S) where
  guar_refl := fun _ _ _ _ => trivial
  start := by
    intro d op s l grant key _ _ _ hidle _ hg
    obtain ⟨grant', key', hg', h⟩ := hidle
    obtain ⟨rfl, rfl⟩ := hg.grant_unique hg'.begin
    exact ⟨h.of_store rfl, rfl⟩
  later := by
    intro d grant key s s' l l' h hg hs hi' hlooked
    exact ⟨(h.healing.later hg hs hi'.1.1).of_store hlooked.same.store,
      hlooked.same.adopted.trans h.kept⟩
  set := by
    intro d grant key s l name value store h hg _ hby _
    have hcases : ∀ {id row}, store.secrets.lookup id = some row →
        l.store.secrets.lookup id = some row ∨
          SealedUnder S (afterSet name l.store store s).created key id row.version row.enc :=
      fun hrow => (hby.lookup hrow).imp_right fun h => h.2.1
    refine ⟨trivial, trivial, ⟨?_, ?_⟩, h.kept⟩
    · intro hh id r row hr hrow
      rcases hcases hrow with hold | hunder
      · exact (h.healing.healable hh id r row hr hold).imp_right
          fun hunder => hunder.mono (List.suffix_append _ _)
      · exact Or.inr hunder
    · intro n hn
      obtain ⟨hle, hdate⟩ := h.healing.synced n hn
      rw [← hby.syncedRevision] at hle hdate
      refine ⟨hle, ?_⟩
      intro heq hh id r hr
      obtain ⟨row, hrow, hsealed⟩ := hdate heq hh id r hr
      obtain ⟨row', hrow'⟩ := hby.exists_lookup hrow
      refine ⟨row', hrow', ?_⟩
      rcases hcases hrow' with hold | hunder
      · rw [hrow] at hold
        cases hold
        exact hsealed.mono (List.suffix_append _ _)
      · exact hunder
  delete := by
    intro d grant key s l name id row h hg _ hrow hlive hsealed _
    refine ⟨⟨?_, ?_⟩, h.kept⟩
    · intro hh id' r row' hr hrow'
      rcases lookup_withTombstone hrow' with hold | ⟨row₀, rfl, hrow₀, rfl⟩
      · exact h.healing.healable hh id' r row' hr hold
      · rw [hrow] at hrow₀
        cases hrow₀
        exact Or.inr hsealed
    · intro n hn
      obtain ⟨hle, hdate⟩ := h.healing.synced n hn
      refine ⟨hle, ?_⟩
      intro heq hh id' r hr
      obtain ⟨row₁, hrow₁, hsealed₁⟩ := hdate heq hh id' r hr
      obtain ⟨row', hrow'⟩ := exists_lookup_withTombstone id hrow₁
      refine ⟨row', hrow', ?_⟩
      rcases lookup_withTombstone hrow' with hold | ⟨row₀, rfl, hrow₀, rfl⟩
      · rw [hrow₁] at hold
        cases hold
        exact hsealed₁
      · rw [hrow] at hrow₀
        cases hrow₀
        exact hsealed
  ended := fun h hg _ _ => .of_kept hg h.healing h.kept
  pulled := by
    intro d op r grant key s l s' l' _ h hg hi' hpulled
    have hafter := HealingAfter.pulled hg h.healing h.kept hi'.1.1 hpulled
    cases r with
    | ok v => exact hafter
    | error e => exact hafter
  retried := by
    intro d grant key s l s' l' h hg hi' hround
    have Gr := healing_grounded (S := S) d
    cases hround with
    | forwarded _ hfetch hs hl' =>
        exact ⟨(h.healing.forward hg hfetch (Gr.later hs) hi'.1.1).of_store hl'.store,
          hl'.adopted.trans (hfetch.same.adopted.trans h.kept)⟩
  wrote := fun _ _ _ => ⟨trivial, trivial⟩
  pushed := by
    intro d r grant key s l s' l' h hg hi' hround
    have hafter := HealingAfter.pushRound hg h.healing h.kept hi'.1.1 hround
    cases r with
    | ok v => exact hafter
    | error e => exact hafter
  rotated := by
    intro d grant key s l s₁ s₂ s₇ revision keySeed access orgId rotation v l₇ _ _ h hg hrot
    have Gr := healing_grounded (S := S) d
    obtain ⟨hevolves, -, hsound, -⟩ := hrot.guarantees Gr hg.sound
    have hlater := hrot.later Gr
    have h₇ := h.healing.later hg hlater (Gr.sound hrot.inv₇)
    refine ⟨trivial, trivial, ?_, hrot.same.adopted.trans h.kept⟩
    exact (h₇.evolves hevolves (hrot.rekeyed Gr).noArrival hsound
      (hlater.toEvolves.keys.subset hg.holds.known)).of_store hrot.same.store
  finish := by
    intro d op r s l hi _ _ hafter hlimit
    by_cases hfailed : l.adopted = true ∧ r.toBool = false
    · obtain ⟨grant, key, hg, htorn⟩ := hafter.torn hfailed.1 hfailed.2
      obtain ⟨-, hmended⟩ := hlimit hfailed.1 hfailed.2
      exact ⟨grant, key, hg.finish, (htorn.healing hmended hi.1).of_store rfl⟩
    · obtain ⟨grant, key, hg, h⟩ := hafter.healing (by simpa using hfailed)
      exact ⟨grant, key, hg.finish, h.of_store rfl⟩
  idle_stable := by
    intro d s s' l hi hi' hs _ hidle
    obtain ⟨grant, key, hg, h⟩ := hidle
    exact ⟨grant, key, hg.later hs hi'.1.1, h.later hg hs hi'.1.1⟩

theorem healing_valid {S : Setup} : (healing S).Valid :=
  healing_layer.valid ((faithful_system S).restrict _) keyed_grounded (fun h => h.1) keyed_valid
    healingAdoption_le

theorem healing_init {S : Setup} : (healing S).Good S.init where
  inv := ⟨keyed_init.inv, trivial⟩
  thread d := by
    have hkeyed := keyed_init.idle (O := keyed S) (w := S.init) (i := d) rfl
    obtain ⟨grant, key, hg, -⟩ := hkeyed.2
    refine ⟨hkeyed, grant, key, hg, ?_, ?_⟩
    · intro _ id r row hr
      have hr : S.db.secrets.lookup id = some r := hr
      rw [S.secrets] at hr
      cases hr
    · rintro n ⟨env, henv, rfl⟩
      obtain ⟨encName, henv'⟩ := S.environment
      have henv : S.db.environments.lookup S.envId = some env := henv
      rw [henv] at henv'
      cases henv'
      have hsync : (S.store d).syncedRevision S.envId = 0 := by
        simp [Store.syncedRevision, (S.noSecrets d).2.2]
      refine ⟨Int.le_of_eq hsync, ?_⟩
      intro _ _ id r hr
      have hr : S.db.secrets.lookup id = some r := hr
      rw [S.secrets] at hr
      cases hr

/-- Every secret of the server is stored by a device, with a data key that opens under the
vault key of the device's grant. -/
def OpensAll (S : Setup) (d : Nat) (s : Shared) (l : Device) : Prop :=
  ∃ grant key, l.store.environments.lookup S.envId = some ⟨S.projectId, S.envName, grant⟩ ∧
    Core.Vault.openVaultKey (S.keypair (S.user d)) grant = .ok key ∧
    ∀ id r, s.db.secrets.lookup id = some r → ∃ row name value,
      l.store.secrets.lookup id = some row ∧ row.envId = S.envId ∧
      Core.Vault.decryptSecret key S.envId id row.version row.encName row.encValue
        row.encDataKey = .ok (name, value)

theorem UpToDate.opensAll {S : Setup} {d : Nat} {s : Shared} {l : Device} {grant key : Bytes}
    (h : UpToDate S key s l) (hg : Holder S d grant key s l) (hi : s.Sound S) :
    OpensAll S d s l := by
  refine ⟨grant, key, hg.opened.environment, hg.openVaultKey hi, ?_⟩
  intro id r hr
  obtain ⟨row, hrow, name, value, -, hopens⟩ := h id r hr
  exact ⟨row, _, value, hrow, (hg.sound.rows id row hrow).1, hopens.decryptSecret_eq⟩

/-- In an organisation, the user of a device has a grant, which is the stored one if the server
is at the revision that the device recorded. -/
def GrantCurrent (S : Setup) (d : Nat) (s : Shared) (l : Device) : Prop :=
  S.orgId ≠ none → ∃ grant, grantAt S d s.db = some grant ∧
    (RevisionAt S s (l.store.syncedRevision S.envId) →
      l.store.environments.lookup S.envId = some ⟨S.projectId, S.envName, grant⟩)

/-- What a pull that runs alone makes of a device that it heals. -/
theorem Refreshed.upToDate {S : Setup} {d : Nat} {s : Shared} {l l' : Device} {grant key : Bytes}
    (h : Refreshed S d grant s l l') (hg : Holder S d grant key s l) (hheal : Healing S key s l)
    (hi : s.Sound S) (hkeyed : s.Keyed S) (hgrant : GrantCurrent S d s l) :
    ∃ grant' key', Holder S d grant' key' s l' ∧ UpToDate S key' s l' := by
  have hpersonal : S.orgId = none → s.keys.head? = some key := by
    intro horg
    obtain ⟨key₀, hkeys⟩ := hkeyed.personal horg
    have hmem := hg.holds.known
    rw [hkeys, List.mem_singleton] at hmem
    rw [hkeys, hmem]
    rfl
  cases h with
  | current hrev hl =>
      have hhead : s.keys.head? = some key := by
        by_cases horg : S.orgId = none
        · exact hpersonal horg
        · obtain ⟨grant', hgrant', hstored⟩ := hgrant horg
          have henv := hg.opened.environment
          rw [hstored hrev] at henv
          obtain rfl : grant' = grant := by simpa using henv
          exact hg.head_of_grantAt hi hgrant'
      have hdate := (hheal.synced _ hrev).2 rfl hhead
      exact ⟨grant, key, hg.same hl.toSame, hdate.of_secrets (by rw [hl.store])⟩
  | @kept l₁ revision hrev _ hl₁ _ hcases =>
      have hhead : s.keys.head? = some key := by
        by_cases horg : S.orgId = none
        · exact hpersonal horg
        · obtain ⟨grant', hgrant', -⟩ := hgrant horg
          rcases hcases with hnone | hsame | hnone
          · exact absurd hnone horg
          · exact hg.head_of_grantAt hi hsame
          · rw [hgrant'] at hnone
            cases hnone
      have hg₁ : Holder S d grant key s l₁ := hg.same hl₁
      have hdate : UpToDate S key s (l₁.merge S false (s.db.secretsOf S.envId)) :=
        UpToDate.of_merge (fun _ => (hheal.of_store hl₁.store).healable hhead)
          (fun id row hrow => (hg₁.sound.rows id row hrow).1) hi hkeyed hhead
      have hmerged : (l₁.merge S false (s.db.secretsOf S.envId)).Sound S d s :=
        hg₁.sound.merge (Evolves.refl _) hi fun e he => (mem_secretsOf.1 he).1
      exact ⟨grant, key, Holder.synced ⟨hmerged, hg₁.opened.mergeAll, hg₁.holds⟩,
        hdate.of_secrets rfl⟩
  | @adopted l₁ revision grant' hrev _ hl₁ _ _ hgrant' _ =>
      obtain ⟨key', hhead, hholds⟩ := Holds.of_grantAt hi hgrant'
      have hg₁ : Holder S d grant key s l₁ := hg.same hl₁
      have hadopted : (l₁.adopt S grant').Sound S d s := hg₁.sound.adopt ⟨key', hholds⟩
      have hopen : Opened S (l₁.adopt S grant').store grant' := hg₁.opened.withGrant
      have hdate : UpToDate S key' s
          ((l₁.adopt S grant').merge S true (s.db.secretsOf S.envId)) :=
        UpToDate.of_merge (by simp) (fun id row hrow => (hadopted.rows id row hrow).1) hi hkeyed
          hhead
      have hmerged : ((l₁.adopt S grant').merge S true (s.db.secretsOf S.envId)).Sound S d s :=
        hadopted.merge (Evolves.refl _) hi fun e he => (mem_secretsOf.1 he).1
      exact ⟨grant', key', Holder.synced ⟨hmerged, hopen.mergeAll, hholds⟩, hdate.of_secrets rfl⟩

/-- What holds of an idle device in a run in which devices adopt only the grant of the rows
they have read and leave nothing behind. -/
theorem exists_healing {S : Setup} {w : Setup.World}
    (hw : (S.system.restrict (healingAdoption S)).Reaches S.init w) {d : Nat}
    (hidle : (w.threads d).running = none) :
    w.shared.Sound S ∧ w.shared.Keyed S ∧ ∃ grant key,
      Holder S d grant key w.shared (w.threads d).own ∧
      Healing S key w.shared (w.threads d).own := by
  have hgood : (healing S).Good w := healing_init.reaches healing_valid
    (keyed_init.layer keyed_valid healingAdoption_le (grounded_reaches hw))
  exact ⟨hgood.inv.1.1, hgood.inv.1.2, (hgood.idle hidle).2⟩

/-- In every such run, a pull without concurrent changes that returns Ok heals the device, if
its user's grant is current. -/
theorem pull_heals (S : Setup) {w : Setup.World}
    (hw : (S.system.restrict (healingAdoption S)).Reaches S.init w) {d : Nat}
    (hidle : (w.threads d).running = none)
    (hgrant : GrantCurrent S d w.shared (w.threads d).own) {s' : Shared} {l' : Device}
    (hpull : S.Alone d .pull w.shared (w.threads d).own (.ok ()) s' l') :
    OpensAll S d s' l' := by
  obtain ⟨hi, hkeyed, grant, key, hg, hheal⟩ := exists_healing hw hidle
  obtain ⟨rfl, hrefreshed⟩ := hpull.pull hi.linked hg.opened
  have hheal' : Healing S key w.shared ((w.threads d).own.launched .pull) := hheal.of_store rfl
  obtain ⟨grant', key', hg', hdate⟩ :=
    hrefreshed.upToDate hg.begin hheal' hi hkeyed hgrant
  exact hdate.opensAll hg' hi

/-! ### Runs of the team -/

/-- Whether every secret of the server is stored by a device and opens. -/
def opensAll (S : Setup) (d : Nat) (s : Shared) (l : Device) : Bool :=
  (l.store.environments.lookup S.envId).any fun env =>
    match Core.Vault.openVaultKey (S.keypair (S.user d)) env.encVaultKey with
    | .error _ => false
    | .ok key => s.db.secrets.rows.all fun e => (l.store.secrets.lookup e.1).any fun row =>
        (Core.Vault.decryptSecret key S.envId e.1 row.version row.encName row.encValue
          row.encDataKey).toBool

theorem OpensAll.opensAll {S : Setup} {d : Nat} {s : Shared} {l : Device}
    (h : OpensAll S d s l) : Sotto.opensAll S d s l = true := by
  obtain ⟨grant, key, henv, hopen, hrows⟩ := h
  rw [Sotto.opensAll, henv, Option.any_some]
  simp only [hopen, List.all_eq_true]
  rintro ⟨id, r⟩ hr
  obtain ⟨row, name, value, hrow, -, hdecrypt⟩ := hrows id r (Table.mem_rows.1 hr)
  simp [hrow, hdecrypt, Except.toBool]

/-- A rotation between the two requests of a pull: the rows of the snapshot are stored under
the new grant. -/
def racedRun : List Move :=
  Team.whole 1 (.set "X" Team.value) ++ Team.whole 1 .push ++ [.begin 0 .pull, .ticks 0 6] ++
  Team.whole 1 .rotate ++ [.ticks 0 60]

set_option maxRecDepth 10000 in
/-- A later pull returns Ok and does not heal the device. -/
theorem raced_pull_unhealed : ∃ w, Team.setup.system.Reaches Team.setup.init w ∧
    (w.threads 0).running = none ∧
    ∃ s' l', Team.setup.Alone 0 .pull w.shared (w.threads 0).own (.ok ()) s' l' ∧
      ¬ OpensAll Team.setup 0 s' l' := by
  have hidle : ((Team.setup.run racedRun Team.setup.init).threads 0).running.isNone = true := by
    decide +kernel
  have hpull : (Team.pulledAlone 0 (Team.setup.run racedRun Team.setup.init)).1 = .ok () := by
    decide +kernel
  refine ⟨_, Setup.reaches_run, Option.isNone_iff_eq_none.1 hidle, _, _, Team.alone_pulledAlone hpull,
    ?_⟩
  intro h
  have hnot : opensAll Team.setup 0 (Team.pulledAlone 0 (Team.setup.run racedRun Team.setup.init)).2.1
      (Team.pulledAlone 0 (Team.setup.run racedRun Team.setup.init)).2.2 = false := by
    decide +kernel
  rw [h.opensAll] at hnot
  cases hnot

theorem noAdoption_le_healing {S : Setup} : noAdoption.limit.Le (healingAdoption S) where
  start := fun _ => trivial
  exec := by
    rintro d c s l r s' l' ⟨h, -⟩
    simp only [healingAdoption]
    split
    · cases h
    · trivial
  finish := by
    intro d op r s l h hadopted
    have h : (!l.adopted) = true := h
    rw [hadopted] at h
    cases h

/-- A device creates and pushes a secret. -/
def sharedRun : List Move := Team.whole 1 (.set "X" Team.value) ++ Team.whole 1 .push

set_option maxRecDepth 10000 in
/-- The first pull of a device. -/
theorem pull_heals_first : ∃ s' l', OpensAll Team.setup 0 s' l' ∧ s'.db.secrets.rows ≠ [] := by
  have hreaches : (Team.setup.system.restrict (healingAdoption Team.setup)).Reaches
      Team.setup.init (Team.setup.run sharedRun Team.setup.init) :=
    (Setup.run_reaches (C := noAdoption) (by decide +kernel)).restrict_mono noAdoption_le_healing
  have hidle : ((Team.setup.run sharedRun Team.setup.init).threads 0).running.isNone = true := by
    decide +kernel
  have hpull : (Team.pulledAlone 0 (Team.setup.run sharedRun Team.setup.init)).1 = .ok () := by
    decide +kernel
  have hgrant : grantAt Team.setup 0 (Team.setup.run sharedRun Team.setup.init).shared.db =
      some (Team.grant Team.alice) := by
    decide +kernel
  have hstored : ((Team.setup.run sharedRun Team.setup.init).threads 0).own.store.environments.lookup
      Team.setup.envId =
        some ⟨Team.setup.projectId, Team.setup.envName, Team.grant Team.alice⟩ := by
    decide +kernel
  refine ⟨_, _, pull_heals Team.setup hreaches (Option.isNone_iff_eq_none.1 hidle)
    (fun _ => ⟨_, hgrant, fun _ => hstored⟩) (Team.alone_pulledAlone hpull), ?_⟩
  decide +kernel

end Sotto
