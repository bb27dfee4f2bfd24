import Sotto.Base.Rekey

/-!
# What holds in every run

The invariants that need no condition on the run. On the server, the current vault
key is the head of the list of keys and every grant seals it to its user; every row
is sealed at its place under some vault key, with the name its secret was created
with. A device holds a grant of its user that seals one of the vault keys, and the
server's own grant when that key is current; its rows are sealed in the same way,
and a row the server does not have was created by the device itself.
-/

namespace Sotto

open Core Cli

/-- The ciphertext of a server row. -/
def Server.Secret.enc (r : Server.Secret) : Core.Vault.EncryptedSecret :=
  ⟨r.encName, r.encValue, r.encDataKey⟩

/-- The ciphertext of a local row. -/
def Cli.SecretRow.enc (row : SecretRow) : Core.Vault.EncryptedSecret :=
  ⟨row.encName, row.encValue, row.encDataKey⟩

/-- A ciphertext is sealed under `key` at the place of a secret's version, with the name
the secret was created with. -/
def SealedUnder (S : Setup) (created : List (Ident × String)) (key : Bytes) (id : Ident)
    (version : Int) (enc : Core.Vault.EncryptedSecret) : Prop :=
  ∃ name value, (id, name) ∈ created ∧
    Core.Vault.Opens key S.envId id version (Vault.nameBytes name) value enc

/-- A ciphertext is sealed at the place of a secret's version, under some key. -/
def Sealed (S : Setup) (created : List (Ident × String)) (id : Ident) (version : Int)
    (enc : Core.Vault.EncryptedSecret) : Prop :=
  ∃ key, SealedUnder S created key id version enc

theorem SealedUnder.mono {S : Setup} {created created' : List (Ident × String)} {key : Bytes}
    {id : Ident} {version : Int} {enc : Core.Vault.EncryptedSecret}
    (h : SealedUnder S created key id version enc) (hc : created <:+ created') :
    SealedUnder S created' key id version enc := by
  obtain ⟨name, value, hname, hopens⟩ := h
  exact ⟨name, value, hc.subset hname, hopens⟩

theorem Sealed.mono {S : Setup} {created created' : List (Ident × String)} {id : Ident}
    {version : Int} {enc : Core.Vault.EncryptedSecret} (h : Sealed S created id version enc)
    (hc : created <:+ created') : Sealed S created' id version enc := by
  obtain ⟨key, h⟩ := h
  exact ⟨key, h.mono hc⟩

/-- The invariant of the shared state. -/
structure Shared.Sound (S : Setup) (s : Shared) : Prop where
  linked : Linked S s.db
  keys : ∀ key ∈ s.keys, ∃ seed, key = .random seed 0
  nodup : s.keys.Nodup
  grants : ∀ u grant, s.db.grants.lookup (S.envId, u) = some grant →
    ∃ ephemeral key, grant = .sealedBox (S.keypair u).public ephemeral key ∧
      s.keys.head? = some key
  rows : ∀ id r, s.db.secrets.lookup id = some r →
    r.envId = S.envId ∧ Sealed S s.created id r.version r.enc
  names : (s.created.map Prod.fst).Nodup

/-- A grant that a device can hold, and the vault key it seals. -/
structure Holds (S : Setup) (d : Nat) (s : Shared) (grant key : Bytes) : Prop where
  sealedTo : ∃ ephemeral, grant = .sealedBox (S.keypair (S.user d)).public ephemeral key
  known : key ∈ s.keys
  live : s.keys.head? = some key → grantAt S d s.db = some grant

/-- The invariant of a device. -/
structure Device.Sound (S : Setup) (d : Nat) (s : Shared) (l : Device) : Prop where
  grant : ∃ grant key, Opened S l.store grant ∧ Holds S d s grant key
  rows : ∀ id row, l.store.secrets.lookup id = some row →
    row.envId = S.envId ∧ Sealed S s.created id row.version row.enc ∧
      (s.db.secrets.lookup id ≠ none ∨ ∃ n, id = .uuid ⟨d + 1, n⟩)
  fresh : ∀ n, l.draws ≤ n → (∀ name, (Ident.uuid ⟨d + 1, n⟩, name) ∉ s.created) ∧
    Bytes.random ⟨d + 1, n⟩ 0 ∉ s.keys

/-- Every row of a device is sealed under `key`. -/
def AllSealed (S : Setup) (key : Bytes) (s : Shared) (l : Device) : Prop :=
  ∀ id row, l.store.secrets.lookup id = some row →
    SealedUnder S s.created key id row.version row.enc

/-- A setting whose rely is evolution and whose invariant is at least `Shared.Sound`. -/
structure Grounded (S : Setup) (d : Nat) (G : Setting Cmd.Reply Shared Device) : Prop where
  follows : Follows S d G
  later : ∀ {s s'}, G.rely s s' → Later S d s s'
  sound : ∀ {s}, G.inv s → s.Sound S

/-! ### What the others do -/

section Stable

variable {S : Setup} {d : Nat} {s s' : Shared} {l l' : Device} {grant key : Bytes}

theorem Holds.evolves (h : Holds S d s grant key) (hs : Evolves S s s') (hnodup : s'.keys.Nodup) :
    Holds S d s' grant key := by
  refine ⟨h.sealedTo, hs.keys.subset h.known, ?_⟩
  intro hhead
  have hkeys := hs.keys_eq hnodup h.known hhead
  rw [hkeys] at hhead
  rw [grantAt, hs.grants hkeys]
  exact h.live hhead

/-- A grant seals one key. -/
theorem Holds.key_unique {s₁ s₂ : Shared} {key' : Bytes} (h : Holds S d s₁ grant key)
    (h' : Holds S d s₂ grant key') : key = key' := by
  obtain ⟨_, hsealed⟩ := h.sealedTo
  obtain ⟨_, hsealed'⟩ := h'.sealedTo
  rw [hsealed] at hsealed'
  injection hsealed'

theorem Device.Sound.evolves (h : l.Sound S d s) (hs : Evolves S s s') (hi : s'.Sound S)
    (hfresh : ∀ n, l.draws ≤ n → (∀ name, (Ident.uuid ⟨d + 1, n⟩, name) ∉ s'.created) ∧
      Bytes.random ⟨d + 1, n⟩ 0 ∉ s'.keys) : l.Sound S d s' := by
  obtain ⟨grant, key, hopen, hholds⟩ := h.grant
  refine ⟨⟨grant, key, hopen, hholds.evolves hs hi.nodup⟩, ?_, hfresh⟩
  intro id row hrow
  obtain ⟨henv, hsealed, horigin⟩ := h.rows id row hrow
  refine ⟨henv, hsealed.mono hs.created, horigin.imp_left ?_⟩
  intro hlookup
  obtain ⟨r, hr⟩ := Option.ne_none_iff_exists'.1 hlookup
  obtain ⟨r', hr', -⟩ := hs.rows id r hr
  simp [hr']

theorem Device.Sound.later (h : l.Sound S d s) (hs : Later S d s s') (hi : s'.Sound S) :
    l.Sound S d s' := by
  refine h.evolves hs.toEvolves hi ?_
  intro n hn
  obtain ⟨hcreated, hkey⟩ := h.fresh n hn
  exact ⟨fun name hname => hcreated name (hs.named n name hname), fun hk => hkey (hs.minted n hk)⟩

theorem Device.Sound.same (h : l.Sound S d s) (hl : l.Same l') : l'.Sound S d s := by
  obtain ⟨grant, key, hopen, hholds⟩ := h.grant
  refine ⟨⟨grant, key, by rw [hl.store]; exact hopen, hholds⟩, ?_, ?_⟩
  · rw [hl.store]
    exact h.rows
  · intro n hn
    exact h.fresh n (hl.draws.trans hn)

/-- Applying rows that the server has, or had. -/
theorem Device.Sound.merge (h : l.Sound S d s') {force : Bool}
    {rows : List (Ident × Server.Secret)} (hs : Evolves S s s') (hi : s.Sound S)
    (hrows : ∀ e ∈ rows, s.db.secrets.lookup e.1 = some e.2) :
    (l.merge S force rows).Sound S d s' := by
  obtain ⟨grant, key, hopen, hholds⟩ := h.grant
  refine ⟨⟨grant, key, hopen.mergeAll, hholds⟩, ?_, h.fresh⟩
  intro id row hrow
  rcases Device.lookup_merge_cases hrow with hkeep | ⟨r, hr, rfl⟩
  · exact h.rows id row hkeep
  · have hlookup := hrows _ hr
    obtain ⟨-, hsealed⟩ := hi.rows id r hlookup
    obtain ⟨r', hr', -⟩ := hs.rows id r hlookup
    exact ⟨rfl, hsealed.mono hs.created, Or.inl (by simp [hr'])⟩

theorem AllSealed.evolves (h : AllSealed S key s l) (hs : Evolves S s s') :
    AllSealed S key s' l :=
  fun id row hrow => (h id row hrow).mono hs.created

theorem AllSealed.of_secrets (h : AllSealed S key s l)
    (hl : l'.store.secrets = l.store.secrets) : AllSealed S key s l' := by
  intro id row hrow
  rw [hl] at hrow
  exact h id row hrow

theorem AllSealed.merge (h : AllSealed S key s' l) {force : Bool}
    {rows : List (Ident × Server.Secret)} (hs : Evolves S s s')
    (hrows : rows ⊆ s.db.secretsOf S.envId)
    (hsealed : ∀ id r, s.db.secrets.lookup id = some r →
      SealedUnder S s.created key id r.version r.enc) :
    AllSealed S key s' (l.merge S force rows) := by
  intro id row hrow
  rcases Device.lookup_merge_cases hrow with hkeep | ⟨r, hr, rfl⟩
  · exact h id row hkeep
  · exact (hsealed id r (mem_secretsOf.1 (hrows hr)).1).mono hs.created

theorem Device.Sound.synced (h : l.Sound S d s) {revision : Int} :
    (l.synced S revision).Sound S d s := by
  obtain ⟨grant, key, hopen, hholds⟩ := h.grant
  exact ⟨⟨grant, key, hopen.withRevision, hholds⟩, h.rows, h.fresh⟩

theorem Device.Sound.adopt (h : l.Sound S d s) {grant : Bytes}
    (hg : ∃ key, Holds S d s grant key) : (l.adopt S grant).Sound S d s := by
  obtain ⟨grant₀, key₀, hopen, -⟩ := h.grant
  obtain ⟨key, hholds⟩ := hg
  exact ⟨⟨grant, key, hopen.withGrant, hholds⟩, h.rows, h.fresh⟩

/-- The server's grant of a device's user, at the time it is read and later. -/
theorem Holds.of_grantAt (hi : s.Sound S) (hg : grantAt S d s.db = some grant) :
    ∃ key, s.keys.head? = some key ∧ Holds S d s grant key := by
  obtain ⟨ephemeral, key, rfl, hhead⟩ := hi.grants _ _ hg
  exact ⟨key, hhead, ⟨ephemeral, rfl⟩, List.mem_of_mem_head? hhead, fun _ => hg⟩

end Stable

end Sotto
