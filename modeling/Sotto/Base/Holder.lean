import Sotto.Base.Outline

/-!
# A device under one grant

A sound device holds one grant, which seals one vault key. Both stay the same until
the device adopts another grant; the grant it then holds seals the key that was
current when the server answered with it.
-/

namespace Sotto

open Core Cli

/-- Between two states the server got no row of a local secret that it did not have. -/
def NoArrival (s s' : Shared) (l : Device) : Prop :=
  ∀ id row, l.store.secrets.lookup id = some row → s'.db.secrets.lookup id ≠ none →
    s.db.secrets.lookup id ≠ none

/-- What the server gets from the others is not what only the device has. -/
theorem Device.Sound.noArrival {S : Setup} {d : Nat} {s s' : Shared} {l : Device}
    (hl : l.Sound S d s) (hs : Later S d s s') : NoArrival s s' l := by
  intro id row hrow hr'
  rcases (hl.rows id row hrow).2.2 with hon | ⟨n, rfl⟩
  · exact hon
  · exact hs.ids n hr'

theorem Rekeyed.noArrival {S : Setup} {key : Bytes} {revision : Int} {s s' : Shared} {l : Device}
    (h : Rekeyed S key revision s s') : NoArrival s s' l := by
  intro id row _ hr' hnone
  exact hr' (h.absent id hnone)

/-- The later row of a local secret comes from an earlier one. -/
theorem NoArrival.lookup {S : Setup} {s s' : Shared} {l : Device} (h : NoArrival s s' l)
    (hs : Evolves S s s') {id : Ident} {row : SecretRow} {r' : Server.Secret}
    (hrow : l.store.secrets.lookup id = some row) (hr' : s'.db.secrets.lookup id = some r') :
    ∃ r, s.db.secrets.lookup id = some r ∧ RowLater (s'.keys = s.keys) r r' := by
  obtain ⟨r, hr⟩ := Option.ne_none_iff_exists'.1 (h id row hrow (by simp [hr']))
  obtain ⟨r'', hr'', hlater⟩ := hs.rows id r hr
  rw [hr'] at hr''
  cases hr''
  exact ⟨r, hr, hlater⟩

/-- A sound device that holds a grant and the vault key sealed in it. -/
structure Holder (S : Setup) (d : Nat) (grant key : Bytes) (s : Shared) (l : Device) : Prop where
  sound : l.Sound S d s
  opened : Opened S l.store grant
  holds : Holds S d s grant key

namespace Holder

variable {S : Setup} {d : Nat} {G : Setting Cmd.Reply Shared Device} {grant key : Bytes}
  {s s' : Shared} {l l' : Device}

theorem exists_of_sound (hl : l.Sound S d s) : ∃ grant key, Holder S d grant key s l := by
  obtain ⟨grant, key, ho, hg⟩ := hl.grant
  exact ⟨grant, key, hl, ho, hg⟩

theorem later (h : Holder S d grant key s l) (hs : Later S d s s') (hi : s'.Sound S) :
    Holder S d grant key s' l :=
  ⟨h.sound.later hs hi, h.opened, h.holds.evolves hs.toEvolves hi.nodup⟩

theorem same (h : Holder S d grant key s l) (hl : l.Same l') : Holder S d grant key s l' :=
  ⟨h.sound.same hl, h.opened.same hl, h.holds⟩

theorem begin {op : Op} (h : Holder S d grant key s l) :
    Holder S d grant key s { l with adopted := false, current := some op } :=
  ⟨h.sound.begin, h.opened, h.holds⟩

theorem finish {last : Option (Op × Except Cli.Error Unit)} {edits : Table Ident SecretRow}
    (h : Holder S d grant key s l) : Holder S d grant key s { l with last, edits } :=
  ⟨⟨h.sound.grant, h.sound.rows, h.sound.fresh⟩, h.opened, h.holds⟩

theorem eq_of_keys {key' : Bytes} (h : Holder S d grant key s l) (hkeys : s.keys = [key']) :
    key = key' := by
  have hknown := h.holds.known
  rwa [hkeys, List.mem_singleton] at hknown

/-- The grant of a device opens to its vault key. -/
theorem openVaultKey (h : Holder S d grant key s l) (hi : s.Sound S) :
    Core.Vault.openVaultKey (S.keypair (S.user d)) grant = .ok key := by
  obtain ⟨ephemeral, rfl⟩ := h.holds.sealedTo
  obtain ⟨seed, rfl⟩ := hi.keys key h.holds.known
  exact Core.Vault.openVaultKey_grantVaultKey ephemeral _ rfl

/-- The server's grant seals the current key. -/
theorem head_of_grantAt (h : Holder S d grant key s l) (hi : s.Sound S)
    (hgrant : grantAt S d s.db = some grant) : s.keys.head? = some key := by
  obtain ⟨key', hhead, hholds⟩ := Holds.of_grantAt hi hgrant
  obtain rfl := h.holds.key_unique hholds
  exact hhead

theorem grant_unique {grant' key' : Bytes} (h : Holder S d grant key s l)
    (h' : Holder S d grant' key' s l) : grant' = grant ∧ key' = key := by
  have henv := h.opened.environment
  rw [h'.opened.environment] at henv
  obtain rfl : grant' = grant := by simpa using henv
  exact ⟨rfl, h'.holds.key_unique h.holds⟩

section Rounds

variable {s₁ s₂ s₃ : Shared} {revision : Int} {l₁ : Device}

theorem fetched (Gr : Grounded S d G) (h : Holder S d grant key s l)
    (hfetch : Fetched S d G s l s₁ s₂ revision l₁) (hs : Later S d s₂ s') (hi : s'.Sound S) :
    Holder S d grant key s' l₁ :=
  (h.later ((hfetch.later Gr).trans hs) hi).same hfetch.same

theorem merge (Gr : Grounded S d G) {force : Bool} {rows : List (Ident × Server.Secret)}
    (h : Holder S d grant key s' l') (hfetch : Fetched S d G s l s₁ s₂ revision l₁)
    (hs : Evolves S s₂ s') (hrows : rows ⊆ s₂.db.secretsOf S.envId) :
    Holder S d grant key s' (l'.merge S force rows) :=
  ⟨h.sound.mergeFetched Gr hfetch hs hrows, h.opened.mergeAll, h.holds⟩

theorem synced (h : Holder S d grant key s l) : Holder S d grant key s (l.synced S revision) :=
  ⟨h.sound.synced, h.opened.withRevision, h.holds⟩

theorem forward (Gr : Grounded S d G) (h : Holder S d grant key s l)
    (hfetch : Fetched S d G s l s₁ s₂ revision l₁) (hs : Later S d s₂ s') (hi : s'.Sound S) :
    Holder S d grant key s' (l₁.forward S (s₂.db.secretsOf S.envId) revision) :=
  ((h.fetched Gr hfetch hs hi).merge Gr hfetch hs.toEvolves (List.Subset.refl _)).synced

theorem applied (Gr : Grounded S d G) {force : Bool} {r : Except Cli.Error Int} {l₂ : Device}
    (h : Holder S d grant key s' l₂) (hfetch : Fetched S d G s l s₁ s₂ revision l₁)
    (hs : Evolves S s₂ s') (ha : Applied S force (s₂.db.secretsOf S.envId) revision l₂ r l') :
    Holder S d grant key s' l' := by
  cases ha with
  | part e n => exact h.merge Gr hfetch hs (List.take_subset _ _)
  | whole => exact (h.merge Gr hfetch hs (List.Subset.refl _)).synced

/-- A device that adopted a grant holds the key that was current at the answer. -/
theorem adopted (Gr : Grounded S d G) {grant' : Bytes} (hl : l.Sound S d s') (hi : s'.Sound S)
    (h : Adopted S d G grant s l s₃ grant' s' l') :
    ∃ key', s₃.keys.head? = some key' ∧ Holder S d grant' key' s' l' := by
  have hsound := hl.adopted Gr hi h
  obtain ⟨key', hhead, hholds⟩ := Holds.of_grantAt (Gr.sound h.inv₃) h.current
  refine ⟨key', hhead, hsound, ?_, hholds.evolves (Gr.later h.after).toEvolves hi.nodup⟩
  obtain ⟨grant₀, _, hopen, -⟩ := hl.grant
  obtain ⟨_, l₄, hl₄, -, -, -, rfl⟩ := h.exec
  exact (hopen.same hl₄.toSame).withGrant

/-- Where there is one vault key there is no other grant to adopt. -/
theorem not_adopted (Gr : Grounded S d G) {key' grant' : Bytes} {l₂ : Device}
    (h : Holder S d grant key s l) (hlater : Later S d s s₂) (hkeys : s₃.keys = [key']) :
    ¬ Adopted S d G grant s₂ l₁ s₃ grant' s' l₂ := by
  intro hadopt
  have h₃ := h.later (hlater.trans (Gr.later hadopt.before)) (Gr.sound hadopt.inv₃)
  have hhead : s₃.keys.head? = some key := by
    rw [hkeys, h₃.eq_of_keys hkeys]
    rfl
  have hgrant := h₃.holds.live hhead
  rw [hadopt.current] at hgrant
  exact hadopt.other (Option.some.inj hgrant)

theorem wrote (Gr : Grounded S d G) {s₄ : Shared} {access : Server.ProjectAccess} {v : Int}
    {l₄ l₅ : Device} (h : Holder S d grant key s l)
    (hwrote : Wrote S d G grant s l s₁ s₂ s₄ revision l₁ access v l₄ l₅) :
    Holder S d grant key s₄ l₄ ∧ Holder S d grant key (afterBatch S s₂ s₄ revision access l₄) l₅ := by
  have hi₄ := Gr.sound hwrote.inv₄
  have h₄ : Holder S d grant key s₄ l₄ :=
    (h.forward Gr hwrote.fetched (Gr.later hwrote.before) hi₄).same hwrote.forward.toSame
  obtain ⟨hevolves, -, hi⟩ := hwrote.guarantees Gr h.sound
  refine ⟨h₄, hwrote.soundAfter Gr h.sound, ?_, h₄.holds.evolves hevolves hi.nodup⟩
  rw [hwrote.seen]
  exact h₄.opened

/-- A batch that was checked against the grant is written under the current key, unless there
is no organisation. -/
theorem current (Gr : Grounded S d G) {s₄ : Shared} {access : Server.ProjectAccess} {v : Int}
    {l₄ l₅ : Device} (h : Holder S d grant key s l)
    (hwrote : Wrote S d G grant s l s₁ s₂ s₄ revision l₁ access v l₄ l₅) (horg : S.orgId ≠ none) :
    s₄.keys.head? = some key := by
  obtain ⟨h₄, -⟩ := h.wrote Gr hwrote
  obtain ⟨-, hup⟩ := hwrote.uploaded Gr fun id row hrow => (h₄.sound.rows id row hrow).1
  rcases hwrote.grant with ⟨hnone, -⟩ | ⟨s₃, h₂₃, hi₃, hgrant, h₃₄⟩
  · exact absurd hnone horg
  · obtain ⟨_, key₃, hsealed, hhead⟩ := (Gr.sound hi₃).grants _ _ hgrant
    obtain ⟨_, hsealed'⟩ := h₄.holds.sealedTo
    rw [hsealed] at hsealed'
    injection hsealed' with _ _ hkey
    subst hkey
    have hrev₂ : RevisionAt S s₂ revision := hup.base.of_db (hwrote.same_db Gr).2.1.symm
    obtain ⟨-, -, hkeys⟩ := (Gr.later h₂₃).toEvolves.eq_between (Gr.later h₃₄).toEvolves hrev₂
      hup.base
    rw [hkeys]
    exact hhead

theorem rotated (Gr : Grounded S d G) {s₇ : Shared} {keySeed : Seed}
    {access : Server.ProjectAccess} {orgId : Ident} {rotation : Server.Rotation} {v : Int}
    {l₇ : Device} (h : Holder S d grant key s l)
    (hrot : Rotated S d G s l s₁ s₂ s₇ revision keySeed access orgId rotation v l₇) :
    Holder S d grant key (afterRotation S s₇ access orgId rotation) l₇ := by
  obtain ⟨hevolves, -, hi, hl₇⟩ := hrot.guarantees Gr h.sound
  obtain ⟨_, _, _, hfetch, _⟩ := hrot.fetched
  have hs₇ : Evolves S s s₇ := ((hfetch.later Gr).trans (Gr.later hrot.before)).toEvolves
  exact ⟨hl₇, h.opened.same hrot.same, h.holds.evolves (hs₇.trans hevolves) hi.nodup⟩

theorem set {name : String} {value : Bytes} {store : Store} (h : Holder S d grant key s l)
    (hset : SetBy S d s l key name value store) :
    Holder S d grant key (afterSet name l.store store s)
      { l.edited store with draws := l.draws + 2 } :=
  ⟨h.sound.set hset, h.opened.of_environments hset.environments,
    ⟨h.holds.sealedTo, h.holds.known, h.holds.live⟩⟩

theorem delete {id : Ident} (h : Holder S d grant key s l) :
    Holder S d grant key s (l.edited (l.store.withTombstone id)) :=
  ⟨h.sound.delete, h.opened.of_environments rfl, h.holds⟩

end Rounds

end Holder

end Sotto
