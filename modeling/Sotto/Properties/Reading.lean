import Sotto.Properties.Unedited
import Sotto.Properties.Agreement

/-!
# A device that only reads

A device without edits of its own holds copies of rows that the server had, and the server only
moves a row on. So a snapshot whose rows are newer than its revision is applied as a whole: the
device has the rows of the server as it read them. As long as the server stays at the revision
that the device recorded, its rows are the ones that the device has.
-/

namespace Sotto

open Core Cli

/-- A store holds a copy of every row of a database, and nothing else. -/
def Mirrors (S : Setup) (store : Store) (db : Server.Db) : Prop :=
  ∀ id, store.secrets.lookup id = (db.secrets.lookup id).map (localRow S.envId)

/-- Every row of a store is a copy of a row that the server had. -/
def Copies (S : Setup) (store : Store) (db : Server.Db) : Prop :=
  ∀ id row, store.secrets.lookup id = some row → ∃ r₀ r, row = localRow S.envId r₀ ∧
    db.secrets.lookup id = some r ∧ RowLater True r₀ r

/-- The invariant of a device that only reads. -/
structure Reading (S : Setup) (s : Shared) (l : Device) : Prop where
  copies : Copies S l.store s.db
  synced : ∀ n, RevisionAt S s n → l.store.syncedRevision S.envId = n → Mirrors S l.store s.db
  seen : ∃ s₀ n, s₀.db = l.seen ∧ Evolves S s₀ s ∧ RevisionAt S s₀ n ∧
    l.store.syncedRevision S.envId ≤ n

/-- A call of the store that edits a secret. -/
def Cli.StoreCmd.Edits : StoreCmd → Prop
  | .vaultSet .. => True
  | .vaultDelete .. => True
  | _ => False

/-- No operation rotates the key, and device `d` makes no edit of its own. -/
def reads (d : Nat) : Limit where
  start _ op _ _ := ¬ op.Rotates
  exec i c _ l _ _ l' :=
    match c with
    | .store c => i = d → c.Edits → l'.store = l.store
    | _ => True
  finish _ _ _ _ _ := True

section Rows

variable {S : Setup} {s s' : Shared} {store : Store} {db : Server.Db} {force : Bool}
  {rows : List (Ident × Server.Secret)}

theorem Mirrors.copies (h : Mirrors S store db) : Copies S store db := by
  intro id row hrow
  rw [h id] at hrow
  obtain ⟨r, hr, rfl⟩ := Option.map_eq_some_iff.1 hrow
  exact ⟨r, r, rfl, hr, RowLater.refl _ r⟩

theorem Copies.evolves (h : Copies S store s.db) (hs : Evolves S s s') (hk : s'.keys = s.keys) :
    Copies S store s'.db := by
  intro id row hrow
  obtain ⟨r₀, r, hcopy, hr, hlater⟩ := h id row hrow
  obtain ⟨r', hr', hlater'⟩ := hs.rows id r hr
  exact ⟨r₀, r', hcopy, hr', hlater.trans hlater' (fun h => h) fun _ => hk⟩

/-- Applying rows of the server leaves copies. -/
theorem Copies.merge (h : Copies S store db) (hrows : rows ⊆ db.secretsOf S.envId) :
    Copies S (Store.mergeAll S.envId force rows store) db := by
  intro id row hrow
  rcases @Store.lookup_mergeAll_cases S.envId force rows store id with hkeep | ⟨r, hr, hcopy⟩
  · rw [hkeep] at hrow
    exact h id row hrow
  · rw [hcopy] at hrow
    cases hrow
    exact ⟨r, r, rfl, (mem_secretsOf.1 (hrows hr)).1, RowLater.refl _ r⟩

/-- Applying rows that a store has copies of changes none. -/
theorem Mirrors.merge (h : Mirrors S store db) (hrows : rows ⊆ db.secretsOf S.envId) :
    Mirrors S (Store.mergeAll S.envId force rows store) db := by
  intro id
  rcases @Store.lookup_mergeAll_cases S.envId force rows store id with hkeep | ⟨r, hr, hcopy⟩
  · rw [hkeep]
    exact h id
  · rw [hcopy, (mem_secretsOf.1 (hrows hr)).1]
    rfl

/-- A copy that the server's row does not replace is a copy of that row. -/
theorem localRow_eq_of_not_wins {r₀ r : Server.Secret} (hlater : RowLater True r₀ r)
    (h : ¬ (r₀.version < r.version ∨ r.version = r₀.version ∧ r.deleted = true ∧
      r₀.deleted = false)) : localRow S.envId r₀ = localRow S.envId r := by
  rw [not_or] at h
  obtain ⟨hle, hdel⟩ := h
  rcases hlater.version with hlt | ⟨hv, hname, hvalue, hkeep, hkey⟩
  · exact absurd hlt hle
  · have hdeleted : r₀.deleted = r.deleted := by
      cases hd₀ : r₀.deleted with
      | true => exact (hkeep hd₀).symm
      | false =>
          cases hd : r.deleted with
          | true => exact absurd ⟨hv, hd, hd₀⟩ hdel
          | false => rfl
    rw [localRow, localRow, hv, hname, hvalue, hkey trivial, hdeleted]

/-- Applying a whole snapshot leaves a copy of every row of it. -/
theorem Copies.mirrors (force : Bool) (h : Copies S store db)
    (hlocal : ∀ id r, db.secrets.lookup id = some r → r.envId = S.envId) :
    Mirrors S (Store.mergeAll S.envId force (db.secretsOf S.envId) store) db := by
  intro id
  cases hr : db.secrets.lookup id with
  | none =>
      rw [Store.lookup_mergeAll_of_notMem (notMem_secretsOf hr)]
      cases hrow : store.secrets.lookup id with
      | none => rfl
      | some row =>
          obtain ⟨_, r, -, hr', -⟩ := h id row hrow
          rw [hr] at hr'
          cases hr'
  | some r =>
      rw [Store.lookup_mergeAll (nodup_secretsOf _ _) (mem_secretsOf.2 ⟨hr, hlocal id r hr⟩)]
      split
      · rfl
      · next htakes =>
          cases hrow : store.secrets.lookup id with
          | none =>
              refine absurd ?_ htakes
              simp [Store.takes, Store.findSecret, hrow, remoteWins]
          | some row =>
              obtain ⟨r₀, r', rfl, hr', hlater⟩ := h id row hrow
              rw [hr] at hr'
              cases hr'
              have hwins : ¬ store.takes S.envId false (id, r) = true := by
                intro hwins
                exact htakes (by simp [Store.takes] at hwins ⊢; exact Or.inr hwins)
              have henv : (localRow S.envId r₀).envId = S.envId := rfl
              rw [Store.takes_iff hrow henv] at hwins
              rw [localRow_eq_of_not_wins hlater hwins]
              rfl

/-- A device with copies of the server's rows has nothing to write. -/
theorem Copies.settled {l : Device} (h : Copies S l.store s.db) : Settled s l := by
  intro id row hrow
  obtain ⟨r₀, r, rfl, hr, hlater⟩ := h id row hrow
  refine ⟨fun _ => ⟨r, hr, hlater.version_le⟩, ?_⟩
  intro hd r' hr'
  rw [hr] at hr'
  cases hr'
  rcases hlater.version with hlt | ⟨-, -, -, hkeep, -⟩
  · exact Or.inr hlt
  · exact Or.inl (hkeep hd)

end Rows

/-! ### The outline -/

/-- What the outline adds: the one key, and a reading device has copies of the rows of the
server, all of them after a pull. -/
def readingExtension (S : Setup) (d : Nat) :
    Outline.Extension Nat Cmd.Reply Shared Device Op (Except Cli.Error Unit) where
  limit := reads d
  inv s := s.keys = [S.key]
  guar _ _ _ _ _ := True
  idle i s l := i = d → Reading S s l
  post i op r s l := i = d → Reading S s l ∧ (op = .pull → r = .ok () → Mirrors S l.store l.seen)

/-- The outline over the base outline. -/
def reading (S : Setup) (d : Nat) : Outline (S.grounded.restrict (reads d)) :=
  (base S).extend (readingExtension S d)

/-- The setting of a device. -/
abbrev readingSetting (S : Setup) (d i : Nat) : Setting Cmd.Reply Shared Device :=
  (reading S d).setting i

theorem reading_grounded {S : Setup} {d : Nat} (i : Nat) : Grounded S i (readingSetting S d i) :=
  (base_grounded i).extend (fun h => h) fun _ _ _ => trivial

/-- A device in the middle of an operation that rotates no key. -/
structure Reads (S : Setup) (d i : Nat) (_ _ : Bytes) (s : Shared) (l : Device) : Prop where
  keys : s.keys = [S.key]
  current : ∀ op, l.current = some op → ¬ op.Rotates
  reading : i = d → Reading S s l

section Rounds

variable {S : Setup} {d : Nat} {G : Setting Cmd.Reply Shared Device} {s s' s₁ s₂ s₃ : Shared}
  {l l' l₁ l₂ : Device} {grant key : Bytes} {revision : Int} {force : Bool} {grant' : Bytes}

theorem Linked.exists_revision (h : Linked S s.db) : ∃ n, RevisionAt S s n := by
  obtain ⟨env, henv⟩ := h.environment
  exact ⟨env.revision, env, henv, rfl⟩

theorem Reading.revision_le (h : Reading S s l) {n : Int} (hn : RevisionAt S s n) :
    l.store.syncedRevision S.envId ≤ n := by
  obtain ⟨s₀, m, -, hs₀, hm, hle⟩ := h.seen
  exact Int.le_trans hle (hs₀.revision_le hm hn)

/-- A server that is still at the recorded revision has not changed. -/
theorem Reading.db_eq (h : Reading S s l) (hs : Evolves S s s')
    (hn : RevisionAt S s' (l.store.syncedRevision S.envId)) :
    s'.db = s.db ∧ RevisionAt S s (l.store.syncedRevision S.envId) := by
  obtain ⟨n, hn₁⟩ := hs.exists_revision hn
  have hle := h.revision_le hn₁
  have hle' := hs.revision_le hn₁ hn
  obtain rfl : n = l.store.syncedRevision S.envId := by omega
  exact ⟨(hs.eq_of_revision hn₁ hn).1, hn₁⟩

/-- The device has the rows of a server that is at the recorded revision. -/
theorem Reading.mirrors (h : Reading S s l) (hs : Evolves S s s')
    (hn : RevisionAt S s' (l.store.syncedRevision S.envId)) : Mirrors S l.store s'.db := by
  obtain ⟨hdb, hn₁⟩ := h.db_eq hs hn
  rw [hdb]
  exact h.synced _ hn₁ rfl

/-- It has read them last. -/
theorem Reading.seen_eq (h : Reading S s l) (hs : Evolves S s s')
    (hn : RevisionAt S s' (l.store.syncedRevision S.envId)) : l.seen = s'.db := by
  obtain ⟨s₀, m, hdb, hs₀, hm, hle⟩ := h.seen
  have hs' := hs₀.trans hs
  have hle' := hs'.revision_le hm hn
  obtain rfl : m = l.store.syncedRevision S.envId := by omega
  rw [← hdb, (hs'.eq_of_revision hm hn).1]

theorem Reading.later (h : Reading S s l) (hs : Evolves S s s') (hk : s'.keys = s.keys) :
    Reading S s' l := by
  refine ⟨h.copies.evolves hs hk, ?_, ?_⟩
  · rintro n hn rfl
    exact h.mirrors hs hn
  · obtain ⟨s₀, m, hdb, hs₀, hm, hle⟩ := h.seen
    exact ⟨s₀, m, hdb, hs₀.trans hs, hm, hle⟩

theorem Reading.same (h : Reading S s l) (hstore : l'.store = l.store) (hseen : l'.seen = l.seen) :
    Reading S s l' := by
  obtain ⟨hcopies, hsynced, hread⟩ := h
  rw [← hstore] at hcopies hsynced hread
  rw [← hseen] at hread
  exact ⟨hcopies, hsynced, hread⟩

/-- A device that read the rows of a state has read what it has copies of. -/
theorem Reading.read (h : Reading S s₂ l) (hi : s₂.Sound S) (hstore : l'.store = l.store)
    (hseen : l'.seen = s₂.db) : Reading S s₂ l' := by
  obtain ⟨n, hn⟩ := hi.linked.exists_revision
  have hle := h.revision_le hn
  obtain ⟨hcopies, hsynced, -⟩ := h
  rw [← hstore] at hcopies hsynced hle
  exact ⟨hcopies, hsynced, s₂, n, hseen.symm, Evolves.refl s₂, hn, hle⟩

theorem Reading.fetched (Gr : Grounded S d G) (h : Reading S s l)
    (hfetch : Fetched S d G s l s₁ s₂ revision l₁) (hk : s₂.keys = s.keys) : Reading S s₂ l₁ :=
  (h.later (hfetch.later Gr).toEvolves hk).read (Gr.sound hfetch.inv₂) hfetch.same.store hfetch.seen

/-- A snapshot that is applied as a whole leaves the rows that were read. -/
theorem Reading.whole (Gr : Grounded S d G) (h : Reading S s₂ l₁)
    (hfetch : Fetched S d G s l s₁ s₂ revision l₁) :
    Mirrors S ((l₁.merge S force (s₂.db.secretsOf S.envId)).synced S revision).store s₂.db ∧
      Reading S s₂ ((l₁.merge S force (s₂.db.secretsOf S.envId)).synced S revision) := by
  have hi₂ := Gr.sound hfetch.inv₂
  have hmirrors := h.copies.mirrors force fun id r hr => (hi₂.rows id r hr).1
  obtain ⟨n, hn⟩ := hi₂.linked.exists_revision
  have hle := (Gr.later hfetch.between).toEvolves.revision_le hfetch.revision hn
  refine ⟨hmirrors, hmirrors.copies, fun _ _ _ => hmirrors, s₂, n, hfetch.seen.symm,
    Evolves.refl s₂, hn, ?_⟩
  rw [Device.synced, Store.syncedRevision_withRevision]
  exact hle

/-- A snapshot that is applied in part leaves copies. -/
theorem Reading.part (h : Reading S s₂ l₁) {rows : List (Ident × Server.Secret)}
    (hrows : rows ⊆ s₂.db.secretsOf S.envId) : Reading S s₂ (l₁.merge S force rows) := by
  have hsync : (l₁.merge S force rows).store.syncedRevision S.envId =
      l₁.store.syncedRevision S.envId := by
    rw [Store.syncedRevision, Store.syncedRevision, Device.merge,
      Store.sameFrame_mergeAll.syncState]
  refine ⟨h.copies.merge hrows, ?_, ?_⟩
  · intro n hn heq
    exact (h.synced n hn (hsync.symm.trans heq)).merge hrows
  · rw [hsync]
    exact h.seen

theorem Looked.reading (Gr : Grounded S d G) (hlooked : Looked G s l s' l') (h : Reading S s l)
    (hk : ∀ s', G.inv s' → s'.keys = s.keys) (hi' : G.inv s') : Reading S s' l' := by
  rcases hlooked.seen with hseen | ⟨s₂, hs₂, hi₂, hs', hseen⟩
  · exact (h.later (Gr.later hlooked.rely).toEvolves (hk s' hi')).same hlooked.same.store hseen
  · have h₂ : Reading S s₂ l' :=
      (h.later (Gr.later hs₂).toEvolves (hk s₂ hi₂)).read (Gr.sound hi₂) hlooked.same.store hseen
    exact h₂.later (Gr.later hs').toEvolves ((hk s' hi').trans (hk s₂ hi₂).symm)

/-- Applying a snapshot, as a whole or in part. -/
theorem Reading.applied (Gr : Grounded S d G) {r : Except Cli.Error Int} (h : Reading S s l)
    (hk : ∀ s', G.inv s' → s'.keys = s.keys) (hi' : G.inv s')
    (hfetch : Fetched S d G s l s₁ s₂ revision l₁) (hs : G.rely s₂ s')
    (ha : Applied S force (s₂.db.secretsOf S.envId) revision l₁ r l') :
    Reading S s' l' ∧ (r.toBool = true → Mirrors S l'.store l'.seen) := by
  have h₁ : Reading S s₂ l₁ := h.fetched Gr hfetch (hk s₂ hfetch.inv₂)
  have hkeys : s'.keys = s₂.keys := (hk s' hi').trans (hk s₂ hfetch.inv₂).symm
  have hs : Evolves S s₂ s' := (Gr.later hs).toEvolves
  cases ha with
  | part e n => exact ⟨(h₁.part (List.take_subset _ _)).later hs hkeys, by simp [Except.toBool]⟩
  | whole =>
      obtain ⟨hmirrors, hwhole⟩ := h₁.whole Gr hfetch
      refine ⟨hwhole.later hs hkeys, ?_⟩
      intro _
      change Mirrors S _ l₁.seen
      rw [hfetch.seen]
      exact hmirrors

/-- What a pull leaves. -/
theorem Reading.pulled (Gr : Grounded S d G) {r : Except Cli.Error Int} (h : Reading S s l)
    (hg : Holder S d grant key s l) (hkeys : s.keys = [S.key])
    (hk : ∀ s', G.inv s' → s'.keys = [S.key]) (hi' : G.inv s')
    (hpulled : Pulled S d G grant s l r s' l') :
    Reading S s' l' ∧ (r.toBool = true → Mirrors S l'.store l'.seen) := by
  have hk' : ∀ s', G.inv s' → s'.keys = s.keys := fun s' hi' => (hk s' hi').trans hkeys.symm
  cases hpulled with
  | stopped hlooked => exact ⟨hlooked.reading Gr h hk' hi', by simp [Except.toBool]⟩
  | @current s₁ _ _ hs₁ hi₁ hrev hs' hl =>
      have hs : Evolves S s s₁ := (Gr.later hs₁).toEvolves
      have hs' : Evolves S s₁ s' := (Gr.later hs').toEvolves
      refine ⟨(h.later (hs.trans hs') (hk' s' hi')).same hl.store hl.seen, ?_⟩
      intro _
      rw [hl.store, hl.seen, h.seen_eq hs hrev]
      exact h.mirrors hs hrev
  | kept _ hfetch hkept happly => exact h.applied Gr hk' hi' hfetch hkept.rely happly
  | adopted _ hfetch hadopt _ =>
      exact absurd hadopt (hg.not_adopted Gr (hfetch.later Gr) (hk _ hadopt.inv₃))

/-- What a round of a push leaves, of a device that has nothing to write. -/
theorem Reading.pushRound (Gr : Grounded S d G) {r : Option (Except Cli.Error Int)}
    (h : Reading S s l) (hg : Holder S d grant key s l) (hkeys : s.keys = [S.key])
    (hk : ∀ s', G.inv s' → s'.keys = [S.key]) (hi' : G.inv s')
    (hround : PushRound S d G grant s l r s' l') : Reading S s' l' := by
  have hk' : ∀ s', G.inv s' → s'.keys = s.keys := fun s' hi' => (hk s' hi').trans hkeys.symm
  have hforward : ∀ {s₁ s₂ : Shared} {revision : Int} {l₁ m : Device},
      Fetched S d G s l s₁ s₂ revision l₁ → G.rely s₂ s' →
      (l₁.forward S (s₂.db.secretsOf S.envId) revision).Still m → Reading S s' m := by
    intro s₁ s₂ revision l₁ m hfetch hs hm
    exact (h.applied Gr hk' hi' hfetch hs .whole).1.same hm.store hm.seen
  cases hround with
  | stopped _ hlooked => exact hlooked.reading Gr h hk' hi'
  | @part e n s₁ s₂ revision l₁ _ _ hfetch hs =>
      exact (h.applied Gr hk' hi' hfetch hs (.part e n)).1
  | forwarded _ hfetch hs hl' => exact hforward hfetch hs hl'
  | refused hfetch hchanged hl' _ => exact hforward hfetch hchanged.rely hl'
  | unchanged hfetch hkept hl' _ => exact hforward hfetch hkept.rely hl'
  | adopted hfetch _ hadopt _ =>
      exact absurd hadopt (hg.not_adopted Gr (hfetch.later Gr) (hk _ hadopt.inv₃))
  | @wrote s₁ s₂ s₄ revision l₁ access v l₄ l₅ _ _ _ hwrote _ _ =>
      have h₁ : Reading S s₂ l₁ := h.fetched Gr hwrote.fetched (hk' s₂ hwrote.fetched.inv₂)
      have hnil := h₁.copies.settled.changesOf_eq_nil (Gr.sound hwrote.fetched.inv₂)
      have hstore : l₄.store.secrets =
          (l₁.merge S false (s₂.db.secretsOf S.envId)).store.secrets := by
        rw [hwrote.forward.store]
        rfl
      have hchanges := hwrote.changes
      rw [changesOf, Store.allSecrets, hstore] at hchanges
      exact absurd hnil hchanges

end Rounds

theorem reading_layer {S : Setup} {d : Nat} :
    Layer S (base S) (readingExtension S d) (Reads S d) where
  guar_refl := fun _ _ _ _ => trivial
  start := by
    intro i op s l grant key _ hkeys _ hidle hlimit _
    refine ⟨hkeys, ?_, fun hi => (hidle hi).same rfl rfl⟩
    intro op' hop'
    cases hop'
    exact hlimit
  later := by
    intro i grant key s s' l l' h _ _ hi' hlooked
    have Gr := reading_grounded (S := S) (d := d) i
    refine ⟨hi'.2, ?_, ?_⟩
    · intro op hop
      exact h.current op (hlooked.same.current.symm.trans hop)
    · intro hid
      exact hlooked.reading Gr (h.reading hid) (fun s' hi' => hi'.2.trans h.keys.symm) hi'
  set := by
    intro i grant key s l name value store h _ _ _ hexec
    refine ⟨trivial, h.keys, h.keys, h.current, ?_⟩
    intro hid
    have hstore : store = l.store := hexec.2 hid trivial
    exact ((h.reading hid).later evolves_afterSet rfl).same hstore rfl
  delete := by
    intro i grant key s l name id row h _ _ _ _ _ hexec
    refine ⟨h.keys, h.current, ?_⟩
    intro hid
    have hstore : l.store.withTombstone id = l.store := hexec.2 hid trivial
    exact (h.reading hid).same hstore rfl
  ended := by
    intro i op r grant key s l h _ _ hends hid
    refine ⟨h.reading hid, ?_⟩
    rintro rfl
    exact hends.elim
  pulled := by
    intro i op r grant key s l s' l' _ h hg hi' hpulled hid
    have Gr := reading_grounded (S := S) (d := d) i
    obtain ⟨hread, hmirrors⟩ :=
      (h.reading hid).pulled Gr hg h.keys (fun s' hi' => hi'.2) hi' hpulled
    refine ⟨hread, ?_⟩
    intro _ hok
    cases r with
    | ok v => exact hmirrors rfl
    | error e => cases hok
  retried := by
    intro i grant key s l s' l' h hg hi' hround
    have Gr := reading_grounded (S := S) (d := d) i
    refine ⟨hi'.2, ?_, ?_⟩
    · cases hround with
      | forwarded _ hfetch _ hl' =>
          intro op hop
          exact h.current op
            (hfetch.same.current.symm.trans (hl'.current.symm.trans hop))
    · intro hid
      exact (h.reading hid).pushRound Gr hg h.keys (fun s' hi' => hi'.2) hi' hround
  wrote := by
    intro i grant key s l s₁ s₂ s₄ revision l₁ access v l₄ l₅ _ hg hwrote
    have Gr := reading_grounded (S := S) (d := d) i
    have hl₄ := (hg.wrote Gr hwrote).1.sound
    obtain ⟨-, hup⟩ := hwrote.uploaded Gr fun id row hrow => (hl₄.rows id row hrow).1
    exact ⟨trivial, hup.keys.trans hwrote.inv₄.2⟩
  pushed := by
    intro i r grant key s l s' l' h hg hi' hround hid
    have Gr := reading_grounded (S := S) (d := d) i
    refine ⟨(h.reading hid).pushRound Gr hg h.keys (fun s' hi' => hi'.2) hi' hround, ?_⟩
    intro hop
    cases hop
  rotated := by
    intro i grant key s l s₁ s₂ s₇ revision keySeed access orgId rotation v l₇ _ hop h _ _
    obtain ⟨op, hop, hrotates⟩ := hop
    exact absurd hrotates (h.current op hop)
  finish := fun _ _ _ hafter _ hid => (hafter hid).1.same rfl rfl
  idle_stable := by
    intro i s s' l hi hi' hs _ hidle hid
    exact (hidle hid).later hs.toEvolves (hi'.2.trans hi.2.symm)

theorem reading_valid {S : Setup} {d : Nat} : (reading S d).Valid :=
  reading_layer.valid (faithful_system S) base_grounded (fun h => h) base_valid (le_anyRun _)

theorem reading_init {S : Setup} {d : Nat} : (reading S d).Good S.init where
  inv := ⟨sound_init S, rfl⟩
  thread i := by
    refine ⟨soundDevice_init S i, ?_⟩
    intro _
    have hmirrors : Mirrors S (S.store i) S.db := by
      intro id
      rw [(S.noSecrets i).1, S.secrets]
      rfl
    obtain ⟨n, hn⟩ := (linked_init S).exists_revision (s := S.init.shared)
    refine ⟨hmirrors.copies, fun _ _ _ => hmirrors, S.init.shared, 0, rfl, Evolves.refl _, ?_, ?_⟩
    · obtain ⟨encName, henv⟩ := S.environment
      exact ⟨_, henv, rfl⟩
    · have hsync : (S.store i).syncedRevision S.envId = 0 := by
        simp [Store.syncedRevision, (S.noSecrets i).2.2]
      exact Int.le_of_eq hsync

/-! ### What a device has read -/

/-- A command of a device leaves what the device last saw, or makes it the database before or
after. -/
theorem Executes.seen {d : Nat} {c : Cmd} {s s' : Shared} {l l' : Device} {r : c.Reply}
    (h : Executes d c s l r s' l') : l'.seen = l.seen ∨ l'.seen = s.db ∨ l'.seen = s'.db := by
  rcases h with h | ⟨-, -, rfl⟩
  · cases c with
    | fresh =>
        cases h
        exact Or.inl rfl
    | net =>
        cases h
        exact Or.inl rfl
    | store c =>
        cases h
        left
        cases c <;> rfl
    | server stmt =>
        cases h
        simp only [Device.observe]
        split
        · exact Or.inr (Or.inl rfl)
        · split
          · exact Or.inr (Or.inr rfl)
          · exact Or.inl rfl
        · exact Or.inl rfl
  · exact Or.inl rfl

/-- What a device last saw is the database at an earlier point of the run. -/
theorem exists_seen {S : Setup} {K : Limit} {w : Setup.World}
    (hw : (S.system.restrict K).Reaches S.init w) (d : Nat) :
    ∃ w₀, (S.system.restrict K).Reaches S.init w₀ ∧ (S.system.restrict K).Reaches w₀ w ∧
      (w.threads d).own.seen = w₀.shared.db := by
  induction hw with
  | refl => exact ⟨S.init, .refl, .refl, rfl⟩
  | @tail w w' hw hstep ih =>
      obtain ⟨w₀, hw₀, hbetween, hseen⟩ := ih
      have hkeep : (w'.threads d).own.seen = (w.threads d).own.seen →
          ∃ w₀, (S.system.restrict K).Reaches S.init w₀ ∧ (S.system.restrict K).Reaches w₀ w' ∧
            (w'.threads d).own.seen = w₀.shared.db :=
        fun hsame => ⟨w₀, hw₀, hbetween.tail hstep, hsame.trans hseen⟩
      cases hstep with
      | @start i _ _ _ hstart =>
          refine hkeep ?_
          obtain ⟨rfl, -⟩ := hstart
          by_cases hid : i = d
          · subst hid
            simp
          · simp [Function.update_of_ne (Ne.symm hid)]
      | @call i op c k r s' l' hr hexec =>
          by_cases hid : i = d
          · subst hid
            have hown : (Function.update w.threads i ⟨l', some (op, k r)⟩ i).own = l' := by simp
            rcases hexec.1.seen with hseen' | hseen' | hseen'
            · exact hkeep ((congrArg Device.seen hown).trans hseen')
            · exact ⟨w, hw, .single (.call hr hexec), (congrArg Device.seen hown).trans hseen'⟩
            · exact ⟨_, hw.tail (.call hr hexec), .refl, (congrArg Device.seen hown).trans hseen'⟩
          · exact hkeep (by simp [Function.update_of_ne (Ne.symm hid)])
      | @finish i _ _ _ _ hfinish =>
          refine hkeep ?_
          obtain ⟨rfl, -⟩ := hfinish
          by_cases hid : i = d
          · subst hid
            simp
          · simp [Function.update_of_ne (Ne.symm hid)]

/-! ### Convergence -/

theorem reading_idle {S : Setup} {d : Nat} {w : Setup.World}
    (hw : (S.system.restrict (reads d)).Reaches S.init w) (hidle : (w.threads d).running = none) :
    w.shared.Sound S ∧ (∃ grant key, Holder S d grant key w.shared (w.threads d).own) ∧
      w.shared.keys = [S.key] ∧ Reading S w.shared (w.threads d).own := by
  have hgood : (reading S d).Good w := reading_init.reaches reading_valid (grounded_reaches hw)
  obtain ⟨hsound, hread⟩ := hgood.idle hidle
  exact ⟨hgood.inv.1, Holder.exists_of_sound hsound, hgood.inv.2, hread rfl⟩

/-- At every point of a run, a device that only reads has the rows of the server if that is at
the revision which the device recorded. -/
theorem mirrors_of_revision {S : Setup} {d : Nat} {w : Setup.World}
    (hw : (S.system.restrict (reads d)).Reaches S.init w)
    (hn : RevisionAt S w.shared ((w.threads d).own.store.syncedRevision S.envId)) :
    Mirrors S (w.threads d).own.store w.shared.db := by
  cases hr : (w.threads d).running with
  | none => exact (reading_idle hw hr).2.2.2.synced _ hn rfl
  | some running =>
      obtain ⟨op, p⟩ := running
      obtain ⟨w', hw', hshared, hidle, hstore⟩ :=
        Setup.exists_killed (S := S) (K := reads d) (d := d) (p := p) (w := w)
          (fun {i c s l r l'} _ hsame => by
            cases c with
            | store c => exact fun _ _ => hsame
            | _ => trivial)
          (fun _ _ _ _ _ => trivial) hr
      rw [← hshared, ← hstore] at hn ⊢
      exact (reading_idle (hw.trans hw') hidle).2.2.2.synced _ hn rfl

/-- A pull without concurrent changes leaves the rows of the server. -/
theorem Reading.refreshed {S : Setup} {d : Nat} {s : Shared} {l l' : Device} {grant : Bytes}
    (h : Reading S s l) (hi : s.Sound S) (hl : Refreshed S d grant s l l') :
    Mirrors S l'.store s.db := by
  have hmerge : ∀ {m : Device} (force : Bool), m.store.secrets = l.store.secrets →
      Mirrors S (Store.mergeAll S.envId force (s.db.secretsOf S.envId) m.store) s.db := by
    intro m force hm
    refine Copies.mirrors _ ?_ fun id r hr => (hi.rows id r hr).1
    intro id row hrow
    rw [hm] at hrow
    exact h.copies id row hrow
  cases hl with
  | current hn hl =>
      rw [hl.store]
      exact h.synced _ hn rfl
  | kept _ _ hl _ _ => exact hmerge false (congrArg Store.secrets hl.store)
  | @adopted l₁ revision grant' _ _ hl _ _ _ _ =>
      have hsecrets : l₁.store.secrets = l.store.secrets := congrArg Store.secrets hl.store
      exact hmerge (m := l₁.adopt S grant') true hsecrets

/-- In every run without rotations, on a device that makes no edits: after a pull that returned
Ok its rows are the server's at a point of the run, at a revision as new as the recorded one;
when the server finds the recorded revision unmodified they are the server's; and so they are
after a pull without concurrent changes. -/
theorem pull_converges (S : Setup) (d : Nat) {w : Setup.World}
    (hw : (S.system.restrict (reads d)).Reaches S.init w) :
    ((w.threads d).running = some (.pull, .ret (.ok ())) →
      ∃ w₀ n, (S.system.restrict (reads d)).Reaches S.init w₀ ∧
        (S.system.restrict (reads d)).Reaches w₀ w ∧ RevisionAt S w₀.shared n ∧
        (w.threads d).own.store.syncedRevision S.envId ≤ n ∧
        Mirrors S (w.threads d).own.store w₀.shared.db) ∧
    (∀ k env s' l', (w.threads d).running =
        some (.pull, .call (.server (.selectEnvironment S.envId)) k) →
      S.system.exec d (.server (.selectEnvironment S.envId)) w.shared (w.threads d).own
        (.ok (some env)) s' l' →
      some ((w.threads d).own.store.syncedRevision S.envId) = some env.revision →
      Mirrors S (w.threads d).own.store w.shared.db) ∧
    (∀ s' l', (w.threads d).running = none →
      S.Alone d .pull w.shared (w.threads d).own (.ok ()) s' l' → Mirrors S l'.store s'.db) := by
  refine ⟨?_, ?_, ?_⟩
  · intro hret
    have hgood : (reading S d).Good w := reading_init.reaches reading_valid (grounded_reaches hw)
    obtain ⟨hread, hmirrors⟩ := hgood.post hret rfl
    obtain ⟨w₀, hw₀, hbetween, hseen⟩ := exists_seen hw d
    obtain ⟨s₀, n, hdb, -, hn, hle⟩ := hread.seen
    refine ⟨w₀, n, hw₀, hbetween, hn.of_db ?_, hle, ?_⟩
    · rw [hdb, hseen]
    · rw [← hseen]
      exact hmirrors rfl rfl
  · intro k env s' l' _ hexec heq
    refine mirrors_of_revision hw ⟨env, ?_, (Option.some.inj heq).symm⟩
    rcases hexec with hexec | ⟨hfault, -⟩
    · have hreply : (perform d (.server (.selectEnvironment S.envId)) w.shared
          (w.threads d).own).1 = .ok (some env) := by rw [hexec]
      exact Except.ok.inj hreply
    · cases hfault
  · intro s' l' hidle halone
    obtain ⟨hi, ⟨grant, key, hg⟩, -, hread⟩ := reading_idle hw hidle
    obtain ⟨rfl, hrefreshed⟩ := halone.pull hi.linked hg.opened
    have hread' : Reading S w.shared ((w.threads d).own.launched .pull) := hread.same rfl rfl
    exact hread'.refreshed hi hrefreshed

/-! ### Runs of the team -/

/-- The check that no operation rotates the key and one device makes no edit. -/
def readsOnly (d : Nat) : Check where
  start _ op _ _ := !decide op.Rotates
  exec i c _ _ :=
    match c with
    | .store (.vaultSet ..) => decide (i ≠ d)
    | .store (.vaultDelete ..) => decide (i ≠ d)
    | _ => true
  finish _ _ _ _ _ := true

theorem readsOnly_le (d : Nat) : (readsOnly d).limit.Le (reads d) where
  start := by
    intro i op s l h
    have h : (!decide op.Rotates) = true := h
    simpa [reads] using h
  exec := by
    rintro i c s l r s' l' ⟨h, -⟩
    cases c with
    | store c =>
        intro hid hedits
        cases c with
        | vaultSet => exact absurd hid (of_decide_eq_true h)
        | vaultDelete => exact absurd hid (of_decide_eq_true h)
        | _ => cases hedits
    | _ => trivial
  finish := fun _ => trivial

/-- A pull that reads the revision before a batch and the rows after it. -/
def tornRun : List Move :=
  Team.whole 1 (.set "X" Team.value) ++ Team.whole 1 .push ++ [.begin 0 .pull, .ticks 0 5] ++
  Team.whole 1 (.set "Y" Team.value) ++ Team.whole 1 .push ++ [.ticks 0 11]

/-- Whether a pull of a device returned Ok. -/
def pullReturned (d : Nat) (w : Setup.World) : Bool :=
  match (w.threads d).running with
  | some (.pull, .ret (.ok ())) => true
  | _ => false

theorem running_of_pullReturned {d : Nat} {w : Setup.World} (h : pullReturned d w = true) :
    (w.threads d).running = some (.pull, .ret (.ok ())) := by
  unfold pullReturned at h
  split at h
  · assumption
  · cases h

set_option maxRecDepth 10000 in
/-- The device has recorded the first revision and has the rows of the second. -/
theorem pull_converges_torn : ∃ w : Setup.World,
    (w.threads 0).own.store.syncedRevision Team.setup.envId = 1 ∧
    (w.threads 0).own.store.secrets.rows.length = 2 ∧
    ∃ (w₀ : Setup.World) (n : Int), RevisionAt Team.setup w₀.shared n ∧ 1 ≤ n ∧
      Mirrors Team.setup (w.threads 0).own.store w₀.shared.db := by
  have hreaches : (Team.setup.system.restrict (reads 0)).Reaches Team.setup.init
      (Team.setup.run tornRun Team.setup.init) :=
    (Setup.run_reaches (C := readsOnly 0) (by decide +kernel)).restrict_mono (readsOnly_le 0)
  have hsync : ((Team.setup.run tornRun Team.setup.init).threads 0).own.store.syncedRevision
      Team.setup.envId = 1 := by
    decide +kernel
  obtain ⟨w₀, n, -, -, hn, hle, hmirrors⟩ := (pull_converges Team.setup 0 hreaches).1
    (running_of_pullReturned (by decide +kernel))
  rw [hsync] at hle
  exact ⟨_, hsync, by decide +kernel, w₀, n, hn, hle, hmirrors⟩

end Sotto
