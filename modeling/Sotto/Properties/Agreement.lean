import Sotto.Base.Layer
import Sotto.Team

/-!
# Stores that agree with the server

Without rotations, what a push leaves is decided by comparing versions. The device and the
server agree after it, and nothing that the device changed is lost, if the rows that it read
were in no conflict with its own: no row that it changed had a newer version on the server, no
tombstone of its own was newer than the server's row, and rows of the same version had the same
content.
-/

namespace Sotto

open Core Cli

/-- The vault key of the environment before a rotation. -/
def Setup.key (S : Setup) : Bytes := .random S.vaultKey 0

/-- What a ciphertext decrypts to under the vault key. -/
def Setup.decrypt (S : Setup) (id : Ident) (version : Int) (enc : Core.Vault.EncryptedSecret) :
    Except Core.Error (Bytes × Bytes) :=
  Core.Vault.decryptSecret S.key S.envId id version enc.encName enc.encValue enc.encDataKey

/-- A local row and a row of the server have the same version, mark, name and value. -/
def SameSecret (S : Setup) (id : Ident) (row : SecretRow) (r : Server.Secret) : Prop :=
  row.version = r.version ∧ row.deleted = r.deleted ∧
    ∃ content, S.decrypt id row.version row.enc = .ok content ∧
      S.decrypt id r.version r.enc = .ok content

/-- A store has the secrets of a database and no others. -/
def Agrees (S : Setup) (store : Store) (db : Server.Db) : Prop :=
  ∀ id, (store.secrets.lookup id = none ∧ db.secrets.lookup id = none) ∨
    ∃ row r, store.secrets.lookup id = some row ∧ db.secrets.lookup id = some r ∧
      SameSecret S id row r

/-- The rows of a device and those of a database are in no conflict. -/
structure NoConflict (S : Setup) (db : Server.Db) (l : Device) : Prop where
  absent : ∀ id row, l.store.secrets.lookup id = some row → db.secrets.lookup id = none →
    row.deleted = false
  newer : ∀ id row r, l.store.secrets.lookup id = some row → db.secrets.lookup id = some r →
    row.version < r.version → l.edits.lookup id = none
  older : ∀ id row r, l.store.secrets.lookup id = some row → db.secrets.lookup id = some r →
    r.version < row.version → row.deleted = false
  content : ∀ id row r, l.store.secrets.lookup id = some row → db.secrets.lookup id = some r →
    row.version = r.version → S.decrypt id row.version row.enc = S.decrypt id r.version r.enc
  removed : ∀ id row r, l.store.secrets.lookup id = some row → db.secrets.lookup id = some r →
    row.version = r.version → row.deleted = false → r.deleted = true → l.edits.lookup id = none

/-- No operation rotates the key, and no device reads rows in conflict with its own. -/
def noConflicts (S : Setup) : Limit where
  start _ op _ _ := ¬ op.Rotates
  exec _ c s l r _ _ :=
    match c, r with
    | .server (.selectSecrets _), .ok _ => NoConflict S s.db l
    | _, _ => True
  finish _ _ _ _ _ := True

/-- The rows that a device changed are as it left them. -/
def EditsKept (l : Device) : Prop :=
  ∀ id row, l.edits.lookup id = some row → l.store.secrets.lookup id = some row

/-- The vault key is the first one, and the server's rows are sealed under it. -/
structure OneKey (S : Setup) (s : Shared) : Prop where
  keys : s.keys = [S.key]
  rows : ∀ id r, s.db.secrets.lookup id = some r →
    SealedUnder S s.created S.key id r.version r.enc

section Rows

variable {S : Setup} {s s' : Shared} {l l' : Device} {db db' : Server.Db} {id : Ident}

theorem SealedUnder.decrypt {created : List (Ident × String)} {version : Int}
    {enc : Core.Vault.EncryptedSecret} (h : SealedUnder S created S.key id version enc) :
    ∃ content, S.decrypt id version enc = .ok content := by
  obtain ⟨name, value, -, hopens⟩ := h
  exact ⟨_, hopens.decryptSecret_eq⟩

theorem NoConflict.still (h : NoConflict S db l) (hstore : l'.store = l.store)
    (hedits : l'.edits = l.edits) : NoConflict S db l' := by
  obtain ⟨habsent, hnewer, holder, hcontent, hremoved⟩ := h
  rw [← hstore] at habsent hnewer holder hcontent hremoved
  rw [← hedits] at hnewer hremoved
  exact ⟨habsent, hnewer, holder, hcontent, hremoved⟩

/-- Applying a snapshot that is in no conflict keeps what the device changed. -/
theorem EditsKept.merge (h : EditsKept l) (hn : NoConflict S db l)
    (hlocal : ∀ id row, l.store.secrets.lookup id = some row → row.envId = S.envId)
    {rows : List (Ident × Server.Secret)} (hrows : rows.Sublist (db.secretsOf S.envId)) :
    EditsKept (l.merge S false rows) := by
  intro id row hedit
  have hedit : l.edits.lookup id = some row := hedit
  have hrow := h id row hedit
  have hnodup : (rows.map Prod.fst).Nodup := (nodup_secretsOf db S.envId).sublist (hrows.map _)
  by_cases hmem : id ∈ rows.map Prod.fst
  · obtain ⟨⟨id, r⟩, hr, rfl⟩ := List.mem_map.1 hmem
    have hdb : db.secrets.lookup id = some r := (mem_secretsOf.1 (hrows.subset hr)).1
    have hnot : ¬ l.store.takes S.envId false (id, r) = true := by
      rw [Store.takes_iff hrow (hlocal id row hrow)]
      rintro (hlt | ⟨heq, hdel, hlive⟩)
      · rw [hn.newer id row r hrow hdb hlt] at hedit
        cases hedit
      · rw [hn.removed id row r hrow hdb heq.symm hlive hdel] at hedit
        cases hedit
    rw [Device.merge, Store.lookup_mergeAll hnodup hr, if_neg hnot]
    exact hrow
  · rw [Device.merge, Store.lookup_mergeAll_of_notMem hmem]
    exact hrow

/-- A push after a snapshot in no conflict leaves the server with the rows of the device. -/
theorem agrees_pushed (hi : s.Sound S) (hone : OneKey S s) (hsealed : AllSealed S S.key s l)
    (hn : NoConflict S s.db l)
    (hlocal : ∀ id row, l.store.secrets.lookup id = some row → row.envId = S.envId)
    (hpushed : ∀ id, db'.secrets.lookup id = pushed S.envId
      ((l.merge S false (s.db.secretsOf S.envId)).store.secrets.lookup id)
      (s.db.secrets.lookup id)) :
    Agrees S (l.merge S false (s.db.secretsOf S.envId)).store db' := by
  intro id
  have hpushed := hpushed id
  cases hr : s.db.secrets.lookup id with
  | none =>
      have hkeep : (l.merge S false (s.db.secretsOf S.envId)).store.secrets.lookup id =
          l.store.secrets.lookup id :=
        Store.lookup_mergeAll_of_notMem (notMem_secretsOf hr)
      rw [hkeep, hr] at hpushed
      rw [hkeep]
      cases hrow : l.store.secrets.lookup id with
      | none =>
          rw [hrow] at hpushed
          exact Or.inl ⟨rfl, hpushed⟩
      | some row =>
          have hlive := hn.absent id row hrow hr
          obtain ⟨content, hcontent⟩ := (hsealed id row hrow).decrypt
          rw [hrow, pushed_of_new hlive (by simp)] at hpushed
          exact Or.inr ⟨row, _, rfl, hpushed, rfl, hlive, content, hcontent, hcontent⟩
  | some r =>
      have hmem : (id, r) ∈ s.db.secretsOf S.envId := mem_secretsOf.2 ⟨hr, (hi.rows id r hr).1⟩
      have hmerged : (l.merge S false (s.db.secretsOf S.envId)).store.secrets.lookup id =
          if l.store.takes S.envId false (id, r) then some (localRow S.envId r)
          else l.store.secrets.lookup id := Store.lookup_mergeAll (nodup_secretsOf _ _) hmem
      obtain ⟨content, hcontent⟩ := (hone.rows id r hr).decrypt
      rw [hmerged, hr] at hpushed
      rw [hmerged]
      right
      by_cases htakes : l.store.takes S.envId false (id, r) = true
      · rw [if_pos htakes] at hpushed ⊢
        refine ⟨_, r, rfl, ?_, rfl, rfl, content, hcontent, hcontent⟩
        rw [hpushed]
        simp [pushed, localRow]
      · rw [if_neg htakes] at hpushed ⊢
        cases hrow : l.store.secrets.lookup id with
        | none =>
            have : l.store.takes S.envId false (id, r) = true := by
              simp [Store.takes, Store.findSecret, hrow, remoteWins]
            exact absurd this htakes
        | some row =>
            rw [Store.takes_iff hrow (hlocal id row hrow), not_or] at htakes
            rw [hrow] at hpushed
            obtain ⟨hle, hdel⟩ := htakes
            rcases Int.lt_or_eq_of_le (Int.not_lt.1 hle) with hlt | heq
            · have hlive := hn.older id row r hrow hr hlt
              obtain ⟨content, hcontent⟩ := (hsealed id row hrow).decrypt
              rw [pushed_of_new hlive (by simpa using hlt)] at hpushed
              exact ⟨row, _, rfl, hpushed, rfl, hlive, content, hcontent, hcontent⟩
            · have hsame := hn.content id row r hrow hr heq.symm
              have hrest : ∀ r', db'.secrets.lookup id = some r' → r'.version = r.version →
                  r'.enc = r.enc → row.deleted = r'.deleted → SameSecret S id row r' := by
                intro r' _ hv henc hd
                refine ⟨heq.symm.trans hv.symm, hd, content, hsame.trans hcontent, ?_⟩
                rw [hv, henc]
                exact hcontent
              cases hd : row.deleted with
              | true =>
                  cases hd' : r.deleted with
                  | true =>
                      have hpushed : db'.secrets.lookup id = some r := by
                        simpa [pushed, hd, hd'] using hpushed
                      exact ⟨row, r, rfl, hpushed, hrest r hpushed rfl rfl (hd.trans hd'.symm)⟩
                  | false =>
                      have hpushed : db'.secrets.lookup id = some { r with deleted := true } := by
                        simpa [pushed, hd, hd'] using hpushed
                      exact ⟨row, _, rfl, hpushed, hrest _ hpushed rfl rfl hd⟩
              | false =>
                  have hd' : r.deleted = false := by
                    by_contra hd'
                    exact hdel ⟨heq, by simpa using hd', hd⟩
                  have hpushed : db'.secrets.lookup id = some r := by
                    simpa [pushed, hd, heq] using hpushed
                  exact ⟨row, r, rfl, hpushed, hrest r hpushed rfl rfl (hd.trans hd'.symm)⟩

end Rows

/-! ### Edits -/

section Edits

variable {S : Setup} {d : Nat} {s : Shared} {l : Device} {before after : Store}
  {edits : Table Ident SecretRow} {id : Ident} {row : SecretRow} {key : Bytes} {name : String}
  {value : Bytes} {store : Store}

/-- A recorded row was recorded before, or is the row that an edit left. -/
theorem lookup_recordEdits (h : (recordEdits before after edits).lookup id = some row) :
    after.secrets.lookup id = some row ∨ (edits.lookup id = some row ∧
      ∀ row', after.secrets.lookup id = some row' → before.secrets.lookup id = some row') := by
  by_cases hmem : ∃ row', (id, row') ∈ changedRows before after
  · obtain ⟨row', hmem⟩ := hmem
    have hnodup : ((changedRows before after).map Prod.fst).Nodup :=
      (Table.nodup_rows after.secrets).sublist (List.filter_sublist.map _)
    have hlookup : (recordEdits before after edits).lookup id = some row' :=
      Table.lookup_foldl_insert (fun e : Ident × SecretRow => e.1) (fun e => e.2) hnodup hmem edits
    rw [hlookup] at h
    cases h
    exact Or.inl (Table.mem_rows.1 (List.mem_filter.1 hmem).1)
  · right
    have hlookup : (recordEdits before after edits).lookup id = edits.lookup id := by
      refine Table.lookup_foldl_insert_of_notMem (fun e : Ident × SecretRow => e.1)
        (fun e => e.2) ?_ edits
      rintro ⟨id', row'⟩ hrow' rfl
      exact hmem ⟨row', hrow'⟩
    rw [hlookup] at h
    refine ⟨h, ?_⟩
    intro row' hrow'
    by_contra hne
    exact hmem ⟨row', List.mem_filter.2 ⟨Table.mem_rows.2 hrow', by simpa using hne⟩⟩

/-- An edit that removes no row keeps the rows that the device changed. -/
theorem EditsKept.edited (h : EditsKept l)
    (hrows : ∀ id row, l.store.secrets.lookup id = some row →
      ∃ row', store.secrets.lookup id = some row') : EditsKept (l.edited store) := by
  intro id row hedit
  have hedit : (recordEdits l.store store l.edits).lookup id = some row := hedit
  rcases lookup_recordEdits hedit with hnew | ⟨hold, hkeep⟩
  · exact hnew
  · have hrow := h id row hold
    obtain ⟨row', hrow'⟩ := hrows id row hrow
    have := hkeep row' hrow'
    rw [hrow] at this
    cases this
    exact hrow'

end Edits

/-! ### The outline -/

/-- What the outline adds: the one key, and what a device changed is kept until a push
succeeds, which leaves the device and the server in agreement. -/
def agreementExtension (S : Setup) :
    Outline.Extension Nat Cmd.Reply Shared Device Op (Except Cli.Error Unit) where
  limit := noConflicts S
  inv := OneKey S
  guar _ _ _ _ _ := True
  idle d s l := ∃ grant, Holder S d grant S.key s l ∧ AllSealed S S.key s l ∧ EditsKept l
  post d op r s l := (∃ grant, Holder S d grant S.key s l ∧ AllSealed S S.key s l ∧ EditsKept l) ∧
    (op = .push → r = .ok () → Agrees S l.store l.seen)

/-- The outline over the base outline. -/
def agreement (S : Setup) : Outline (S.grounded.restrict (noConflicts S)) :=
  (base S).extend (agreementExtension S)

/-- The setting of a device. -/
abbrev agreementSetting (S : Setup) (d : Nat) : Setting Cmd.Reply Shared Device :=
  (agreement S).setting d

theorem agreement_grounded {S : Setup} (d : Nat) : Grounded S d (agreementSetting S d) :=
  (base_grounded d).extend (fun h => h) fun _ _ _ => trivial

/-- A device in the middle of an operation that rotates no key. -/
structure InStep (S : Setup) (_ : Nat) (_ key : Bytes) (s : Shared) (l : Device) : Prop where
  key : key = S.key
  sealed : AllSealed S S.key s l
  edits : EditsKept l
  current : ∀ op, l.current = some op → ¬ op.Rotates

section Rounds

variable {S : Setup} {d : Nat} {s s' : Shared} {l l' : Device} {grant key : Bytes}
  {s₁ s₂ s₃ : Shared} {revision : Int} {l₁ l₂ : Device} {grant' : Bytes}

theorem Holder.key_eq (hg : Holder S d grant key s l) (hone : OneKey S s) : key = S.key :=
  hg.eq_of_keys hone.keys

theorem InStep.later (h : InStep S d grant key s l) (hs : Evolves S s s') :
    InStep S d grant key s' l :=
  ⟨h.key, h.sealed.evolves hs, h.edits, h.current⟩

theorem InStep.same (h : InStep S d grant key s l) (hl : l.Same l') :
    InStep S d grant key s l' := by
  refine ⟨h.key, h.sealed.of_secrets (by rw [hl.store]), ?_, ?_⟩
  · intro id row hedit
    rw [hl.edits] at hedit
    rw [hl.store]
    exact h.edits id row hedit
  · intro op hop
    exact h.current op (hl.current.symm.trans hop)

/-- The rows that a device fetches are in no conflict with its own. -/
theorem Fetched.noConflict (hfetch : Fetched S d (agreementSetting S d) s l s₁ s₂ revision l₁) :
    NoConflict S s₂.db l₁ := by
  obtain ⟨m, _, hm, -, hexec⟩ := hfetch.exec
  have hn : NoConflict S s₂.db m := hexec.2
  exact hn.still (hfetch.same.store.trans hm.store.symm) (hfetch.same.edits.trans hm.edits.symm)

theorem InStep.merge (h : InStep S d grant key s' l₁) (hl : l₁.Sound S d s')
    (hfetch : Fetched S d (agreementSetting S d) s l s₁ s₂ revision l₁) (hs : Evolves S s₂ s')
    {rows : List (Ident × Server.Secret)} (hrows : rows.Sublist (s₂.db.secretsOf S.envId)) :
    InStep S d grant key s' (l₁.merge S false rows) := by
  have hone : OneKey S s₂ := hfetch.inv₂.2
  exact ⟨h.key, h.sealed.merge hs hrows.subset hone.rows,
    h.edits.merge hfetch.noConflict (fun id row hrow => (hl.rows id row hrow).1) hrows, h.current⟩

theorem InStep.synced (h : InStep S d grant key s l) :
    InStep S d grant key s (l.synced S revision) :=
  ⟨h.key, h.sealed.of_secrets rfl, h.edits, h.current⟩

theorem InStep.fetched (h : InStep S d grant key s l)
    (hfetch : Fetched S d (agreementSetting S d) s l s₁ s₂ revision l₁) (hs : Later S d s₂ s') :
    InStep S d grant key s' l₁ :=
  (h.later ((hfetch.later (agreement_grounded d)).trans hs).toEvolves).same hfetch.same

theorem InStep.forward (hg : Holder S d grant key s l) (h : InStep S d grant key s l)
    (hfetch : Fetched S d (agreementSetting S d) s l s₁ s₂ revision l₁) (hs : Later S d s₂ s')
    (hi : s'.Sound S) :
    InStep S d grant key s' (l₁.forward S (s₂.db.secretsOf S.envId) revision) :=
  ((h.fetched hfetch hs).merge (hg.fetched (agreement_grounded d) hfetch hs hi).sound hfetch
    hs.toEvolves (List.Sublist.refl _)).synced

/-- Without a rotation there is no other grant to adopt. -/
theorem not_adopted (hl : Holder S d grant key s l)
    (hlater : Later S d s s₂) :
    ¬ Adopted S d (agreementSetting S d) grant s₂ l₁ s₃ grant' s' l₂ := by
  intro hadopt
  have hone : OneKey S s₃ := hadopt.inv₃.2
  exact hl.not_adopted (agreement_grounded d) hlater hone.keys hadopt

theorem InStep.post (h : InStep S d grant key s l) (hg : Holder S d grant key s l) :
    ∃ grant, Holder S d grant S.key s l ∧ AllSealed S S.key s l ∧ EditsKept l := by
  obtain rfl := h.key
  exact ⟨grant, hg, h.sealed, h.edits⟩

theorem InStep.pulled {r : Except Cli.Error Int} (hg : Holder S d grant key s l)
    (h : InStep S d grant key s l) (hi : s'.Sound S)
    (hpulled : Pulled S d (agreementSetting S d) grant s l r s' l') :
    ∃ grant, Holder S d grant S.key s' l' ∧ AllSealed S S.key s' l' ∧ EditsKept l' := by
  have Gr : Grounded S d (agreementSetting S d) := agreement_grounded d
  cases hpulled with
  | stopped hlooked =>
      have hs : Later S d s s' := Gr.later hlooked.rely
      exact ((h.later hs.toEvolves).same hlooked.same).post ((hg.later hs hi).same hlooked.same)
  | current hs₁ _ _ hs' hsame =>
      have hs : Later S d s s' := (Gr.later hs₁).trans (Gr.later hs')
      exact ((h.later hs.toEvolves).same hsame.toSame).post ((hg.later hs hi).same hsame.toSame)
  | kept _ hfetch hkept happly =>
      have hs : Later S d _ s' := Gr.later hkept.rely
      have hg₁ := hg.fetched Gr hfetch hs hi
      have hg' := hg₁.applied Gr hfetch hs.toEvolves happly
      cases happly with
      | part e n =>
          exact ((h.fetched hfetch hs).merge hg₁.sound hfetch hs.toEvolves
            (List.take_sublist _ _)).post hg'
      | whole => exact (InStep.forward hg h hfetch hs hi).post hg'
  | adopted _ hfetch hadopt _ => exact absurd hadopt (not_adopted hg (hfetch.later Gr))

/-- The device and the server agree after a push that wrote nothing. -/
theorem InStep.unchanged (hg : Holder S d grant key s l) (h : InStep S d grant key s l)
    (hfetch : Fetched S d (agreementSetting S d) s l s₁ s₂ revision l₁)
    (hforward : (l₁.forward S (s₂.db.secretsOf S.envId) revision).Still l')
    (hnil : changesOf S (s₂.db.secretsOf S.envId) l'.store = []) :
    Agrees S l'.store l'.seen := by
  have Gr : Grounded S d (agreementSetting S d) := agreement_grounded d
  have hi₂ : s₂.Sound S := Gr.sound hfetch.inv₂
  have hl₁ := (hg.fetched Gr hfetch (Later.refl s₂) hi₂).sound
  have hlocal : ∀ id row, l'.store.secrets.lookup id = some row → row.envId = S.envId := by
    intro id row hrow
    rw [hforward.store] at hrow
    exact ((hl₁.mergeFetched Gr hfetch (Evolves.refl s₂) (List.Subset.refl _)).rows id row hrow).1
  have hagree : Agrees S (l₁.merge S false (s₂.db.secretsOf S.envId)).store s₂.db := by
    refine agrees_pushed hi₂ hfetch.inv₂.2 (h.fetched hfetch (Later.refl s₂)).sealed
      hfetch.noConflict (fun id row hrow => (hl₁.rows id row hrow).1) ?_
    intro id
    have hsame := pushed_of_unchanged (fun id r hr => (hi₂.rows id r hr).1) hlocal hnil id
    rwa [hforward.store] at hsame
  rw [hforward.store, hforward.seen]
  change Agrees S (l₁.merge S false (s₂.db.secretsOf S.envId)).store l₁.seen
  rw [hfetch.seen]
  exact hagree

/-- The device and the server agree after a push that wrote its changes. -/
theorem InStep.wrote {s₄ : Shared} {access : Server.ProjectAccess} {v : Int} {l₄ l₅ : Device}
    (hg : Holder S d grant key s l) (h : InStep S d grant key s l)
    (hwrote : Wrote S d (agreementSetting S d) grant s l s₁ s₂ s₄ revision l₁ access v l₄ l₅) :
    InStep S d grant key (afterBatch S s₂ s₄ revision access l₄) l₅ ∧
      OneKey S (afterBatch S s₂ s₄ revision access l₄) ∧ Agrees S l₅.store l₅.seen := by
  have Gr : Grounded S d (agreementSetting S d) := agreement_grounded d
  obtain ⟨hevolves, -, -⟩ := hwrote.guarantees Gr hg.sound
  obtain ⟨-, hdb, -⟩ := hwrote.same_db Gr
  have hi₂ : s₂.Sound S := Gr.sound hwrote.fetched.inv₂
  have hone₂ : OneKey S s₂ := hwrote.fetched.inv₂.2
  have hone₄ : OneKey S s₄ := hwrote.inv₄.2
  have hl₁ := (hg.fetched Gr hwrote.fetched (Later.refl s₂) hi₂).sound
  have h₄ : InStep S d grant key s₄ l₄ :=
    (InStep.forward hg h hwrote.fetched (Gr.later hwrote.before) (Gr.sound hwrote.inv₄)).same
      hwrote.forward.toSame
  have hl₄ := (hg.wrote Gr hwrote).1.sound
  obtain ⟨-, hup⟩ := hwrote.uploaded Gr fun id row hrow => (hl₄.rows id row hrow).1
  have hseen : l₅.seen = (afterBatch S s₂ s₄ revision access l₄).db := by rw [hwrote.seen]
  have hstore : l₅.store = l₄.store := by rw [hwrote.seen]
  refine ⟨?_, ⟨?_, ?_⟩, ?_⟩
  · have h₅ := h₄.later hevolves
    rw [hwrote.seen]
    exact ⟨h₅.key, h₅.sealed, h₅.edits, h₅.current⟩
  · rw [hup.keys]
    exact hone₄.keys
  · intro id r' hr'
    rw [hup.rows] at hr'
    rw [hup.created]
    rcases pushed_cases hr' with ⟨r, hr, -, hv, henc⟩ | ⟨row, hrow, -, -, rfl⟩
    · rw [hv, henc]
      exact hone₄.rows id r hr
    · exact h₄.sealed id row hrow
  · have hagree : Agrees S (l₁.merge S false (s₂.db.secretsOf S.envId)).store
        (afterBatch S s₂ s₄ revision access l₄).db := by
      refine agrees_pushed hi₂ hone₂ (h.fetched hwrote.fetched (Later.refl s₂)).sealed
        hwrote.fetched.noConflict (fun id row hrow => (hl₁.rows id row hrow).1) ?_
      intro id
      have hrows := hup.rows id
      rw [hdb, hwrote.forward.store] at hrows
      exact hrows
    rw [hstore, hseen, hwrote.forward.store]
    exact hagree

/-- A round of a push that ends with a result. -/
theorem InStep.pushRound {r : Except Cli.Error Int} (hg : Holder S d grant key s l)
    (h : InStep S d grant key s l) (hi : s'.Sound S)
    (hround : PushRound S d (agreementSetting S d) grant s l (some r) s' l') :
    (∃ grant, Holder S d grant S.key s' l' ∧ AllSealed S S.key s' l' ∧ EditsKept l') ∧
      (r.toBool = true → Agrees S l'.store l'.seen) := by
  have Gr : Grounded S d (agreementSetting S d) := agreement_grounded d
  have hforward : ∀ {s₁ s₂ : Shared} {revision : Int} {l₁ m : Device},
      Fetched S d (agreementSetting S d) s l s₁ s₂ revision l₁ → Later S d s₂ s' →
      (l₁.forward S (s₂.db.secretsOf S.envId) revision).Still m →
      ∃ grant, Holder S d grant S.key s' m ∧ AllSealed S S.key s' m ∧ EditsKept m := by
    intro s₁ s₂ revision l₁ m hfetch hs hm
    exact ((InStep.forward hg h hfetch hs hi).same hm.toSame).post
      ((hg.forward Gr hfetch hs hi).same hm.toSame)
  cases hround with
  | stopped _ hlooked =>
      have hs : Later S d s s' := Gr.later hlooked.rely
      refine ⟨?_, by simp [Except.toBool]⟩
      exact ((h.later hs.toEvolves).same hlooked.same).post ((hg.later hs hi).same hlooked.same)
  | part _ hfetch hs =>
      have hs : Later S d _ s' := Gr.later hs
      have hg₁ := hg.fetched Gr hfetch hs hi
      refine ⟨?_, by simp [Except.toBool]⟩
      exact ((h.fetched hfetch hs).merge hg₁.sound hfetch hs.toEvolves
        (List.take_sublist _ _)).post (hg₁.merge Gr hfetch hs.toEvolves (List.take_subset _ _))
  | forwarded hr hfetch hs hl' =>
      refine ⟨hforward hfetch (Gr.later hs) hl', ?_⟩
      rcases hr with hr | ⟨e, -, hr⟩
      · cases hr
      · cases hr
        simp [Except.toBool]
  | refused hfetch hchanged hl' _ =>
      exact ⟨hforward hfetch (Gr.later hchanged.rely) hl', by simp [Except.toBool]⟩
  | unchanged hfetch hkept hl' hnil =>
      exact ⟨hforward hfetch (Gr.later hkept.rely) hl', fun _ => h.unchanged hg hfetch hl' hnil⟩
  | adopted hfetch _ hadopt _ => exact absurd hadopt (not_adopted hg (hfetch.later Gr))
  | wrote hwrote hs hr =>
      have hs : Later S d _ s' := Gr.later hs
      obtain ⟨h₅, -, hagree⟩ := InStep.wrote hg h hwrote
      have hg₅ := (hg.wrote Gr hwrote).2.later hs hi
      have h₅ := h₅.later hs.toEvolves
      rcases hr with ⟨-, rfl⟩ | ⟨_, -, rfl, rfl⟩
      · exact ⟨h₅.synced.post hg₅.synced, fun _ => hagree⟩
      · exact ⟨h₅.post hg₅, by simp [Except.toBool]⟩

end Rounds

theorem agreement_layer {S : Setup} : Layer S (base S) (agreementExtension S) (InStep S) where
  guar_refl := fun _ _ _ _ => trivial
  start := by
    intro d op s l grant key _ hone _ hidle hlimit hg
    obtain ⟨grant', hg', hsealed, hedits⟩ := hidle
    refine ⟨hg.key_eq hone, hsealed.of_secrets rfl, hedits, ?_⟩
    intro op' hop'
    cases hop'
    exact hlimit
  later := fun h _ hs _ hlooked => (h.later hs.toEvolves).same hlooked.same
  set := by
    intro d grant key s l name value store h hg hi hby _
    obtain ⟨rfl, hsealed, hedits, hcurrent⟩ := h
    have hone : OneKey S s := hi.2
    refine ⟨trivial, ⟨hone.keys, ?_⟩, rfl, ?_, ?_, hcurrent⟩
    · intro id r hr
      exact (hone.rows id r hr).mono (List.suffix_append _ _)
    · intro id row hrow
      rcases hby.lookup hrow with hold | ⟨-, hunder, -⟩
      · exact (hsealed id row hold).mono (List.suffix_append _ _)
      · exact hunder
    · exact hedits.edited fun id row hrow => hby.exists_lookup hrow
  delete := by
    intro d grant key s l name id row h hg _ hrow _ hsealed _
    obtain ⟨rfl, hall, hedits, hcurrent⟩ := h
    refine ⟨rfl, ?_, ?_, hcurrent⟩
    · intro id' row' hrow'
      rcases lookup_withTombstone hrow' with hold | ⟨row₀, rfl, hrow₀, rfl⟩
      · exact hall id' row' hold
      · rw [hrow] at hrow₀
        cases hrow₀
        exact hsealed
    · exact hedits.edited fun id' row' hrow' => exists_lookup_withTombstone id hrow'
  ended := by
    intro d op r grant key s l h hg _ hends
    refine ⟨h.post hg, ?_⟩
    rintro rfl
    exact hends.elim
  pulled := by
    intro d op r grant key s l s' l' hop h hg hi' hpulled
    refine ⟨h.pulled hg hi'.1 hpulled, ?_⟩
    rintro rfl
    rcases hop with hop | hop <;> cases hop
  retried := by
    intro d grant key s l s' l' h hg hi' hround
    have Gr := agreement_grounded (S := S) d
    cases hround with
    | forwarded _ hfetch hs hl' =>
        exact (InStep.forward hg h hfetch (Gr.later hs) hi'.1).same hl'.toSame
  wrote := fun h hg hwrote => ⟨trivial, (InStep.wrote hg h hwrote).2.1⟩
  pushed := by
    intro d r grant key s l s' l' h hg hi' hround
    obtain ⟨hpost, hagree⟩ := h.pushRound hg hi'.1 hround
    refine ⟨hpost, ?_⟩
    intro _ hok
    cases r with
    | ok v => exact hagree rfl
    | error e => cases hok
  rotated := by
    intro d grant key s l s₁ s₂ s₇ revision keySeed access orgId rotation v l₇ _ hop h hg hrot
    obtain ⟨op, hop, hrotates⟩ := hop
    exact absurd hrotates (h.current op hop)
  finish := by
    intro d op r s l _ _ _ hafter _
    obtain ⟨⟨grant, hg, hsealed, hedits⟩, -⟩ := hafter
    refine ⟨grant, hg.finish, hsealed.of_secrets rfl, ?_⟩
    intro id row hedit
    simp only at hedit
    split at hedit
    · cases hedit
    · exact hedits id row hedit
  idle_stable := by
    intro d s s' l _ hi' hs _ hidle
    obtain ⟨grant, hg, hsealed, hedits⟩ := hidle
    exact ⟨grant, hg.later hs hi'.1, hsealed.evolves hs.toEvolves, hedits⟩

theorem agreement_valid {S : Setup} : (agreement S).Valid :=
  agreement_layer.valid (faithful_system S) base_grounded (fun h => h) base_valid (le_anyRun _)

theorem agreement_init {S : Setup} : (agreement S).Good S.init where
  inv := by
    refine ⟨sound_init S, rfl, ?_⟩
    intro id r hr
    have hr : S.db.secrets.lookup id = some r := hr
    rw [S.secrets] at hr
    cases hr
  thread d := by
    obtain ⟨grant, key, hg⟩ := Holder.exists_of_sound (soundDevice_init S d)
    have hknown : key ∈ [S.key] := hg.holds.known
    rw [List.mem_singleton] at hknown
    subst hknown
    refine ⟨hg.sound, grant, hg, ?_, ?_⟩
    · intro id row hrow
      have hrow : (S.store d).secrets.lookup id = some row := hrow
      rw [(S.noSecrets d).1] at hrow
      cases hrow
    · intro id row hedit
      cases hedit

/-- In every run without rotations and conflicts, a push that returns Ok leaves the device in
agreement with the server, also on every row that the device changed since its last successful
push. -/
theorem push_agrees (S : Setup) {w : Setup.World}
    (hw : (S.system.restrict (noConflicts S)).Reaches S.init w) {d : Nat}
    (hret : (w.threads d).running = some (.push, .ret (.ok ()))) :
    Agrees S (w.threads d).own.store (w.threads d).own.seen ∧
      ∀ id row, (w.threads d).own.edits.lookup id = some row →
        (w.threads d).own.store.secrets.lookup id = some row ∧
          ∃ r, (w.threads d).own.seen.secrets.lookup id = some r ∧ SameSecret S id row r := by
  have hgood : (agreement S).Good w :=
    agreement_init.reaches agreement_valid (grounded_reaches hw)
  obtain ⟨⟨_, -, -, hedits⟩, hagree⟩ :=
    hgood.post hret
  have hagree := hagree rfl rfl
  refine ⟨hagree, ?_⟩
  intro id row hedit
  have hrow := hedits id row hedit
  refine ⟨hrow, ?_⟩
  rcases hagree id with ⟨hnone, -⟩ | ⟨row', r, hrow', hr, hsame⟩
  · rw [hrow] at hnone
    cases hnone
  · rw [hrow] at hrow'
    cases hrow'
    exact ⟨r, hr, hsame⟩

/-! ### Runs of the team -/

instance : DecidablePred Op.Rotates := fun op =>
  match op with
  | .set .. => .isFalse id
  | .delete _ => .isFalse id
  | .pull => .isFalse id
  | .push => .isFalse id
  | .rotate => .isTrue trivial
  | .rotateEnv _ => .isTrue trivial

/-- The check that no operation rotates the key. -/
def noRotation : Check where
  start _ op _ _ := !decide op.Rotates
  exec _ _ _ _ := true
  finish _ _ _ _ _ := true

/-- Whether a row of a store differs in its content from the server's row. -/
def contentDiffers (S : Setup) (store : Store) (db : Server.Db) : Bool :=
  store.secrets.rows.any fun e => (db.secrets.lookup e.1).any fun r =>
    decide (S.decrypt e.1 e.2.version e.2.enc ≠ S.decrypt e.1 r.version r.enc)

theorem not_agrees {S : Setup} {store : Store} {db : Server.Db}
    (h : contentDiffers S store db = true) : ¬ Agrees S store db := by
  simp only [contentDiffers, List.any_eq_true] at h
  obtain ⟨⟨id, row⟩, hmem, hany⟩ := h
  obtain ⟨r, hr, hne⟩ := (Option.any_eq_true _ _).1 hany
  have hrow := Table.mem_rows.1 hmem
  intro hagree
  rcases hagree id with ⟨hnone, -⟩ | ⟨row', r', hrow', hr', -, -, content, hlocal, hremote⟩
  · rw [hrow] at hnone
    cases hnone
  · rw [hrow] at hrow'
    cases hrow'
    rw [hr] at hr'
    cases hr'
    exact of_decide_eq_true hne (hlocal.trans hremote.symm)

/-- Whether a push of a device returned Ok. -/
def pushReturned (d : Nat) (w : Setup.World) : Bool :=
  match (w.threads d).running with
  | some (.push, .ret (.ok ())) => true
  | _ => false

theorem running_of_pushReturned {d : Nat} {w : Setup.World} (h : pushReturned d w = true) :
    (w.threads d).running = some (.push, .ret (.ok ())) := by
  unfold pushReturned at h
  split at h
  · assumption
  · cases h

/-- Two devices set the next version of a secret to different values, and push one after the
other. -/
def collisionRun : List Move :=
  Team.whole 0 (.set "X" Team.value) ++ Team.whole 0 .push ++ Team.whole 1 .pull ++
  Team.whole 0 (.set "X" (.raw "2".toUTF8)) ++ Team.whole 1 (.set "X" (.raw "3".toUTF8)) ++
  Team.whole 0 .push ++ [.begin 1 .push, .ticks 1 31]

set_option maxRecDepth 10000 in
/-- The second push returns Ok and leaves the two values. -/
theorem push_disagrees : ∃ w,
    (Team.setup.system.restrict noRotation.limit).Reaches Team.setup.init w ∧
    (w.threads 1).running = some (.push, .ret (.ok ())) ∧
    ¬ Agrees Team.setup (w.threads 1).own.store (w.threads 1).own.seen := by
  refine ⟨Team.setup.run collisionRun Team.setup.init, Setup.run_reaches (by decide +kernel),
    running_of_pushReturned (by decide +kernel), not_agrees (by decide +kernel)⟩

/-- The check that no device reads a row that it has. -/
def freshRows : Check where
  start _ op _ _ := !decide op.Rotates
  exec _ c s l :=
    match c with
    | .server (.selectSecrets _) => l.store.secrets.rows.all fun e =>
        !e.2.deleted && (s.db.secrets.lookup e.1).all fun r => decide (r.version < e.2.version)
    | _ => true
  finish _ _ _ _ _ := true

theorem freshRows_le : freshRows.limit.Le (noConflicts Team.setup) where
  start := by
    intro d op s l h
    have h : (!decide op.Rotates) = true := h
    simpa [noConflicts] using h
  exec := by
    rintro d c s l r s' l' ⟨h, -⟩
    simp only [noConflicts]
    split
    · have hall : ∀ id row, l.store.secrets.lookup id = some row → row.deleted = false ∧
          ∀ r, s.db.secrets.lookup id = some r → r.version < row.version := by
        intro id row hrow
        have hrow := List.all_eq_true.1 h _ (Table.mem_rows.2 hrow)
        obtain ⟨hlive, hnew⟩ := Bool.and_eq_true_iff.1 hrow
        refine ⟨by simpa using hlive, ?_⟩
        intro r hr
        simpa [hr] using hnew
      refine ⟨fun id row hrow _ => (hall id row hrow).1, ?_, fun id row _ hrow _ _ =>
        (hall id row hrow).1, ?_, ?_⟩
      · intro id row r hrow hr hlt
        have := (hall id row hrow).2 r hr
        omega
      · intro id row r hrow hr heq
        have := (hall id row hrow).2 r hr
        omega
      · intro id row r hrow hr heq
        have := (hall id row hrow).2 r hr
        omega
    · trivial
  finish := fun _ => trivial

set_option maxRecDepth 10000 in
/-- A device changes a secret of another and pushes it. -/
theorem push_agrees_changed : ∃ l : Device, l.edits.rows ≠ [] ∧
    Agrees Team.setup l.store l.seen := by
  have hreaches : (Team.setup.system.restrict (noConflicts Team.setup)).Reaches Team.setup.init
      (Team.setup.run (Team.whole 0 (.set "X" Team.value) ++ Team.whole 0 .push ++
        Team.whole 1 .pull ++ Team.whole 1 (.set "X" (.raw "3".toUTF8)) ++
        [.begin 1 .push, .ticks 1 36]) Team.setup.init) :=
    (Setup.run_reaches (C := freshRows) (by decide +kernel)).restrict_mono freshRows_le
  refine ⟨_, ?_, (push_agrees Team.setup hreaches (d := 1) (running_of_pushReturned ?_)).1⟩
  · decide +kernel
  · decide +kernel

end Sotto
