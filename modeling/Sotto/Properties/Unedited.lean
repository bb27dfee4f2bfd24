import Sotto.Base.Layer
import Sotto.Team

/-!
# A push without local edits

What a push uploads is found by comparing rows, so a push after no edit writes nothing
only if no local row looks like an edit. A tombstone at a version that the server did not
have does: when the server's tombstone is resurrected up to that version, the row is taken
for a deletion. A device that tombstones rows only at versions the server has reached never
uploads anything without an edit.
-/

namespace Sotto

open Core Cli

/-- The tombstones of a device are not ahead of the server's rows. -/
def TombstonesBehind (s : Shared) (l : Device) : Prop :=
  ∀ id row r, l.store.secrets.lookup id = some row → row.deleted = true →
    s.db.secrets.lookup id = some r → row.version ≤ r.version

/-- A push has nothing to write: the server has reached the version of every live local row,
and has deleted or passed every local tombstone that it has a row of. -/
def Settled (s : Shared) (l : Device) : Prop :=
  ∀ id row, l.store.secrets.lookup id = some row →
    (row.deleted = false → Behind s.db id row) ∧
    (row.deleted = true → ∀ r, s.db.secrets.lookup id = some r →
      r.deleted = true ∨ row.version < r.version)

/-- A device whose tombstones are behind the server, with nothing to write if it is clean. -/
structure Tracked (clean : Prop) (s : Shared) (l : Device) : Prop where
  tombstones : TombstonesBehind s l
  settled : clean → Settled s l

/-- The rows that a store call tombstones have a version that the server has reached. -/
def MarksBehind (db : Server.Db) (before after : Store) : Prop :=
  ∀ id row row' r, before.secrets.lookup id = some row → row.deleted = false →
    after.secrets.lookup id = some row' → row'.deleted = true →
    db.secrets.lookup id = some r → row.version ≤ r.version

/-- A device deletes a secret only at a version that the server has reached, or before the
server has it. -/
def syncedDeletes : Limit where
  start _ _ _ _ := True
  exec _ c s l _ _ l' :=
    match c with
    | .store (.vaultDelete ..) => MarksBehind s.db l.store l'.store
    | _ => True
  finish _ _ _ _ _ := True

section Device

variable {S : Setup} {d : Nat} {s s' : Shared} {l l' : Device}

theorem TombstonesBehind.evolves (h : TombstonesBehind s l) (hl : NoArrival s s' l)
    (hs : Evolves S s s') : TombstonesBehind s' l := by
  intro id row r' hrow hdel hr'
  obtain ⟨r, hr, hlater⟩ := hl.lookup hs hrow hr'
  exact Int.le_trans (h id row r hrow hdel hr) hlater.version_le

theorem Settled.evolves (h : Settled s l) (ht : TombstonesBehind s l) (hl : NoArrival s s' l)
    (hs : Evolves S s s') : Settled s' l := by
  intro id row hrow
  obtain ⟨hlive, htomb⟩ := h id row hrow
  refine ⟨fun hd => (hlive hd).evolves hs, ?_⟩
  intro hd r' hr'
  obtain ⟨r, hr, hlater⟩ := hl.lookup hs hrow hr'
  have hle := ht id row r hrow hd hr
  rcases htomb hd r hr with hdel | hlt
  · rcases hlater.version with hlt | ⟨-, -, -, hkeep, -⟩
    · exact Or.inr (by omega)
    · exact Or.inl (hkeep hdel)
  · have := hlater.version_le
    exact Or.inr (by omega)

theorem Tracked.evolves {clean : Prop} (h : Tracked clean s l) (hl : NoArrival s s' l)
    (hs : Evolves S s s') : Tracked clean s' l :=
  ⟨h.tombstones.evolves hl hs, fun hc => (h.settled hc).evolves h.tombstones hl hs⟩

theorem Tracked.later {clean : Prop} (h : Tracked clean s l) (hl : l.Sound S d s)
    (hs : Later S d s s') : Tracked clean s' l :=
  h.evolves (hl.noArrival hs) hs.toEvolves

theorem Tracked.of_secrets {clean clean' : Prop} (h : Tracked clean s l)
    (hl : l'.store.secrets = l.store.secrets) (hc : clean' → clean) : Tracked clean' s l' := by
  refine ⟨?_, fun hc' id row hrow => h.settled (hc hc') id row (by rwa [← hl])⟩
  intro id row r hrow
  exact h.tombstones id row r (by rwa [← hl])

theorem Tracked.of_store {clean clean' : Prop} (h : Tracked clean s l) (hl : l'.store = l.store)
    (hc : clean' → clean) : Tracked clean' s l' :=
  h.of_secrets (by rw [hl]) hc

/-- A copy of a row that the server had. -/
theorem settled_copy {id : Ident} {r : Server.Secret} (hr : s.db.secrets.lookup id = some r)
    (hs : Evolves S s s') : ∃ r', s'.db.secrets.lookup id = some r' ∧ r.version ≤ r'.version ∧
      (r.deleted = true → r'.deleted = true ∨ r.version < r'.version) := by
  obtain ⟨r', hr', hlater⟩ := hs.rows id r hr
  refine ⟨r', hr', hlater.version_le, ?_⟩
  intro hd
  rcases hlater.version with hlt | ⟨-, -, -, hkeep, -⟩
  · exact Or.inr hlt
  · exact Or.inl (hkeep hd)

theorem Tracked.merge {clean : Prop} (h : Tracked clean s' l) {force : Bool}
    {rows : List (Ident × Server.Secret)} (hs : Evolves S s s')
    (hrows : rows ⊆ s.db.secretsOf S.envId) : Tracked clean s' (l.merge S force rows) := by
  have hcases : ∀ id row, (l.merge S force rows).store.secrets.lookup id = some row →
      l.store.secrets.lookup id = some row ∨
        ∃ r, s.db.secrets.lookup id = some r ∧ row = localRow S.envId r := by
    intro id row hrow
    rcases Device.lookup_merge_cases hrow with hkeep | ⟨r, hr, rfl⟩
    · exact Or.inl hkeep
    · exact Or.inr ⟨r, (mem_secretsOf.1 (hrows hr)).1, rfl⟩
  constructor
  · intro id row r' hrow hd hr'
    rcases hcases id row hrow with hold | ⟨r, hr, rfl⟩
    · exact h.tombstones id row r' hold hd hr'
    · obtain ⟨r'', hr'', hle, -⟩ := settled_copy hr hs
      rw [hr'] at hr''
      cases hr''
      exact hle
  · intro hc id row hrow
    rcases hcases id row hrow with hold | ⟨r, hr, rfl⟩
    · exact h.settled hc id row hold
    · obtain ⟨r', hr', hle, hdel⟩ := settled_copy hr hs
      refine ⟨fun _ => ⟨r', hr', hle⟩, ?_⟩
      intro hd r'' hr''
      rw [hr'] at hr''
      cases hr''
      exact hdel hd

end Device

/-! ### Comparing rows -/

section Changes

variable {S : Setup} {s s' : Shared} {l : Device}

/-- A copy of a server row needs no change. -/
theorem changeOf_localRow (envId id : Ident) (r : Server.Secret) :
    changeOf (Store.syncSecret id (localRow envId r)) (some (Server.secretView (id, r))) = none := by
  cases hd : r.deleted <;> simp [changeOf, Store.syncSecret, localRow, Server.secretView, hd]

/-- A device with nothing to write compares equal after it has fast-forwarded. -/
theorem Settled.changesOf_eq_nil (h : Settled s l) (hi : s.Sound S) :
    changesOf S (s.db.secretsOf S.envId) (l.merge S false (s.db.secretsOf S.envId)).store = [] := by
  have hrows : ∀ id r, s.db.secrets.lookup id = some r → r.envId = S.envId :=
    fun id r hr => (hi.rows id r hr).1
  rw [List.eq_nil_iff_forall_not_mem]
  intro c hc
  obtain ⟨row, hrow, -, hchange⟩ := (mem_changesOf hrows).1 hc
  cases hr : s.db.secrets.lookup c.id with
  | none =>
      rw [Device.merge, Store.lookup_mergeAll_of_notMem (notMem_secretsOf hr)] at hrow
      rw [hr] at hchange
      simp only [Option.map_none, changeOf, Store.syncSecret] at hchange
      cases hd : row.deleted with
      | true => simp [hd] at hchange
      | false =>
          obtain ⟨r, hr', -⟩ := (h c.id row hrow).1 hd
          rw [hr] at hr'
          cases hr'
  | some r =>
      have hmem : (c.id, r) ∈ s.db.secretsOf S.envId := mem_secretsOf.2 ⟨hr, hrows _ _ hr⟩
      rw [Device.merge, Store.lookup_mergeAll (nodup_secretsOf _ _) hmem] at hrow
      rw [hr, Option.map_some] at hchange
      split at hrow
      · obtain rfl : localRow S.envId r = row := Option.some.inj hrow
        rw [changeOf_localRow] at hchange
        cases hchange
      · next htakes =>
          simp only [changeOf, Store.syncSecret, Server.secretView,
            Bool.and_eq_true, Bool.not_eq_true', decide_eq_true_eq, gt_iff_lt] at hchange
          obtain ⟨hlive, htomb⟩ := h c.id row hrow
          split at hchange
          · next hnew =>
              obtain ⟨r', hr', hle⟩ := hlive hnew.1
              rw [hr] at hr'
              cases hr'
              omega
          · split at hchange
            · next hdel =>
                rcases htomb hdel.1 r hr with hd | hlt
                · rw [hd] at hdel
                  simp at hdel
                · refine htakes ?_
                  simp only [Store.takes, Store.findSecret, hrow, Bool.false_or]
                  by_cases henv : row.envId = S.envId
                  · simp [henv, remoteWins, Store.syncSecret, Server.secretView, hlt]
                  · simp [henv, remoteWins]
            · cases hchange

/-- A device whose comparison finds no change has nothing to write. -/
theorem settled_of_changesOf (hi : s.Sound S)
    (hlocal : ∀ id row, l.store.secrets.lookup id = some row → row.envId = S.envId)
    (h : changesOf S (s.db.secretsOf S.envId) l.store = []) : Settled s l := by
  have hrows : ∀ id r, s.db.secrets.lookup id = some r → r.envId = S.envId :=
    fun id r hr => (hi.rows id r hr).1
  intro id row hrow
  have hnone : changeOf (Store.syncSecret id row)
      ((s.db.secrets.lookup id).map fun r => Server.secretView (id, r)) = none := by
    cases hc : changeOf (Store.syncSecret id row)
        ((s.db.secrets.lookup id).map fun r => Server.secretView (id, r)) with
    | none => rfl
    | some c =>
        obtain rfl : c.id = id := changeOf_id hc
        have := (mem_changesOf hrows).2 ⟨row, hrow, hlocal _ _ hrow, hc⟩
        rw [h] at this
        cases this
  cases hr : s.db.secrets.lookup id with
  | none =>
      rw [hr] at hnone
      simp only [Option.map_none, changeOf, Store.syncSecret] at hnone
      refine ⟨?_, by simp⟩
      intro hlive
      simp [hlive] at hnone
  | some r =>
      rw [hr] at hnone
      simp only [Option.map_some, changeOf, Store.syncSecret, Server.secretView,
        Bool.and_eq_true, Bool.not_eq_true', decide_eq_true_eq, gt_iff_lt] at hnone
      split at hnone
      · cases hnone
      · next hnew =>
          split at hnone
          · cases hnone
          · next hdel =>
              refine ⟨fun hlive => ⟨r, hr, ?_⟩, ?_⟩
              · have : ¬ r.version < row.version := fun hlt => hnew ⟨hlive, hlt⟩
                omega
              · intro hd r' hr'
                cases hr'
                exact Or.inl (by simpa [hd] using hdel)

/-- An accepted batch leaves nothing to write. -/
theorem Uploaded.settled {revision : Int} (h : Uploaded S l.store revision s s') :
    Settled s' l := by
  intro id row hrow
  have hrow' := h.rows id
  rw [hrow] at hrow'
  cases hr : s.db.secrets.lookup id with
  | none =>
      rw [hr, pushed] at hrow'
      constructor
      · intro hlive
        rw [hlive] at hrow'
        exact ⟨_, hrow', Int.le_refl _⟩
      · intro hd r' hr'
        rw [hd, if_pos rfl, hr'] at hrow'
        cases hrow'
  | some r =>
      rw [hr, pushed] at hrow'
      constructor
      · intro hlive
        split at hrow'
        · exact ⟨_, hrow', Int.le_refl _⟩
        · next hnew =>
            have hle : row.version ≤ r.version := by
              have : ¬ r.version < row.version := fun hlt => hnew ⟨hlive, hlt⟩
              omega
            split at hrow'
            · exact ⟨_, hrow', hle⟩
            · exact ⟨_, hrow', hle⟩
      · intro hd r' hr'
        rw [hr'] at hrow'
        rw [if_neg (by simp [hd])] at hrow'
        split at hrow'
        · cases hrow'
          exact Or.inl rfl
        · next hdel =>
            cases hrow'
            exact Or.inl (by simpa [hd] using hdel)

theorem Uploaded.tombstonesBehind {revision : Int} (h : Uploaded S l.store revision s s')
    (ht : TombstonesBehind s l) : TombstonesBehind s' l := by
  intro id row r' hrow hd hr'
  rw [h.rows, hrow] at hr'
  rcases pushed_cases hr' with ⟨r, hr, -, hv, -⟩ | ⟨row', hrow', hlive, -, -⟩
  · rw [hv]
    exact ht id row r hrow hd hr
  · cases hrow'
    rw [hd] at hlive
    cases hlive

end Changes

/-! ### Edits are recorded -/

theorem recordEdits_ne_empty {before after : Store} {edits : Table Ident SecretRow} {id : Ident}
    {row : SecretRow} (hafter : after.secrets.lookup id = some row)
    (hbefore : before.secrets.lookup id ≠ some row) : recordEdits before after edits ≠ ∅ := by
  have hmem : (id, row) ∈ changedRows before after := by
    rw [changedRows, List.mem_filter]
    exact ⟨Table.mem_rows.2 hafter, by simpa using hbefore⟩
  intro hempty
  have hsome : ((recordEdits before after edits).lookup id).isSome :=
    Table.isSome_lookup_foldl_insert (fun e : Ident × SecretRow => e.1) (fun e => e.2)
      (Or.inr ⟨_, hmem, rfl⟩)
  rw [hempty] at hsome
  cases hsome

theorem i64Succ_ne (n : Int) : i64Succ n ≠ n := by
  unfold i64Succ i64Max
  split <;> omega

theorem SetBy.recordEdits_ne_empty {S : Setup} {d : Nat} {s : Shared} {l : Device} {key : Bytes}
    {name : String} {value : Bytes} {store : Store} (h : SetBy S d s l key name value store) :
    recordEdits l.store store l.edits ≠ ∅ := by
  cases h with
  | @update id row enc hrow _ _ _ _ hstore =>
      subst hstore
      have hnew : (l.store.withVersion id (i64Succ row.version) enc).secrets.lookup id =
          some (Store.newVersion (i64Succ row.version) enc row) := by
        simp [Store.withVersion, hrow]
      refine Sotto.recordEdits_ne_empty hnew ?_
      rw [hrow]
      intro heq
      have hv : row.version = i64Succ row.version := congrArg SecretRow.version (Option.some.inj heq)
      exact i64Succ_ne _ hv.symm
  | insert hnone _ _ hstore =>
      subst hstore
      refine Sotto.recordEdits_ne_empty (AList.lookup_insert _) ?_
      rw [hnone]
      simp

/-! ### The outline -/

/-- What the outline adds: a device without edits has nothing to write, and its push changes
nothing on the server. -/
def uneditedExtension :
    Outline.Extension Nat Cmd.Reply Shared Device Op (Except Cli.Error Unit) where
  limit := syncedDeletes
  inv _ := True
  guar _ _ s l s' := l.current = some .push → l.edits = ∅ → s'.db = s.db
  idle _ s l := Tracked (l.edits = ∅) s l
  post _ op r s l := Tracked ((op = .push ∧ r.toBool) ∨ l.edits = ∅) s l

section Rounds

variable {S : Setup} {d : Nat} {G : Setting Cmd.Reply Shared Device} {s s' : Shared}
  {l l' : Device} {grant key : Bytes}

/-- A device in the middle of an operation. -/
abbrev Editing (_ : Nat) (_ _ : Bytes) (s : Shared) (l : Device) : Prop :=
  Tracked (l.edits = ∅) s l

theorem Tracked.fetched (Gr : Grounded S d G) {s₁ s₂ : Shared} {revision : Int} {l₁ : Device}
    (h : Tracked (l.edits = ∅) s l) (hl : l.Sound S d s)
    (hfetch : Fetched S d G s l s₁ s₂ revision l₁) (hs : Later S d s₂ s') :
    Tracked (l₁.edits = ∅) s' l₁ := by
  refine (h.later hl ((hfetch.later Gr).trans hs)).of_store hfetch.same.store ?_
  rw [hfetch.same.edits]
  exact id

theorem Tracked.forward (Gr : Grounded S d G) {s₁ s₂ : Shared} {revision : Int} {l₁ : Device}
    (h : Tracked (l.edits = ∅) s l) (hl : l.Sound S d s)
    (hfetch : Fetched S d G s l s₁ s₂ revision l₁) (hs : Later S d s₂ s')
    (hl' : (l₁.forward S (s₂.db.secretsOf S.envId) revision).Still l') :
    Tracked (l'.edits = ∅) s' l' := by
  have h₁ : Tracked (l₁.edits = ∅) s' (l₁.merge S false (s₂.db.secretsOf S.envId)) :=
    (h.fetched Gr hl hfetch hs).merge hs.toEvolves (List.Subset.refl _)
  refine h₁.of_secrets (by rw [hl'.store]; rfl) ?_
  rw [hl'.edits]
  exact id

theorem Tracked.applied {s₂ : Shared} {revision : Int} {l₂ : Device} {force : Bool}
    {r : Except Cli.Error Int} {clean : Prop} (h : Tracked clean s' l₂) (hs : Evolves S s₂ s')
    (ha : Applied S force (s₂.db.secretsOf S.envId) revision l₂ r l') : Tracked clean s' l' := by
  cases ha with
  | part e n => exact h.merge hs (List.take_subset _ _)
  | whole => exact (h.merge hs (List.Subset.refl _)).of_secrets rfl id

theorem Adopted.tracked {s₃ : Shared} {grant' : Bytes} {clean : Prop} (h : Tracked clean s' l)
    (hadopt : Adopted S d G grant s l s₃ grant' s' l') : Tracked clean s' l' := by
  obtain ⟨_, l₄, hl₄, -, -, -, rfl⟩ := hadopt.exec
  exact h.of_secrets (by rw [← hl₄.store]; rfl) id

theorem Adopted.edits {s₃ : Shared} {grant' : Bytes}
    (h : Adopted S d G grant s l s₃ grant' s' l') : l'.edits = l.edits := by
  obtain ⟨_, l₄, hl₄, -, -, -, rfl⟩ := h.exec
  exact hl₄.edits

theorem Applied.edits {force : Bool} {rows : List (Ident × Server.Secret)} {revision : Int}
    {r : Except Cli.Error Int} (h : Applied S force rows revision l r l') : l'.edits = l.edits := by
  cases h with
  | part e n => rfl
  | whole => rfl

theorem Pulled.tracked (Gr : Grounded S d G) {r : Except Cli.Error Int}
    (h : Tracked (l.edits = ∅) s l) (hl : l.Sound S d s)
    (hpulled : Pulled S d G grant s l r s' l') : Tracked (l'.edits = ∅) s' l' := by
  cases hpulled with
  | stopped hlooked =>
      refine (h.later hl (Gr.later hlooked.rely)).of_store hlooked.same.store ?_
      rw [hlooked.same.edits]
      exact id
  | current hs₁ _ _ hs' hsame =>
      refine (h.later hl ((Gr.later hs₁).trans (Gr.later hs'))).of_store hsame.store ?_
      rw [hsame.edits]
      exact id
  | kept _ hfetch hkept happly =>
      have hs : Later S d _ s' := Gr.later hkept.rely
      have h₁ := (h.fetched Gr hl hfetch hs).applied hs.toEvolves happly
      rwa [happly.edits]
  | adopted _ hfetch hadopt happly =>
      have hs : Later S d _ s' := Gr.later hadopt.rely
      have h₁ := (hadopt.tracked (h.fetched Gr hl hfetch hs)).applied hs.toEvolves happly
      rwa [happly.edits, hadopt.edits]

/-- A round of a push that ends with a result. -/
theorem PushRound.tracked (Gr : Grounded S d G) {r : Except Cli.Error Int}
    (h : Tracked (l.edits = ∅) s l) (hg : Holder S d grant key s l)
    (hround : PushRound S d G grant s l (some r) s' l') :
    Tracked (r.toBool ∨ l'.edits = ∅) s' l' := by
  have hl : l.Sound S d s := hg.sound
  cases hround with
  | stopped _ hlooked =>
      refine (h.later hl (Gr.later hlooked.rely)).of_store hlooked.same.store ?_
      rw [hlooked.same.edits]
      simp [Except.toBool]
  | part _ hfetch hs =>
      refine ((h.fetched Gr hl hfetch (Gr.later hs)).merge (Gr.later hs).toEvolves
        (List.take_subset _ _)).of_secrets rfl ?_
      simp [Except.toBool, Device.merge]
  | forwarded hr hfetch hs hl' =>
      have h₁ := h.forward Gr hl hfetch (Gr.later hs) hl'
      refine h₁.of_secrets rfl ?_
      rcases hr with hr | ⟨e, -, hr⟩
      · cases hr
      · cases hr
        simp [Except.toBool]
  | refused hfetch hchanged hl' _ =>
      exact (h.forward Gr hl hfetch (Gr.later hchanged.rely) hl').of_secrets rfl
        (by simp [Except.toBool])
  | @unchanged s₁ s₂ revision l₁ _ _ hfetch hkept hl' hempty =>
      have hs : Later S d s₂ s' := Gr.later hkept.rely
      have h₁ := h.forward Gr hl hfetch hs hl'
      have hg₂ : Holder S d grant key s₂ l' :=
        (hg.forward Gr hfetch (Later.refl s₂) (Gr.sound hfetch.inv₂)).same hl'.toSame
      have h₂ : Tracked (l'.edits = ∅) s₂ l' := h.forward Gr hl hfetch (Later.refl s₂) hl'
      have hsettled : Settled s₂ l' :=
        settled_of_changesOf (Gr.sound hfetch.inv₂) (fun id row hrow =>
          (hg₂.sound.rows id row hrow).1) hempty
      exact ⟨h₁.tombstones, fun _ => hsettled.evolves h₂.tombstones (hg₂.sound.noArrival hs)
        hs.toEvolves⟩
  | @adopted s₁ s₂ s₃ revision l₁ grant' l₂ _ rows _ hfetch hempty hadopt hrows =>
      have hs : Later S d s₂ s' := Gr.later hadopt.rely
      have hl' : (l₁.forward S (s₂.db.secretsOf S.envId) revision).Still
        (l₁.forward S (s₂.db.secretsOf S.envId) revision) := Device.Still.refl _
      have hg₂ := hg.forward Gr hfetch (Later.refl s₂) (Gr.sound hfetch.inv₂)
      have h₂ := h.forward Gr hl hfetch (Later.refl s₂) hl'
      have hsettled := settled_of_changesOf (Gr.sound hfetch.inv₂) (fun id row hrow =>
          (hg₂.sound.rows id row hrow).1) hempty
      have h₁ : Tracked True s' (l₁.forward S (s₂.db.secretsOf S.envId) revision) :=
        ⟨(h₂.later hg₂.sound hs).tombstones, fun _ => hsettled.evolves h₂.tombstones (hg₂.sound.noArrival hs)
        hs.toEvolves⟩
      have hsub : rows ⊆ s₂.db.secretsOf S.envId := by
        rcases hrows with ⟨rfl, -⟩ | ⟨_, n, -, rfl, -⟩
        · exact List.Subset.refl _
        · exact List.take_subset _ _
      exact ((hadopt.tracked h₁).merge hs.toEvolves hsub).of_secrets rfl fun _ => trivial
  | @wrote s₁ s₂ s₄ revision l₁ access v l₄ l₅ _ _ _ hwrote hs hr =>
      obtain ⟨hg₄, hg₅⟩ := hg.wrote Gr hwrote
      obtain ⟨-, hup⟩ := hwrote.uploaded Gr fun id row hrow => (hg₄.sound.rows id row hrow).1
      have h₄ := h.forward Gr hl hwrote.fetched (Gr.later hwrote.before) hwrote.forward
      have h₅ : Tracked True (afterBatch S s₂ s₄ revision access l₄) l₅ := by
        rw [hwrote.seen]
        exact ⟨hup.tombstonesBehind h₄.tombstones, fun _ => hup.settled⟩
      have h' := h₅.later hg₅.sound (Gr.later hs)
      rcases hr with ⟨-, rfl⟩ | ⟨_, -, -, rfl⟩
      · exact h'.of_secrets rfl fun _ => trivial
      · exact h'.of_secrets rfl fun _ => trivial

end Rounds

theorem unedited_grounded {S : Setup} (d : Nat) :
    Grounded S d (((base S).extend uneditedExtension).setting d) :=
  (base_grounded d).extend (fun h => h) fun _ _ _ _ _ => rfl

theorem unedited_layer {S : Setup} : Layer S (base S) uneditedExtension Editing where
  guar_refl := fun _ _ _ _ _ _ => rfl
  start := fun _ _ _ h _ _ => h.of_store rfl id
  later := by
    intro d grant key s s' l l' h hg hs _ hlooked
    refine (h.later hg.sound hs).of_store hlooked.same.store ?_
    rw [hlooked.same.edits]
    exact id
  set := by
    intro d grant key s l name value store h hg _ hby _
    refine ⟨fun _ _ => rfl, trivial, ?_, fun hempty => absurd hempty hby.recordEdits_ne_empty⟩
    intro id row r hrow hd hr
    rcases hby.lookup hrow with hold | ⟨hlive, -⟩
    · exact h.tombstones id row r hold hd hr
    · rw [hd] at hlive
      cases hlive
  delete := by
    intro d grant key s l name id row h hg _ hrow hlive _ hexec
    have hmarked : (l.edited (l.store.withTombstone id)).store.secrets.lookup id =
        some { row with deleted := true } := by
      simp [Device.edited, Store.withTombstone, hrow]
    have hbehind : MarksBehind s.db l.store (l.store.withTombstone id) := hexec.2
    constructor
    · intro id' row' r hrow' hd hr
      rcases lookup_withTombstone hrow' with hold | ⟨row₀, rfl, hrow₀, rfl⟩
      · exact h.tombstones id' row' r hold hd hr
      · rw [hrow] at hrow₀
        cases hrow₀
        exact hbehind _ row _ r hrow hlive hmarked rfl hr
    · intro hempty
      refine absurd hempty (recordEdits_ne_empty hmarked ?_)
      rw [hrow]
      intro heq
      have hd : row.deleted = true := congrArg SecretRow.deleted (Option.some.inj heq)
      rw [hlive] at hd
      cases hd
  ended := by
    intro d op r grant key s l h _ _ hends
    refine h.of_store rfl ?_
    rintro (⟨rfl, -⟩ | hempty)
    · cases hends
    · exact hempty
  pulled := by
    intro d op r grant key s l s' l' hop h hg _ hpulled
    have Gr := unedited_grounded (S := S) d
    refine (hpulled.tracked Gr h hg.sound).of_store rfl ?_
    rintro (⟨rfl, -⟩ | hempty)
    · simp at hop
    · exact hempty
  retried := by
    intro d grant key s l s' l' h hg _ hround
    have Gr := unedited_grounded (S := S) d
    cases hround with
    | forwarded _ hfetch hs hl' => exact h.forward Gr hg.sound hfetch (Gr.later hs) hl'
  wrote := by
    intro d grant key s l s₁ s₂ s₄ revision l₁ access v l₄ l₅ h hg hwrote
    have Gr := unedited_grounded (S := S) d
    refine ⟨?_, trivial⟩
    intro _ hempty
    have hempty : l₁.edits = ∅ := hwrote.forward.edits.symm.trans hempty
    have h₁ := h.fetched Gr hg.sound hwrote.fetched (Later.refl s₂)
    have hnil := (h₁.settled hempty).changesOf_eq_nil (Gr.sound hwrote.fetched.inv₂)
    have hstore : l₄.store.secrets = (l₁.merge S false (s₂.db.secretsOf S.envId)).store.secrets := by
      rw [hwrote.forward.store]
      rfl
    have hchanges := hwrote.changes
    rw [changesOf, Store.allSecrets, hstore] at hchanges
    exact absurd hnil hchanges
  pushed := by
    intro d r grant key s l s' l' h hg _ hround
    have Gr := unedited_grounded (S := S) d
    refine (hround.tracked Gr h hg).of_store rfl ?_
    rintro (⟨-, hok⟩ | hempty)
    · left
      cases r with
      | ok v => rfl
      | error e => exact hok
    · exact Or.inr hempty
  rotated := by
    intro d grant key s l s₁ s₂ s₇ revision keySeed access orgId rotation v l₇ _ hop h hg hrot
    have Gr := unedited_grounded (S := S) d
    refine ⟨?_, trivial, ?_⟩
    · intro hcurrent
      obtain ⟨op, hop, hrotates⟩ := hop
      rw [hrot.same.current.symm.trans hcurrent] at hop
      cases hop
      exact hrotates.elim
    have h₇ : Tracked (l₇.edits = ∅) s₇ l₇ := by
      refine (h.later hg.sound (hrot.later Gr)).of_store hrot.same.store ?_
      rw [hrot.same.edits]
      exact id
    exact h₇.evolves (hrot.rekeyed Gr).noArrival (hrot.rekeyed Gr).evolves
  finish := by
    intro d op r s l _ _ _ h _
    refine h.of_store rfl ?_
    intro hempty
    by_cases hop : op = .push ∧ r.toBool
    · exact Or.inl hop
    · right
      simpa [hop] using hempty
  idle_stable := fun _ _ hs hl h => h.later hl hs

theorem unedited_valid {S : Setup} : ((base S).extend uneditedExtension).Valid :=
  unedited_layer.valid (faithful_system S) base_grounded (fun h => h) base_valid (le_anyRun _)

theorem unedited_init {S : Setup} : ((base S).extend uneditedExtension).Good S.init where
  inv := ⟨sound_init S, trivial⟩
  thread d := by
    have hnone : ∀ id row, (S.store d).secrets.lookup id ≠ some row := by
      intro id row hrow
      rw [(S.noSecrets d).1] at hrow
      cases hrow
    refine ⟨soundDevice_init S d, ?_, ?_⟩
    · intro id row r hrow
      exact absurd hrow (hnone id row)
    · intro _ id row hrow
      exact absurd hrow (hnone id row)

/-- In every run in which devices delete secrets only at versions that the server has reached,
no step of a push without local edits since the last successful push changes the server. -/
theorem unedited_push_changes_nothing (S : Setup) {w : Setup.World}
    (hw : (S.system.restrict syncedDeletes).Reaches S.init w) {d : Nat} {c k}
    (hr : (w.threads d).running = some (.push, .call c k)) (hedits : (w.threads d).own.edits = ∅)
    {r s' l'} (he : S.system.exec d c w.shared (w.threads d).own r s' l') :
    s'.db = w.shared.db := by
  by_cases hc : ∃ stmt, c = .server stmt
  · obtain ⟨stmt, rfl⟩ := hc
    have hgood : ((base S).extend uneditedExtension).Good w :=
      unedited_init.reaches unedited_valid (grounded_reaches hw)
    have hexec := grounded_exec (base_good hw) hr he
    obtain ⟨⟨-, hquiet⟩, -⟩ := hgood.exec hr ⟨hexec, trivial⟩
    exact hquiet (current_of_running hw.of_restrict hr) hedits
  · exact Executes.db_of_local (fun stmt h => hc ⟨stmt, h⟩) he

/-! ### Runs of the team -/

/-- Whether a device is in the middle of a push, with its last push successful and no edit
since. -/
def pushesUnedited (d : Nat) (w : Setup.World) : Bool :=
  (match (w.threads d).running with
    | some (.push, .call _ _) => true
    | _ => false) &&
  (match (w.threads d).own.last with
    | some (.push, .ok _) => true
    | _ => false) &&
  (w.threads d).own.edits.entries.isEmpty

theorem exists_of_pushesUnedited {d : Nat} {w : Setup.World} (h : pushesUnedited d w = true) :
    (∃ c k, (w.threads d).running = some (.push, .call c k)) ∧
      (w.threads d).own.last = some (.push, .ok ()) ∧ (w.threads d).own.edits = ∅ := by
  simp only [pushesUnedited, Bool.and_eq_true, List.isEmpty_iff] at h
  obtain ⟨⟨hr, hlast⟩, hedits⟩ := h
  refine ⟨?_, ?_, AList.ext hedits⟩
  · split at hr
    · next c k heq => exact ⟨c, k, heq⟩
    · cases hr
  · split at hlast
    · next heq => exact heq
    · cases hlast

/-- A device deletes a version that it has not pushed, another resurrects the secret, and the
first device pushes without an edit. -/
def resurrectionRun : List Move :=
  Team.whole 0 (.set "X" Team.value) ++ Team.whole 0 .push ++ Team.whole 0 (.set "X" Team.value) ++
  Team.whole 0 (.delete "X") ++ Team.whole 0 .push ++ Team.whole 1 .pull ++
  Team.whole 1 (.set "X" Team.value) ++ Team.whole 1 .push ++ [.begin 0 .push, .ticks 0 33]

set_option maxRecDepth 10000 in
/-- The push of a device without edits deletes a secret that another has written. -/
theorem unedited_push_deletes : ∃ w, Team.setup.system.Reaches Team.setup.init w ∧
    ∃ c k, (w.threads 0).running = some (.push, .call c k) ∧
      (w.threads 0).own.last = some (.push, .ok ()) ∧ (w.threads 0).own.edits = ∅ ∧
      ∃ r s' l', Team.setup.system.exec 0 c w.shared (w.threads 0).own r s' l' ∧
        s'.db ≠ w.shared.db := by
  have hrun : pushesUnedited 0 (Team.setup.run resurrectionRun Team.setup.init) = true := by
    decide +kernel
  obtain ⟨⟨c, k, hr⟩, hlast, hedits⟩ := exists_of_pushesUnedited hrun
  obtain ⟨r, he⟩ := Setup.exec_tick (S := Team.setup) hr
  refine ⟨_, Setup.reaches_run, c, k, hr, hlast, hedits, r, _, _, he, ?_⟩
  have hdeleted : (Setup.tick 0 (Team.setup.run resurrectionRun Team.setup.init)).shared.db.secrets.rows.map
      (·.2.deleted) ≠
      (Team.setup.run resurrectionRun Team.setup.init).shared.db.secrets.rows.map (·.2.deleted) := by
    decide +kernel
  intro hdb
  rw [hdb] at hdeleted
  exact hdeleted rfl

/-- The check that no device deletes a secret. -/
def noDelete : Check where
  start _ _ _ _ := true
  exec _ c _ _ :=
    match c with
    | .store (.vaultDelete ..) => false
    | _ => true
  finish _ _ _ _ _ := true

theorem noDelete_le : noDelete.limit.Le syncedDeletes where
  start := fun _ => trivial
  exec := by
    rintro d c s l r s' l' ⟨h, -⟩
    simp only [syncedDeletes]
    split
    · cases h
    · trivial
  finish := fun _ => trivial

/-- A device sets a secret, pushes it, and is in the middle of the next push. -/
def repushRun : List Move :=
  Team.whole 0 (.set "X" Team.value) ++ Team.whole 0 .push ++ [.begin 0 .push, .ticks 0 28]

set_option maxRecDepth 10000 in
/-- A run under the condition: a second push of what was pushed. -/
theorem unedited_push_repeats : ∃ w, w.shared.db.secrets.rows ≠ [] ∧
    (Setup.tick 0 w).shared.db = w.shared.db := by
  have hreaches : (Team.setup.system.restrict syncedDeletes).Reaches Team.setup.init
      (Team.setup.run repushRun Team.setup.init) :=
    (Setup.run_reaches (C := noDelete) (by decide +kernel)).restrict_mono noDelete_le
  have hrun : pushesUnedited 0 (Team.setup.run repushRun Team.setup.init) = true := by
    decide +kernel
  obtain ⟨⟨c, k, hr⟩, -, hedits⟩ := exists_of_pushesUnedited hrun
  obtain ⟨r, he⟩ := Setup.exec_tick (S := Team.setup) hr
  refine ⟨Team.setup.run repushRun Team.setup.init, by decide +kernel, ?_⟩
  exact unedited_push_changes_nothing Team.setup hreaches hr hedits he

end Sotto
