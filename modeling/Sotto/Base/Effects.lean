import Sotto.Base.Sound

/-!
# What an accepted batch and an accepted rotation do

A batch moves rows as `pushed` says and leaves keys and grants; a rotation puts a
fresh vault key in front, wraps every row's data key under it and replaces the
grants. Both advance the revision by one, evolve the server's state, keep its
invariant, and mint only ids and keys of the device that sent them.
-/

namespace Sotto

open Core Cli

namespace Server

theorem commit_run {α : Type} {tx : Tx α} {db : Db} {a : α} (h : (commit tx db).1 = .ok a) :
    tx.run db = .ok (a, (commit tx db).2) :=
  commit_eq_ok.1 (Prod.ext h rfl)

end Server

/-! ### Batches -/

/-- An accepted batch that compares a store with the server's rows. -/
structure Uploaded (S : Setup) (store : Store) (revision : Int) (s s' : Shared) : Prop where
  base : RevisionAt S s revision
  next : RevisionAt S s' (revision + 1)
  keys : s'.keys = s.keys
  created : s'.created = s.created
  users : s'.db.users = s.db.users
  projects : s'.db.projects = s.db.projects
  grants : s'.db.grants = s.db.grants
  access : ∀ u, Server.envAccess S.envId u s'.db = Server.envAccess S.envId u s.db
  rows : ∀ id, s'.db.secrets.lookup id =
    pushed S.envId (store.secrets.lookup id) (s.db.secrets.lookup id)

section Uploads

variable {S : Setup} {d : Nat} {G : Setting Cmd.Reply Shared Device} {grant : Bytes} {s : Shared}
  {l : Device} {s₁ s₂ s₄ : Shared} {revision : Int} {l₁ : Device} {access : Server.ProjectAccess}
  {v : Int} {l₄ l₅ : Device}

/-- A batch is accepted only if nothing changed since the snapshot's revision was read. -/
theorem Wrote.same_db (Gr : Grounded S d G)
    (h : Wrote S d G grant s l s₁ s₂ s₄ revision l₁ access v l₄ l₅) :
    (s₂.db = s₁.db ∧ s₂.keys = s₁.keys) ∧ (s₄.db = s₂.db ∧ s₄.keys = s₂.keys) := by
  obtain ⟨⟨env, henv, hrev⟩, -, -⟩ :=
    Server.writeSecretsTx_eq_ok (Server.commit_run h.committed.result)
  exact (Gr.later h.fetched.between).toEvolves.eq_between (Gr.later h.before).toEvolves
    h.fetched.revision ⟨env, henv, hrev⟩

theorem Wrote.uploaded (Gr : Grounded S d G)
    (h : Wrote S d G grant s l s₁ s₂ s₄ revision l₁ access v l₄ l₅)
    (hlocal : ∀ id row, l₄.store.secrets.lookup id = some row → row.envId = S.envId) :
    v = revision + 1 ∧
      Uploaded S l₄.store revision s₄ (afterBatch S s₂ s₄ revision access l₄) := by
  obtain ⟨-, hdb, -⟩ := h.same_db Gr
  obtain ⟨⟨env, henv, hrev⟩, hv, mid, hmid, hafter⟩ :=
    Server.writeSecretsTx_eq_ok (Server.commit_run h.committed.result)
  have hrows : ∀ id r, s₂.db.secrets.lookup id = some r → r.envId = S.envId :=
    fun id r hr => ((Gr.sound h.fetched.inv₂).rows id r hr).1
  have happlied := Server.applyChanges_eq_ok (nodup_changesOf _) hmid
  rw [hdb] at happlied
  have hframe := happlied.frame
  have hresult : (afterBatch S s₂ s₄ revision access l₄).db = { mid with
      environments := mid.environments.modify S.envId fun env =>
        { env with revision := revision + 1 } } := hafter
  have henv' : (afterBatch S s₂ s₄ revision access l₄).db.environments.lookup S.envId =
      some { env with revision := revision + 1 } := by
    rw [hresult, hframe]
    simp only [Table.lookup_modify_self]
    rw [← hdb, henv]
    rfl
  refine ⟨hv, ⟨env, henv, hrev⟩, ⟨_, henv', rfl⟩, rfl, rfl, ?_, ?_, ?_, ?_, ?_⟩
  · rw [hresult, hframe, hdb]
  · rw [hresult, hframe, hdb]
  · rw [hresult, hframe, hdb]
  · intro u
    refine Server.envAccess_congr (by rw [henv', henv]; rfl) ?_ ?_ ?_
    · rw [hresult, hframe, hdb]
    · rw [hresult, hframe, hdb]
    · rw [hresult, hframe, hdb]
  · intro id
    rw [hresult, hdb]
    change mid.secrets.lookup id = _
    exact lookup_of_applied hrows hlocal happlied

variable {store : Store} {s' : Shared}

theorem pushed_later {row : Option SecretRow} {r : Server.Secret} {p : Prop}
    (henv : r.envId = S.envId) :
    ∃ r', pushed S.envId row (some r) = some r' ∧ RowLater p r r' := by
  cases row with
  | none => exact ⟨r, rfl, RowLater.refl p r⟩
  | some row =>
      rw [pushed]
      split
      · next hnew => exact ⟨_, rfl, henv.symm, Or.inl hnew.2⟩
      · split
        · exact ⟨_, rfl, rfl, Or.inr ⟨rfl, rfl, rfl, fun _ => rfl, fun _ => rfl⟩⟩
        · exact ⟨r, rfl, RowLater.refl p r⟩

theorem Uploaded.evolves (h : Uploaded S store revision s s') (hi : s.Sound S) :
    Evolves S s s' := by
  refine ⟨Or.inr ⟨revision, revision + 1, h.base, h.next, by omega⟩, ?_, ?_, ?_, ?_, h.access⟩
  · intro id r hr
    rw [h.rows, hr]
    exact pushed_later (hi.rows id r hr).1
  · exact h.keys.symm ▸ List.suffix_rfl
  · intro _ u
    rw [h.grants]
  · exact h.created.symm ▸ List.suffix_rfl

/-- A new row on the server is a live local row that was uploaded. -/
theorem pushed_eq_some {row : Option SecretRow} {r' : Server.Secret}
    (h : pushed S.envId row none = some r') :
    ∃ row', row = some row' ∧ row'.deleted = false ∧ r' = upload S.envId row' := by
  cases row with
  | none => cases h
  | some row =>
      rw [pushed] at h
      split at h
      · cases h
      · next hd => exact ⟨row, rfl, by simpa using hd, (Option.some.inj h).symm⟩

theorem Uploaded.later (h : Uploaded S l.store revision s s') (hi : s.Sound S)
    (hl : l.Sound S d s) {i : Nat} (hne : i ≠ d) : Later S i s s' := by
  refine ⟨h.evolves hi, ?_, ?_, ?_⟩
  · intro n hn hnone
    obtain ⟨r', hr'⟩ := Option.ne_none_iff_exists'.1 hn
    rw [h.rows, hnone] at hr'
    obtain ⟨row, hrow, -, -⟩ := pushed_eq_some hr'
    obtain ⟨-, -, horigin⟩ := hl.rows _ row hrow
    rcases horigin with hon | ⟨m, hm⟩
    · exact hon hnone
    · simp only [Ident.uuid.injEq, Seed.mk.injEq] at hm
      omega
  · intro n hn
    rwa [h.keys] at hn
  · intro n name hn
    rwa [h.created] at hn

/-- A row after a batch has the ciphertext of the row before, or of the local row. -/
theorem pushed_cases {row : Option SecretRow} {r : Option Server.Secret} {r' : Server.Secret}
    (h : pushed S.envId row r = some r') :
    (∃ r₀, r = some r₀ ∧ r'.envId = r₀.envId ∧ r'.version = r₀.version ∧ r'.enc = r₀.enc) ∨
      ∃ row', row = some row' ∧ row'.deleted = false ∧ (∀ r₀ ∈ r, r₀.version < row'.version) ∧
        r' = upload S.envId row' := by
  cases r with
  | none =>
      obtain ⟨row', hrow, hlive, hr'⟩ := pushed_eq_some h
      exact Or.inr ⟨row', hrow, hlive, by simp, hr'⟩
  | some r =>
      cases row with
      | none =>
          obtain rfl : r = r' := Option.some.inj h
          exact Or.inl ⟨r, rfl, rfl, rfl, rfl⟩
      | some row =>
          rw [pushed] at h
          split at h
          · next hnew =>
            refine Or.inr ⟨row, rfl, hnew.1, ?_, (Option.some.inj h).symm⟩
            simpa using hnew.2
          · split at h
            · obtain rfl := Option.some.inj h
              exact Or.inl ⟨r, rfl, rfl, rfl, rfl⟩
            · obtain rfl := Option.some.inj h
              exact Or.inl ⟨r, rfl, rfl, rfl, rfl⟩

theorem Uploaded.sound (h : Uploaded S l.store revision s s') (hi : s.Sound S)
    (hl : l.Sound S d s) : s'.Sound S := by
  obtain ⟨env, henv, -⟩ := h.next
  refine ⟨⟨⟨env, henv⟩, ?_, ?_, ?_⟩, ?_, ?_, ?_, ?_, ?_⟩
  · rw [h.projects]
    exact hi.linked.project
  · rw [h.users]
    exact hi.linked.initialised
  · rw [h.users]
    exact hi.linked.accounts
  · rw [h.keys]
    exact hi.keys
  · rw [h.keys]
    exact hi.nodup
  · rw [h.grants, h.keys]
    exact hi.grants
  · intro id r' hr'
    rw [h.rows] at hr'
    rw [h.created]
    rcases pushed_cases hr' with ⟨r, hr, henv', hv, henc⟩ | ⟨row, hrow, -, -, rfl⟩
    · obtain ⟨he, hsealed⟩ := hi.rows id r hr
      rw [henv', hv, henc]
      exact ⟨he, hsealed⟩
    · exact ⟨rfl, (hl.rows id row hrow).2.1⟩
  · rw [h.created]
    exact hi.names

end Uploads

/-! ### Rotations -/

/-- An accepted rotation to a vault key. -/
structure Rekeyed (S : Setup) (key : Bytes) (revision : Int) (s s' : Shared) : Prop where
  base : RevisionAt S s revision
  next : RevisionAt S s' (revision + 1)
  keys : s'.keys = key :: s.keys
  created : s'.created = s.created
  users : s'.db.users = s.db.users
  projects : s'.db.projects = s.db.projects
  access : ∀ u, Server.envAccess S.envId u s'.db = Server.envAccess S.envId u s.db
  grants : ∀ u grant, s'.db.grants.lookup (S.envId, u) = some grant →
    ∃ ephemeral, grant = .sealedBox (S.keypair u).public ephemeral key
  absent : ∀ id, s.db.secrets.lookup id = none → s'.db.secrets.lookup id = none
  rows : ∀ id r, s.db.secrets.lookup id = some r → ∃ encDataKey nonce oldKey,
    s'.db.secrets.lookup id = some { r with encDataKey := encDataKey } ∧
    Core.Vault.rewrapDataKey nonce oldKey key S.envId id r.version r.encDataKey = .ok encDataKey

section Rotations

variable {S : Setup} {d : Nat} {G : Setting Cmd.Reply Shared Device} {s : Shared} {l : Device}
  {s₁ s₂ s₇ : Shared} {revision : Int} {keySeed : Seed} {access : Server.ProjectAccess}
  {orgId : Ident} {rotation : Server.Rotation} {v : Int} {l₇ : Device}

theorem Rotated.baseRevision
    (h : Rotated S d G s l s₁ s₂ s₇ revision keySeed access orgId rotation v l₇) :
    rotation.baseRevision = revision := by
  obtain ⟨_, _, _, _, _, _, _, _, req, _, _, _, hbase, _, _, hdecode⟩ := h.request
  rw [(decodeRotation_eq_ok hdecode).1, hbase]

/-- A rotation is accepted only if nothing changed since the snapshot's revision was
read. -/
theorem Rotated.same_db (Gr : Grounded S d G)
    (h : Rotated S d G s l s₁ s₂ s₇ revision keySeed access orgId rotation v l₇) :
    s₇.db = s₂.db ∧ s₇.keys = s₂.keys := by
  have haccepted := Server.rotateTx_eq_ok (Server.commit_run h.committed.result)
  obtain ⟨env, henv, hrev⟩ := haccepted.base
  rw [h.baseRevision] at hrev
  obtain ⟨_, _, _, hfetch, _⟩ := h.fetched
  exact ((Gr.later hfetch.between).toEvolves.eq_between (Gr.later h.before).toEvolves
    hfetch.revision ⟨env, henv, hrev⟩).2

theorem Rotated.rekeyed (Gr : Grounded S d G)
    (h : Rotated S d G s l s₁ s₂ s₇ revision keySeed access orgId rotation v l₇) :
    Rekeyed S (.random keySeed 0) revision s₇ (afterRotation S s₇ access orgId rotation) := by
  have hbase := h.baseRevision
  have hdb := (h.same_db Gr).1
  have haccepted := Server.rotateTx_eq_ok (Server.commit_run h.committed.result)
  obtain ⟨env, henv, hrev⟩ := haccepted.base
  rw [hbase] at hrev
  have hresult := haccepted.result
  have hafter : (afterRotation S s₇ access orgId rotation).db =
      (Server.commit (Server.rotateTx access S.envId orgId rotation) s₇.db).2 := rfl
  rw [← hafter] at hresult
  obtain ⟨secretSeed, grantSeed, oldVault, members, revoke, holders, dataKeys, grants, req,
    hmembers, hdata, hgrants, -, hreqGrants, hreqKeys, hdecode⟩ := h.request
  obtain ⟨-, hdecGrants, hdecKeys, hown⟩ := decodeRotation_eq_ok hdecode
  have hgrantForm : ∀ g ∈ rotation.grants,
      ∃ ephemeral, g.2 = .sealedBox (S.keypair g.1).public ephemeral (.random keySeed 0) := by
    intro g hg
    have hmem : (g.1, Base64.valid g.2) ∈ req.grants.map fun g => (g.userId, g.encVaultKey) := by
      rw [hdecGrants]
      exact List.mem_map.2 ⟨g, hg, rfl⟩
    rw [hreqGrants] at hmem
    obtain ⟨entry, hentry, heq⟩ := List.mem_map.1 hmem
    simp only [Prod.mk.injEq] at heq
    obtain ⟨ephemeral, he⟩ := regrant_eq_ok hmembers hgrants entry hentry
    rw [heq.2, heq.1] at he
    exact ⟨ephemeral, by injection he⟩
  have hdecKeys' : rotation.dataKeys.map (fun k => (k.1, Base64.valid k.2)) =
      dataKeys.map fun k => (k.1, k.2.2) := by
    rw [← hdecKeys, hreqKeys, List.map_map]
    rfl
  obtain ⟨hids, hkeys⟩ := rewrapKeys_eq_ok hdata
  have hnodup : (rotation.dataKeys.map Prod.fst).Nodup := by
    have hfst := congrArg (List.map Prod.fst) hdecKeys'
    simp only [List.map_map, Function.comp_def] at hfst
    rw [show rotation.dataKeys.map Prod.fst = dataKeys.map (fun k => k.1) from hfst, hids]
    simpa [snapshotOf, Server.secretView, Function.comp_def] using
      nodup_secretsOf s₂.db S.envId
  have henv' : (afterRotation S s₇ access orgId rotation).db.environments.lookup S.envId =
      some { env with revision := revision + 1 } := by
    rw [hresult]
    simp only [Table.lookup_modify_self, henv, Option.map_some, hbase]
  refine ⟨⟨env, henv, hrev⟩, ⟨_, henv', rfl⟩, ?_, rfl, ?_, ?_, ?_, ?_, ?_, ?_⟩
  · have hsome : ((afterRotation S s₇ access orgId rotation).db.grants.lookup
        (S.envId, access.userId)).isSome := by
      rw [hresult, h.user]
      exact isSome_lookup_replaceGrants hown
    obtain ⟨g, hg⟩ := Option.isSome_iff_exists.1 hsome
    have hmem := hg
    rw [hresult] at hmem
    obtain ⟨ephemeral, he⟩ := hgrantForm _ (lookup_replaceGrants hmem)
    have hsealed : sealedKey g = some (.random keySeed 0) := congrArg sealedKey he
    have hok : (Server.commit (Server.rotateTx access S.envId orgId rotation) s₇.db).1.toBool =
        true := by
      have hv : (Server.commit (Server.rotateTx access S.envId orgId rotation) s₇.db).1 = .ok v :=
        h.committed.result
      rw [hv]
      rfl
    change (if (Server.commit (Server.rotateTx access S.envId orgId rotation) s₇.db).1.toBool
      then (((afterRotation S s₇ access orgId rotation).db.grants.lookup
        (S.envId, access.userId)).bind sealedKey).toList ++ s₇.keys else s₇.keys) = _
    rw [if_pos hok, hg, Option.bind_some, hsealed]
    rfl
  · rw [hresult]
  · rw [hresult]
  · intro u
    refine Server.envAccess_congr (by rw [henv', henv]; rfl) ?_ ?_ ?_
    · rw [hresult]
    · rw [hresult]
    · rw [hresult]
  · intro u grant hgrant
    rw [hresult] at hgrant
    exact hgrantForm _ (lookup_replaceGrants hgrant)
  · intro id hid
    rw [hresult]
    exact lookup_rewrapSecrets_none hid
  · intro id r hr
    have hr₂ : s₂.db.secrets.lookup id = some r := by rw [← hdb]; exact hr
    have henvId : r.envId = S.envId := ((Gr.sound h.inv₇).rows id r hr).1
    have hentry : (id, r.version, Base64.valid r.encDataKey) ∈
        (snapshotOf S revision s₂).secrets.map fun s => (s.id, s.version, s.encDataKey) := by
      simp only [snapshotOf, List.map_map, List.mem_map]
      exact ⟨(id, r), mem_secretsOf.2 ⟨hr₂, henvId⟩, rfl⟩
    obtain ⟨nonce, wrapped, key, hwrapped, hrewrap, hmem⟩ := hkeys _ _ _ hentry
    cases hwrapped
    have hmem' : (id, Base64.valid key) ∈ rotation.dataKeys.map fun k => (k.1, Base64.valid k.2) := by
      rw [hdecKeys']
      exact List.mem_map.2 ⟨_, hmem, rfl⟩
    obtain ⟨entry, hentry', heq⟩ := List.mem_map.1 hmem'
    obtain rfl : entry = (id, key) := by
      simp only [Prod.mk.injEq, Base64.valid.injEq] at heq
      exact Prod.ext heq.1 heq.2
    refine ⟨key, nonce, oldVault, ?_, hrewrap⟩
    rw [hresult]
    exact lookup_rewrapSecrets hnodup hentry' hr henvId

variable {s' : Shared} {key : Bytes}

theorem Rekeyed.keys_ne (h : Rekeyed S key revision s s') : s'.keys ≠ s.keys := by
  rw [h.keys]
  intro hk
  have := congrArg List.length hk
  simp at this

theorem Rekeyed.evolves (h : Rekeyed S key revision s s') : Evolves S s s' := by
  refine ⟨Or.inr ⟨revision, revision + 1, h.base, h.next, by omega⟩, ?_, ?_, ?_, ?_, h.access⟩
  · intro id r hr
    obtain ⟨encDataKey, _, _, hr', -⟩ := h.rows id r hr
    exact ⟨_, hr', rfl, Or.inr ⟨rfl, rfl, rfl, fun hd => hd, fun hk => absurd hk h.keys_ne⟩⟩
  · rw [h.keys]
    exact List.suffix_cons _ _
  · exact fun hk => absurd hk h.keys_ne
  · exact h.created.symm ▸ List.suffix_rfl

theorem Rekeyed.later (h : Rekeyed S (.random keySeed 0) revision s s')
    (howner : keySeed.owner = d + 1) {i : Nat} (hne : i ≠ d) : Later S i s s' := by
  refine ⟨h.evolves, ?_, ?_, ?_⟩
  · intro n hn hnone
    exact hn (h.absent _ hnone)
  · intro n hn
    rw [h.keys, List.mem_cons] at hn
    rcases hn with hn | hn
    · injection hn with hseed
      rw [← hseed] at howner
      simp only at howner
      omega
    · exact hn
  · intro n name hn
    rwa [h.created] at hn

/-- After a rotation every row is sealed under the new vault key. -/
theorem Rekeyed.rows_sealed (h : Rekeyed S key revision s s') (hi : s.Sound S) {id : Ident}
    {r' : Server.Secret} (hr' : s'.db.secrets.lookup id = some r') :
    r'.envId = S.envId ∧ SealedUnder S s'.created key id r'.version r'.enc := by
  cases hr : s.db.secrets.lookup id with
  | none =>
      rw [h.absent id hr] at hr'
      cases hr'
  | some r =>
      obtain ⟨encDataKey, nonce, oldKey, hlookup, hrewrap⟩ := h.rows id r hr
      rw [hlookup] at hr'
      cases hr'
      obtain ⟨henv, _, name, value, hname, hopens⟩ := hi.rows id r hr
      rw [h.created]
      exact ⟨henv, name, value, hname, hopens.rewrap hrewrap⟩

theorem Rekeyed.sound (h : Rekeyed S (.random keySeed 0) revision s s') (hi : s.Sound S)
    (hfresh : Bytes.random keySeed 0 ∉ s.keys) : s'.Sound S := by
  obtain ⟨env, henv, -⟩ := h.next
  refine ⟨⟨⟨env, henv⟩, ?_, ?_, ?_⟩, ?_, ?_, ?_, ?_, ?_⟩
  · rw [h.projects]
    exact hi.linked.project
  · rw [h.users]
    exact hi.linked.initialised
  · rw [h.users]
    exact hi.linked.accounts
  · intro key hkey
    rw [h.keys, List.mem_cons] at hkey
    rcases hkey with rfl | hkey
    · exact ⟨keySeed, rfl⟩
    · exact hi.keys key hkey
  · rw [h.keys]
    exact List.nodup_cons.2 ⟨hfresh, hi.nodup⟩
  · intro u grant hgrant
    obtain ⟨ephemeral, rfl⟩ := h.grants u grant hgrant
    exact ⟨ephemeral, _, rfl, by rw [h.keys]; rfl⟩
  · intro id r' hr'
    obtain ⟨henv, hsealed⟩ := h.rows_sealed hi hr'
    exact ⟨henv, _, hsealed⟩
  · rw [h.created]
    exact hi.names

/-- The key of a rotation is drawn after every key of the environment. -/
theorem Rotated.notMem_keys (Gr : Grounded S d G)
    (h : Rotated S d G s l s₁ s₂ s₇ revision keySeed access orgId rotation v l₇)
    (hl : l.Sound S d s) : Bytes.random keySeed 0 ∉ s₇.keys := by
  obtain ⟨howner, hdraw, -⟩ := h.fresh
  obtain ⟨_, _, _, hfetch, _⟩ := h.fetched
  have hlater : Later S d s s₇ :=
    (Gr.later hfetch.before).trans ((Gr.later hfetch.between).trans (Gr.later h.before))
  have hseed : keySeed = ⟨d + 1, keySeed.draw⟩ := by
    rw [← howner]
  intro hmem
  rw [hseed] at hmem
  exact (hl.fresh _ hdraw).2 (hlater.minted _ hmem)

end Rotations

end Sotto
