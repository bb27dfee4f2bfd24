import Sotto.Properties.Rewrapping

/-!
# Rotations and the grants of others

A rotation re-grants an environment to the holders that it has listed, under the public keys that it
has listed. Others share the environment and reset their accounts meanwhile, and this does not
advance the revision that the rotation is compared at: a member keeps the grant if and only if the
lists are still right about the member.
-/

namespace Sotto

open Core Cli Relation Contested

/-! ### Lists -/

/-- The members of an organisation as a client lists them. -/
def Server.Db.memberInfos (db : Server.Db) (orgId : Ident) : List Api.MemberInfo :=
  (db.memberships.rows.filter fun m => m.1.1 = orgId).map fun m =>
    ⟨m.1.2, (((db.users.lookup m.1.2).bind id).map Server.Account.publicKey).map Server.encode⟩

section Lists

variable {orgId userId : Ident} {db : Server.Db}

theorem find?_memberInfos {m : Api.MemberInfo}
    (h : (db.memberInfos orgId).find? (fun m => m.userId = userId) = some m) :
    (db.memberships.lookup (orgId, userId)).isSome ∧
      m.publicKey = (((db.users.lookup userId).bind id).map Server.Account.publicKey).map
        Server.encode := by
  obtain ⟨⟨⟨orgId', userId'⟩, member⟩, hmem, rfl⟩ := List.mem_map.1 (List.mem_of_find?_eq_some h)
  obtain ⟨hrow, horg⟩ := List.mem_filter.1 hmem
  have huser : userId' = userId := by simpa using List.find?_some h
  obtain rfl : orgId' = orgId := by simpa using horg
  subst huser
  rw [Table.mem_rows.1 hrow]
  exact ⟨rfl, rfl⟩

theorem find?_memberInfos_ne_none (h : (db.memberships.lookup (orgId, userId)).isSome) :
    (db.memberInfos orgId).find? (fun m => m.userId = userId) ≠ none := by
  obtain ⟨member, hmember⟩ := Option.isSome_iff_exists.1 h
  intro hnone
  have hrow : ((orgId, userId), member) ∈ db.memberships.rows.filter fun m => m.1.1 = orgId :=
    List.mem_filter.2 ⟨Table.mem_rows.2 hmember, by simp⟩
  have := List.find?_eq_none.1 hnone _ (List.mem_map.2 ⟨_, hrow, rfl⟩)
  simp at this

end Lists

/-! ### Interference -/

namespace Contested

/-- Any statement of somebody else, of a request to share or to reset an account among others. -/
def Interferes (s s' : Contested) : Prop :=
  ∃ stmt : Server.Stmt, s' = { s with db := (stmt.exec s.db).2 }

section Interference

variable {envId orgId : Ident} {α : Type} {api : HttpClient} {s s' : Contested}

theorem executed_of_steps (h : ReflTransGen Interferes s s') : s'.executed = s.executed := by
  induction h with
  | refl => rfl
  | tail _ hs ih =>
      obtain ⟨stmt, rfl⟩ := hs
      exact ih

theorem executed_subset {p : Prog Cmd.Reply α} {a : α}
    (h : p.Amid Interferes Executes s s' a) : s.executed ⊆ s'.executed := by
  refine h.related (D := fun s s' => s.executed ⊆ s'.executed) (fun s => List.Subset.refl _)
    List.Subset.trans ?_ ?_ (Prog.uses_of_forall (fun _ => trivial) p)
  · rintro s _ ⟨stmt, rfl⟩
    exact List.Subset.refl _
  · intro c s r s' _ hexec
    cases c with
    | fresh => exact hexec.2 ▸ List.Subset.refl _
    | net => exact hexec.2 ▸ List.Subset.refl _
    | store c => exact (show s' = s from hexec) ▸ List.Subset.refl _
    | server stmt =>
        rcases hexec with ⟨-, rfl⟩ | ⟨-, rfl⟩
        · exact List.subset_cons_self _ _
        · exact List.Subset.refl _

/-- A statement is answered at a moment. -/
theorem serves_answer {stmt : Server.Stmt} {a : stmt.Reply}
    (h : Serves Interferes (Server.Database.perform stmt : Handler stmt.Reply) s s' (.ok a)) :
    ∃ db, (stmt.exec db).1 = .ok a ∧ (⟨stmt, db⟩ : Executed) ∈ s'.executed := by
  have h : ((Prog.perform (Cmd.server stmt)).expand Prog.perform).Amid Interferes Executes s s'
    (.ok a) := h
  rw [Prog.expand_perform] at h
  obtain ⟨s₁, s₂, -, hexec, hs'⟩ := Prog.amid_perform.1 h
  rcases hexec with ⟨hr, rfl⟩ | ⟨hr, -⟩
  · refine ⟨s₁.db, hr.symm, ?_⟩
    rw [executed_of_steps hs']
    exact List.mem_cons_self
  · cases hr

/-- The members of an organisation are listed at a moment. -/
theorem lists_members {members : List Api.MemberInfo}
    (h : Acts Interferes (api.listMembers orgId) s s' (.ok members)) :
    ∃ m ∈ s'.executed, m.stmt = .selectMembers orgId ∧ members = m.before.memberInfos orgId := by
  obtain ⟨t₁, _, -, h⟩ := Prog.amidE_bind_eq_ok.1 (serves_request (acts_http h))
  obtain ⟨t₂, rows, hrows, h⟩ := Prog.amidE_bind_eq_ok.1 h
  obtain ⟨db, hread, hmem⟩ := serves_answer hrows
  obtain ⟨hs, rfl⟩ := Prog.amidE_pure_eq_ok.1 h
  obtain rfl := Except.ok.inj hread
  refine ⟨_, (executed_of_steps hs).symm ▸ hmem, rfl, ?_⟩
  rw [List.map_map]
  rfl

/-- The holders of an environment are listed at a moment. -/
theorem lists_holders {holders : List Ident}
    (h : Acts Interferes (api.listGrantHolders envId) s s' (.ok holders)) :
    ∃ l ∈ s'.executed, l.stmt = .selectGrantHolders envId ∧
      ∀ u, u ∈ holders ↔ (l.before.grants.lookup (envId, u)).isSome := by
  obtain ⟨t₁, _, -, h⟩ := Prog.amidE_bind_eq_ok.1 (serves_request (acts_http h))
  obtain ⟨t₂, _, -, h⟩ := Prog.amidE_bind_eq_ok.1 h
  obtain ⟨db, hread, hmem⟩ := serves_answer h
  obtain rfl := Except.ok.inj hread
  refine ⟨_, hmem, rfl, fun u => ?_⟩
  simp only [List.mem_map, List.mem_filter, Prod.exists, Table.mem_rows, decide_eq_true_eq,
    Option.isSome_iff_exists]
  constructor
  · rintro ⟨_, _, grant, ⟨hgrant, rfl⟩, rfl⟩
    exact ⟨grant, hgrant⟩
  · rintro ⟨grant, hgrant⟩
    exact ⟨envId, u, grant, ⟨hgrant, rfl⟩, rfl⟩

/-- A rotation that is answered was accepted at a moment. -/
theorem accepts_rotate {req : Api.RotateRequest} {v : Int}
    (h : Acts Interferes (api.rotate envId req) s s' (.ok v)) :
    ∃ access orgId rotation db, Server.decodeRotation api.userId req = .ok rotation ∧
      (⟨.rotate access envId orgId rotation, db⟩ : Executed) ∈ s'.executed ∧
      (Server.rotateTx access envId orgId rotation).run db =
        .ok (v, (⟨.rotate access envId orgId rotation, db⟩ : Executed).after) := by
  obtain ⟨t₁, ⟨_, access⟩, -, h⟩ := Prog.amidE_bind_eq_ok.1 (serves_request (acts_http h))
  obtain ⟨t₂, _, -, h⟩ := Prog.amidE_bind_eq_ok.1 h
  obtain ⟨t₃, orgId, -, h⟩ := Prog.amidE_bind_eq_ok.1 h
  cases orgId with
  | none => exact (Prog.amidE_throw_eq_ok.1 h).elim
  | some orgId =>
      obtain ⟨t₄, rotation, hdecode, h⟩ := Prog.amidE_bind_eq_ok.1 h
      obtain ⟨db, hread, hmem⟩ := serves_answer h
      refine ⟨access, orgId, rotation, db, ?_, hmem, Server.commit_run hread⟩
      cases hresult : Server.decodeRotation api.userId req with
      | ok b =>
          rw [hresult] at hdecode
          rw [(Prog.amidE_pure_eq_ok.1 hdecode).2]
      | error e =>
          rw [hresult] at hdecode
          exact (Prog.amidE_throw_eq_ok.1 hdecode).elim

end Interference

end Contested

/-! ### Grants -/

namespace Executed

variable (orgId envId : Ident) (revoke : Option Ident)

/-- A member who is not being removed holds a grant before a statement, and has the public key of a
key pair. -/
structure Holds (userId : Ident) (keypair : Keypair) (e : Executed) : Prop where
  member : (e.before.memberships.lookup (orgId, userId)).isSome
  grant : (e.before.grants.lookup (envId, userId)).isSome
  notRevoked : some userId ≠ revoke
  account : ∃ a, e.before.users.lookup userId = some (some a) ∧ a.publicKey = keypair.public

/-- Every such member holds after the statement a grant that opens to a vault key. -/
def KeepsGrants (newVault : Bytes) (e : Executed) : Prop :=
  ∀ userId keypair, e.Holds orgId envId revoke userId keypair → ∃ grant,
    e.after.grants.lookup (envId, userId) = some grant ∧
      Vault.openVaultKey keypair grant = .ok newVault

/-- Every such member was listed as a member with the same public key, and as a holder. -/
def ListedBy (e members holders : Executed) : Prop :=
  ∀ userId keypair, e.Holds orgId envId revoke userId keypair →
    (∃ a, members.before.users.lookup userId = some (some a) ∧ a.publicKey = keypair.public) ∧
      (members.before.memberships.lookup (orgId, userId)).isSome ∧
        (holders.before.grants.lookup (envId, userId)).isSome

end Executed

section Grants

variable {orgId envId userId : Ident} {revoke : Option Ident} {seed : Seed} {holders : List Ident}
  {req : Api.RotateRequest} {rotation : Server.Rotation} {v : Int} {newVault : Bytes}

/-- A rotation keeps the grants of others if and only if the lists that it was built from are right
about them. -/
theorem keepsGrants_iff_listedBy {m l e : Executed}
    (hlen : newVault.len = keyLen)
    (hgrants : regrant seed newVault (m.before.memberInfos orgId) revoke 0 holders =
      .ok req.grants)
    (hholders : ∀ u, u ∈ holders ↔ (l.before.grants.lookup (envId, u)).isSome)
    (hdecode : Server.decodeRotation userId req = .ok rotation)
    (hafter : e.after = (e.before.rekeyed envId rotation).withRevision envId v) :
    e.KeepsGrants orgId envId revoke newVault ↔ e.ListedBy orgId envId revoke m l := by
  constructor
  · intro hkeeps u keypair hholds
    obtain ⟨grant, hlookup, hopen⟩ := hkeeps u keypair hholds
    rw [hafter] at hlookup
    obtain ⟨hholder, -, info, publicKey, ephemeral, hfind, hkey, rfl⟩ :=
      lookup_regranted hgrants hdecode hlookup
    obtain ⟨hmember, hinfo⟩ := find?_memberInfos hfind
    have hpublic : publicKey = keypair.public := by
      simp only [Vault.openVaultKey, Wrap.openSealed, bind, Except.bind] at hopen
      split at hopen
      · cases hopen
      · next opened hbox =>
          split at hbox
          · assumption
          · cases hbox
    rw [hkey] at hinfo
    obtain ⟨key, hkey', hvalid⟩ := Option.map_eq_some_iff.1 hinfo.symm
    obtain ⟨account, haccount, rfl⟩ := Option.map_eq_some_iff.1 hkey'
    obtain ⟨stored, hstored, hid⟩ := Option.bind_eq_some_iff.1 haccount
    obtain rfl : stored = some account := hid
    exact ⟨⟨account, hstored, (Base64.valid.inj hvalid).trans hpublic⟩, hmember,
      (hholders u).1 hholder⟩
  · intro hlisted u keypair hholds
    obtain ⟨⟨account, haccount, hpublic⟩, hmember, hholder⟩ := hlisted u keypair hholds
    have hsome : (((e.before.rekeyed envId rotation).withRevision envId v).grants.lookup
        (envId, u)).isSome :=
      isSome_lookup_regranted hgrants hdecode ((hholders u).2 hholder) hholds.notRevoked
        (find?_memberInfos_ne_none hmember)
    obtain ⟨grant, hlookup⟩ := Option.isSome_iff_exists.1 hsome
    obtain ⟨-, -, info, publicKey, ephemeral, hfind, hkey, rfl⟩ :=
      lookup_regranted hgrants hdecode hlookup
    obtain ⟨-, hinfo⟩ := find?_memberInfos hfind
    rw [hkey, haccount] at hinfo
    obtain rfl : publicKey = account.publicKey := Base64.valid.inj (Option.some.inj hinfo)
    refine ⟨_, (congrArg (fun db : Server.Db => db.grants.lookup (envId, u)) hafter).trans hlookup,
      ?_⟩
    rw [hpublic]
    exact Vault.openVaultKey_grantVaultKey ephemeral keypair hlen

/-- The accepted rotation of a run, and the lists that it was built from. -/
theorem regranted_of_round {api : HttpClient} {keypair : Keypair} {m : Executed} {s' : Contested}
    (h : Round Interferes api keypair envId revoke (m.before.memberInfos orgId) s' v) :
    ∃ e ∈ s'.executed, e.Commits envId v ∧ ∃ l ∈ s'.executed,
      l.stmt = .selectGrantHolders envId ∧ ∃ newVault,
        (∀ u grant, e.after.grants.lookup (envId, u) = some grant →
          sealedKey grant = some newVault) ∧
        (e.KeepsGrants orgId envId revoke newVault ↔ e.ListedBy orgId envId revoke m l) := by
  obtain ⟨-, -, -, -, -, -, -, -, -, -, -, -, hholders, hgrants, htokens, -, -, -, hrotate,
    hanswer⟩ := h
  obtain ⟨l, hl, hstmt, hlisted⟩ := lists_holders hholders
  obtain ⟨access, orgId', rotation, db, hdecode, hmem, hrun⟩ := accepts_rotate hrotate
  obtain ⟨-, -, hafter⟩ := Server.rotateTx_eq_ok_iff.1 hrun
  have hlater := List.Subset.trans (executed_subset htokens) (executed_subset hrotate)
  refine ⟨_, (executed_of_steps hanswer).symm ▸ hmem, ⟨access, orgId', rotation, db, rfl, hrun⟩, l,
    (executed_of_steps hanswer).symm ▸ hlater hl, hstmt, _, ?_,
    keepsGrants_iff_listedBy rfl hgrants hlisted hdecode hafter⟩
  intro u grant hlookup
  rw [hafter] at hlookup
  obtain ⟨-, -, -, publicKey, ephemeral, -, -, rfl⟩ := lookup_regranted hgrants hdecode hlookup
  rfl

end Grants

/-- A rotation among any statements of others. If it returns a revision, it was accepted at a
moment. Then every member who held a grant has one that opens to the new vault key if and only if
the rotation has listed all of them as holders, and as members with their present keys. -/
theorem rotate_keeps_grants_iff {api : HttpClient} {keypair : Keypair} {orgId envId : Ident}
    {revoke : Option Ident} {db : Server.Db} {s' : Contested} {revision : Int}
    (h : Acts Interferes (rotateEnv api keypair orgId envId revoke) ⟨db, []⟩ s'
      (.ok (some revision))) :
    ∃ e ∈ s'.executed, e.Commits envId revision ∧ ∃ members ∈ s'.executed,
      members.stmt = .selectMembers orgId ∧ ∃ holders ∈ s'.executed,
      holders.stmt = .selectGrantHolders envId ∧ ∃ newVault,
        (∀ userId grant, e.after.grants.lookup (envId, userId) = some grant →
          sealedKey grant = some newVault) ∧
        (e.KeepsGrants orgId envId revoke newVault ↔
          e.ListedBy orgId envId revoke members holders) := by
  obtain ⟨t, infos, hmembers, hloop⟩ := Prog.amidE_bind_eq_ok.1 h
  obtain ⟨members, hmem, hstmt, rfl⟩ := lists_members hmembers
  obtain ⟨e, he, hcommits, holders, hholders, hstmt', newVault, hsealed, hiff⟩ :=
    regranted_of_round (round_of_rotateLoop hloop)
  exact ⟨e, he, hcommits, members, executed_subset hloop hmem, hstmt, holders, hholders, hstmt',
    newVault, hsealed, hiff⟩

set_option maxRecDepth 10000 in
/-- A rotation that nobody disturbs. -/
theorem rotate_keeps_grants_iff_twice : ∃ e ∈ Team.rotateTwoVersions.2.executed,
    e.Commits Team.envId 3 ∧ ∃ members ∈ Team.rotateTwoVersions.2.executed,
      members.stmt = .selectMembers Team.orgId ∧ ∃ holders ∈ Team.rotateTwoVersions.2.executed,
      holders.stmt = .selectGrantHolders Team.envId ∧ ∃ newVault,
        (∀ userId grant, e.after.grants.lookup (Team.envId, userId) = some grant →
          sealedKey grant = some newVault) ∧
        (e.KeepsGrants Team.orgId Team.envId none newVault ↔
          e.ListedBy Team.orgId Team.envId none members holders) := by
  have hresult : Team.rotateTwoVersions.1 = .ok (some 3) := by decide +kernel
  have hacts : Acts Interferes
      (rotateEnv ⟨Team.alice⟩ (Team.keypair Team.alice) Team.orgId Team.envId none)
      ⟨Team.twoVersions, []⟩ Team.rotateTwoVersions.2 Team.rotateTwoVersions.1 :=
    Prog.amid_run (fun c s => ⟨s, .refl, executes_unhindered c s⟩) _ _
  rw [hresult] at hacts
  exact rotate_keeps_grants_iff hacts

namespace Team

def carol : Ident := .text "carol"

def carolKeypair : Keypair := ⟨.random ⟨0, 9⟩ 0⟩

/-- The organisation with a third member, who has no grant. -/
def withCarol : Server.Db :=
  { db with
    users := AList.insert carol
      (some ⟨carolKeypair.public, .raw .empty, .raw .empty, .raw .empty⟩) db.users
    memberships := AList.insert (orgId, carol) ⟨.member, none⟩ db.memberships }

/-- The other admin shares the environment with the third member. -/
def share : Server.Stmt :=
  .createGrant ⟨false, some .admin, some orgId, some .active, bob⟩ envId orgId carol
    (.sealedBox carolKeypair.public (⟨2, 0⟩, 0) (.random vaultKey 0))

/-- The environment is shared between the lists of a rotation and its commit. -/
def shared : (c : Cmd) → Contested → c.Reply × Contested
  | .server (.rotate access envId orgId req), s =>
      unhindered (.server (.rotate access envId orgId req)) { s with db := (share.exec s.db).2 }
  | c, s => unhindered c s

theorem executes_shared (c : Cmd) (s : Contested) :
    ∃ s₁, ReflTransGen Interferes s s₁ ∧ Contested.Executes c s₁ (shared c s).1 (shared c s).2 := by
  unfold shared
  split
  · exact ⟨_, .single ⟨share, rfl⟩, executes_unhindered _ _⟩
  · exact ⟨s, .refl, executes_unhindered _ _⟩

/-- A rotation of the environment while it is shared. -/
def rotateShared : Except Cli.Error (Option Int) × Contested :=
  ((rotateEnv ⟨alice⟩ (keypair alice) orgId envId none).run.expand Call.steps).run shared
    ⟨withCarol, []⟩

/-- Whether the third member is a member with a grant before a rotation, and without one after. -/
def losesCarol (e : Executed) : Bool :=
  match e.stmt with
  | .rotate .. => (e.before.memberships.lookup (orgId, carol)).isSome &&
      (e.before.grants.lookup (envId, carol)).isSome &&
      (((e.before.users.lookup carol).bind id).map Server.Account.publicKey =
        some carolKeypair.public) &&
      (e.after.grants.lookup (envId, carol)).isNone
  | _ => true

end Team

set_option maxRecDepth 10000 in
/-- A member whom the environment is shared with during a rotation loses the grant. -/
theorem rotate_loses_grant : ∃ s' e,
    Acts Interferes (rotateEnv ⟨Team.alice⟩ (Team.keypair Team.alice) Team.orgId Team.envId none)
      ⟨Team.withCarol, []⟩ s' (.ok (some 1)) ∧
    e ∈ s'.executed ∧ e.Commits Team.envId 1 ∧
    e.Holds Team.orgId Team.envId none Team.carol Team.carolKeypair ∧
    e.after.grants.lookup (Team.envId, Team.carol) = none := by
  have hresult : Team.rotateShared.1 = .ok (some 1) := by decide +kernel
  have hloses : Team.rotateShared.2.executed.all Team.losesCarol := by decide +kernel
  have hacts : Acts Interferes
      (rotateEnv ⟨Team.alice⟩ (Team.keypair Team.alice) Team.orgId Team.envId none)
      ⟨Team.withCarol, []⟩ Team.rotateShared.2 Team.rotateShared.1 :=
    Prog.amid_run Team.executes_shared _ _
  rw [hresult] at hacts
  obtain ⟨t, infos, hmembers, hloop⟩ := Prog.amidE_bind_eq_ok.1 hacts
  obtain ⟨members, -, -, rfl⟩ := lists_members hmembers
  obtain ⟨e, he, hcommits, -⟩ := regranted_of_round (round_of_rotateLoop hloop)
  have hcarol := List.all_eq_true.1 hloses e he
  obtain ⟨access, orgId, rotation, before, rfl, -⟩ := id hcommits
  simp only [Team.losesCarol, Bool.and_eq_true, decide_eq_true_eq, Option.isNone_iff_eq_none]
    at hcarol
  obtain ⟨⟨⟨hmember, hgrant⟩, hkey⟩, hnone⟩ := hcarol
  obtain ⟨a, ha, hpublic⟩ := Option.map_eq_some_iff.1 hkey
  obtain ⟨stored, hstored, hid⟩ := Option.bind_eq_some_iff.1 ha
  obtain rfl : stored = some a := hid
  exact ⟨_, _, hacts, he, hcommits, ⟨hmember, hgrant, by simp, a, hstored, hpublic⟩, hnone⟩

end Sotto
