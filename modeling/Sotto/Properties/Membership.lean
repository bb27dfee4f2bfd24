import Sotto.Org.Runs

/-!
# Who is a member, and what members hold

In every run of the requests, only members hold grants and unrevoked machine tokens, every
organisation that is not deleted has an owner, and members are changed only for those who may
manage them when the change is committed.
-/

namespace Sotto

namespace Org

open Core (Ident Bytes)
open Server (Role)
open Sessions (Entry)
open Sessions.Discipline

variable {ι : Type} [DecidableEq ι] {w : Situation ι}

/-- A value that a client encrypted. -/
def sealed : Base64 := .valid (.raw .empty)

/-- Alice signs in, creates an organisation with a project, and adds Bob, who has signed in too. -/
def founding : List Call :=
  [.upsertUser (.text "alice") none, .upsertUser (.text "bob") none,
    .createOrg (.text "alice") ⟨.text "org", sealed, sealed⟩,
    .createProject (.text "alice") ⟨.text "project", sealed, some (.text "org")⟩,
    .addMember (.text "alice") (.text "org") ⟨.text "bob", .member⟩]

/-- She shares an environment with him. -/
def sharing : List Call :=
  founding ++ [.createEnvironment (.text "alice") (.text "project") ⟨.text "env", sealed, sealed⟩,
    .createGrant (.text "alice") (.text "env") ⟨.text "bob", sealed⟩]

/-- What only members have in the environments of organisations, other than in those whose id a
purge has made free before. -/
structure Db.OnlyMembers (db : Db) : Prop where
  grants : ∀ e u o, e ∉ db.retired → (db.grants.lookup (e, u)).isSome → db.orgOf e = some o →
    (db.roleOf o u).isSome
  tokens : ∀ t token o, token.envId ∉ db.retired → db.machineTokens.lookup t = some token →
    token.revoked = false → db.orgOf token.envId = some o →
    ∃ origin, db.tokenOrigins.lookup t = some origin ∧ (db.roleOf o origin.createdBy).isSome

theorem Db.Consistent.onlyMembers {db : Db} (h : db.Consistent) : db.OnlyMembers where
  grants _ _ _ := h.grants
  tokens t token o he ht hrevoked ho := by
    obtain ⟨origin, horigin⟩ := Option.isSome_iff_exists.1 (h.originOf (t := t) (by rw [ht]; rfl))
    exact ⟨origin, horigin, h.tokens he ht hrevoked horigin ho⟩

/-- Who was no member before a transaction holds nothing after it. -/
theorem Commits.grantsOf {op : Call} {locks : List Lock} {db : Db} {changes : List Change}
    (h : Commits op locks db changes) (hc : db.Consistent) : (db.after changes).GrantsOf db :=
  h.chain.grantsOf hc fun _ _ _ => hc.grants

/-- A user becomes a member of an organisation in a transaction. -/
def Joins (entry : Entry Db Lock Call) (o u : Ident) : Prop :=
  entry.before.roleOf o u = none ∧ (entry.after.roleOf o u).isSome

/-- In every run, only members hold access, and who joins starts with no grant. -/
theorem onlyMembers_of_reaches (hw : (requests ι).Reaches (quiet Db.empty) w) :
    w.shared.db.OnlyMembers ∧
      (∀ entry ∈ w.shared.log, ∀ o u, Joins entry o u → ∀ e, e ∉ entry.after.retired →
        entry.after.orgOf e = some o → entry.after.grants.lookup (e, u) = none) ∧
      ((∀ entry ∈ w.shared.log, ¬ entry.op.Purges) → w.shared.db.retired = []) := by
  refine ⟨(history_of_requests hw).1.1.onlyMembers, ?_, retired_of_log hw⟩
  rintro entry hentry o u ⟨hbefore, -⟩ e he ho
  obtain ⟨changes, hsound, hcommits, hafter⟩ := commits_of_mem_log hw hentry
  rw [hafter] at he ho ⊢
  by_contra hgrant
  have hmember := hcommits.grantsOf hsound.1 e u o he (Option.isSome_iff_ne_none.2 hgrant) ho
  rw [hbefore] at hmember
  cases hmember

/-- Bob holds a grant, and so is a member. -/
theorem onlyMembers_of_sharing : ∃ w : Situation Unit,
    (requests Unit).Reaches (quiet Db.empty) w ∧ w.shared.db.OnlyMembers ∧
      (w.shared.db.grants.lookup (.text "env", .text "bob")).isSome := by
  obtain ⟨w, hw, hs⟩ := reaches_afterRequests sharing
  refine ⟨w, hw, (onlyMembers_of_reaches hw).1, ?_⟩
  rw [hs.db]
  decide +kernel

/-- In every run, every organisation that is not deleted has an owner. -/
theorem owned_of_reaches (hw : (requests ι).Reaches (quiet Db.empty) w) : w.shared.db.Owned :=
  (history_of_requests hw).1.2

/-- The organisation that Alice created is owned. -/
theorem owned_of_sharing : ∃ w : Situation Unit,
    (requests Unit).Reaches (quiet Db.empty) w ∧ w.shared.db.Owned ∧
      (w.shared.db.lifecycleOf (.text "org")).isSome := by
  obtain ⟨w, hw, hs⟩ := reaches_afterRequests sharing
  refine ⟨w, hw, owned_of_reaches hw, ?_⟩
  rw [hs.db]
  decide +kernel

/-- In every run, members are changed only for an admin or owner of an active organisation, and
owners only for an owner, each of them so when the change is committed. -/
theorem manages_of_reaches (hw : (requests ι).Reaches (quiet Db.empty) w) :
    ∀ entry ∈ w.shared.log, ∀ userId orgId, entry.op.membership? = some (userId, orgId) →
      Manages entry.before orgId userId ∧
      ∀ o u, ¬ (entry.before.roleOf o u = some .owner ↔ entry.after.roleOf o u = some .owner) →
        entry.before.roleOf orgId userId = some .owner := by
  intro entry hentry userId orgId hop
  obtain ⟨changes, -, hcommits, hafter⟩ := commits_of_mem_log hw hentry
  refine ⟨hcommits.manages userId orgId hop, ?_⟩
  rw [hafter]
  exact hcommits.owners userId orgId hop

/-- Bob was added by Alice, who managed the members. -/
theorem manages_of_founding : ∃ w : Situation Unit,
    (requests Unit).Reaches (quiet Db.empty) w ∧
      ∃ entry ∈ w.shared.log, Manages entry.before (.text "org") (.text "alice") := by
  obtain ⟨w, hw, hs⟩ := reaches_afterRequests founding
  have hadded : ∃ entry ∈ (afterRequests founding).2,
      entry.op.membership? = some (.text "alice", .text "org") := by
    decide +kernel
  obtain ⟨entry, hentry, hop⟩ := hadded
  rw [← hs.log] at hentry
  exact ⟨w, hw, entry, hentry, (manages_of_reaches hw entry hentry _ _ hop).1⟩

end Org

end Sotto
