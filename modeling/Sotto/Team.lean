import Sotto.Base.Undisturbed

/-!
# A team of two

A linked environment of an organisation with two members, one with device 0 and one
with every other device. Runs of these devices show what the devices of an
organisation can come to.
-/

namespace Sotto

open Core Cli

namespace Team

def alice : Ident := .text "alice"

def bob : Ident := .text "bob"

def user (d : Nat) : Ident := if d = 0 then alice else bob

def keypair (userId : Ident) : Keypair := ⟨.random ⟨0, if userId = alice then 1 else 2⟩ 0⟩

def vaultKey : Seed := ⟨0, 0⟩

def grant (userId : Ident) : Bytes :=
  .sealedBox (keypair userId).public (⟨0, 3⟩, 0) (.random vaultKey 0)

def account (userId : Ident) : Server.Account :=
  ⟨(keypair userId).public, .raw .empty, .raw .empty, .raw .empty⟩

def orgId : Ident := .text "org"

def projectId : Ident := .text "project"

def envId : Ident := .text "env"

/-- The server: an organisation with two admins, and their grants. -/
def db : Server.Db where
  users := AList.insert alice (some (account alice)) (AList.insert bob (some (account bob)) ∅)
  organizations := AList.insert orgId ⟨.raw .empty, .active, .team⟩ ∅
  memberships := AList.insert (orgId, alice) ⟨.owner, none⟩
    (AList.insert (orgId, bob) ⟨.admin, none⟩ ∅)
  projects := AList.insert projectId ⟨alice, some orgId, .raw .empty⟩ ∅
  environments := AList.insert envId ⟨projectId, .raw .empty, 0⟩ ∅
  grants := AList.insert (envId, alice) (grant alice) (AList.insert (envId, bob) (grant bob) ∅)
  secrets := ∅
  secretVersions := ∅
  machineTokens := ∅

/-- The store of a user's device. -/
def store (userId : Ident) : Store where
  accountKeys := some ⟨.raw .empty, (keypair userId).public, .raw .empty, .raw .empty⟩
  projects := AList.insert projectId "project" ∅
  environments := AList.insert envId ⟨projectId, "dev", grant userId⟩ ∅
  secrets := ∅
  secretVersions := ∅
  syncState := ∅

/-- A user of the team is one of its two members. -/
theorem user_cases (d : Nat) : user d = alice ∨ user d = bob := by
  unfold user
  split
  · exact Or.inl rfl
  · exact Or.inr rfl

theorem lookup_users {u : Ident} {a : Server.Account}
    (h : db.users.lookup u = some (some a)) : a = account u := by
  simp only [db, Table.lookup_insert, AList.lookup_empty] at h
  split at h
  · next hu =>
      rw [hu]
      simpa using h.symm
  · split at h
    · next hu =>
        rw [hu]
        simpa using h.symm
    · cases h

theorem lookup_grants {u : Ident} {g : Bytes} (h : db.grants.lookup (envId, u) = some g) :
    g = grant u := by
  simp only [db, Table.lookup_insert, AList.lookup_empty, Prod.mk.injEq, true_and] at h
  split at h
  · next hu =>
      rw [hu]
      simpa using h.symm
  · split at h
    · next hu =>
        rw [hu]
        simpa using h.symm
    · cases h

/-- The team's linked environment. -/
def setup : Setup where
  projectId := projectId
  projectName := "project"
  envId := envId
  envName := "dev"
  orgId := some orgId
  vaultKey := vaultKey
  user := user
  keypair := keypair
  master _ := .random ⟨0, 4⟩ 0
  db := db
  store d := store (user d)
  environment := ⟨_, rfl⟩
  project := ⟨_, _, rfl⟩
  secrets := rfl
  secretVersions := rfl
  accounts u a h := by rw [lookup_users h]; rfl
  initialised d := by
    rcases user_cases d with h | h
    · exact ⟨account alice, by rw [h]; rfl⟩
    · exact ⟨account bob, by rw [h]; rfl⟩
  grants u g h := ⟨_, lookup_grants h⟩
  granted d := by
    refine ⟨grant (user d), ?_, rfl⟩
    rcases user_cases d with h | h
    · rw [h]
      rfl
    · rw [h]
      rfl
  onlyEnvironment d e env h := by
    simp only [store, Table.lookup_insert, AList.lookup_empty] at h
    split at h
    · assumption
    · cases h
  noSecrets _ := ⟨rfl, rfl, rfl⟩
  vaultKeyOwner := rfl

/-- A value. -/
def value : Bytes := .raw "1".toUTF8

/-- A whole operation of a device, undisturbed. -/
def whole (d : Nat) (op : Op) : List Move := [.begin d op, .ticks d 80]

/-- What a device of the team is left with by a pull that runs alone. -/
def pulledAlone (d : Nat) (w : Setup.World) : Except Cli.Error Unit × Shared × Device :=
  setup.alone d .pull w.shared (w.threads d).own

theorem alone_pulledAlone {d : Nat} {w : Setup.World} (h : (pulledAlone d w).1 = .ok ()) :
    setup.Alone d .pull w.shared (w.threads d).own (.ok ()) (pulledAlone d w).2.1
      (pulledAlone d w).2.2 := by
  have := setup.alone_spec d .pull w.shared (w.threads d).own
  rw [show (setup.alone d .pull w.shared (w.threads d).own).1 = .ok () from h] at this
  exact this

end Team

end Sotto
