import Sotto.Server.Admission
import Sotto.Team

/-!
# The versions of the server's secrets

The server refuses a version of a secret that its history has. A batch of any caller can set a
lower version that was skipped, so the current version of a secret never decreases exactly as long
as no batch ends with a lower one.
-/

namespace Sotto

open Core Api

namespace Server

/-- The version that a batch leaves a secret at, if it sets the secret. -/
def lastSet : List SecretChange → Ident → Option Int
  | [], _ => none
  | c :: changes, id =>
      (lastSet changes id).or (if c.op = .set ∧ c.id = id then some c.version else none)

/-- The history has the current version of every secret. -/
def Recorded (db : Db) : Prop :=
  ∀ id r, db.secrets.lookup id = some r → db.secretVersions.lookup (id, r.version) ≠ none

/-- A row of a secret against an earlier one: its version is not lower, and a tombstone keeps its
version until it is set again with a higher one. -/
structure NotOlder (r r' : Secret) : Prop where
  version : r.version ≤ r'.version
  tombstone : r.deleted = true →
    (r'.deleted = true ∧ r'.version = r.version) ∨ r.version < r'.version

/-- No secret has an older row than before. -/
def NeverOlder (db db' : Db) : Prop :=
  ∀ id r, db.secrets.lookup id = some r →
    ∃ r', db'.secrets.lookup id = some r' ∧ NotOlder r r'

theorem NotOlder.refl (r : Secret) : NotOlder r r :=
  ⟨Int.le_refl _, fun h => Or.inl ⟨h, rfl⟩⟩

theorem NotOlder.trans {r r' r'' : Secret} (h : NotOlder r r') (h' : NotOlder r' r'') :
    NotOlder r r'' := by
  refine ⟨Int.le_trans h.version h'.version, ?_⟩
  intro hd
  rcases h.tombstone hd with ⟨hd', hv⟩ | hlt
  · rw [← hv]
    exact h'.tombstone hd'
  · exact Or.inr (Int.lt_of_lt_of_le hlt h'.version)

theorem NeverOlder.refl (db : Db) : NeverOlder db db :=
  fun _ r hr => ⟨r, hr, NotOlder.refl r⟩

theorem NeverOlder.trans {db db' db'' : Db} (h : NeverOlder db db') (h' : NeverOlder db' db'') :
    NeverOlder db db'' := by
  intro id r hr
  obtain ⟨r', hr', hnot⟩ := h id r hr
  obtain ⟨r'', hr'', hnot'⟩ := h' id r' hr'
  exact ⟨r'', hr'', hnot.trans hnot'⟩

section Batch

variable {envId id : Ident} {c : SecretChange} {changes : List SecretChange} {db : Db} {v : Int}

theorem Recorded.effect (h : Recorded db) (c : SecretChange) : Recorded (effect envId db c) := by
  intro id r hr
  rw [lookup_effect_secrets] at hr
  rw [lookup_effect_secretVersions]
  split
  · simp
  · next hkey =>
      split at hr
      · next hid =>
          subst hid
          cases hop : c.op with
          | set =>
              simp only [hop, Option.some.injEq] at hr
              subst hr
              exact absurd ⟨hop, rfl⟩ hkey
          | delete =>
              simp only [hop, Option.map_eq_some_iff] at hr
              obtain ⟨r₀, hr₀, rfl⟩ := hr
              have hversion : (deleteRow envId r₀).version = r₀.version := by
                unfold deleteRow
                split <;> rfl
              rw [hversion]
              exact h c.id r₀ hr₀
      · exact h id r hr

theorem Recorded.foldl (h : Recorded db) : Recorded (changes.foldl (Server.effect envId) db) := by
  induction changes generalizing db with
  | nil => exact h
  | cons c changes ih => exact ih (h.effect c)

end Batch

/-! ### Runs -/

/-- A batch that a caller with some access sends. -/
structure Write where
  access : ProjectAccess
  envId : Ident
  req : BatchRequest

/-- A batch is accepted. -/
def Write.Accepted (w : Write) (db db' : Db) : Prop :=
  ∃ v, (writeSecretsTx w.access w.envId w.req).run db = .ok (v, db')

/-- The databases that accepted batches lead to. -/
inductive Run : Db → List Write → Db → Prop
  | nil {db : Db} : Run db [] db
  | cons {db db₁ db' : Db} {w : Write} {ws : List Write} : w.Accepted db db₁ → Run db₁ ws db' →
      Run db (w :: ws) db'

/-- A batch leaves no secret at a lower version. -/
def Write.Ascends (w : Write) (db : Db) : Prop :=
  ∀ id r v, db.secrets.lookup id = some r → lastSet w.req.changes id = some v → r.version ≤ v

section Runs

variable {db db' : Db} {w : Write} {ws : List Write}

theorem Write.Accepted.eq (h : w.Accepted db db') :
    Admissible w.envId w.req.changes db ∧
      db'.secrets = (w.req.changes.foldl (effect w.envId) db).secrets ∧
      db'.secretVersions = (w.req.changes.foldl (effect w.envId) db).secretVersions := by
  obtain ⟨v, hrun⟩ := h
  obtain ⟨⟨-, -, hadmits⟩, -, rfl⟩ := writeSecretsTx_eq_ok_iff.1 hrun
  exact ⟨hadmits, rfl, rfl⟩

theorem Write.Accepted.recorded (h : w.Accepted db db') (hdb : Recorded db) : Recorded db' := by
  obtain ⟨-, hs, hv⟩ := h.eq
  intro id r hr
  rw [hs] at hr
  rw [hv]
  exact hdb.foldl id r hr

theorem Run.recorded (h : Run db ws db') (hdb : Recorded db) : Recorded db' := by
  induction h with
  | nil => exact hdb
  | cons hw _ ih => exact ih (hw.recorded hdb)

theorem Run.append {db₁ : Db} {vs : List Write} (h : Run db ws db₁) (h' : Run db₁ vs db') :
    Run db (ws ++ vs) db' := by
  induction h with
  | nil => exact h'
  | cons hw _ ih => exact .cons hw (ih h')

theorem Run.unique {db₁ : Db} (h : Run db ws db₁) (h' : Run db ws db') : db₁ = db' := by
  induction h with
  | nil =>
      cases h'
      rfl
  | cons hw _ ih =>
      cases h' with
      | cons hw' h' =>
          obtain ⟨v, hv⟩ := hw
          obtain ⟨v', hv'⟩ := hw'
          rw [hv] at hv'
          cases hv'
          exact ih h'

end Runs

end Server

open Server

namespace Team

/-- A batch that sets one version of a secret. -/
def setVersion (baseRevision version : Int) : Write :=
  ⟨⟨false, some .owner, some orgId, some .active, alice⟩, envId, ⟨baseRevision,
    [Api.SecretChange.set (.text "token") version (.valid (.raw .empty)) (.valid (.raw .empty))
      (.valid (.raw .empty))]⟩⟩

/-- The database after a batch. -/
def after (w : Write) (db : Db) : Db := (commit (writeSecretsTx w.access w.envId w.req) db).2

end Team

end Sotto
