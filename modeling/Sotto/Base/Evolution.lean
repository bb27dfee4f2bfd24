import Sotto.Rounds.Rotate
import Sotto.Rounds.Edit

/-!
# How the server's state evolves

The revision tells the states of the database apart: it never decreases, and at one
revision there is one database. A secret's row only moves to a higher version, or
keeps version and content while it is deleted or its data key is rewrapped. The
vault keys are a list that grows at its head, and the grants change only with it.
Who has access does not change. What evolves by the other devices mints no id and
no key of this one.
-/

namespace Sotto

open Core Cli

theorem RevisionAt.unique {S : Setup} {s : Shared} {n n' : Int} (h : RevisionAt S s n)
    (h' : RevisionAt S s n') : n = n' := by
  obtain ⟨env, he, rfl⟩ := h
  obtain ⟨env', he', rfl⟩ := h'
  rw [he] at he'
  cases he'
  rfl

theorem RevisionAt.of_db {S : Setup} {s s' : Shared} {n : Int} (h : RevisionAt S s n)
    (hdb : s'.db = s.db) : RevisionAt S s' n := by
  obtain ⟨env, he, hn⟩ := h
  exact ⟨env, by rw [hdb]; exact he, hn⟩

/-- The row of a secret at a later time; without a new vault key its data key stays. -/
structure RowLater (sameKeys : Prop) (r r' : Server.Secret) : Prop where
  envId : r'.envId = r.envId
  version : r.version < r'.version ∨ (r'.version = r.version ∧ r'.encName = r.encName ∧
    r'.encValue = r.encValue ∧ (r.deleted = true → r'.deleted = true) ∧
    (sameKeys → r'.encDataKey = r.encDataKey))

theorem RowLater.refl (p : Prop) (r : Server.Secret) : RowLater p r r :=
  ⟨rfl, Or.inr ⟨rfl, rfl, rfl, id, fun _ => rfl⟩⟩

theorem RowLater.version_le {p : Prop} {r r' : Server.Secret} (h : RowLater p r r') :
    r.version ≤ r'.version := by
  rcases h.version with h | ⟨h, -⟩ <;> omega

theorem RowLater.trans {p q t : Prop} {r r' r'' : Server.Secret} (h : RowLater p r r')
    (h' : RowLater q r' r'') (hp : t → p) (hq : t → q) : RowLater t r r'' := by
  refine ⟨h'.envId.trans h.envId, ?_⟩
  rcases h.version with hlt | ⟨hv, hn, hval, hd, hk⟩
  · have := h'.version_le
    exact Or.inl (by omega)
  · rcases h'.version with hlt | ⟨hv', hn', hval', hd', hk'⟩
    · exact Or.inl (by omega)
    · exact Or.inr ⟨hv'.trans hv, hn'.trans hn, hval'.trans hval, fun x => hd' (hd x),
        fun x => (hk' (hq x)).trans (hk (hp x))⟩

/-- One state of the server and a later one. -/
structure Evolves (S : Setup) (s s' : Shared) : Prop where
  db : (s'.db = s.db ∧ s'.keys = s.keys) ∨
    ∃ n n', RevisionAt S s n ∧ RevisionAt S s' n' ∧ n < n'
  rows : ∀ id r, s.db.secrets.lookup id = some r →
    ∃ r', s'.db.secrets.lookup id = some r' ∧ RowLater (s'.keys = s.keys) r r'
  keys : s.keys <:+ s'.keys
  grants : s'.keys = s.keys →
    ∀ u, s'.db.grants.lookup (S.envId, u) = s.db.grants.lookup (S.envId, u)
  created : s.created <:+ s'.created
  access : ∀ u, Server.envAccess S.envId u s'.db = Server.envAccess S.envId u s.db

namespace Evolves

variable {S : Setup} {s s' s'' : Shared}

theorem refl (s : Shared) : Evolves S s s :=
  ⟨Or.inl ⟨rfl, rfl⟩, fun _ r hr => ⟨r, hr, RowLater.refl _ r⟩, List.suffix_rfl, fun _ _ => rfl,
    List.suffix_rfl, fun _ => rfl⟩

/-- A list between two equal ones, in the order of suffixes, is equal to them. -/
theorem eq_of_suffix {α : Type} {a b c : List α} (hab : a <:+ b) (hbc : b <:+ c) (h : c = a) :
    b = a ∧ c = b := by
  subst h
  have hlen : b.length = c.length := le_antisymm hbc.length_le hab.length_le
  exact ⟨hbc.eq_of_length hlen, (hbc.eq_of_length hlen).symm⟩

theorem trans (h : Evolves S s s') (h' : Evolves S s' s'') : Evolves S s s'' := by
  refine ⟨?_, ?_, h.keys.trans h'.keys, ?_, h.created.trans h'.created,
    fun u => (h'.access u).trans (h.access u)⟩
  · rcases h.db with ⟨hdb, hk⟩ | ⟨n, n', hn, hn', hlt⟩
    · rcases h'.db with ⟨hdb', hk'⟩ | ⟨m, m', hm, hm', hlt'⟩
      · exact Or.inl ⟨hdb'.trans hdb, hk'.trans hk⟩
      · exact Or.inr ⟨m, m', hm.of_db hdb.symm, hm', hlt'⟩
    · rcases h'.db with ⟨hdb', -⟩ | ⟨m, m', hm, hm', hlt'⟩
      · exact Or.inr ⟨n, n', hn, hn'.of_db hdb', hlt⟩
      · obtain rfl := hn'.unique hm
        exact Or.inr ⟨n, m', hn, hm', by omega⟩
  · intro id r hr
    obtain ⟨r', hr', hl⟩ := h.rows id r hr
    obtain ⟨r'', hr'', hl'⟩ := h'.rows id r' hr'
    exact ⟨r'', hr'', hl.trans hl' (fun hk => (eq_of_suffix h.keys h'.keys hk).1)
      fun hk => (eq_of_suffix h.keys h'.keys hk).2⟩
  · intro hk u
    obtain ⟨h₁, h₂⟩ := eq_of_suffix h.keys h'.keys hk
    rw [h'.grants h₂, h.grants h₁]

/-- At one revision there is one database. -/
theorem eq_of_revision (h : Evolves S s s') {n : Int} (hn : RevisionAt S s n)
    (hn' : RevisionAt S s' n) : s'.db = s.db ∧ s'.keys = s.keys := by
  rcases h.db with heq | ⟨m, m', hm, hm', hlt⟩
  · exact heq
  · obtain rfl := hn.unique hm
    obtain rfl := hn'.unique hm'
    omega

theorem revision_le (h : Evolves S s s') {n n' : Int} (hn : RevisionAt S s n)
    (hn' : RevisionAt S s' n') : n ≤ n' := by
  rcases h.db with ⟨hdb, -⟩ | ⟨m, m', hm, hm', hlt⟩
  · have := (hn.of_db hdb).unique hn'
    omega
  · obtain rfl := hn.unique hm
    obtain rfl := hn'.unique hm'
    omega

theorem exists_revision (h : Evolves S s s') {n' : Int} (hn' : RevisionAt S s' n') :
    ∃ n, RevisionAt S s n := by
  rcases h.db with ⟨hdb, -⟩ | ⟨n, _, hn, -, -⟩
  · exact ⟨n', hn'.of_db hdb.symm⟩
  · exact ⟨n, hn⟩

/-- Between two states of one revision the database does not change. -/
theorem eq_between (h : Evolves S s s') (h' : Evolves S s' s'') {n : Int} (hn : RevisionAt S s n)
    (hn'' : RevisionAt S s'' n) :
    (s'.db = s.db ∧ s'.keys = s.keys) ∧ (s''.db = s'.db ∧ s''.keys = s'.keys) := by
  rcases h.db with heq | ⟨m, m', hm, hm', hlt⟩
  · refine ⟨heq, ?_⟩
    exact h'.eq_of_revision (hn.of_db heq.1) hn''
  · obtain rfl := hn.unique hm
    have := h'.revision_le hm' hn''
    omega

/-- A vault key that is current again never stopped being current. -/
theorem keys_eq (h : Evolves S s s') (hnodup : s'.keys.Nodup) {K : Bytes} (hK : K ∈ s.keys)
    (hhead : s'.keys.head? = some K) : s'.keys = s.keys := by
  obtain ⟨new, hnew⟩ := h.keys
  cases new with
  | nil => exact hnew.symm
  | cons K' new =>
      rw [← hnew] at hhead hnodup
      obtain rfl : K' = K := by simpa using hhead
      rw [List.cons_append, List.nodup_cons] at hnodup
      exact absurd (List.mem_append_right new hK) hnodup.1

/-- A vault key that is current again was current. -/
theorem head_eq (h : Evolves S s s') (hnodup : s'.keys.Nodup) {K : Bytes} (hK : K ∈ s.keys)
    (hhead : s'.keys.head? = some K) : s.keys.head? = some K := by
  rwa [h.keys_eq hnodup hK hhead] at hhead

end Evolves

/-- A database has the version of a local row, or a newer one. -/
def Behind (db : Server.Db) (id : Ident) (row : SecretRow) : Prop :=
  ∃ r, db.secrets.lookup id = some r ∧ row.version ≤ r.version

theorem Behind.evolves {S : Setup} {s s' : Shared} {id : Ident} {row : SecretRow}
    (h : Behind s.db id row) (hs : Evolves S s s') : Behind s'.db id row := by
  obtain ⟨r, hr, hv⟩ := h
  obtain ⟨r', hr', hlater⟩ := hs.rows id r hr
  exact ⟨r', hr', Int.le_trans hv hlater.version_le⟩

/-- A later state of the server, reached by steps of devices other than `d`. -/
structure Later (S : Setup) (d : Nat) (s s' : Shared) : Prop extends Evolves S s s' where
  ids : ∀ n, s'.db.secrets.lookup (.uuid ⟨d + 1, n⟩) ≠ none →
    s.db.secrets.lookup (.uuid ⟨d + 1, n⟩) ≠ none
  minted : ∀ n, Bytes.random ⟨d + 1, n⟩ 0 ∈ s'.keys → Bytes.random ⟨d + 1, n⟩ 0 ∈ s.keys
  named : ∀ n name, (Ident.uuid ⟨d + 1, n⟩, name) ∈ s'.created →
    (Ident.uuid ⟨d + 1, n⟩, name) ∈ s.created

namespace Later

variable {S : Setup} {d : Nat} {s s' s'' : Shared}

theorem refl (s : Shared) : Later S d s s :=
  ⟨Evolves.refl s, fun _ h => h, fun _ h => h, fun _ _ h => h⟩

theorem trans (h : Later S d s s') (h' : Later S d s' s'') : Later S d s s'' :=
  ⟨h.toEvolves.trans h'.toEvolves, fun n x => h.ids n (h'.ids n x),
    fun n x => h.minted n (h'.minted n x), fun n name x => h.named n name (h'.named n name x)⟩

end Later

end Sotto
