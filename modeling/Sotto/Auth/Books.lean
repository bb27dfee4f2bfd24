import Sotto.Auth.Traces

/-!
# The books of logins, codes and sessions

Logins, login codes and sessions are entered under a secret that was drawn for them, so each key is
entered once. A login that was taken, a code that was redeemed and a session that was deleted stay
gone.
-/

namespace Sotto

namespace Auth

open Core (Ident)
open Prog (Record)

/-! ### Entries and removals -/

/-- The login that a command has stored. -/
def began (now : Int) : (Σ c : Cmd, c.Reply) → Option (String × Login)
  | ⟨.insertLogin state uri cliState wants, .ok _⟩ => some (state, ⟨uri, cliState, now, wants⟩)
  | _ => none

/-- The login that a command has taken. -/
def took : (Σ c : Cmd, c.Reply) → Option (String × TakenLogin)
  | ⟨.takeLogin state, .ok (some login)⟩ => some (state, login)
  | _ => none

/-- The code that a command has stored. -/
def minted (now : Int) : (Σ c : Cmd, c.Reply) → Option (Hash × LoginCode)
  | ⟨.insertCode codeHash userId cliState, .ok _⟩ =>
      some (codeHash, ⟨userId, cliState, now + codeTtl⟩)
  | _ => none

/-- The code that a command has redeemed, the state that it presented, and for whom. -/
def redeemed : (Σ c : Cmd, c.Reply) → Option (Hash × String × Ident)
  | ⟨.takeCode codeHash cliState, .ok (some userId)⟩ => some (codeHash, cliState, userId)
  | _ => none

/-- The session that a command has stored: its user, and when it expires. -/
def issued (now : Int) : (Σ c : Cmd, c.Reply) → Option (Hash × Ident × Int)
  | ⟨.insertSession tokenHash userId _, .ok _⟩ => some (tokenHash, userId, now + sessionTtl)
  | _ => none

/-- The session that a command has found, and its user. -/
def authenticated : (Σ c : Cmd, c.Reply) → Option (Hash × Ident)
  | ⟨.touchSession tokenHash, .ok (some userId)⟩ => some (tokenHash, userId)
  | _ => none

/-- The session that a command has deleted, if there was one. -/
def deleted : (Σ c : Cmd, c.Reply) → Option Hash
  | ⟨.deleteSession tokenHash, .ok _⟩ => some tokenHash
  | _ => none

/-! ### What a command does to a table -/

section Tables

variable {hashToken : String → Hash} {client : Client} {c : Cmd} {now : Int} {s s' : State}
  {r : c.Reply}

/-- A draw is unlike those before it, and nothing else draws. -/
theorem Cmd.Executes.drawn (h : c.Executes hashToken client now s r s') :
    (∃ raw, (⟨c, r⟩ : Σ c : Cmd, c.Reply) = ⟨.random, .ok raw⟩ ∧
      (∀ raw' ∈ s.drawn, ¬ Clash hashToken raw raw') ∧ s'.drawn = raw :: s.drawn) ∨
    s'.drawn = s.drawn ∧ ∀ raw, (⟨c, r⟩ : Σ c : Cmd, c.Reply) ≠ ⟨.random, .ok raw⟩ := by
  rcases h with ⟨hstatement, -, rfl⟩ | h
  · refine .inr ⟨rfl, fun raw heq => ?_⟩
    cases heq
    cases hstatement
  · cases c with
    | random =>
        obtain ⟨raw, rfl, -, hfresh, rfl⟩ := h
        exact .inl ⟨raw, rfl, hfresh, rfl⟩
    | _ =>
        refine .inr ⟨?_, fun raw heq => by cases heq⟩
        simp only [Cmd.Does] at h
        grind

/-- A login is stored, or taken, or at most dropped. -/
theorem Cmd.Executes.logins (h : c.Executes hashToken client now s r s') :
    (∃ state login, began now ⟨c, r⟩ = some (state, login) ∧ took ⟨c, r⟩ = none ∧
      s'.db.logins = AList.insert state login s.db.logins) ∨
    (∃ state login, began now ⟨c, r⟩ = none ∧ took ⟨c, r⟩ = some (state, login.taken now) ∧
      s.db.logins.lookup state = some login ∧ s'.db.logins = s.db.logins.erase state) ∨
    (∀ state login, s'.db.logins.lookup state = some login →
      s.db.logins.lookup state = some login) ∧ began now ⟨c, r⟩ = none ∧ took ⟨c, r⟩ = none := by
  rcases h with ⟨-, ⟨message, rfl⟩, rfl⟩ | h
  · exact .inr (.inr ⟨fun _ _ h => h, by cases c <;> rfl, by cases c <;> rfl⟩)
  · cases c with
    | insertLogin state uri cliState wants =>
        obtain ⟨rfl, -, rfl⟩ := h
        exact .inl ⟨state, ⟨uri, cliState, now, wants⟩, rfl, rfl, rfl⟩
    | takeLogin state =>
        obtain ⟨rfl, rfl⟩ := h
        cases hlogin : s.db.logins.lookup state with
        | some login => exact .inr (.inl ⟨state, login, rfl, rfl, hlogin, rfl⟩)
        | none =>
            refine .inr (.inr ⟨fun state' login hlogin' => ?_, rfl, rfl⟩)
            by_cases hstate : state' = state
            · subst hstate
              rw [AList.lookup_erase] at hlogin'
              cases hlogin'
            · rwa [AList.lookup_erase_ne hstate] at hlogin'
    | pruneLogins =>
        obtain ⟨rfl, rfl⟩ := h
        refine .inr (.inr ⟨fun state login hlogin => ?_, rfl, rfl⟩)
        rw [Table.lookup_filterRows, Option.filter_eq_some_iff] at hlogin
        exact hlogin.1
    | _ =>
        refine .inr (.inr ⟨?_, rfl, rfl⟩)
        have hsame : s'.db.logins = s.db.logins := by
          simp only [Cmd.Does] at h
          grind
        rw [hsame]
        exact fun _ _ h => h

/-- A code is stored, or redeemed with its state in time, or at most dropped. -/
theorem Cmd.Executes.codes (h : c.Executes hashToken client now s r s') :
    (∃ codeHash code, minted now ⟨c, r⟩ = some (codeHash, code) ∧ redeemed ⟨c, r⟩ = none ∧
      s'.db.codes = AList.insert codeHash code s.db.codes) ∨
    (∃ codeHash code, minted now ⟨c, r⟩ = none ∧
      redeemed ⟨c, r⟩ = some (codeHash, code.cliState, code.userId) ∧ now < code.expiresAt ∧
      s.db.codes.lookup codeHash = some code ∧ s'.db.codes = s.db.codes.erase codeHash) ∨
    (∀ codeHash code, s'.db.codes.lookup codeHash = some code →
      s.db.codes.lookup codeHash = some code) ∧ minted now ⟨c, r⟩ = none ∧
      redeemed ⟨c, r⟩ = none := by
  rcases h with ⟨-, ⟨message, rfl⟩, rfl⟩ | h
  · exact .inr (.inr ⟨fun _ _ h => h, by cases c <;> rfl, by cases c <;> rfl⟩)
  · cases c with
    | insertCode codeHash userId cliState =>
        obtain ⟨rfl, -, rfl⟩ := h
        exact .inl ⟨codeHash, ⟨userId, cliState, now + codeTtl⟩, rfl, rfl, rfl⟩
    | takeCode codeHash cliState =>
        simp only [Cmd.Does] at h
        split at h
        · next code hcode =>
            split at h
            · next hlive =>
                obtain ⟨hstate, hnow⟩ := hlive
                obtain ⟨rfl, rfl⟩ := h
                subst hstate
                exact .inr (.inl ⟨codeHash, code, rfl, rfl, hnow, hcode, rfl⟩)
            · obtain ⟨rfl, rfl⟩ := h
              exact .inr (.inr ⟨fun _ _ h => h, rfl, rfl⟩)
        · obtain ⟨rfl, rfl⟩ := h
          exact .inr (.inr ⟨fun _ _ h => h, rfl, rfl⟩)
    | pruneCodes =>
        obtain ⟨rfl, rfl⟩ := h
        refine .inr (.inr ⟨fun codeHash code hcode => ?_, rfl, rfl⟩)
        rw [Table.lookup_filterRows, Option.filter_eq_some_iff] at hcode
        exact hcode.1
    | _ =>
        refine .inr (.inr ⟨?_, rfl, rfl⟩)
        have hsame : s'.db.codes = s.db.codes := by
          simp only [Cmd.Does] at h
          grind
        rw [hsame]
        exact fun _ _ h => h

/-- The users and the ends of the live sessions. -/
def State.liveSessions (s : State) (tokenHash : Hash) : Option (Ident × Int) :=
  (s.db.sessions.lookup tokenHash).map fun session => (session.userId, session.expiresAt)

/-- A session is stored, or deleted, or found in time; nothing else changes whose it is. -/
theorem Cmd.Executes.sessions (h : c.Executes hashToken client now s r s') :
    (∃ tokenHash session, issued now ⟨c, r⟩ = some (tokenHash, session) ∧
      deleted ⟨c, r⟩ = none ∧ authenticated ⟨c, r⟩ = none ∧
      s'.liveSessions = Function.update s.liveSessions tokenHash (some session)) ∨
    (∃ tokenHash, issued now ⟨c, r⟩ = none ∧ deleted ⟨c, r⟩ = some tokenHash ∧
      authenticated ⟨c, r⟩ = none ∧
      s'.liveSessions = Function.update s.liveSessions tokenHash none) ∨
    s'.liveSessions = s.liveSessions ∧ issued now ⟨c, r⟩ = none ∧ deleted ⟨c, r⟩ = none ∧
      ∀ tokenHash userId, authenticated ⟨c, r⟩ = some (tokenHash, userId) →
        ∃ expiresAt, s.liveSessions tokenHash = some (userId, expiresAt) ∧ now < expiresAt := by
  rcases h with ⟨-, ⟨message, rfl⟩, rfl⟩ | h
  · refine .inr (.inr ⟨rfl, by cases c <;> rfl, by cases c <;> rfl, fun tokenHash userId hfound => ?_⟩)
    cases c <;> cases hfound
  · cases c with
    | insertSession tokenHash userId legacy =>
        obtain ⟨rfl, -, rfl⟩ := h
        refine .inl ⟨tokenHash, (userId, now + sessionTtl), rfl, rfl, rfl, funext fun k => ?_⟩
        simp only [State.liveSessions, Table.lookup_insert, Function.update_apply]
        split <;> rfl
    | deleteSession tokenHash =>
        obtain ⟨rfl, rfl⟩ := h
        refine .inr (.inl ⟨tokenHash, rfl, rfl, rfl, funext fun k => ?_⟩)
        simp only [State.liveSessions, Function.update_apply]
        split
        · next hk => rw [hk, AList.lookup_erase, Option.map_none]
        · next hk => rw [AList.lookup_erase_ne hk]
    | touchSession tokenHash =>
        simp only [Cmd.Does] at h
        split at h
        · next session hsession =>
            split at h
            · next hnow =>
                obtain ⟨rfl, rfl⟩ := h
                refine .inr (.inr ⟨funext fun k => ?_, rfl, rfl, fun tokenHash' userId hfound => ?_⟩)
                · simp only [State.liveSessions, Table.lookup_modify]
                  split
                  · rw [Option.map_map]
                    rfl
                  · rfl
                · cases hfound
                  refine ⟨session.expiresAt, ?_, hnow⟩
                  rw [State.liveSessions, hsession, Option.map_some]
            · obtain ⟨rfl, rfl⟩ := h
              exact .inr (.inr ⟨rfl, rfl, rfl, fun _ _ hfound => by cases hfound⟩)
        · obtain ⟨rfl, rfl⟩ := h
          exact .inr (.inr ⟨rfl, rfl, rfl, fun _ _ hfound => by cases hfound⟩)
    | _ =>
        have hsame : s'.db.sessions = s.db.sessions := by
          simp only [Cmd.Does] at h
          grind
        refine .inr (.inr ⟨?_, rfl, rfl, fun _ _ hfound => by cases hfound⟩)
        unfold State.liveSessions
        rw [hsame]

/-- Users are told apart by their ids. -/
def Db.UniqueIds (db : Db) : Prop :=
  ∀ k k' u u', db.users.lookup k = some u → db.users.lookup k' = some u' → u.id = u'.id → k = k'

/-- The users of an identity keep their ids, which tell them apart. -/
structure UsersStay (s s' : State) : Prop where
  unique : s.db.UniqueIds → s'.db.UniqueIds
  ids : ∀ k u, s.db.users.lookup k = some u → ∃ u', s'.db.users.lookup k = some u' ∧ u'.id = u.id

theorem usersStay_of_eq (h : s'.db.users = s.db.users) : UsersStay s s' where
  unique hs := by
    rw [Db.UniqueIds, h]
    exact hs
  ids k u hu := ⟨u, h ▸ hu, rfl⟩

/-- A known user keeps its id. -/
theorem usersStay_modify {key : String × String} {email : Option String}
    (h : s'.db.users = s.db.users.modify key fun u => { u with email := email <|> u.email }) :
    UsersStay s s' := by
  have hlookup : ∀ k, (s'.db.users.lookup k).map User.id = (s.db.users.lookup k).map User.id := by
    intro k
    rw [h, Table.lookup_modify]
    split
    · rw [Option.map_map]
      rfl
    · rfl
  refine ⟨fun hs k k' u u' hu hu' heq => ?_, fun k u hu => ?_⟩
  · have hk := hlookup k
    have hk' := hlookup k'
    rw [hu, Option.map_some, eq_comm, Option.map_eq_some_iff] at hk
    rw [hu', Option.map_some, eq_comm, Option.map_eq_some_iff] at hk'
    obtain ⟨v, hv, hid⟩ := hk
    obtain ⟨v', hv', hid'⟩ := hk'
    exact hs k k' v v' hv hv' (hid.trans (heq.trans hid'.symm))
  · have hk := hlookup k
    rwa [hu, Option.map_some, Option.map_eq_some_iff] at hk

/-- A new user has a new id. -/
theorem usersStay_insert {key : String × String} {user : User}
    (hnone : s.db.users.lookup key = none)
    (hnew : ∀ k u, s.db.users.lookup k = some u → u.id ≠ user.id)
    (h : s'.db.users = AList.insert key user s.db.users) : UsersStay s s' := by
  refine ⟨fun hs k k' u u' hu hu' heq => ?_, fun k u hu => ⟨u, ?_, rfl⟩⟩
  · rw [h, Table.lookup_insert] at hu hu'
    split at hu <;> split at hu'
    · next hk hk' => exact hk.trans hk'.symm
    · next hk hk' =>
        cases hu
        exact absurd heq.symm (hnew k' u' hu')
    · next hk hk' =>
        cases hu'
        exact absurd heq (hnew k u hu)
    · exact hs k k' u u' hu hu' heq
  · rw [h, Table.lookup_insert, if_neg]
    · exact hu
    · rintro rfl
      rw [hnone] at hu
      cases hu

theorem Cmd.Executes.usersStay (h : c.Executes hashToken client now s r s') : UsersStay s s' := by
  rcases h with ⟨-, -, rfl⟩ | h
  · exact usersStay_of_eq rfl
  · cases c with
    | upsertUser id identity =>
        simp only [Cmd.Does] at h
        split at h
        · obtain ⟨-, rfl⟩ := h
          exact usersStay_modify rfl
        · next hnone =>
            obtain ⟨-, hnew, rfl⟩ := h
            exact usersStay_insert hnone hnew rfl
    | _ =>
        refine usersStay_of_eq ?_
        simp only [Cmd.Does] at h
        grind

/-- The user of an identity is the one that is stored for it. -/
theorem Cmd.Executes.upserted {id userId : Ident} {identity : Identity}
    (h : (Cmd.upsertUser id identity).Executes hashToken client now s (.ok userId) s') :
    ∃ u, s'.db.users.lookup identity.key = some u ∧ u.id = userId := by
  rcases h with ⟨-, ⟨message, hr⟩, -⟩ | h
  · cases hr
  · simp only [Cmd.Does] at h
    split at h
    · next u hu =>
        obtain ⟨hr, rfl⟩ := h
        cases hr
        exact ⟨_, (Table.lookup_modify_self ..).trans (congrArg _ hu), rfl⟩
    · obtain ⟨hr, -, rfl⟩ := h
      cases hr
      exact ⟨_, AList.lookup_insert _, rfl⟩

end Tables

/-! ### Runs -/

section Runs

variable {ι : Type*} [DecidableEq ι] {env : Env} {app : AppState} {s₀ s : State} {t₀ now : Int}
  {log : List (Event ι Cmd.Reply Op)}

/-- The runs of the endpoints. -/
abbrev LoginRun (env : Env) (app : AppState) (s₀ : State) (t₀ : Int)
    (log : List (Event ι Cmd.Reply Op)) (now : Int) (s : State) : Prop :=
  (service env app).Run (Issues env app) s₀ t₀ log now s

theorem mem_drawn (h : LoginRun env app s₀ t₀ log now s) {i : ι} {raw : List UInt8}
    (hraw : Drawn (own log i) raw) : raw ∈ s.drawn := by
  induction h with
  | nil => cases hraw
  | @cons log _ _ e _ hrun _ _ _ hdoes ih =>
      by_cases hi : e.who = i
      · subst hi
        rw [Drawn, own_cons_self] at hraw
        rcases List.mem_cons.1 hraw with heq | hraw <;>
          rcases Cmd.Executes.drawn hdoes with ⟨raw', heq', -, hdrawn⟩ | ⟨hdrawn, hne⟩
        · cases heq.trans heq'
          rw [hdrawn]
          exact List.mem_cons_self
        · exact absurd heq.symm (hne raw)
        · rw [hdrawn]
          exact List.mem_cons_of_mem _ (ih hraw)
        · rw [hdrawn]
          exact ih hraw
      · rw [Drawn, own_cons_of_ne hi] at hraw
        rcases Cmd.Executes.drawn hdoes with ⟨_, _, _, hdrawn⟩ | ⟨hdrawn, _⟩
        · rw [hdrawn]
          exact List.mem_cons_of_mem _ (ih hraw)
        · rw [hdrawn]
          exact ih hraw

/-- Draws that clash are draws of one request. -/
theorem eq_of_clash (h : LoginRun env app s₀ t₀ log now s) {i j : ι} {raw raw' : List UInt8}
    (hraw : Drawn (own log i) raw) (hraw' : Drawn (own log j) raw')
    (hclash : Clash env.hashToken raw raw') : i = j := by
  induction h with
  | nil => cases hraw
  | @cons log _ _ e _ hrun _ _ _ hdoes ih =>
      -- the new draw is the one or the other, or none of them
      have hnew : ∀ {k k' raw raw'}, Drawn (own (e :: log) k) raw → ¬ Drawn (own log k) raw →
          Drawn (own log k') raw' → ¬ Clash env.hashToken raw raw' := by
        intro k k' raw raw' hk hk' hold
        obtain ⟨e', he', rfl, heq⟩ := mem_own.1 hk
        rcases List.mem_cons.1 he' with rfl | he'
        · rcases Cmd.Executes.drawn hdoes with ⟨raw₁, heq', hfresh, -⟩ | ⟨-, hne⟩
          · cases heq.symm.trans heq'
            exact hfresh raw' (mem_drawn hrun hold)
          · exact absurd heq (hne raw)
        · exact absurd (mem_own.2 ⟨e', he', rfl, heq⟩) hk'
      have hwho : ∀ {k raw}, Drawn (own (e :: log) k) raw → ¬ Drawn (own log k) raw →
          k = e.who := by
        intro k raw hk hk'
        by_contra hne
        rw [Drawn, own_cons_of_ne fun h => hne h.symm] at hk
        exact hk' hk
      by_cases hi : Drawn (own log i) raw <;> by_cases hj : Drawn (own log j) raw'
      · exact ih hi hj
      · exact absurd hclash.symm (hnew hraw' hj hi)
      · exact absurd hclash (hnew hraw hi hj)
      · exact (hwho hraw hi).trans (hwho hraw' hj).symm

/-- A secret that is stored was drawn for it, so its key is new. -/
theorem notMem_keys {K W : Type*} {enter : Int → (Σ c : Cmd, c.Reply) → Option (K × W)}
    {live : State → K → Option W} (key : List UInt8 → K)
    (hkey : ∀ {raw raw'}, key raw = key raw' → Clash env.hashToken raw raw')
    (henter : ∀ {op l c t k v} {r : Cmd.Reply c}, Issues env app op l c →
      enter t ⟨c, r⟩ = some (k, v) →
      (∃ raw, Drawn l raw ∧ k = key raw) ∧ ∀ x ∈ l, ∀ t, enter t x = none)
    (h : LoginRun env app s₀ t₀ log now s) {e : Event ι Cmd.Reply Op}
    (hissued : Issues env app e.op (own log e.who) e.cmd) {k : K} {v : W}
    (hk : enter e.time ⟨e.cmd, e.reply⟩ = some (k, v)) :
    k ∉ (Service.Book.mk (fun e : Event ι Cmd.Reply Op => enter e.time ⟨e.cmd, e.reply⟩)
      live).keys log := by
  intro hmem
  obtain ⟨e', he', v', hk'⟩ := Service.Book.mem_keys.1 hmem
  obtain ⟨⟨raw, hraw, rfl⟩, hnone⟩ := henter hissued hk
  obtain ⟨l, hl, hissued'⟩ := h.issued he'
  obtain ⟨⟨raw', hraw', heq⟩, -⟩ := henter hissued' hk'
  have hwho : e.who = e'.who := eq_of_clash h hraw (hl _ hraw') (hkey heq)
  have hown := mem_own_of_mem he'
  rw [← hwho] at hown
  have habsurd := hnone _ hown e'.time
  dsimp only at hk'
  rw [hk'] at habsurd
  cases habsurd

/-! ### The three books -/

/-- The logins in flight. -/
def loginBook (ι : Type*) : Service.Book ι Cmd.Reply State Op String Login where
  enters e := began e.time ⟨e.cmd, e.reply⟩
  live s state := s.db.logins.lookup state

/-- The login codes. -/
def codeBook (ι : Type*) : Service.Book ι Cmd.Reply State Op Hash LoginCode where
  enters e := minted e.time ⟨e.cmd, e.reply⟩
  live s codeHash := s.db.codes.lookup codeHash

/-- The sessions. -/
def sessionBook (ι : Type*) : Service.Book ι Cmd.Reply State Op Hash (Ident × Int) where
  enters e := issued e.time ⟨e.cmd, e.reply⟩
  live := State.liveSessions

/-- Before any request: no logins, codes and sessions. -/
structure State.Initial (s : State) : Prop where
  logins : ∀ state, s.db.logins.lookup state = none
  codes : ∀ codeHash, s.db.codes.lookup codeHash = none
  sessions : ∀ tokenHash, s.db.sessions.lookup tokenHash = none
  users : s.db.UniqueIds

theorem loginBook_kept (hs₀ : s₀.Initial) :
    (loginBook ι).Kept (service env app) (Issues env app) s₀ t₀ where
  empty := hs₀.logins
  steps {log now s e s'} hrun hissued hdoes := by
    rcases Cmd.Executes.logins hdoes with ⟨state, login, hbegan, -, hlogins⟩ |
      ⟨state, login, hbegan, -, -, hlogins⟩ | ⟨hkeep, hbegan, -⟩
    · refine .inl ⟨state, login, hbegan, ?_, fun state' login' hlogin' => ?_⟩
      · refine notMem_keys randomState .inl ?_ hrun hissued hbegan
        intro op l c t k v r hissues hk
        cases c <;> try cases hk
        cases r with
        | error _ => cases hk
        | ok _ =>
            cases hk
            refine ⟨hissues.1, fun x hx t' => ?_⟩
            obtain ⟨c', r'⟩ := x
            cases c' <;> try rfl
            exact absurd hx (hissues.2.1 _ _ _ _ _)
      · change s'.db.logins.lookup state' = some login' at hlogin'
        rw [hlogins, Table.lookup_insert] at hlogin'
        split at hlogin'
        · next heq =>
            cases hlogin'
            exact .inl (heq ▸ rfl)
        · exact .inr hlogin'
    · refine .inr ⟨hbegan, fun state' login' hlogin' => ?_⟩
      change s'.db.logins.lookup state' = some login' at hlogin'
      rw [hlogins] at hlogin'
      by_cases heq : state' = state
      · subst heq
        rw [AList.lookup_erase] at hlogin'
        cases hlogin'
      · rwa [AList.lookup_erase_ne heq] at hlogin'
    · exact .inr ⟨hbegan, hkeep⟩

theorem codeBook_kept (hs₀ : s₀.Initial) :
    (codeBook ι).Kept (service env app) (Issues env app) s₀ t₀ where
  empty := hs₀.codes
  steps {log now s e s'} hrun hissued hdoes := by
    rcases Cmd.Executes.codes hdoes with ⟨codeHash, code, hminted, -, hcodes⟩ |
      ⟨codeHash, code, hminted, -, -, -, hcodes⟩ | ⟨hkeep, hminted, -⟩
    · refine .inl ⟨codeHash, code, hminted, ?_, fun codeHash' code' hcode' => ?_⟩
      · refine notMem_keys (fun raw => env.hashToken (randomCode raw))
          (fun h => .inr (.inl h)) ?_ hrun hissued hminted
        intro op l c t k v r hissues hk
        cases c <;> try cases hk
        cases r with
        | error _ => cases hk
        | ok _ =>
            cases hk
            refine ⟨hissues.1, fun x hx t' => ?_⟩
            obtain ⟨c', r'⟩ := x
            cases c' <;> try rfl
            exact absurd hx (hissues.2.1 _ _ _ _)
      · change s'.db.codes.lookup codeHash' = some code' at hcode'
        rw [hcodes, Table.lookup_insert] at hcode'
        split at hcode'
        · next heq =>
            cases hcode'
            exact .inl (heq ▸ rfl)
        · exact .inr hcode'
    · refine .inr ⟨hminted, fun codeHash' code' hcode' => ?_⟩
      change s'.db.codes.lookup codeHash' = some code' at hcode'
      rw [hcodes] at hcode'
      by_cases heq : codeHash' = codeHash
      · subst heq
        rw [AList.lookup_erase] at hcode'
        cases hcode'
      · rwa [AList.lookup_erase_ne heq] at hcode'
    · exact .inr ⟨hminted, hkeep⟩

theorem sessionBook_kept (hs₀ : s₀.Initial) :
    (sessionBook ι).Kept (service env app) (Issues env app) s₀ t₀ where
  empty tokenHash := by
    show s₀.liveSessions tokenHash = none
    rw [State.liveSessions, hs₀.sessions, Option.map_none]
  steps {log now s e s'} hrun hissued hdoes := by
    rcases Cmd.Executes.sessions hdoes with ⟨tokenHash, session, hissue, -, -, hsessions⟩ |
      ⟨tokenHash, hissue, -, -, hsessions⟩ | ⟨hsame, hissue, -, -⟩
    · refine .inl ⟨tokenHash, session, hissue, ?_, fun tokenHash' session' hsession' => ?_⟩
      · refine notMem_keys (fun raw => env.hashToken (sessionToken raw))
          (fun h => .inr (.inr h)) ?_ hrun hissued hissue
        intro op l c t k v r hissues hk
        cases c <;> try cases hk
        cases r with
        | error _ => cases hk
        | ok _ =>
            cases hk
            refine ⟨hissues.1, fun x hx t' => ?_⟩
            obtain ⟨c', r'⟩ := x
            cases c' <;> try rfl
            exact absurd hx (hissues.2.1 _ _ _ _)
      · change s'.liveSessions tokenHash' = some session' at hsession'
        rw [hsessions, Function.update_apply] at hsession'
        split at hsession'
        · next heq =>
            cases hsession'
            exact .inl (heq ▸ rfl)
        · exact .inr hsession'
    · refine .inr ⟨hissue, fun tokenHash' session' hsession' => ?_⟩
      change s'.liveSessions tokenHash' = some session' at hsession'
      rw [hsessions, Function.update_apply] at hsession'
      split at hsession'
      · cases hsession'
      · exact hsession'
    · refine .inr ⟨hissue, fun tokenHash' session' hsession' => ?_⟩
      change s'.liveSessions tokenHash' = some session' at hsession'
      rwa [hsame] at hsession'

end Runs

end Auth

end Sotto
