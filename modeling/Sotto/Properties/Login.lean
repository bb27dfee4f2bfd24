import Sotto.Auth.Alone
import Sotto.Auth.Books

/-!
# Logins are single-use and bound

Whatever requests are sent, in any order and side by side, a login state is consumed by one callback
in time, a code yields one session in time and for the login that minted it, a session belongs to
the identity that the provider verified, the redirect of a login that asked for a code or for a
cookie carries no session token, and a session that was revoked or has expired never authenticates
again.
-/

namespace Sotto

namespace Auth

open Core (Ident)
open Prog (Record)

section Protocol

variable {ι : Type*} [DecidableEq ι] {env : Env} {app : AppState} {s₀ s : State} {t₀ now : Int}
  {log : List (Event ι Cmd.Reply Op)}

/-- A command and its reply. -/
def did (e : Event ι Cmd.Reply Op) : Σ c : Cmd, c.Reply := ⟨e.cmd, e.reply⟩

/-- A callback stores a code or a session, or succeeds. -/
def TakesEffect (e : Event ι Cmd.Reply Op) : Prop :=
  (∃ x, minted e.time (did e) = some x) ∨ (∃ x, issued e.time (did e) = some x) ∨
    ∃ response, e.cmd = .respond (.ok response)

/-- A callback has consumed the login of a state, within ten minutes of its creation. -/
def Consumed (log : List (Event ι Cmd.Reply Op)) (who : ι) (state : String) (login : Login) :
    Prop :=
  ∃ e ∈ log, ∃ e₀ ∈ log, e.who = who ∧ took (did e) = some (state, login.taken e.time) ∧
    began e₀.time (did e₀) = some (state, login) ∧ e₀.time = login.createdAt ∧
    e.time < e₀.time + loginFreshness

/-- A callback has verified an identity, which is the one of a user. -/
def Vouches (log : List (Event ι Cmd.Reply Op)) (s : State) (who : ι) (userId : Ident) : Prop :=
  ∃ e ∈ log, ∃ params identity user, e.who = who ∧ e.op.action = .callback params ∧
    (∃ code, did e = ⟨.exchangeCode code, .ok identity⟩) ∧
    s.db.users.lookup identity.key = some user ∧ user.id = userId

/-- Whether a login is handed over in a cookie. -/
def Login.IsWeb (env : Env) (app : AppState) (login : Login) : Prop :=
  ∃ config url, app.oauthConfig = some config ∧ env.parseUrl login.cliRedirectUri = some url ∧
    isWebRedirect env url config.webOrigin = true

/-- The login protocol: what holds of the commands of every run, newest first. -/
structure LoginProtocol (env : Env) (app : AppState) (log : List (Event ι Cmd.Reply Op))
    (s : State) : Prop where
  /-- A login state is consumed once, -/
  consumedOnce : ∀ e ∈ log, ∀ e' ∈ log, ∀ state x x', took (did e) = some (state, x) →
    took (did e') = some (state, x') → e = e'
  /-- and only within ten minutes of its creation. -/
  consumedInTime : ∀ e ∈ log, ∀ params, e.op.action = .callback params → TakesEffect e →
    ∃ login, Consumed log e.who params.state login
  /-- A code is redeemed before it expires, with the state of the login that minted it, -/
  redeemed : ∀ e ∈ log, ∀ codeHash cliState userId,
    redeemed (did e) = some (codeHash, cliState, userId) → ∃ body, e.op.action = .exchange body ∧
      codeHash = env.hashToken body.code ∧ cliState = body.state ∧
      ∃ e₀ ∈ log, ∃ code state login, minted e₀.time (did e₀) = some (codeHash, code) ∧
        code.userId = userId ∧ e.time < e₀.time + codeTtl ∧
        Consumed log e₀.who state login ∧ cliState = login.cliState
  /-- what an exchange issues is for a code that it has redeemed, -/
  exchanged : ∀ e ∈ log, ∀ tokenHash session body, issued e.time (did e) = some (tokenHash, session) →
    e.op.action = .exchange body → ∃ e₁ ∈ log, e₁.who = e.who ∧
      Auth.redeemed (did e₁) = some (env.hashToken body.code, body.state, session.1)
  /-- and that is one session. -/
  exchangedOnce : ∀ e ∈ log, ∀ e' ∈ log, ∀ x x' body body',
    issued e.time (did e) = some x → issued e'.time (did e') = some x' →
    e.op.action = .exchange body → e'.op.action = .exchange body' → body.code = body'.code → e = e'
  /-- A session belongs to the identity that the callback it descends from has verified. -/
  identity : ∀ tokenHash session, s.db.sessions.lookup tokenHash = some session →
    ∃ e ∈ log, issued e.time (did e) = some (tokenHash, session.userId, session.expiresAt) ∧
      ∃ who, Vouches log s who session.userId ∧ (who = e.who ∨
        ∃ e₁ ∈ log, ∃ e₂ ∈ log, ∃ codeHash cliState code, e₁.who = e.who ∧ e₂.who = who ∧
          Auth.redeemed (did e₁) = some (codeHash, cliState, session.userId) ∧
          minted e₂.time (did e₂) = some (codeHash, code))
  /-- No user has two identities. -/
  uniqueIds : s.db.UniqueIds
  /-- A login that asked for a code or is redirected to the web origin has no session token in its
  redirect, where its own state is handed back unchanged. -/
  redirects : ∀ e ∈ log, ∀ params location cookie, e.op.action = .callback params →
    e.cmd = .respond (.ok (.redirect location cookie)) →
    ∃ login, Consumed log e.who params.state login ∧
      (login.wantsCode = true ∨ login.IsWeb env app →
        ∀ pair ∈ location.pairs, (∃ raw, pair.2 = sessionToken raw) →
          pair = ("state", login.cliState))
  /-- A logout revokes the session of its token, -/
  logouts : ∀ e ∈ log, ∀ headers response token, e.op.action = .logout headers →
    e.cmd = .respond (.ok response) → tokenFromHeaders headers = some token →
    ∃ e₁ ∈ log, e₁.who = e.who ∧ deleted (did e₁) = some (env.hashToken token)
  /-- a request is authenticated by a session that is found, -/
  authenticates : ∀ e ∈ log, ∀ headers userId, e.op.action = .me headers →
    e.cmd = .respond (.ok (.me userId)) → ∃ token, tokenFromHeaders headers = some token ∧
      ∃ e₁ ∈ log, e₁.who = e.who ∧
        authenticated (did e₁) = some (env.hashToken token, userId)
  /-- a revoked session is never found again, -/
  revoked : ∀ later e earlier tokenHash, log = later ++ e :: earlier →
    deleted (did e) = some tokenHash → (∃ e₀ ∈ earlier, ∃ session,
      issued e₀.time (did e₀) = some (tokenHash, session)) →
    ∀ e' ∈ later, ∀ userId, authenticated (did e') ≠ some (tokenHash, userId)
  /-- and one that is found was issued for the user and has not expired. -/
  unexpired : ∀ e ∈ log, ∀ tokenHash userId, authenticated (did e) = some (tokenHash, userId) →
    ∃ e₀ ∈ log, issued e₀.time (did e₀) = some (tokenHash, userId, e₀.time + sessionTtl) ∧
      e.time < e₀.time + sessionTtl

/-! ### Consuming logins -/

omit [DecidableEq ι] in
/-- A login is taken while it is live, and then it is gone. -/
theorem login_of_took {e : Event ι Cmd.Reply Op} {s₁ s₂ : State} {state : String} {x : TakenLogin}
    (hdoes : (service env app).does e.op e.cmd e.time s₁ e.reply s₂)
    (htook : took (did e) = some (state, x)) : ∃ login,
      s₁.db.logins.lookup state = some login ∧ x = login.taken e.time ∧
        s₂.db.logins.lookup state = none := by
  change took ⟨e.cmd, e.reply⟩ = _ at htook
  rcases Cmd.Executes.logins hdoes with ⟨_, _, _, hnone, _⟩ | ⟨_, login, _, hsome, hlive, hlogins⟩ |
    ⟨_, _, hnone⟩
  · rw [hnone] at htook
    cases htook
  · rw [hsome] at htook
    cases htook
    exact ⟨login, hlive, rfl, by rw [hlogins, AList.lookup_erase]⟩
  · rw [hnone] at htook
    cases htook

omit [DecidableEq ι] in
theorem createdAt_of_began {e : Event ι Cmd.Reply Op} {state : String} {login : Login}
    (h : began e.time (did e) = some (state, login)) : login.createdAt = e.time := by
  obtain ⟨_, _, t, c, r⟩ := e
  cases c <;> try cases h
  cases r <;> cases h
  rfl

/-- What was taken had begun. -/
theorem began_of_took (hs₀ : s₀.Initial) {later earlier : List (Event ι Cmd.Reply Op)}
    {e : Event ι Cmd.Reply Op} (h : LoginRun env app s₀ t₀ (later ++ e :: earlier) now s)
    {state : String} {x : TakenLogin} (htook : took (did e) = some (state, x)) :
    ∃ e₀ ∈ earlier, ∃ login, began e₀.time (did e₀) = some (state, login) ∧
      x = login.taken e.time := by
  obtain ⟨now₁, s₁, s₂, hrun, -, -, hdoes, -⟩ := h.split
  obtain ⟨login, hlive, rfl, -⟩ := login_of_took hdoes htook
  obtain ⟨e₀, he₀, hbegan⟩ := (loginBook_kept hs₀).entered hrun hlive
  exact ⟨e₀, he₀, login, hbegan, rfl⟩

theorem not_took_later (hs₀ : s₀.Initial) {later earlier : List (Event ι Cmd.Reply Op)}
    {e e' : Event ι Cmd.Reply Op} (h : LoginRun env app s₀ t₀ (later ++ e :: earlier) now s)
    {state : String} {x x' : TakenLogin} (htook : took (did e) = some (state, x))
    (he' : e' ∈ later) : took (did e') ≠ some (state, x') := by
  intro htook'
  obtain ⟨e₀, he₀, login, hbegan, -⟩ := began_of_took hs₀ h htook
  obtain ⟨s₁, s₂, hdoes, hgone⟩ := (loginBook_kept hs₀).gone_later h he'
    (Service.Book.mem_keys.2 ⟨e₀, he₀, login, hbegan⟩) fun now₁ s₁ h₁ => by
      cases h₁ with
      | cons _ _ _ _ hdoes =>
          obtain ⟨_, _, _, hnone⟩ := login_of_took hdoes htook
          exact hnone
  obtain ⟨login', hlive, -⟩ := login_of_took hdoes htook'
  change s₁.db.logins.lookup state = none at hgone
  rw [hlive] at hgone
  cases hgone

/-- Two events of a log are the same, or one is later. -/
theorem eq_or_later {A : Type*} {l : List A} {a b : A} (ha : a ∈ l) (hb : b ∈ l) :
    a = b ∨ (∃ later earlier, l = later ++ a :: earlier ∧ b ∈ later) ∨
      ∃ later earlier, l = later ++ b :: earlier ∧ a ∈ later := by
  obtain ⟨later, earlier, rfl⟩ := List.append_of_mem ha
  rcases List.mem_append.1 hb with hb | hb
  · exact .inr (.inl ⟨later, earlier, rfl, hb⟩)
  · rcases List.mem_cons.1 hb with rfl | hb
    · exact .inl rfl
    · obtain ⟨between, earliest, rfl⟩ := List.append_of_mem hb
      exact .inr (.inr ⟨later ++ a :: between, earliest, by simp, by simp⟩)

theorem took_once (hs₀ : s₀.Initial) (h : LoginRun env app s₀ t₀ log now s)
    {e e' : Event ι Cmd.Reply Op} (he : e ∈ log) (he' : e' ∈ log) {state : String}
    {x x' : TakenLogin} (htook : took (did e) = some (state, x))
    (htook' : took (did e') = some (state, x')) : e = e' := by
  rcases eq_or_later he he' with heq | ⟨later, earlier, rfl, hlater⟩ | ⟨later, earlier, rfl, hlater⟩
  · exact heq
  · exact absurd htook' (not_took_later hs₀ h htook hlater)
  · exact absurd htook (not_took_later hs₀ h htook' hlater)

/-- A login that a callback took fresh is consumed. -/
theorem consumed_of_tookFresh (hs₀ : s₀.Initial) (h : LoginRun env app s₀ t₀ log now s) {who : ι}
    {action : Action} {x : TakenLogin} (htook : TookFresh (own log who) action x) :
    ∃ params login, action = .callback params ∧ Consumed log who params.state login ∧
      x.cliState = login.cliState ∧ x.wantsCode = login.wantsCode ∧
      x.cliRedirectUri = login.cliRedirectUri := by
  obtain ⟨params, haction, hmem, hfresh⟩ := htook
  obtain ⟨e, he, rfl, heq⟩ := mem_own.1 hmem
  have htook : took (did e) = some (params.state, x) := by
    rw [did, heq]
    rfl
  obtain ⟨later, earlier, rfl⟩ := List.append_of_mem he
  obtain ⟨e₀, he₀, login, hbegan, rfl⟩ := began_of_took hs₀ h htook
  have hcreated := createdAt_of_began hbegan
  refine ⟨params, login, haction, ⟨e, he, e₀, ?_, rfl, htook, hbegan, hcreated.symm, ?_⟩, rfl, rfl,
    rfl⟩
  · exact List.mem_append_right _ (List.mem_cons_of_mem _ he₀)
  · have hlt : e.time - loginFreshness < login.createdAt := of_decide_eq_true hfresh
    rw [hcreated] at hlt
    omega

/-! ### Redeeming codes -/

omit [DecidableEq ι] in
/-- A code is redeemed while it is live, and then it is gone. -/
theorem code_of_redeemed {e : Event ι Cmd.Reply Op} {s₁ s₂ : State} {codeHash : Hash}
    {cliState : String} {userId : Ident}
    (hdoes : (service env app).does e.op e.cmd e.time s₁ e.reply s₂)
    (hredeemed : redeemed (did e) = some (codeHash, cliState, userId)) : ∃ code,
      s₁.db.codes.lookup codeHash = some code ∧ code.cliState = cliState ∧ code.userId = userId ∧
        e.time < code.expiresAt ∧ s₂.db.codes.lookup codeHash = none := by
  change redeemed ⟨e.cmd, e.reply⟩ = _ at hredeemed
  rcases Cmd.Executes.codes hdoes with ⟨_, _, _, hnone, _⟩ |
    ⟨_, code, _, hsome, hnow, hlive, hcodes⟩ | ⟨_, _, hnone⟩
  · rw [hnone] at hredeemed
    cases hredeemed
  · rw [hsome] at hredeemed
    cases hredeemed
    exact ⟨code, hlive, rfl, rfl, hnow, by rw [hcodes, AList.lookup_erase]⟩
  · rw [hnone] at hredeemed
    cases hredeemed

/-- What was redeemed had been minted. -/
theorem minted_of_redeemed (hs₀ : s₀.Initial) {later earlier : List (Event ι Cmd.Reply Op)}
    {e : Event ι Cmd.Reply Op} (h : LoginRun env app s₀ t₀ (later ++ e :: earlier) now s)
    {codeHash : Hash} {cliState : String} {userId : Ident}
    (hredeemed : redeemed (did e) = some (codeHash, cliState, userId)) : ∃ e₀ ∈ earlier, ∃ code,
      minted e₀.time (did e₀) = some (codeHash, code) ∧ code.cliState = cliState ∧
        code.userId = userId ∧ e.time < code.expiresAt := by
  obtain ⟨now₁, s₁, s₂, hrun, -, -, hdoes, -⟩ := h.split
  obtain ⟨code, hlive, hstate, huser, hnow, -⟩ := code_of_redeemed hdoes hredeemed
  obtain ⟨e₀, he₀, hminted⟩ := (codeBook_kept hs₀).entered hrun hlive
  exact ⟨e₀, he₀, code, hminted, hstate, huser, hnow⟩

theorem not_redeemed_later (hs₀ : s₀.Initial) {later earlier : List (Event ι Cmd.Reply Op)}
    {e e' : Event ι Cmd.Reply Op} (h : LoginRun env app s₀ t₀ (later ++ e :: earlier) now s)
    {codeHash : Hash} {x x' : String × Ident} (hredeemed : redeemed (did e) = some (codeHash, x))
    (he' : e' ∈ later) : redeemed (did e') ≠ some (codeHash, x') := by
  intro hredeemed'
  obtain ⟨e₀, he₀, code, hminted, -⟩ := minted_of_redeemed hs₀ h hredeemed
  obtain ⟨s₁, s₂, hdoes, hgone⟩ := (codeBook_kept hs₀).gone_later h he'
    (Service.Book.mem_keys.2 ⟨e₀, he₀, code, hminted⟩) fun now₁ s₁ h₁ => by
      cases h₁ with
      | cons _ _ _ _ hdoes =>
          obtain ⟨_, _, _, _, _, hnone⟩ := code_of_redeemed hdoes hredeemed
          exact hnone
  obtain ⟨code', hlive, -⟩ := code_of_redeemed hdoes hredeemed'
  change s₁.db.codes.lookup codeHash = none at hgone
  rw [hlive] at hgone
  cases hgone

theorem redeemed_once (hs₀ : s₀.Initial) (h : LoginRun env app s₀ t₀ log now s)
    {e e' : Event ι Cmd.Reply Op} (he : e ∈ log) (he' : e' ∈ log) {codeHash : Hash}
    {x x' : String × Ident} (hredeemed : redeemed (did e) = some (codeHash, x))
    (hredeemed' : redeemed (did e') = some (codeHash, x')) : e = e' := by
  rcases eq_or_later he he' with heq | ⟨later, earlier, rfl, hlater⟩ | ⟨later, earlier, rfl, hlater⟩
  · exact heq
  · exact absurd hredeemed' (not_redeemed_later hs₀ h hredeemed hlater)
  · exact absurd hredeemed (not_redeemed_later hs₀ h hredeemed' hlater)

/-! ### Issuing sessions -/

theorem TookFresh.mono {l l' : Record Cmd.Reply} {action : Action} {x : TakenLogin}
    (h : TookFresh l action x) (hsub : ∀ y ∈ l, y ∈ l') : TookFresh l' action x := by
  obtain ⟨params, haction, htook, hfresh⟩ := h
  exact ⟨params, haction, hsub _ htook, hfresh⟩

/-- A stored session is for the user that was verified, or that a code was redeemed for. -/
theorem source_of_issued (h : LoginRun env app s₀ t₀ log now s) {e : Event ι Cmd.Reply Op}
    (he : e ∈ log) {tokenHash : Hash} {userId : Ident} {expiresAt : Int}
    (hissued : issued e.time (did e) = some (tokenHash, userId, expiresAt)) :
    expiresAt = e.time + sessionTtl ∧
      ((Verified (own log e.who) userId ∧ ∃ x, TookFresh (own log e.who) e.op.action x) ∨
        RedeemedCode env (own log e.who) e.op.action userId) := by
  obtain ⟨l, hl, hissues⟩ := h.issued he
  obtain ⟨who, op, t, c, r⟩ := e
  cases c <;> try cases hissued
  cases r <;> cases hissued
  obtain ⟨-, -, ⟨⟨code, identity, id, hcode, hupsert⟩, x, htook⟩ | ⟨body, haction, hcode⟩⟩ := hissues
  · exact ⟨rfl, .inl ⟨⟨code, identity, id, hl _ hcode, hl _ hupsert⟩, x, htook.mono hl⟩⟩
  · exact ⟨rfl, .inr ⟨body, haction, hl _ hcode⟩⟩

/-- A stored code is for the user that was verified, and for the login that was taken. -/
theorem source_of_minted (h : LoginRun env app s₀ t₀ log now s) {e : Event ι Cmd.Reply Op}
    (he : e ∈ log) {codeHash : Hash} {code : LoginCode}
    (hminted : minted e.time (did e) = some (codeHash, code)) :
    code.expiresAt = e.time + codeTtl ∧ Verified (own log e.who) code.userId ∧
      ∃ x, TookFresh (own log e.who) e.op.action x ∧ x.cliState = code.cliState := by
  obtain ⟨l, hl, hissues⟩ := h.issued he
  obtain ⟨who, op, t, c, r⟩ := e
  cases c <;> try cases hminted
  cases r <;> cases hminted
  obtain ⟨-, -, ⟨code, identity, id, hcode, hupsert⟩, x, htook, hstate⟩ := hissues
  exact ⟨rfl, ⟨code, identity, id, hl _ hcode, hl _ hupsert⟩, x, htook.mono hl, hstate⟩

theorem not_issued_later {later earlier : List (Event ι Cmd.Reply Op)} {e e' : Event ι Cmd.Reply Op}
    (h : LoginRun env app s₀ t₀ (later ++ e :: earlier) now s) {x x' : Hash × Ident × Int}
    (hissued : issued e.time (did e) = some x) (he' : e' ∈ later) (hwho : e.who = e'.who) :
    issued e'.time (did e') ≠ some x' := by
  intro hissued'
  obtain ⟨later', between, rfl⟩ := List.append_of_mem he'
  rw [List.append_assoc, List.cons_append] at h
  obtain ⟨-, -, -, -, hissues, -⟩ := h.split
  have hmem : did e ∈ own (between ++ e :: earlier) e'.who :=
    hwho ▸ mem_own_of_mem (List.mem_append_right _ List.mem_cons_self)
  obtain ⟨who, op, t, c, r⟩ := e
  obtain ⟨who', op', t', c', r'⟩ := e'
  cases c' <;> try cases hissued'
  cases c <;> try cases hissued
  exact hissues.2.1 _ _ _ _ hmem

/-- A request stores one session. -/
theorem issued_once (h : LoginRun env app s₀ t₀ log now s) {e e' : Event ι Cmd.Reply Op}
    (he : e ∈ log) (he' : e' ∈ log) (hwho : e.who = e'.who) {x x' : Hash × Ident × Int}
    (hissued : issued e.time (did e) = some x) (hissued' : issued e'.time (did e') = some x') :
    e = e' := by
  rcases eq_or_later he he' with heq | ⟨later, earlier, rfl, hlater⟩ | ⟨later, earlier, rfl, hlater⟩
  · exact heq
  · exact absurd hissued' (not_issued_later h hissued hlater hwho)
  · exact absurd hissued (not_issued_later h hissued' hlater hwho.symm)

/-- A code that a request has redeemed, in the log. -/
theorem mem_of_redeemedCode {who : ι} {body : ExchangeRequest} {userId : Ident}
    (hcode : RedeemedCode env (own log who) (.exchange body) userId) : ∃ e ∈ log, e.who = who ∧
      redeemed (did e) = some (env.hashToken body.code, body.state, userId) := by
  obtain ⟨body', haction, hmem⟩ := hcode
  cases haction
  obtain ⟨e, he, hwho, heq⟩ := mem_own.1 hmem
  refine ⟨e, he, hwho, ?_⟩
  rw [did, heq]
  rfl

/-! ### Identities -/

/-- The user of a verified identity stays the same. -/
theorem user_of_upserted (h : LoginRun env app s₀ t₀ log now s) {e : Event ι Cmd.Reply Op}
    (he : e ∈ log) {id userId : Ident} {identity : Identity}
    (hupsert : did e = ⟨.upsertUser id identity, .ok userId⟩) :
    ∃ u, s.db.users.lookup identity.key = some u ∧ u.id = userId := by
  induction h with
  | nil => cases he
  | @cons log _ _ e' _ hrun _ _ _ hdoes ih =>
      rcases List.mem_cons.1 he with rfl | he
      · obtain ⟨who, op, t, c, r⟩ := e
        cases hupsert
        exact Cmd.Executes.upserted hdoes
      · obtain ⟨u, hu, hid⟩ := ih he
        obtain ⟨u', hu', hid'⟩ := (Cmd.Executes.usersStay hdoes).ids _ u hu
        exact ⟨u', hu', hid'.trans hid⟩

theorem uniqueIds_of_run (hs₀ : s₀.Initial) (h : LoginRun env app s₀ t₀ log now s) :
    s.db.UniqueIds := by
  induction h with
  | nil => exact hs₀.users
  | cons _ _ _ _ hdoes ih => exact (Cmd.Executes.usersStay hdoes).unique ih

/-- A callback that has verified a user vouches for it. -/
theorem vouches_of_verified (h : LoginRun env app s₀ t₀ log now s) {e : Event ι Cmd.Reply Op}
    (he : e ∈ log) {userId : Ident} {x : TakenLogin} (hverified : Verified (own log e.who) userId)
    (htook : TookFresh (own log e.who) e.op.action x) : Vouches log s e.who userId := by
  obtain ⟨code, identity, id, hcode, hupsert⟩ := hverified
  obtain ⟨params, haction, -⟩ := htook
  obtain ⟨e₁, he₁, hwho₁, heq₁⟩ := mem_own.1 hcode
  obtain ⟨e₂, he₂, hwho₂, heq₂⟩ := mem_own.1 hupsert
  obtain ⟨user, huser, hid⟩ := user_of_upserted h he₂ heq₂
  refine ⟨e₁, he₁, params, identity, user, hwho₁, ?_, ⟨code, heq₁⟩, huser, hid⟩
  rw [h.op_eq he₁ he hwho₁]
  exact haction

/-! ### Authenticating -/

omit [DecidableEq ι] in
/-- A session that is found is live, and has not expired. -/
theorem session_of_authenticated {e : Event ι Cmd.Reply Op} {s₁ s₂ : State} {tokenHash : Hash}
    {userId : Ident} (hdoes : (service env app).does e.op e.cmd e.time s₁ e.reply s₂)
    (hfound : authenticated (did e) = some (tokenHash, userId)) : ∃ expiresAt,
      s₁.liveSessions tokenHash = some (userId, expiresAt) ∧ e.time < expiresAt := by
  change authenticated ⟨e.cmd, e.reply⟩ = _ at hfound
  rcases Cmd.Executes.sessions hdoes with ⟨_, _, _, _, hnone, _⟩ | ⟨_, _, _, hnone, _⟩ |
    ⟨_, _, _, hlive⟩
  · rw [hnone] at hfound
    cases hfound
  · rw [hnone] at hfound
    cases hfound
  · exact hlive tokenHash userId hfound

omit [DecidableEq ι] in
theorem gone_of_deleted {e : Event ι Cmd.Reply Op} {s₁ s₂ : State} {tokenHash : Hash}
    (hdoes : (service env app).does e.op e.cmd e.time s₁ e.reply s₂)
    (hdeleted : deleted (did e) = some tokenHash) : s₂.liveSessions tokenHash = none := by
  change deleted ⟨e.cmd, e.reply⟩ = _ at hdeleted
  rcases Cmd.Executes.sessions hdoes with ⟨_, _, _, hnone, _⟩ | ⟨_, _, hsome, _, hsessions⟩ |
    ⟨_, _, hnone, _⟩
  · rw [hnone] at hdeleted
    cases hdeleted
  · rw [hsome] at hdeleted
    cases hdeleted
    rw [hsessions, Function.update_self]
  · rw [hnone] at hdeleted
    cases hdeleted

/-- A session that was deleted is never found again. -/
theorem not_authenticated_later (hs₀ : s₀.Initial) {later earlier : List (Event ι Cmd.Reply Op)}
    {e e₀ e' : Event ι Cmd.Reply Op} (h : LoginRun env app s₀ t₀ (later ++ e :: earlier) now s)
    {tokenHash : Hash} (hdeleted : deleted (did e) = some tokenHash) (he₀ : e₀ ∈ earlier)
    {session : Ident × Int} (hissued : issued e₀.time (did e₀) = some (tokenHash, session))
    (he' : e' ∈ later) (userId : Ident) : authenticated (did e') ≠ some (tokenHash, userId) := by
  intro hfound
  obtain ⟨s₁, s₂, hdoes, hgone⟩ := (sessionBook_kept hs₀).gone_later h he'
    (Service.Book.mem_keys.2 ⟨e₀, he₀, session, hissued⟩) fun now₁ s₁ h₁ => by
      cases h₁ with
      | cons _ _ _ _ hdoes => exact gone_of_deleted hdoes hdeleted
  obtain ⟨expiresAt, hlive, -⟩ := session_of_authenticated hdoes hfound
  change s₁.liveSessions tokenHash = none at hgone
  rw [hlive] at hgone
  cases hgone

/-! ### The protocol -/

/-- What a callback hands over, where no token is asked for, carries none. -/
theorem pairs_of_handsOver {l : Record Cmd.Reply} {x : TakenLogin} {location : Location}
    {cookie : Option String} (hover : HandsOver env app l x (.redirect location cookie))
    (hx : x.wantsCode = true ∨ ∃ config url, app.oauthConfig = some config ∧
      env.parseUrl x.cliRedirectUri = some url ∧ isWebRedirect env url config.webOrigin = true)
    {pair : String × String} (hpair : pair ∈ location.pairs)
    (htoken : ∃ raw, pair.2 = sessionToken raw) : pair = ("state", x.cliState) := by
  obtain ⟨raw, hraw⟩ := htoken
  cases hover with
  | cookie => exact List.mem_singleton.1 hpair
  | @code config url userId raw' hconfig hurl hweb hwants hmem =>
      rcases List.mem_cons.1 hpair with rfl | hpair
      · exact absurd hraw (randomCode_ne_sessionToken raw' raw)
      · exact List.mem_singleton.1 hpair
  | @token config url userId raw' hconfig hurl hweb hwants hmem =>
      rcases hx with hx | ⟨config', url', hconfig', hurl', hweb'⟩
      · rw [hx] at hwants
        cases hwants
      · rw [hconfig] at hconfig'
        rw [hurl] at hurl'
        cases hconfig'
        cases hurl'
        rw [hweb] at hweb'
        cases hweb'

theorem consumed_of_takesEffect (hs₀ : s₀.Initial) (h : LoginRun env app s₀ t₀ log now s)
    {e : Event ι Cmd.Reply Op} (he : e ∈ log) {params : CallbackParams}
    (haction : e.op.action = .callback params) (heffect : TakesEffect e) :
    ∃ login, Consumed log e.who params.state login := by
  have htook : ∃ x, TookFresh (own log e.who) e.op.action x := by
    rcases heffect with ⟨⟨codeHash, code⟩, hminted⟩ | ⟨⟨tokenHash, userId, _⟩, hissued⟩ |
      ⟨response, hrespond⟩
    · obtain ⟨-, -, x, htook, -⟩ := source_of_minted h he hminted
      exact ⟨x, htook⟩
    · rcases (source_of_issued h he hissued).2 with ⟨-, htook⟩ | ⟨body, haction', -⟩
      · exact htook
      · rw [haction] at haction'
        cases haction'
    · obtain ⟨l, hl, hissues⟩ := h.issued he
      rw [hrespond] at hissues
      change Answers env app e.op.action l response at hissues
      rw [haction] at hissues ⊢
      obtain ⟨x, htook, -⟩ := hissues
      exact ⟨x, htook.mono hl⟩
  obtain ⟨x, htook⟩ := htook
  obtain ⟨params', login, haction', hconsumed, -⟩ := consumed_of_tookFresh hs₀ h htook
  rw [haction] at haction'
  cases haction'
  exact ⟨login, hconsumed⟩

theorem loginProtocol_of_run (hs₀ : s₀.Initial) (h : LoginRun env app s₀ t₀ log now s) :
    LoginProtocol env app log s where
  consumedOnce e he e' he' state x x' htook htook' := took_once hs₀ h he he' htook htook'
  consumedInTime e he params haction heffect := consumed_of_takesEffect hs₀ h he haction heffect
  redeemed e he codeHash cliState userId hredeemed := by
    obtain ⟨l, -, hissues⟩ := h.issued he
    have hbody : ∃ body, e.op.action = .exchange body ∧ codeHash = env.hashToken body.code ∧
        cliState = body.state := by
      obtain ⟨who, op, t, c, r⟩ := e
      cases c <;> try cases hredeemed
      rcases r with _ | _ | _ <;> cases hredeemed
      exact hissues
    obtain ⟨body, haction, hhash, hstate⟩ := hbody
    obtain ⟨later, earlier, hlog⟩ := List.append_of_mem he
    obtain ⟨e₀, he₀, code, hminted, hcode, huser, hnow⟩ :=
      minted_of_redeemed hs₀ (hlog ▸ h) hredeemed
    have hmem : e₀ ∈ log := by
      rw [hlog]
      exact List.mem_append_right _ (List.mem_cons_of_mem _ he₀)
    obtain ⟨hexpires, -, x, htook, hx⟩ := source_of_minted h hmem hminted
    obtain ⟨params, login, -, hconsumed, hlogin, -⟩ := consumed_of_tookFresh hs₀ h htook
    rw [hexpires] at hnow
    exact ⟨body, haction, hhash, hstate, e₀, hmem, code, params.state, login, hminted, huser, hnow,
      hconsumed, by rw [← hcode, ← hx, hlogin]⟩
  exchanged e he tokenHash session body hissued haction := by
    rcases (source_of_issued h he hissued).2 with ⟨-, x, params, haction', -⟩ | hcode
    · rw [haction] at haction'
      cases haction'
    · rw [haction] at hcode
      exact mem_of_redeemedCode hcode
  exchangedOnce e he e' he' x x' body body' hissued hissued' haction haction' hcode := by
    have hredeemed : ∀ {e₁ : Event ι Cmd.Reply Op} {x₁ body₁}, e₁ ∈ log →
        issued e₁.time (did e₁) = some x₁ → e₁.op.action = .exchange body₁ →
        ∃ e₂ ∈ log, e₂.who = e₁.who ∧
          ∃ y, Auth.redeemed (did e₂) = some (env.hashToken body₁.code, y) := by
      intro e₁ x₁ body₁ he₁ hissued₁ haction₁
      rcases (source_of_issued h he₁ hissued₁).2 with ⟨-, x, params, haction', -⟩ | hcode
      · rw [haction₁] at haction'
        cases haction'
      · rw [haction₁] at hcode
        obtain ⟨e₂, he₂, hwho, hredeemed⟩ := mem_of_redeemedCode hcode
        exact ⟨e₂, he₂, hwho, _, hredeemed⟩
    obtain ⟨e₁, he₁, hwho₁, _, hredeemed₁⟩ := hredeemed he hissued haction
    obtain ⟨e₂, he₂, hwho₂, _, hredeemed₂⟩ := hredeemed he' hissued' haction'
    rw [← hcode] at hredeemed₂
    have heq := redeemed_once hs₀ h he₁ he₂ hredeemed₁ hredeemed₂
    subst heq
    exact issued_once h he he' (hwho₁.symm.trans hwho₂) hissued hissued'
  identity tokenHash session hsession := by
    have hlive : s.liveSessions tokenHash = some (session.userId, session.expiresAt) := by
      rw [State.liveSessions, hsession, Option.map_some]
    obtain ⟨e, he, hissued⟩ := (sessionBook_kept hs₀).entered h hlive
    refine ⟨e, he, hissued, ?_⟩
    rcases (source_of_issued h he hissued).2 with ⟨hverified, x, htook⟩ | hcode
    · exact ⟨e.who, vouches_of_verified h he hverified htook, .inl rfl⟩
    · obtain ⟨body, haction, -⟩ := id hcode
      rw [haction] at hcode
      obtain ⟨e₁, he₁, hwho, hredeemed⟩ := mem_of_redeemedCode hcode
      obtain ⟨later, earlier, hlog⟩ := List.append_of_mem he₁
      obtain ⟨e₂, he₂, code, hminted, -, huser, -⟩ :=
        minted_of_redeemed hs₀ (hlog ▸ h) hredeemed
      have hmem : e₂ ∈ log := by
        rw [hlog]
        exact List.mem_append_right _ (List.mem_cons_of_mem _ he₂)
      obtain ⟨-, hverified, x, htook, -⟩ := source_of_minted h hmem hminted
      rw [huser] at hverified
      exact ⟨e₂.who, vouches_of_verified h hmem hverified htook,
        .inr ⟨e₁, he₁, e₂, hmem, _, _, code, hwho, rfl, hredeemed, hminted⟩⟩
  uniqueIds := uniqueIds_of_run hs₀ h
  redirects e he params location cookie haction hrespond := by
    obtain ⟨l, hl, hissues⟩ := h.issued he
    rw [hrespond] at hissues
    change Answers env app e.op.action l _ at hissues
    rw [haction] at hissues
    obtain ⟨x, htook, hover⟩ := hissues
    obtain ⟨params', login, haction', hconsumed, hstate, hwants, huri⟩ :=
      consumed_of_tookFresh hs₀ h (htook.mono hl)
    cases haction'
    refine ⟨login, hconsumed, fun hlogin pair hpair htoken => ?_⟩
    rw [← hstate]
    refine pairs_of_handsOver hover ?_ hpair htoken
    rcases hlogin with hlogin | ⟨config, url, hconfig, hurl, hweb⟩
    · exact .inl (hwants.trans hlogin)
    · exact .inr ⟨config, url, hconfig, by rw [huri, hurl], hweb⟩
  logouts e he headers response token haction hrespond htoken := by
    obtain ⟨l, hl, hissues⟩ := h.issued he
    rw [hrespond] at hissues
    change Answers env app e.op.action l _ at hissues
    rw [haction] at hissues
    obtain ⟨e₁, he₁, hwho, heq⟩ := mem_own.1 (hl _ (hissues token htoken))
    refine ⟨e₁, he₁, hwho, ?_⟩
    rw [did, heq]
    rfl
  authenticates e he headers userId haction hrespond := by
    obtain ⟨l, hl, hissues⟩ := h.issued he
    rw [hrespond] at hissues
    change Answers env app e.op.action l _ at hissues
    rw [haction] at hissues
    obtain ⟨token, userId', htoken, hmem, huser⟩ := hissues
    cases huser
    obtain ⟨e₁, he₁, hwho, heq⟩ := mem_own.1 (hl _ hmem)
    refine ⟨token, htoken, e₁, he₁, hwho, ?_⟩
    rw [did, heq]
    rfl
  revoked later e earlier tokenHash hlog hdeleted hissued e' he' userId := by
    obtain ⟨e₀, he₀, session, hissued⟩ := hissued
    exact not_authenticated_later hs₀ (hlog ▸ h) hdeleted he₀ hissued he' userId
  unexpired e he tokenHash userId hfound := by
    obtain ⟨later, earlier, hlog⟩ := List.append_of_mem he
    obtain ⟨now₁, s₁, s₂, hrun, -, -, hdoes, -⟩ := Service.Run.split (hlog ▸ h)
    obtain ⟨expiresAt, hlive, hnow⟩ := session_of_authenticated hdoes hfound
    obtain ⟨e₀, he₀, hissued⟩ := (sessionBook_kept hs₀).entered hrun hlive
    have hmem : e₀ ∈ log := by
      rw [hlog]
      exact List.mem_append_right _ (List.mem_cons_of_mem _ he₀)
    obtain ⟨hexpires, -⟩ := source_of_issued h hmem hissued
    rw [hexpires] at hnow
    exact ⟨e₀, hmem, hexpires ▸ hissued, hnow⟩

/-- Whatever requests run side by side, the login protocol is kept. -/
theorem login_protocol {w₀ w : Config ι Cmd.Reply (Logged ι Cmd.Reply State Op) (Option Op) Op
    (Except Error Unit)} (hopening : Service.Opening w₀) (hinitial : w₀.shared.state.Initial)
    (h : (service env app).system.Reaches w₀ w) :
    LoginProtocol env app w.shared.log w.shared.state :=
  loginProtocol_of_run hinitial (Service.run_of_reaches (service_traces env app) hopening h)

end Protocol

/-! ### A login of the CLI

A login is begun and handed over as a code, which is exchanged for a session; the session is used
and revoked. -/

namespace Trial

/-- A parser of two URLs, and a hash that is the text itself. -/
def env : Env where
  parseUrl s :=
    if s = "http://127.0.0.1:1234/cb" then
      some ⟨"http", some (.ipv4 127 0 0 1), some 1234, "/cb"⟩
    else if s = "https://app.sotto.dev" then
      some ⟨"https", some (.domain "app.sotto.dev"), none, "/"⟩
    else if s = "https://app.sotto.dev/auth/callback" then
      some ⟨"https", some (.domain "app.sotto.dev"), none, "/auth/callback"⟩
    else none
  hashToken s := s.toList.map fun c => UInt8.ofNat c.toNat

def app : AppState :=
  ⟨some ⟨"client", "https://app.sotto.dev", some "https://app.sotto.dev"⟩, true⟩

def start : State := ⟨⟨∅, ∅, ∅, ∅⟩, [], fun _ _ => none⟩

def opening : Config Nat Cmd.Reply (Logged Nat Cmd.Reply State Op) (Option Op) Op
    (Except Error Unit) :=
  ⟨⟨start, 0, []⟩, fun _ => ⟨none, none⟩⟩

theorem opening_opening : Service.Opening opening := ⟨rfl, fun _ => rfl, fun _ => rfl⟩

theorem start_initial : start.Initial :=
  ⟨fun _ => rfl, fun _ => rfl, fun _ => rfl, fun _ _ _ _ h => by cases h⟩

/-- The bytes of a draw. -/
def raw (n : Nat) : List UInt8 := List.replicate 31 0 ++ [UInt8.ofNat n]

def headers : Headers := ⟨some ("Bearer " ++ sessionToken (raw 2)), []⟩

def requests : List (Nat × Op × Int) :=
  [(0, ⟨.program, .login ⟨"http://127.0.0.1:1234/cb", "cli", some "code"⟩⟩, 0),
    (1, ⟨.browser 0, .callback ⟨"alice", randomState (raw 0)⟩⟩, 5),
    (2, ⟨.program, .exchange ⟨randomCode (raw 1), "cli"⟩⟩, 6),
    (3, ⟨.program, .me headers⟩, 7),
    (4, ⟨.program, .logout headers⟩, 8),
    (5, ⟨.program, .me headers⟩, 9)]

def served : Logged Nat Cmd.Reply State Op := (backend env app).serveAll requests opening.shared

end Trial

theorem login_protocol_exchange : ∃ w, (service Trial.env Trial.app).system.Reaches Trial.opening w ∧
    w.shared = Trial.served ∧ LoginProtocol Trial.env Trial.app w.shared.log w.shared.state := by
  have hserves : (backend Trial.env Trial.app).servesAll Trial.requests Trial.opening.shared = true := by
    decide +kernel
  obtain ⟨w, hreach, hw⟩ := Service.Backend.reaches_serveAll (fun _ _ => ⟨rfl, rfl⟩)
    (by decide) hserves
  exact ⟨w, hreach, hw, login_protocol Trial.opening_opening Trial.start_initial hreach⟩

end Auth

end Sotto
