import Sotto.Auth.Routes

/-!
# What the requests issue

Every command of a request is determined by what the request has issued and been replied before:
what is stored was drawn by the request, once, and a session or a code is made for the user that
was verified, or that a code was exchanged for.
-/

namespace Sotto

namespace Auth

open Core (Ident)
open Prog (Record TracesE Traces)

section

variable (env : Env) (app : AppState)

/-- A request has drawn random bytes. -/
def Drawn (l : Record Cmd.Reply) (raw : List UInt8) : Prop := ⟨.random, .ok raw⟩ ∈ l

/-- A request has taken a login in time. -/
def TookFresh (l : Record Cmd.Reply) (action : Action) (login : TakenLogin) : Prop :=
  ∃ params, action = .callback params ∧ ⟨.takeLogin params.state, .ok (some login)⟩ ∈ l ∧
    login.fresh = true

/-- A request has verified an identity and knows its user. -/
def Verified (l : Record Cmd.Reply) (userId : Ident) : Prop :=
  ∃ code identity id, ⟨.exchangeCode code, .ok identity⟩ ∈ l ∧
    ⟨.upsertUser id identity, .ok userId⟩ ∈ l

/-- A request has redeemed a code. -/
def RedeemedCode (l : Record Cmd.Reply) (action : Action) (userId : Ident) : Prop :=
  ∃ body, action = .exchange body ∧
    ⟨.takeCode (env.hashToken body.code) body.state, .ok (some userId)⟩ ∈ l

/-- How a login is handed over: where to, with the secret that was stored. -/
inductive HandsOver (l : Record Cmd.Reply) (login : TakenLogin) : Response → Prop
  | cookie {config url userId raw} : app.oauthConfig = some config →
      env.parseUrl login.cliRedirectUri = some url → isWebRedirect env url config.webOrigin = true →
      ⟨.insertSession (env.hashToken (sessionToken raw)) userId false, .ok ()⟩ ∈ l →
      HandsOver l login (.redirect ⟨url, [("state", login.cliState)]⟩
        (some (sessionCookie (sessionToken raw) config.secureCookies)))
  | code {config url userId raw} : app.oauthConfig = some config →
      env.parseUrl login.cliRedirectUri = some url →
      isWebRedirect env url config.webOrigin = false → login.wantsCode = true →
      ⟨.insertCode (env.hashToken (randomCode raw)) userId login.cliState, .ok ()⟩ ∈ l →
      HandsOver l login
        (.redirect ⟨url, [("code", randomCode raw), ("state", login.cliState)]⟩ none)
  | token {config url userId raw} : app.oauthConfig = some config →
      env.parseUrl login.cliRedirectUri = some url →
      isWebRedirect env url config.webOrigin = false → login.wantsCode = false →
      ⟨.insertSession (env.hashToken (sessionToken raw)) userId true, .ok ()⟩ ∈ l →
      HandsOver l login
        (.redirect ⟨url, [("session", sessionToken raw), ("state", login.cliState)]⟩ none)

/-- What a request answers after its commands. -/
def Answers (action : Action) (l : Record Cmd.Reply) (response : Response) : Prop :=
  match action with
  | .callback _ => ∃ login, TookFresh l action login ∧ HandsOver env app l login response
  | .logout headers => ∀ token, tokenFromHeaders headers = some token →
      ⟨.deleteSession (env.hashToken token), .ok ()⟩ ∈ l
  | .me headers => ∃ token userId, tokenFromHeaders headers = some token ∧
      ⟨.touchSession (env.hashToken token), .ok (some userId)⟩ ∈ l ∧ response = .me userId
  | _ => True

/-- When a request issues a command. -/
def Issues (op : Op) (l : Record Cmd.Reply) (c : Cmd) : Prop :=
  match c with
  | .insertLogin state _ cliState _ => (∃ raw, Drawn l raw ∧ state = randomState raw) ∧
      (∀ state' uri' cliState' wants' r', ⟨.insertLogin state' uri' cliState' wants', r'⟩ ∉ l) ∧
      ((∃ params, op.action = .login params ∧ cliState = params.state) ∨
        ∃ tab origin, op.action = .startLogin tab origin ∧ ⟨.randomUuid, .ok cliState⟩ ∈ l)
  | .takeLogin state => ∃ params, op.action = .callback params ∧ state = params.state
  | .insertCode codeHash userId cliState =>
      (∃ raw, Drawn l raw ∧ codeHash = env.hashToken (randomCode raw)) ∧
      (∀ hash' user' cliState' r', ⟨.insertCode hash' user' cliState', r'⟩ ∉ l) ∧
      Verified l userId ∧ ∃ login, TookFresh l op.action login ∧ login.cliState = cliState
  | .takeCode codeHash cliState => ∃ body, op.action = .exchange body ∧
      codeHash = env.hashToken body.code ∧ cliState = body.state
  | .insertSession tokenHash userId _ =>
      (∃ raw, Drawn l raw ∧ tokenHash = env.hashToken (sessionToken raw)) ∧
      (∀ hash' user' legacy' r', ⟨.insertSession hash' user' legacy', r'⟩ ∉ l) ∧
      ((Verified l userId ∧ ∃ login, TookFresh l op.action login) ∨
        RedeemedCode env l op.action userId)
  | .randomUuid => ∃ tab origin, op.action = .startLogin tab origin
  | .respond (.ok response) => Answers env app op.action l response
  | _ => True

end

theorem TookFresh.cons {l : Record Cmd.Reply} {action : Action} {login : TakenLogin}
    (h : TookFresh l action login) (x : Σ c : Cmd, c.Reply) : TookFresh (x :: l) action login := by
  obtain ⟨params, haction, htook, hfresh⟩ := h
  exact ⟨params, haction, List.mem_cons_of_mem _ htook, hfresh⟩

theorem Verified.cons {l : Record Cmd.Reply} {userId : Ident} (h : Verified l userId)
    (x : Σ c : Cmd, c.Reply) : Verified (x :: l) userId := by
  obtain ⟨code, identity, id, hcode, hupsert⟩ := h
  exact ⟨code, identity, id, List.mem_cons_of_mem _ hcode, List.mem_cons_of_mem _ hupsert⟩

theorem RedeemedCode.cons {env : Env} {l : Record Cmd.Reply} {action : Action} {userId : Ident}
    (h : RedeemedCode env l action userId) (x : Σ c : Cmd, c.Reply) :
    RedeemedCode env (x :: l) action userId := by
  obtain ⟨body, haction, htook⟩ := h
  exact ⟨body, haction, List.mem_cons_of_mem _ htook⟩

/-! ### The handlers -/

variable {env : Env} {app : AppState} {op : Op} {l : Record Cmd.Reply} {response : Response}

/-- What is known when a handler returns. -/
def Returns (env : Env) (app : AppState) (op : Op) (l : Record Cmd.Reply)
    (r : Except Error Response) : Prop :=
  ∀ response, r = .ok response → Answers env app op.action l response

theorem returns_error {e : Error} : Returns env app op l (.error e) := fun _ h => by cases h

theorem returns_ok (h : Answers env app op.action l response) :
    Returns env app op l (.ok response) := by
  intro _ heq
  cases heq
  exact h

/-- A command of a handler. -/
theorem traces_ask {c : Cmd} {k : c.Answer → Handler Response} (hc : Issues env app op l c)
    (hok : ∀ a, TracesE (Issues env app op) (Returns env app op) (k a) (⟨c, .ok a⟩ :: l)) :
    TracesE (Issues env app op) (Returns env app op) (ask c >>= k) l :=
  Prog.tracesE_ask hc (fun _ => returns_error) hok

theorem traces_okOr {α : Type} {a : Option α} {e : Error} {k : α → Handler Response}
    (hok : ∀ x, a = some x → TracesE (Issues env app op) (Returns env app op) (k x) l) :
    TracesE (Issues env app op) (Returns env app op) (okOr a e >>= k) l := by
  cases a with
  | some x => exact hok x rfl
  | none => exact returns_error

theorem traces_require {p : Prop} [Decidable p] {e : Error} {k : Unit → Handler Response}
    (hok : p → TracesE (Issues env app op) (Returns env app op) (k ()) l) :
    TracesE (Issues env app op) (Returns env app op) (require p e >>= k) l := by
  unfold require
  split
  · next hp => exact hok hp
  · exact returns_error

theorem traces_check {α : Type} {r : Except Error α} {k : α → Handler Response}
    (hok : ∀ a, r = .ok a → TracesE (Issues env app op) (Returns env app op) (k a) l) :
    TracesE (Issues env app op) (Returns env app op) (ExceptT.mk (pure r) >>= k) l := by
  cases r with
  | ok a => exact hok a rfl
  | error e => exact returns_error

theorem traces_pure (h : Answers env app op.action l response) :
    TracesE (Issues env app op) (Returns env app op) (pure response) l :=
  returns_ok h

/-- A login stores a state that it has drawn. -/
theorem login_traces {params : LoginParams}
    (hnone : ∀ state' uri' cliState' wants' r',
      ⟨.insertLogin state' uri' cliState' wants', r'⟩ ∉ l)
    (hstate : (∃ params', op.action = .login params' ∧ params.state = params'.state) ∨
      ∃ tab origin, op.action = .startLogin tab origin ∧ ⟨.randomUuid, .ok params.state⟩ ∈ l)
    (hanswers : ∀ l response, Answers env app op.action l response) :
    TracesE (Issues env app op) (Returns env app op) (login env app params) l := by
  refine traces_okOr fun config _ => ?_
  refine traces_check fun _ _ => traces_check fun wants _ => ?_
  refine traces_ask trivial fun _ => ?_
  refine traces_ask trivial fun raw => ?_
  refine traces_ask ⟨⟨raw, List.mem_cons_self, rfl⟩, ?_, ?_⟩ fun _ => traces_pure (hanswers _ _)
  · intro state' uri' cliState' wants' r' hmem
    simp only [List.mem_cons, Sigma.mk.injEq, reduceCtorEq, false_and, false_or] at hmem
    exact hnone _ _ _ _ _ hmem
  · rcases hstate with h | ⟨tab, origin, hop, hdrawn⟩
    · exact .inl h
    · exact .inr ⟨tab, origin, hop, List.mem_cons_of_mem _ (List.mem_cons_of_mem _ hdrawn)⟩

theorem startLogin_traces {tab : Nat} {origin : String} (hop : op.action = .startLogin tab origin) :
    TracesE (Issues env app op) (Returns env app op) (startLogin env app tab origin) [] := by
  refine traces_ask ⟨tab, origin, hop⟩ fun state => ?_
  refine traces_ask trivial fun _ => login_traces ?_ ?_ ?_
  · intro state' uri' cliState' wants' r' hmem
    simp at hmem
  · exact .inr ⟨tab, origin, hop, List.mem_cons_of_mem _ List.mem_cons_self⟩
  · intro l response
    rw [hop]
    trivial

/-- A session is issued for a user that the request knows. -/
theorem issueInner_traces {userId : Ident} {legacy : Bool} {k : String → Handler Response}
    (hnone : ∀ hash' user' legacy' r', ⟨.insertSession hash' user' legacy', r'⟩ ∉ l)
    (hsource : (Verified l userId ∧ ∃ login, TookFresh l op.action login) ∨
      RedeemedCode env l op.action userId)
    (hok : ∀ raw, TracesE (Issues env app op) (Returns env app op) (k (sessionToken raw))
      (⟨.insertSession (env.hashToken (sessionToken raw)) userId legacy, .ok ()⟩ ::
        ⟨.random, .ok raw⟩ :: l)) :
    TracesE (Issues env app op) (Returns env app op) (issueInner env userId legacy >>= k) l := by
  simp only [issueInner, bind_assoc, pure_bind]
  refine traces_ask trivial fun raw => traces_ask ⟨⟨raw, List.mem_cons_self, rfl⟩, ?_, ?_⟩
    fun _ => hok raw
  · intro hash' user' legacy' r' hmem
    simp only [List.mem_cons, Sigma.mk.injEq, reduceCtorEq, false_and, false_or] at hmem
    exact hnone _ _ _ _ hmem
  · rcases hsource with ⟨hverified, login, htook⟩ | hredeemed
    · exact .inl ⟨hverified.cons _, login, htook.cons _⟩
    · exact .inr (hredeemed.cons _)

section HandOver

variable {config : OAuthConfig} {params : CallbackParams} {login : TakenLogin} {userId : Ident}
  {url : Url}

theorem answers_callback (hop : op.action = .callback params) (htook : TookFresh l op.action login)
    (hover : HandsOver env app l login response) : Answers env app op.action l response := by
  rw [hop] at htook ⊢
  exact ⟨login, htook, hover⟩

/-- A web login ends with a session in a cookie. -/
theorem handOverCookie_traces (hop : op.action = .callback params)
    (hconfig : app.oauthConfig = some config) (hurl : env.parseUrl login.cliRedirectUri = some url)
    (hweb : isWebRedirect env url config.webOrigin = true) (htook : TookFresh l op.action login)
    (hverified : Verified l userId)
    (hnone : ∀ hash' user' legacy' r', ⟨.insertSession hash' user' legacy', r'⟩ ∉ l) :
    TracesE (Issues env app op) (Returns env app op)
      (handOverCookie env config userId url login.cliState) l := by
  refine issueInner_traces hnone (.inl ⟨hverified, login, htook⟩) fun raw => traces_pure ?_
  exact answers_callback hop ((htook.cons _).cons _)
    (.cookie hconfig hurl hweb List.mem_cons_self)

/-- A CLI login ends with a code that is bound to it. -/
theorem handOverCode_traces (hop : op.action = .callback params)
    (hconfig : app.oauthConfig = some config) (hurl : env.parseUrl login.cliRedirectUri = some url)
    (hweb : isWebRedirect env url config.webOrigin = false) (hwants : login.wantsCode = true)
    (htook : TookFresh l op.action login) (hverified : Verified l userId)
    (hnone : ∀ hash' user' cliState' r', ⟨.insertCode hash' user' cliState', r'⟩ ∉ l) :
    TracesE (Issues env app op) (Returns env app op)
      (handOverCode env userId url login.cliState) l := by
  refine traces_ask trivial fun _ => traces_ask trivial fun raw => ?_
  refine traces_ask ⟨⟨raw, List.mem_cons_self, rfl⟩, ?_, (hverified.cons _).cons _, login,
    (htook.cons _).cons _, rfl⟩ fun _ => traces_pure ?_
  · intro hash' user' cliState' r' hmem
    simp only [List.mem_cons, Sigma.mk.injEq, reduceCtorEq, false_and, false_or] at hmem
    exact hnone _ _ _ _ hmem
  · exact answers_callback hop (((htook.cons _).cons _).cons _)
      (.code hconfig hurl hweb hwants List.mem_cons_self)

/-- A legacy CLI login ends with a session in the redirect. -/
theorem handOverToken_traces (hop : op.action = .callback params)
    (hconfig : app.oauthConfig = some config) (hurl : env.parseUrl login.cliRedirectUri = some url)
    (hweb : isWebRedirect env url config.webOrigin = false) (hwants : login.wantsCode = false)
    (htook : TookFresh l op.action login) (hverified : Verified l userId)
    (hnone : ∀ hash' user' legacy' r', ⟨.insertSession hash' user' legacy', r'⟩ ∉ l) :
    TracesE (Issues env app op) (Returns env app op)
      (handOverToken env userId url login.cliState) l := by
  refine issueInner_traces hnone (.inl ⟨hverified, login, htook⟩) fun raw => traces_pure ?_
  exact answers_callback hop ((htook.cons _).cons _)
    (.token hconfig hurl hweb hwants List.mem_cons_self)

end HandOver

/-- A callback takes its login, verifies the identity, and hands the login over. -/
theorem callback_traces {params : CallbackParams} (hop : op.action = .callback params) :
    TracesE (Issues env app op) (Returns env app op) (callback env app params) [] := by
  refine traces_okOr fun config hconfig => traces_require fun _ => ?_
  refine traces_ask ⟨params, hop, rfl⟩ fun taken => ?_
  refine traces_okOr fun login htaken => traces_require fun hfresh => ?_
  subst htaken
  refine traces_ask trivial fun identity => ?_
  simp only [upsertUser, bind_assoc]
  refine traces_ask trivial fun id => traces_ask trivial fun userId => ?_
  refine traces_okOr fun url hurl => ?_
  have htook : TookFresh [⟨.upsertUser id identity, .ok userId⟩, ⟨.newUuid, .ok id⟩,
      ⟨.exchangeCode params.code, .ok identity⟩,
      ⟨.takeLogin params.state, .ok (some login)⟩] op.action login :=
    ⟨params, hop, by simp, hfresh⟩
  have hverified : Verified [⟨.upsertUser id identity, .ok userId⟩, ⟨.newUuid, .ok id⟩,
      ⟨.exchangeCode params.code, .ok identity⟩,
      ⟨.takeLogin params.state, .ok (some login)⟩] userId :=
    ⟨params.code, identity, id, by simp, by simp⟩
  split
  · next hweb => exact handOverCookie_traces hop hconfig hurl hweb htook hverified (by simp)
  · next hweb =>
      split
      · next hwants =>
          exact handOverCode_traces hop hconfig hurl (by simpa using hweb) hwants htook hverified
            (by simp)
      · next hwants =>
          exact handOverToken_traces hop hconfig hurl (by simpa using hweb) (by simpa using hwants)
            htook hverified (by simp)

/-- An exchange takes a code and issues a session for its user. -/
theorem exchange_traces {body : ExchangeRequest} (hop : op.action = .exchange body) :
    TracesE (Issues env app op) (Returns env app op) (exchange env app body) [] := by
  refine traces_okOr fun _ _ => traces_ask ⟨body, hop, rfl, rfl⟩ fun taken => ?_
  refine traces_okOr fun userId htaken => ?_
  subst htaken
  refine issueInner_traces (by simp) (.inr ⟨body, hop, List.mem_cons_self⟩) fun raw => ?_
  refine traces_pure ?_
  rw [hop]
  trivial

theorem logout_traces {headers : Headers} (hop : op.action = .logout headers) :
    TracesE (Issues env app op) (Returns env app op) (logout env app headers) [] := by
  unfold logout
  cases htoken : tokenFromHeaders headers with
  | some token =>
      refine traces_ask trivial fun _ => traces_pure ?_
      rw [hop]
      intro token' htoken'
      obtain rfl : token = token' := Option.some.inj (htoken.symm.trans htoken')
      exact List.mem_cons_self
  | none =>
      refine traces_pure ?_
      rw [hop]
      intro token htoken'
      rw [htoken] at htoken'
      cases htoken'

theorem me_traces {headers : Headers} (hop : op.action = .me headers) :
    TracesE (Issues env app op) (Returns env app op) (me env headers) [] := by
  refine traces_okOr fun token htoken => traces_ask trivial fun userId => ?_
  refine traces_okOr fun userId' huser => traces_pure ?_
  subst huser
  rw [hop]
  exact ⟨token, userId', htoken, List.mem_cons_self, rfl⟩

theorem authCallback_traces {tab : Nat} {returned : Option String}
    (hop : op.action = .authCallback tab returned) :
    TracesE (Issues env app op) (Returns env app op) (authCallback tab returned) [] := by
  refine traces_ask trivial fun _ => traces_require fun _ => traces_pure ?_
  rw [hop]
  trivial

/-- What every handler issues. -/
theorem handler_traces (env : Env) (app : AppState) (op : Op) :
    TracesE (Issues env app op) (Returns env app op) (op.action.handler env app) [] := by
  cases hop : op.action with
  | login params =>
      refine login_traces (by simp) (.inl ⟨params, hop, rfl⟩) fun l response => ?_
      rw [hop]
      trivial
  | callback params => exact callback_traces hop
  | exchange body => exact exchange_traces hop
  | logout headers => exact logout_traces hop
  | me headers => exact me_traces hop
  | startLogin tab origin => exact startLogin_traces hop
  | authCallback tab returned => exact authCallback_traces hop

theorem service_traces (env : Env) (app : AppState) (op : Op) :
    ((service env app).prog op).Traces (Issues env app op) (fun _ _ => True) [] := by
  refine Traces.bind (handler_traces env app op) fun l r hr => ⟨?_, fun _ => trivial⟩
  cases r with
  | ok response => exact hr response rfl
  | error e => trivial

end Auth

end Sotto
