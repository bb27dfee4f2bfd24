import Sotto.Auth.Db

/-!
# Login, callback, exchange and logout

The handlers of the login endpoints, the extraction of the session token from the headers of a
request, and the two steps of the web client: beginning a login, and the page that the callback
redirects to. The URL parser and the hash of the tokens are parameters.
-/

namespace Sotto

namespace Auth

open Core (Ident)

/-- The programs of the handlers. -/
abbrev Handler := ExceptT Error (Prog Cmd.Reply)

/-- Issue a command. -/
def ask (c : Cmd) : Handler c.Answer := Prog.ask c

/-- The code that is not part of the server. -/
structure Env where
  parseUrl : String → Option Url
  hashToken : String → Hash

structure OAuthConfig where
  githubClientId : String
  publicBaseUrl : String
  webOrigin : Option String

/-- The configuration of the server; `oauth` tells whether there is a provider. -/
structure AppState where
  oauthConfig : Option OAuthConfig
  oauth : Bool

/-- The fixed callback URL registered with the GitHub OAuth app. -/
def OAuthConfig.callbackUrl (config : OAuthConfig) : String :=
  String.ofList (config.publicBaseUrl.toList.reverse.dropWhile (· = '/')).reverse ++
    "/auth/github/callback"

/-- Whether session cookies should carry the `Secure` attribute. -/
def OAuthConfig.secureCookies (config : OAuthConfig) : Bool :=
  config.webOrigin.any fun origin => "https://".toList.isPrefixOf origin.toList

/-- Fail with `e` where there is nothing. -/
def okOr {α : Type} (a : Option α) (e : Error) : Handler α :=
  match a with
  | some a => pure a
  | none => throw e

/-- Fail with `e` unless `p` holds. -/
def require (p : Prop) [Decidable p] (e : Error) : Handler Unit :=
  if p then pure () else throw e

/-! ### Sessions -/

/-- Name of the web session cookie. -/
def sessionCookieName : String := "sotto_session"

/-- Build a `Set-Cookie` value carrying the session. -/
def sessionCookie (token : String) (secure : Bool) : String :=
  let cookie := sessionCookieName ++ "=" ++ token ++
    s!"; HttpOnly; SameSite=Lax; Path=/; Max-Age={sessionTtl}"
  if secure then cookie ++ "; Secure" else cookie

/-- Build a `Set-Cookie` value that clears the session cookie. -/
def clearCookie (secure : Bool) : String :=
  let cookie := sessionCookieName ++ "=; HttpOnly; SameSite=Lax; Path=/; Max-Age=0"
  if secure then cookie ++ "; Secure" else cookie

/-- The headers of a request that are visible ASCII: the first `Authorization`, and the cookies. -/
structure Headers where
  authorization : Option String
  cookies : List String

def trim (s : List Char) : List Char :=
  ((s.dropWhile Char.isWhitespace).reverse.dropWhile Char.isWhitespace).reverse

def stripPrefix (pre s : List Char) : Option (List Char) :=
  if pre.isPrefixOf s then some (s.drop pre.length) else none

/-- What is before and after the first `c`. -/
def splitOnce (c : Char) (s : List Char) : Option (List Char × List Char) :=
  if c ∈ s then some (s.takeWhile (· ≠ c), (s.dropWhile (· ≠ c)).drop 1) else none

/-- Extract the session token from a request: a bearer token, or the cookie. -/
def tokenFromHeaders (headers : Headers) : Option String :=
  let bearer := headers.authorization.bind fun v =>
    ((stripPrefix "Bearer ".toList v.toList).map trim).filter (· ≠ [])
  match bearer with
  | some bearer => some (String.ofList bearer)
  | none =>
      (((headers.cookies.flatMap fun cookies => cookies.toList.splitOn ';').filterMap fun kv =>
        splitOnce '=' (trim kv)).find? fun kv => kv.1 = sessionCookieName.toList).map
          fun kv => String.ofList kv.2

section Handlers

variable (env : Env) (app : AppState)

def issueInner (userId : Ident) (viaLegacyCli : Bool) : Handler String := do
  let raw ← ask .random
  let token := sessionToken raw
  ask (.insertSession (env.hashToken token) userId viaLegacyCli)
  pure token

/-- Issue a fresh session and return the raw bearer token. -/
def issue (userId : Ident) : Handler String := issueInner env userId false

/-- Issue a session through the legacy CLI branch, and mark it so. -/
def issueLegacyCli (userId : Ident) : Handler String := issueInner env userId true

/-- Resolve a raw bearer token to its user. -/
def resolve (token : String) : Handler (Option Ident) := ask (.touchSession (env.hashToken token))

/-- Delete a session. A no-op if the token is unknown. -/
def revoke (token : String) : Handler Unit := ask (.deleteSession (env.hashToken token))

/-! ### Redirects -/

/-- An `http` loopback address: the CLI's local listener. -/
def isLoopback (url : Url) : Bool :=
  url.scheme == "http" &&
    match url.host with
    | some (.ipv4 a _ _ _) => a == 127
    | some (.ipv6 segments) => segments == [0, 0, 0, 0, 0, 0, 0, 1]
    | some (.domain d) => d == "localhost"
    | none => false

/-- The port of a URL, or the default one of its scheme. -/
def Url.portOrKnownDefault (url : Url) : Option UInt16 :=
  url.port <|>
    (if url.scheme = "http" ∨ url.scheme = "ws" then some 80
    else if url.scheme = "https" ∨ url.scheme = "wss" then some 443
    else if url.scheme = "ftp" then some 21
    else none)

/-- Whether a URL is same-origin with the configured web origin. -/
def isWebRedirect (url : Url) (webOrigin : Option String) : Bool :=
  match webOrigin.bind env.parseUrl with
  | none => false
  | some origin => url.scheme = origin.scheme ∧ url.host = origin.host ∧
      url.portOrKnownDefault = origin.portOrKnownDefault

/-- Reject any redirect target that is neither loopback nor the configured web origin. -/
def validateRedirect (redirectUri : String) (webOrigin : Option String) : Except Error Unit :=
  match env.parseUrl redirectUri with
  | none => .error (.badRequest "redirect_uri is not a valid URL")
  | some url =>
      if isLoopback url ∨ isWebRedirect env url webOrigin then .ok ()
      else .error
        (.badRequest "redirect_uri must be a loopback address or the configured web origin")

/-- GitHub's authorisation endpoint. -/
def githubAuthorizeUrl : Url :=
  ⟨"https", some (.domain "github.com"), none, "/login/oauth/authorize"⟩

def githubScope : String := "read:user user:email"

structure LoginParams where
  redirectUri : String
  state : String
  mode : Option String
deriving DecidableEq

/-- What the mode of a login says, if it is known. -/
def wantsCode : Option String → Except Error Bool
  | none => .ok false
  | some mode =>
      if mode = "code" then .ok true
      else .error (.badRequest ("unknown login mode: " ++ mode.quote ++ " (want \"code\")"))

/-- Where a login redirects to. -/
def authorizeLocation (config : OAuthConfig) (serverState : String) : Location where
  url := githubAuthorizeUrl
  pairs := [("client_id", config.githubClientId), ("redirect_uri", config.callbackUrl),
    ("scope", githubScope), ("state", serverState)]

/-- Begin the flow: record the login state, redirect the browser to GitHub. -/
def login (params : LoginParams) : Handler Response := do
  let config ← okOr app.oauthConfig (.notConfigured "oauth is not configured")
  ExceptT.mk (pure (validateRedirect env params.redirectUri config.webOrigin))
  let wantsCode ← ExceptT.mk (pure (wantsCode params.mode))
  ask .pruneLogins
  let raw ← ask .random
  let serverState := randomState raw
  ask (.insertLogin serverState params.redirectUri params.state wantsCode)
  pure (.redirect (authorizeLocation config serverState) none)

structure CallbackParams where
  code : String
  state : String
deriving DecidableEq

/-- Insert the user on first login, or return the existing id on subsequent logins. -/
def upsertUser (identity : Identity) : Handler Ident := do
  let id ← ask .newUuid
  ask (.upsertUser id identity)

/-- A web login: the token goes into a cookie. -/
def handOverCookie (config : OAuthConfig) (userId : Ident) (url : Url) (cliState : String) :
    Handler Response := do
  let token ← issue env userId
  pure (.redirect ⟨url, [("state", cliState)]⟩ (some (sessionCookie token config.secureCookies)))

/-- A CLI login: a single-use code, bound to this login. -/
def handOverCode (userId : Ident) (url : Url) (cliState : String) : Handler Response := do
  ask .pruneCodes
  let raw ← ask .random
  let code := randomCode raw
  ask (.insertCode (env.hashToken code) userId cliState)
  pure (.redirect ⟨url, [("code", code), ("state", cliState)]⟩ none)

/-- A legacy CLI login: the token itself. -/
def handOverToken (userId : Ident) (url : Url) (cliState : String) : Handler Response := do
  let token ← issueLegacyCli env userId
  pure (.redirect ⟨url, [("session", token), ("state", cliState)]⟩ none)

/-- GitHub redirects here. Verify state, exchange the code, upsert the user, and hand the login
back. -/
def callback (params : CallbackParams) : Handler Response := do
  let config ← okOr app.oauthConfig (.notConfigured "oauth is not configured")
  require (app.oauth = true) (.notConfigured "oauth is not configured")
  let taken ← ask (.takeLogin params.state)
  let login ← okOr taken (.badRequest "unknown login state")
  require (login.fresh = true) (.badRequest "login state expired")
  let identity ← ask (.exchangeCode params.code)
  let userId ← upsertUser identity
  let url ← okOr (env.parseUrl login.cliRedirectUri)
    (.badRequest "stored redirect_uri is invalid")
  if isWebRedirect env url config.webOrigin then
    handOverCookie env config userId url login.cliState
  else if login.wantsCode then
    handOverCode env userId url login.cliState
  else
    handOverToken env userId url login.cliState

structure ExchangeRequest where
  code : String
  state : String
deriving DecidableEq

/-- Swap a single-use login code for the session token. -/
def exchange (body : ExchangeRequest) : Handler Response := do
  let _ ← okOr app.oauthConfig (.notConfigured "oauth is not configured")
  let taken ← ask (.takeCode (env.hashToken body.code) body.state)
  let userId ← okOr taken (.badRequest "invalid or expired code")
  let token ← issue env userId
  pure (.token token)

/-- Delete the session and clear the web cookie. -/
def logout (headers : Headers) : Handler Response := do
  match tokenFromHeaders headers with
  | some token => revoke env token
  | none => pure ()
  pure (.loggedOut (clearCookie (app.oauthConfig.any OAuthConfig.secureCookies)))

/-- The authenticated user of a request. -/
def me (headers : Headers) : Handler Response := do
  let token ← okOr (tokenFromHeaders headers) .unauthorized
  let userId ← resolve env token
  let userId ← okOr userId .unauthorized
  pure (.me userId)

/-- Begin the flow in a browser's tab, which keeps a value of its own and opens the login. -/
def startLogin (tab : Nat) (origin : String) : Handler Response := do
  let state ← ask .randomUuid
  ask (.setItem tab state)
  login env app ⟨origin ++ "/auth/callback", state, none⟩

/-- The page that a web login is redirected to. -/
def authCallback (tab : Nat) (returned : Option String) : Handler Response := do
  let expected ← ask (.takeItem tab)
  require (returned ≠ none ∧ returned = expected)
    (.page "Login could not be verified (state mismatch).")
  pure .app

end Handlers

/-- The requests, and what a browser's tab does. -/
inductive Action
  | login (params : LoginParams)
  | callback (params : CallbackParams)
  | exchange (body : ExchangeRequest)
  | logout (headers : Headers)
  | me (headers : Headers)
  | startLogin (tab : Nat) (origin : String)
  | authCallback (tab : Nat) (returned : Option String)

structure Op where
  client : Client
  action : Action

/-- The handler of a request. -/
def Action.handler (env : Env) (app : AppState) : Action → Handler Response
  | login params => Auth.login env app params
  | callback params => Auth.callback env app params
  | exchange body => Auth.exchange env app body
  | logout headers => Auth.logout env app headers
  | me headers => Auth.me env headers
  | startLogin tab origin => Auth.startLogin env app tab origin
  | authCallback tab returned => Auth.authCallback tab returned

/-- The endpoints: a request is handled and answered. -/
def service (env : Env) (app : AppState) : Service Cmd.Reply State Op (Except Error Unit) where
  prog op := (op.action.handler env app).run >>= fun r => Prog.perform (Cmd.respond r)
  does op c := c.Executes env.hashToken op.client

end Auth

end Sotto
