import Sotto.Library.Recorded
import Sotto.Library.Table
import Sotto.Core.Bytes

/-!
# The tables of the logins

Logins in flight, login codes, sessions and users, and the statements that the requests run on
them, each of them a transaction of its own. Times are in seconds. A login code and a session are
stored under the hash of their secret. Random bytes are drawn, and no two draws lead to the same
secret or to the same hash. What the identity provider answers is left open.
-/

namespace Sotto

namespace Auth

open Core (Ident)

/-- The errors of the requests, and of the page that a browser loads after a login. -/
inductive Error
  | db (message : String)
  | unauthorized
  | badRequest (message : String)
  | notConfigured (message : String)
  | upstream (message : String)
  | page (message : String)
deriving DecidableEq

/-- A login in flight: a row of `oauth_logins`. -/
structure Login where
  cliRedirectUri : String
  cliState : String
  createdAt : Int
  wantsCode : Bool
deriving DecidableEq

/-- A row of `cli_login_codes`. -/
structure LoginCode where
  userId : Ident
  cliState : String
  expiresAt : Int
deriving DecidableEq

/-- A row of `sessions`. -/
structure Session where
  userId : Ident
  lastUsedAt : Int
  expiresAt : Int
  viaLegacyCli : Bool
deriving DecidableEq

/-- A row of `users`. -/
structure User where
  id : Ident
  email : Option String
deriving DecidableEq

/-- A verified identity returned by an OAuth provider after a successful code exchange. -/
structure Identity where
  provider : String
  subject : String
  email : Option String
deriving DecidableEq

/-- The pair that identifies an account. -/
def Identity.key (identity : Identity) : String × String := (identity.provider, identity.subject)

/-- The bytes of a hash. -/
abbrev Hash := List UInt8

/-- The tables. Users are unique by provider and subject. -/
structure Db where
  logins : Table String Login
  codes : Table Hash LoginCode
  sessions : Table Hash Session
  users : Table (String × String) User

/-! ### Secrets -/

/-- How long an in-flight login may sit before its state is rejected: 10 minutes. -/
def loginFreshness : Int := 10 * 60

/-- How long a minted login code stays exchangeable: 10 minutes. -/
def codeTtl : Int := 10 * 60

/-- Session lifetime: 30 days. -/
def sessionTtl : Int := 30 * 24 * 60 * 60

/-- Human-recognisable prefix on a login code. -/
def codePrefix : String := "sc_"

/-- Human-recognisable prefix on the opaque bearer token. -/
def tokenPrefix : String := "st_"

def hexDigit (n : Nat) : Char := "0123456789abcdef".toList.getD n '0'

def toHex (bytes : List UInt8) : String :=
  String.ofList (bytes.flatMap fun b => [hexDigit (b.toNat / 16), hexDigit (b.toNat % 16)])

/-- A 256-bit random, hex-encoded login state value. -/
def randomState (raw : List UInt8) : String := toHex raw

def randomCode (raw : List UInt8) : String := codePrefix ++ randomState raw

def sessionToken (raw : List UInt8) : String := tokenPrefix ++ toHex raw

theorem randomCode_ne_sessionToken (raw raw' : List UInt8) :
    randomCode raw ≠ sessionToken raw' := by
  intro h
  have hlist := congrArg String.toList h
  simp [randomCode, sessionToken, codePrefix, tokenPrefix] at hlist

/-- Two draws that lead to the same secret, or to the same hash of one. -/
def Clash (hashToken : String → Hash) (raw raw' : List UInt8) : Prop :=
  randomState raw = randomState raw' ∨
    hashToken (randomCode raw) = hashToken (randomCode raw') ∨
      hashToken (sessionToken raw) = hashToken (sessionToken raw')

instance (hashToken : String → Hash) (raw raw' : List UInt8) :
    Decidable (Clash hashToken raw raw') :=
  inferInstanceAs (Decidable (_ ∨ _ ∨ _))

theorem Clash.symm {hashToken : String → Hash} {raw raw' : List UInt8}
    (h : Clash hashToken raw raw') : Clash hashToken raw' raw := by
  rcases h with h | h | h
  · exact .inl h.symm
  · exact .inr (.inl h.symm)
  · exact .inr (.inr h.symm)

/-! ### Requests -/

/-- Who sends a request: a browser, or any other program. -/
inductive Client
  | browser (b : Nat)
  | program
deriving DecidableEq

/-- A login that a callback has taken. -/
structure TakenLogin where
  cliRedirectUri : String
  cliState : String
  fresh : Bool
  wantsCode : Bool
deriving DecidableEq

/-- A login as it is taken at a time. -/
def Login.taken (login : Login) (now : Int) : TakenLogin :=
  ⟨login.cliRedirectUri, login.cliState, now - loginFreshness < login.createdAt, login.wantsCode⟩

/-- An IP address or a domain. -/
inductive Host
  | ipv4 (a b c d : UInt8)
  | ipv6 (segments : List UInt16)
  | domain (name : String)
deriving DecidableEq

/-- A parsed URL; `rest` is what follows the authority. -/
structure Url where
  scheme : String
  host : Option Host
  port : Option UInt16
  rest : String
deriving DecidableEq

/-- A URL to which query pairs were appended. -/
structure Location where
  url : Url
  pairs : List (String × String)
deriving DecidableEq

/-- What a request is answered when it succeeds. -/
inductive Response
  | redirect (location : Location) (setCookie : Option String)
  | token (token : String)
  | loggedOut (setCookie : String)
  | me (userId : Ident)
  | app
deriving DecidableEq

/-- The statements of the requests, the draws, the call of the identity provider, the storage of a
browser's tab, and the answer. -/
inductive Cmd
  | pruneLogins
  | random
  | insertLogin (state cliRedirectUri cliState : String) (wantsCode : Bool)
  | takeLogin (state : String)
  | exchangeCode (code : String)
  | newUuid
  | upsertUser (id : Ident) (identity : Identity)
  | pruneCodes
  | insertCode (codeHash : Hash) (userId : Ident) (cliState : String)
  | takeCode (codeHash : Hash) (cliState : String)
  | insertSession (tokenHash : Hash) (userId : Ident) (viaLegacyCli : Bool)
  | touchSession (tokenHash : Hash)
  | deleteSession (tokenHash : Hash)
  | randomUuid
  | setItem (tab : Nat) (value : String)
  | takeItem (tab : Nat)
  | respond (r : Except Error Response)

/-- What a command returns. -/
abbrev Cmd.Answer : Cmd → Type
  | random => List UInt8
  | takeLogin _ => Option TakenLogin
  | exchangeCode _ => Identity
  | newUuid => Ident
  | upsertUser _ _ => Ident
  | takeCode _ _ => Option Ident
  | touchSession _ => Option Ident
  | randomUuid => String
  | takeItem _ => Option String
  | _ => Unit

abbrev Cmd.Reply (c : Cmd) : Type := Except Error c.Answer

/-- Whether a command is a statement, which can fail. -/
def Cmd.isStatement : Cmd → Bool
  | random | exchangeCode _ | newUuid | randomUuid | setItem _ _ | takeItem _ | respond _ => false
  | _ => true

/-- The tables, the random bytes drawn so far, and the storage of the browsers' tabs. -/
structure State where
  db : Db
  drawn : List (List UInt8)
  storage : Nat → Nat → Option String

/-- Set the stored state of a tab. -/
def State.store (s : State) (client : Client) (tab : Nat) (value : Option String) : State :=
  match client with
  | .browser b => { s with
      storage := Function.update s.storage b (Function.update (s.storage b) tab value) }
  | .program => s

@[simp, grind =] theorem State.store_db (s : State) (client : Client) (tab : Nat)
    (value : Option String) : (s.store client tab value).db = s.db := by
  cases client <;> rfl

@[simp, grind =] theorem State.store_drawn (s : State) (client : Client) (tab : Nat)
    (value : Option String) : (s.store client tab value).drawn = s.drawn := by
  cases client <;> rfl

/-- The stored state of a tab. -/
def State.stored (s : State) (client : Client) (tab : Nat) : Option String :=
  match client with
  | .browser b => s.storage b tab
  | .program => none

/-- What a command does at a time for a client, where it does not fail. -/
def Cmd.Does (hashToken : String → Hash) (client : Client) (c : Cmd) (now : Int) (s : State)
    (r : c.Reply) (s' : State) : Prop :=
  match c with
  | .pruneLogins => r = .ok () ∧ s' = { s with db := { s.db with
      logins := s.db.logins.filterRows fun _ l => ! decide (l.createdAt < now - loginFreshness) } }
  | .random => ∃ raw : List UInt8, r = .ok raw ∧ raw.length = 32 ∧
      (∀ raw' ∈ s.drawn, ¬ Clash hashToken raw raw') ∧ s' = { s with drawn := raw :: s.drawn }
  | .insertLogin state cliRedirectUri cliState wantsCode =>
      r = .ok () ∧ s.db.logins.lookup state = none ∧ s' = { s with db := { s.db with
        logins := AList.insert state ⟨cliRedirectUri, cliState, now, wantsCode⟩ s.db.logins } }
  | .takeLogin state => r = .ok ((s.db.logins.lookup state).map (·.taken now)) ∧
      s' = { s with db := { s.db with logins := s.db.logins.erase state } }
  | .exchangeCode _ => s' = s
  | .newUuid => (∃ id, r = .ok id) ∧ s' = s
  | .upsertUser id identity =>
      match s.db.users.lookup identity.key with
      | some user => r = .ok user.id ∧ s' = { s with db := { s.db with
          users := s.db.users.modify identity.key fun u =>
            { u with email := identity.email <|> u.email } } }
      | none => r = .ok id ∧ (∀ k u, s.db.users.lookup k = some u → u.id ≠ id) ∧
          s' = { s with db := { s.db with
            users := AList.insert identity.key ⟨id, identity.email⟩ s.db.users } }
  | .pruneCodes => r = .ok () ∧ s' = { s with db := { s.db with
      codes := s.db.codes.filterRows fun _ c => ! decide (c.expiresAt ≤ now) } }
  | .insertCode codeHash userId cliState =>
      r = .ok () ∧ s.db.codes.lookup codeHash = none ∧ s' = { s with db := { s.db with
        codes := AList.insert codeHash ⟨userId, cliState, now + codeTtl⟩ s.db.codes } }
  | .takeCode codeHash cliState =>
      match s.db.codes.lookup codeHash with
      | some code =>
          if code.cliState = cliState ∧ now < code.expiresAt then
            r = .ok (some code.userId) ∧
              s' = { s with db := { s.db with codes := s.db.codes.erase codeHash } }
          else r = .ok none ∧ s' = s
      | none => r = .ok none ∧ s' = s
  | .insertSession tokenHash userId viaLegacyCli =>
      r = .ok () ∧ s.db.sessions.lookup tokenHash = none ∧ s' = { s with db := { s.db with
        sessions := AList.insert tokenHash ⟨userId, now, now + sessionTtl, viaLegacyCli⟩
          s.db.sessions } }
  | .touchSession tokenHash =>
      match s.db.sessions.lookup tokenHash with
      | some session =>
          if now < session.expiresAt then
            r = .ok (some session.userId) ∧ s' = { s with db := { s.db with
              sessions := s.db.sessions.modify tokenHash fun x => { x with lastUsedAt := now } } }
          else r = .ok none ∧ s' = s
      | none => r = .ok none ∧ s' = s
  | .deleteSession tokenHash =>
      r = .ok () ∧ s' = { s with db := { s.db with sessions := s.db.sessions.erase tokenHash } }
  | .randomUuid => (∃ uuid, r = .ok uuid) ∧ s' = s
  | .setItem tab value => r = .ok () ∧ s' = s.store client tab (some value)
  | .takeItem tab => r = .ok (s.stored client tab) ∧ s' = s.store client tab none
  | .respond _ => r = .ok () ∧ s' = s

/-- What a command does at a time: a statement can also fail, and then it changes nothing. -/
def Cmd.Executes (hashToken : String → Hash) (client : Client) (c : Cmd) (now : Int) (s : State)
    (r : c.Reply) (s' : State) : Prop :=
  (c.isStatement = true ∧ (∃ message, r = .error (.db message)) ∧ s' = s) ∨
    c.Does hashToken client now s r s'

end Auth

end Sotto
