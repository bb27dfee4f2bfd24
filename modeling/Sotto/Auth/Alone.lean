import Sotto.Auth.Routes

/-!
# A server that is used alone

The answers of the commands of requests that are served one after another, without failures: the
provider answers a code with the account of that name, and the random bytes count the draws.
-/

namespace Sotto

namespace Auth

open Core (Ident)

variable (env : Env) (app : AppState)

/-- The bytes of the next draw. -/
def nextRaw (s : State) : List UInt8 := List.replicate 31 0 ++ [UInt8.ofNat s.drawn.length]

/-- How a command is answered. -/
def answer (op : Op) (c : Cmd) (now : Int) (s : State) : c.Reply × State :=
  match c with
  | .pruneLogins => (.ok (), { s with db := { s.db with
      logins := s.db.logins.filterRows fun _ l => ! decide (l.createdAt < now - loginFreshness) } })
  | .random => (.ok (nextRaw s), { s with drawn := nextRaw s :: s.drawn })
  | .insertLogin state uri cliState wants => (.ok (), { s with db := { s.db with
      logins := AList.insert state ⟨uri, cliState, now, wants⟩ s.db.logins } })
  | .takeLogin state => (.ok ((s.db.logins.lookup state).map (·.taken now)),
      { s with db := { s.db with logins := s.db.logins.erase state } })
  | .exchangeCode code => (.ok ⟨"github", code, none⟩, s)
  | .newUuid => (.ok (.uuid ⟨0, s.drawn.length⟩), s)
  | .upsertUser id identity =>
      match s.db.users.lookup identity.key with
      | some user => (.ok user.id, { s with db := { s.db with
          users := s.db.users.modify identity.key fun u =>
            { u with email := identity.email <|> u.email } } })
      | none => (.ok id, { s with db := { s.db with
          users := AList.insert identity.key ⟨id, identity.email⟩ s.db.users } })
  | .pruneCodes => (.ok (), { s with db := { s.db with
      codes := s.db.codes.filterRows fun _ c => ! decide (c.expiresAt ≤ now) } })
  | .insertCode codeHash userId cliState => (.ok (), { s with db := { s.db with
      codes := AList.insert codeHash ⟨userId, cliState, now + codeTtl⟩ s.db.codes } })
  | .takeCode codeHash cliState =>
      match s.db.codes.lookup codeHash with
      | some code =>
          if code.cliState = cliState ∧ now < code.expiresAt then
            (.ok (some code.userId),
              { s with db := { s.db with codes := s.db.codes.erase codeHash } })
          else (.ok none, s)
      | none => (.ok none, s)
  | .insertSession tokenHash userId legacy => (.ok (), { s with db := { s.db with
      sessions := AList.insert tokenHash ⟨userId, now, now + sessionTtl, legacy⟩ s.db.sessions } })
  | .touchSession tokenHash =>
      match s.db.sessions.lookup tokenHash with
      | some session =>
          if now < session.expiresAt then
            (.ok (some session.userId), { s with db := { s.db with
              sessions := s.db.sessions.modify tokenHash fun x => { x with lastUsedAt := now } } })
          else (.ok none, s)
      | none => (.ok none, s)
  | .deleteSession tokenHash =>
      (.ok (), { s with db := { s.db with sessions := s.db.sessions.erase tokenHash } })
  | .randomUuid => (.ok (randomState (nextRaw s)), s)
  | .setItem tab value => (.ok (), s.store op.client tab (some value))
  | .takeItem tab => (.ok (s.stored op.client tab), s.store op.client tab none)
  | .respond _ => (.ok (), s)

/-- Whether a command can be answered so. -/
def allowed (_ : Op) (c : Cmd) (_ : Int) (s : State) : Bool :=
  match c with
  | .random => decide (∀ raw' ∈ s.drawn, ¬ Clash env.hashToken (nextRaw s) raw')
  | .insertLogin state _ _ _ => (s.db.logins.lookup state).isNone
  | .upsertUser id _ => s.db.users.entries.all fun e => decide (e.2.id ≠ id)
  | .insertCode codeHash _ _ => (s.db.codes.lookup codeHash).isNone
  | .insertSession tokenHash _ _ => (s.db.sessions.lookup tokenHash).isNone
  | _ => true

theorem does_answer {op : Op} {c : Cmd} {now : Int} {s : State}
    (h : allowed env op c now s = true) : c.Does env.hashToken op.client now s
      (answer op c now s).1 (answer op c now s).2 := by
  cases c with
  | random =>
      exact ⟨nextRaw s, rfl, by simp [nextRaw], of_decide_eq_true h, rfl⟩
  | insertLogin state uri cliState wants => exact ⟨rfl, Option.isNone_iff_eq_none.1 h, rfl⟩
  | upsertUser id identity =>
      cases hrow : s.db.users.lookup identity.key with
      | some user =>
          simp [Cmd.Does, answer, hrow]
      | none =>
          simp only [Cmd.Does, answer, hrow]
          refine ⟨trivial, fun k u hu => ?_, trivial⟩
          exact of_decide_eq_true (List.all_eq_true.1 h _ (AList.mem_lookup_iff.1 hu))
  | insertCode codeHash userId cliState => exact ⟨rfl, Option.isNone_iff_eq_none.1 h, rfl⟩
  | takeCode codeHash cliState =>
      cases hrow : s.db.codes.lookup codeHash with
      | some row =>
          simp only [Cmd.Does, answer, hrow]
          split <;> exact ⟨rfl, rfl⟩
      | none =>
          simp [Cmd.Does, answer, hrow]
  | insertSession tokenHash userId legacy => exact ⟨rfl, Option.isNone_iff_eq_none.1 h, rfl⟩
  | touchSession tokenHash =>
      cases hrow : s.db.sessions.lookup tokenHash with
      | some row =>
          simp only [Cmd.Does, answer, hrow]
          split <;> exact ⟨rfl, rfl⟩
      | none =>
          simp [Cmd.Does, answer, hrow]
  | exchangeCode code => rfl
  | newUuid => exact ⟨⟨_, rfl⟩, rfl⟩
  | randomUuid => exact ⟨⟨_, rfl⟩, rfl⟩
  | _ => exact ⟨rfl, rfl⟩

/-- The answers of the commands. -/
def backend : Service.Backend (service env app) where
  answer := answer
  allowed := allowed env
  sound h := .inr (does_answer env h)

end Auth

end Sotto
