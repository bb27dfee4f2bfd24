import Sotto.Properties.Login

/-!
# Cookies of logins that began elsewhere

A callback sets a session cookie in whatever browser opens it: the state that a browser has drawn
for its login is compared by the page that is loaded afterwards. So a browser gets the session of a
login that it has not begun. Where the comparison would succeed before, it has begun the login.
-/

namespace Sotto

namespace Auth

section Origin

variable {ι : Type*}

/-- The browser in which a callback sets a session cookie, and the state that it consumes. -/
def cookieSet (e : Event ι Cmd.Reply Op) : Option (Nat × String) :=
  match e.op.client, e.op.action, e.cmd with
  | .browser b, .callback params, .respond (.ok (.redirect _ (some _))) => some (b, params.state)
  | _, _, _ => none

/-- The state of a login that is begun, and who begins it. -/
def begunBy (e : Event ι Cmd.Reply Op) : Option (String × Client) :=
  (began e.time (did e)).map fun x => (x.1, e.op.client)

/-- A session cookie is set only in a browser that began the login. -/
def CookiesBound (log : List (Event ι Cmd.Reply Op)) : Prop :=
  ∀ e ∈ log, ∀ b state, cookieSet e = some (b, state) →
    ∃ e₀ ∈ log, begunBy e₀ = some (state, .browser b)

/-- The value that a browser draws for a login. -/
def drewBy (e : Event ι Cmd.Reply Op) : Option (Nat × String) :=
  match e.op.client, did e with
  | .browser b, ⟨.randomUuid, .ok uuid⟩ => some (b, uuid)
  | _, _ => none

/-- The client's own state of a login that is begun, and who begins it. -/
def begunState (e : Event ι Cmd.Reply Op) : Option (String × Client) :=
  (began e.time (did e)).map fun x => (x.2.cliState, e.op.client)

/-- Whether a login is redirected to the web origin. -/
def isWebLogin (env : Env) (app : AppState) (uri : String) : Bool :=
  app.oauthConfig.any fun config =>
    (env.parseUrl uri).any fun url => isWebRedirect env url config.webOrigin

/-- The browser that consumes a web login, and the client's own state of the login. -/
def consumedState (env : Env) (app : AppState) (e : Event ι Cmd.Reply Op) : Option (Nat × String) :=
  match e.op.client, took (did e) with
  | .browser b, some (_, x) =>
      if isWebLogin env app x.cliRedirectUri then some (b, x.cliState) else none
  | _, _ => none

/-- What a browser draws is new, and nobody else begins a login with it. -/
def Unguessed (earlier : List (Event ι Cmd.Reply Op)) (e : Event ι Cmd.Reply Op) : Prop :=
  (∀ y ∈ begunState e, ∀ z ∈ earlier.filterMap drewBy, z.2 = y.1 → y.2 = .browser z.1) ∧
    ∀ z ∈ drewBy e, ∀ y ∈ earlier.filterMap begunState, y.1 ≠ z.2

/-- A browser consumes a web login only with a state that it has drawn. -/
def Compared (env : Env) (app : AppState) (earlier : List (Event ι Cmd.Reply Op))
    (e : Event ι Cmd.Reply Op) : Prop :=
  ∀ y ∈ consumedState env app e, y ∈ earlier.filterMap drewBy

instance (earlier : List (Event ι Cmd.Reply Op)) (e : Event ι Cmd.Reply Op) :
    Decidable (Unguessed earlier e) :=
  inferInstanceAs (Decidable (_ ∧ _))

instance (env : Env) (app : AppState) (earlier : List (Event ι Cmd.Reply Op))
    (e : Event ι Cmd.Reply Op) : Decidable (Compared env app earlier e) :=
  inferInstanceAs (Decidable (∀ y ∈ consumedState env app e, y ∈ earlier.filterMap drewBy))

/-- Every command of a log meets a condition after the commands before it. -/
def Always {E : Type*} (P : List E → E → Prop) : List E → Prop
  | [] => True
  | e :: earlier => P earlier e ∧ Always P earlier

instance Always.decidable {E : Type*} (P : List E → E → Prop) [∀ l e, Decidable (P l e)] :
    (log : List E) → Decidable (Always P log)
  | [] => inferInstanceAs (Decidable True)
  | e :: earlier =>
      have := Always.decidable P earlier
      inferInstanceAs (Decidable (P earlier e ∧ Always P earlier))

/-- A login with a state that a browser has drawn was begun by that browser. -/
theorem begun_of_drawn {log : List (Event ι Cmd.Reply Op)} (h : Always Unguessed log) {b : Nat}
    {uuid : String} (hdrawn : (b, uuid) ∈ log.filterMap drewBy) {client : Client}
    (hbegun : (uuid, client) ∈ log.filterMap begunState) : client = .browser b := by
  induction log with
  | nil => cases hdrawn
  | cons e log ih =>
      obtain ⟨⟨hbegins, hdraws⟩, hlog⟩ := h
      obtain ⟨e₁, he₁, hdrew⟩ := List.mem_filterMap.1 hdrawn
      obtain ⟨e₂, he₂, hstate⟩ := List.mem_filterMap.1 hbegun
      rcases List.mem_cons.1 he₁ with rfl | hlog₁ <;> rcases List.mem_cons.1 he₂ with rfl | hlog₂
      · -- no command does both
        obtain ⟨who, op, t, c, r⟩ := e₂
        cases c <;> try cases hstate
        rw [drewBy] at hdrew
        split at hdrew
        · next heq => cases heq
        · cases hdrew
      · exact absurd rfl (hdraws _ hdrew _ (List.mem_filterMap.2 ⟨e₂, hlog₂, hstate⟩))
      · exact hbegins _ hstate _ (List.mem_filterMap.2 ⟨e₁, hlog₁, hdrew⟩) rfl
      · exact ih hlog (List.mem_filterMap.2 ⟨e₁, hlog₁, hdrew⟩)
          (List.mem_filterMap.2 ⟨e₂, hlog₂, hstate⟩)

theorem drawn_of_consumed {env : Env} {app : AppState} {log : List (Event ι Cmd.Reply Op)}
    (h : Always (Compared env app) log) {e : Event ι Cmd.Reply Op} (he : e ∈ log)
    {y : Nat × String} (hy : consumedState env app e = some y) : y ∈ log.filterMap drewBy := by
  induction log with
  | nil => cases he
  | cons e' log ih =>
      have hmem : y ∈ log.filterMap drewBy := by
        rcases List.mem_cons.1 he with rfl | he
        · exact h.1 y hy
        · exact ih h.2 he
      obtain ⟨e₁, he₁, hdrew⟩ := List.mem_filterMap.1 hmem
      exact List.mem_filterMap.2 ⟨e₁, List.mem_cons_of_mem _ he₁, hdrew⟩

variable [DecidableEq ι] {env : Env} {app : AppState}

/-- In every run in which each browser consumes web logins only with a state that it has drawn, a
session cookie is set only in the browser that began the login. -/
theorem cookies_bound {w₀ w : Config ι Cmd.Reply (Logged ι Cmd.Reply State Op) (Option Op) Op
    (Except Error Unit)} (hopening : Service.Opening w₀) (hinitial : w₀.shared.state.Initial)
    (h : (service env app).system.Reaches w₀ w) (hunguessed : Always Unguessed w.shared.log)
    (hcompared : Always (Compared env app) w.shared.log) : CookiesBound w.shared.log := by
  have hrun := Service.run_of_reaches (service_traces env app) hopening h
  intro e he b state hcookie
  -- the callback has handed over a login in a cookie
  have hanswer : e.op.client = .browser b ∧ ∃ params location cookie,
      e.op.action = .callback params ∧ params.state = state ∧
      e.cmd = .respond (.ok (.redirect location (some cookie))) := by
    rw [cookieSet] at hcookie
    split at hcookie <;> cases hcookie
    next haction hcmd hclient => exact ⟨hclient, _, _, _, haction, rfl, hcmd⟩
  obtain ⟨hclient, params, location, cookie, haction, rfl, hcmd⟩ := hanswer
  obtain ⟨l, hl, hissues⟩ := hrun.issued he
  rw [hcmd] at hissues
  change Answers env app e.op.action l _ at hissues
  rw [haction] at hissues
  obtain ⟨x, htook, hover⟩ := hissues
  have hweb : isWebLogin env app x.cliRedirectUri = true := by
    cases hover with
    | cookie hconfig hurl hweb _ => simp [isWebLogin, hconfig, hurl, hweb]
  -- it took the login in this browser
  obtain ⟨params', haction', hmem, -⟩ := htook
  cases haction'
  obtain ⟨e₁, he₁, hwho, heq⟩ := mem_own.1 (hl _ hmem)
  have htook : took (did e₁) = some (params.state, x) := by
    rw [did, heq]
    rfl
  have hclient₁ : e₁.op.client = .browser b := by
    rw [hrun.op_eq he₁ he hwho]
    exact hclient
  have hconsumed : consumedState env app e₁ = some (b, x.cliState) := by
    simp [consumedState, hclient₁, htook, hweb]
  have hdrawn := drawn_of_consumed hcompared he₁ hconsumed
  -- and the login was begun with its state
  obtain ⟨later, earlier, hlog⟩ := List.append_of_mem he₁
  obtain ⟨e₀, he₀, login, hbegan, rfl⟩ := began_of_took hinitial (hlog ▸ hrun) htook
  have hmem₀ : e₀ ∈ w.shared.log := by
    rw [hlog]
    exact List.mem_append_right _ (List.mem_cons_of_mem _ he₀)
  have hbegun : (login.cliState, e₀.op.client) ∈ w.shared.log.filterMap begunState :=
    List.mem_filterMap.2 ⟨e₀, hmem₀, by rw [begunState, hbegan, Option.map_some]⟩
  refine ⟨e₀, hmem₀, ?_⟩
  rw [begunBy, hbegan, Option.map_some, begun_of_drawn hunguessed hdrawn hbegun]

end Origin

/-! ### Two logins of the web

One is begun in the browser that opens the callback, the other by somebody else. -/

namespace Trial

def honestRequests : List (Nat × Op × Int) :=
  [(0, ⟨.browser 0, .startLogin 0 "https://app.sotto.dev"⟩, 0),
    (1, ⟨.browser 0, .callback ⟨"alice", randomState (raw 0)⟩⟩, 5)]

def forgedRequests : List (Nat × Op × Int) :=
  [(0, ⟨.program, .login ⟨"https://app.sotto.dev/auth/callback", "mallory", none⟩⟩, 0),
    (1, ⟨.browser 0, .callback ⟨"mallory", randomState (raw 0)⟩⟩, 5)]

end Trial

theorem cookies_bound_honest : ∃ w, (service Trial.env Trial.app).system.Reaches Trial.opening w ∧
    w.shared.log.filterMap cookieSet = [(0, randomState (Trial.raw 0))] ∧
      CookiesBound w.shared.log := by
  have hserves : (backend Trial.env Trial.app).servesAll Trial.honestRequests
      Trial.opening.shared = true := by
    decide +kernel
  have hmeets : Always Unguessed ((backend Trial.env Trial.app).serveAll Trial.honestRequests
      Trial.opening.shared).log ∧ Always (Compared Trial.env Trial.app)
      ((backend Trial.env Trial.app).serveAll Trial.honestRequests Trial.opening.shared).log ∧
      ((backend Trial.env Trial.app).serveAll Trial.honestRequests
        Trial.opening.shared).log.filterMap cookieSet = [(0, randomState (Trial.raw 0))] := by
    decide +kernel
  obtain ⟨w, hreach, hw⟩ := Service.Backend.reaches_serveAll (fun _ _ => ⟨rfl, rfl⟩)
    (by decide) hserves
  rw [← hw] at hmeets
  exact ⟨w, hreach, hmeets.2.2, cookies_bound Trial.opening_opening Trial.start_initial hreach
    hmeets.1 hmeets.2.1⟩

/-- A browser that opens the callback of a login that somebody else began gets its session. -/
theorem cookies_bound_not : ∃ w, (service Trial.env Trial.app).system.Reaches Trial.opening w ∧
    Always Unguessed w.shared.log ∧ ¬ CookiesBound w.shared.log := by
  have hserves : (backend Trial.env Trial.app).servesAll Trial.forgedRequests
      Trial.opening.shared = true := by
    decide +kernel
  have hlog : Always Unguessed ((backend Trial.env Trial.app).serveAll Trial.forgedRequests
      Trial.opening.shared).log ∧
      ((backend Trial.env Trial.app).serveAll Trial.forgedRequests
        Trial.opening.shared).log.filterMap cookieSet = [(0, randomState (Trial.raw 0))] ∧
      ((backend Trial.env Trial.app).serveAll Trial.forgedRequests
        Trial.opening.shared).log.filterMap begunBy = [(randomState (Trial.raw 0), .program)] := by
    decide +kernel
  obtain ⟨w, hreach, hw⟩ := Service.Backend.reaches_serveAll (fun _ _ => ⟨rfl, rfl⟩)
    (by decide) hserves
  rw [← hw] at hlog
  obtain ⟨hunguessed, hcookie, hbegun⟩ := hlog
  refine ⟨w, hreach, hunguessed, fun hbound => ?_⟩
  have hset : ((0 : Nat), randomState (Trial.raw 0)) ∈ w.shared.log.filterMap cookieSet := by
    rw [hcookie]
    exact List.mem_singleton_self _
  obtain ⟨e, he, heq⟩ := List.mem_filterMap.1 hset
  obtain ⟨e₀, he₀, hbegun₀⟩ := hbound e he _ _ heq
  have hmem : (randomState (Trial.raw 0), Client.browser 0) ∈ w.shared.log.filterMap begunBy :=
    List.mem_filterMap.2 ⟨e₀, he₀, hbegun₀⟩
  rw [hbegun, List.mem_singleton] at hmem
  cases hmem

end Auth

end Sotto
