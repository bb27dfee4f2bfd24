import Sotto.Cli.Commands
import Sotto.Cli.Writes
import Sotto.Library.Threads

/-!
# Syncing with a hostile server

One device pulls and pushes environments of its store, and every response is arbitrary: any
snapshot, any grant, any revision. What an operation writes is still bounded by its own checks.
It writes only to the environment that it opened, and it replaces a row of that environment by
one of a lower version only after it was answered a grant with other bytes than its own.
-/

namespace Sotto

open Core Cli

/-- A device with what its operation has seen. -/
structure Host where
  store : Store
  /-- The store before the operation. -/
  before : Store
  /-- The environment that the operation opened, with its grant. -/
  target : Option (Ident × Bytes)
  /-- The grants that the server answered. -/
  answered : List Bytes
  /-- Whether the operation wrote a secret of another environment. -/
  crossed : Bool

/-- A sync of an environment. -/
inductive SyncOp
  | pull (api : HttpClient) (config : Config)
  | push (api : HttpClient) (master : Bytes) (config : Config)

namespace SyncOp

def action : SyncOp → Action Int
  | pull api config => Cli.pull api config
  | push api master config => Cli.push api master config

end SyncOp

namespace Host

/-- Whether another environment than `envId` holds a secret. -/
def heldElsewhere (envId id : Ident) (store : Store) : Bool :=
  (store.secrets.lookup id).any fun row => row.envId ≠ envId

/-- What a call of the store adds to what the operation has seen. -/
def record (c : StoreCmd) (r : Except Cli.Error c.Reply) (store' : Store) (l : Host) : Host :=
  match c, r with
  | .getEnvironment .., .ok (some (envId, env)) =>
      { l with store := store', target := some (envId, env.encVaultKey) }
  | .putRemoteSecret envId secret, .ok _ =>
      { l with store := store', crossed := l.crossed || heldElsewhere envId secret.id l.store }
  | _, _ => { l with store := store' }

/-- What a response adds to what the operation has seen. -/
def answer (r : Request) (response : Except Cli.Error r.Response) (l : Host) : Host :=
  match r, response with
  | .getGrant .., .ok (some (.valid grant)) => { l with answered := grant :: l.answered }
  | _, _ => l

/-- The executions of a command: the store works or fails without effect, and a response is
anything. -/
def Executes : (c : Call) → Host → c.Reply → Host → Prop
  | .fresh, l, _, l' => l' = l
  | .store c, l, r, l' => (c.exec l.store = (r, l'.store) ∧ l' = l.record c r l'.store) ∨
      ((∃ m, r = .error (.store m)) ∧ l' = l)
  | .http r, l, response, l' => l' = l.answer r response

/-- An undisturbed execution of a command against the answers of a server. -/
def perform (answers : (r : Request) → Except Cli.Error r.Response) (l : Host) :
    (c : Call) → c.Reply × Host
  | .fresh => (⟨0, 0⟩, l)
  | .store c => ((c.exec l.store).1, l.record c (c.exec l.store).1 (c.exec l.store).2)
  | .http r => (answers r, l.answer r (answers r))

@[simp] theorem store_record {c : StoreCmd} {r : Except Cli.Error c.Reply} {store' : Store}
    {l : Host} : (l.record c r store').store = store' := by
  unfold record
  split <;> rfl

theorem executes_perform (answers : (r : Request) → Except Cli.Error r.Response) (c : Call)
    (l : Host) : l.Executes c (l.perform answers c).1 (l.perform answers c).2 := by
  cases c with
  | fresh => rfl
  | store c =>
      refine Or.inl ⟨?_, ?_⟩
      · rw [perform, store_record]
      · rw [perform, store_record]
  | http r => rfl

end Host

/-- The system of one device and a hostile server. -/
def hostile : System Unit Call.Reply Unit Host SyncOp (Except Cli.Error Int) where
  prog _ op := op.action.run
  start _ _ _ l l' := l' = ⟨l.store, l.store, none, [], false⟩
  exec _ c _ l r _ l' := l.Executes c r l'
  finish _ _ _ _ l l' := l' = l

/-- What a command of a sync is bounded by. -/
def Owed (c : Call) (l : Host) : Prop :=
  match c with
  | .store (.getEnvironment ..) => l.target = none ∧ l.answered = []
  | .store (.updateEnvVaultKey envId _) => ∃ grant, l.target = some (envId, grant)
  | .store (.setSyncedRevision envId _) => ∃ grant, l.target = some (envId, grant)
  | .store (.putRemoteSecret envId secret) => ∃ grant, l.target = some (envId, grant) ∧
      ((∃ g ∈ l.answered, g ≠ grant) ∨ ∀ row, l.store.secrets.lookup secret.id = some row →
        row.envId = envId → row.version ≤ secret.version)
  | .store (.vaultSet ..) => False
  | .store (.vaultDelete ..) => False
  | .store (.putIdentityWithKeys _) => False
  | .store (.createProjectWithId ..) => False
  | .store (.createEnvironment ..) => False
  | _ => True

/-- The outline of a sync. -/
def hostileOutline : Outline hostile where
  rely _ _ _ := True
  guar _ c _ l _ := Owed c l
  inv _ := True
  idle _ _ _ := True
  post _ _ _ _ _ := True
  rely_refl _ _ := trivial
  rely_trans _ _ _ _ _ _ := trivial

/-- The setting of a sync. -/
abbrev hostileSetting : Setting Call.Reply Unit Host := hostileOutline.setting ()

/-- An operation that goes on with `Q` or fails. -/
abbrev Syncs {α : Type} (action : Action α) (Q : α → Host → Prop) (l : Host) : Prop :=
  hostileSetting.wpE Prog.perform action (fun a _ => Q a) (fun _ _ _ => True) () l

/-- A device that opened an environment, and nothing but its store and the grants answered has
changed since. -/
structure Host.Onward (l l' : Host) : Prop where
  target : l'.target = l.target
  answered : l.answered ⊆ l'.answered

namespace Host.Onward

variable {l l' l'' : Host}

theorem refl (l : Host) : l.Onward l := ⟨rfl, List.Subset.refl _⟩

theorem trans (h : l.Onward l') (h' : l'.Onward l'') : l.Onward l'' :=
  ⟨h'.target.trans h.target, List.Subset.trans h.answered h'.answered⟩

end Host.Onward

/-! ### Commands -/

section Commands

variable {α β : Type} {l : Host} {envId : Ident} {grant : Bytes}

theorem syncs_bind {action : Action α} {f : α → Action β} {Q : β → Host → Prop}
    (h : Syncs action (fun a l' => Syncs (f a) Q l') l) : Syncs (action >>= f) Q l :=
  Setting.wpE_bind h

theorem syncs_pure {a : α} {Q : α → Host → Prop} (h : Q a l) :
    Syncs (pure a : Action α) Q l :=
  Setting.wpE_pure fun _ _ _ => h

theorem syncs_throw {e : Cli.Error} {Q : α → Host → Prop} :
    Syncs (throw e : Action α) Q l :=
  Setting.wpE_throw fun _ _ _ => trivial

theorem syncs_ofExcept {result : Except Cli.Error α} {Q : α → Host → Prop}
    (h : ∀ a, result = .ok a → Q a l) : Syncs (Action.ofExcept result) Q l := by
  cases result with
  | ok a => exact syncs_pure (h a rfl)
  | error e => exact syncs_throw

theorem syncs_store {c : StoreCmd} {Q : c.Reply → Host → Prop} (howed : Owed (.store c) l)
    (h : ∀ a store', c.exec l.store = (.ok a, store') → Q a (l.record c (.ok a) store')) :
    Syncs (Action.store c) Q l := by
  unfold Syncs Setting.wpE
  change hostileSetting.wp (Prog.expand Prog.perform (Prog.perform (Call.store c))) _ () l
  rw [Prog.expand_perform_eq]
  refine Setting.wp_perform ?_
  intro _ _ _ r _ l' he
  refine ⟨howed, trivial, fun _ _ _ => ?_⟩
  cases r with
  | error e => trivial
  | ok a =>
      rcases he with ⟨hexec, hl'⟩ | ⟨⟨m, hm⟩, -⟩
      · rw [hl']
        exact h a l'.store hexec
      · cases hm

theorem syncs_http {r : Request} {Q : r.Response → Host → Prop}
    (h : ∀ a, Q a (l.answer r (.ok a))) : Syncs (Action.http r) Q l := by
  unfold Syncs Setting.wpE
  change hostileSetting.wp (Prog.expand Prog.perform (Prog.perform (Call.http r))) _ () l
  rw [Prog.expand_perform_eq]
  refine Setting.wp_perform ?_
  intro _ _ _ response _ l' he
  refine ⟨trivial, trivial, fun _ _ _ => ?_⟩
  cases response with
  | error e => trivial
  | ok a =>
      obtain rfl : l' = l.answer r (.ok a) := he
      exact h a

/-- A request that is run to its result. -/
theorem syncs_attempt_http {r : Request} {Q : Except Cli.Error r.Response → Host → Prop}
    (h : ∀ response, Q response (l.answer r response)) :
    Syncs (Action.http r).attempt Q l := by
  refine Setting.wpE_lift ?_
  change hostileSetting.wp (Prog.expand Prog.perform (Prog.perform (Call.http r))) _ () l
  rw [Prog.expand_perform_eq]
  refine Setting.wp_perform ?_
  intro _ _ _ response _ l' he
  obtain rfl : l' = l.answer r response := he
  exact ⟨trivial, trivial, fun _ _ _ => h response⟩

/-- What a push does before its rounds. -/
theorem syncs_prepares {api : HttpClient} {projectId : Ident} {action : Action α}
    {Q : α → Host → Prop} (hp : Prog.UsesE (Prepares api projectId envId) action)
    (hQ : ∀ a, Q a l) : Syncs action Q l := by
  unfold Syncs Setting.wpE
  rw [Prog.expand_perform]
  refine Setting.wp_of_uses (P := Prepares api projectId envId) (D := fun l l' => l' = l)
    (fun _ => rfl) (fun h h' => h'.trans h) ?_ ?_ hp ?_
  · intro c _ l r _ l' hc _ he
    refine ⟨rfl, ?_⟩
    cases hc with
    | keys =>
        rcases he with ⟨hexec, hl'⟩ | ⟨-, hl'⟩
        · have hstore : l.store = l'.store := congrArg Prod.snd hexec
          rw [hl', ← hstore]
          rfl
        · exact hl'
    | _ => exact he
  · intro c _ l hc
    cases hc <;> trivial
  · rintro r _ l' - - rfl
    cases r with
    | ok a => exact hQ a
    | error e => trivial

end Commands

/-! ### Pulls and pushes -/

section Syncs

variable {l : Host} {api : HttpClient} {config : Config} {envId : Ident} {grant : Bytes}

theorem syncs_applySnapshot {force : Bool} {entries : List Api.SecretEntry}
    {Q : Unit → Host → Prop} (hl : l.target = some (envId, grant))
    (hforce : force = true → ∃ g ∈ l.answered, g ≠ grant) (hQ : ∀ l', l.Onward l' → Q () l') :
    Syncs (applySnapshot envId force entries) Q l := by
  induction entries generalizing l with
  | nil => exact syncs_pure (hQ l (Host.Onward.refl l))
  | cons remote rest ih =>
      rw [applySnapshot]
      refine syncs_bind (syncs_store trivial ?_)
      intro found store' hfound
      obtain ⟨hfound', rfl⟩ := Prod.mk.inj hfound
      obtain rfl : l.store.findSecret envId remote.id = found := Except.ok.inj hfound'
      split
      · next happly =>
          refine syncs_bind (syncs_ofExcept fun encName _ => ?_)
          refine syncs_bind (syncs_ofExcept fun encValue _ => ?_)
          refine syncs_bind (syncs_ofExcept fun encDataKey _ => ?_)
          refine syncs_bind (syncs_store ⟨grant, hl, ?_⟩ ?_)
          · cases hf : force with
            | true => exact Or.inl (hforce hf)
            | false =>
                right
                intro row hrow henv
                have hwins : remoteWins remote (l.store.findSecret envId remote.id) = true := by
                  simpa [hf] using happly
                have hrow : l.store.secrets.lookup remote.id = some row := hrow
                simp only [Store.findSecret, hrow, henv, if_true, remoteWins, Store.syncSecret,
                  Bool.or_eq_true, Bool.and_eq_true, decide_eq_true_eq] at hwins
                change row.version ≤ remote.version
                omega
          · intro _ store' _
            exact ih hl hforce fun l' hl' => hQ l' ⟨hl'.target, hl'.answered⟩
      · exact ih hl hforce hQ

theorem syncs_adoptRotation {Q : Bool → Host → Prop} (hl : l.target = some (envId, grant))
    (hQ : ∀ rotated l', l.Onward l' → (rotated = true → ∃ g ∈ l'.answered, g ≠ grant) →
      Q rotated l') : Syncs (adoptRotation api envId grant) Q l := by
  refine syncs_bind (syncs_http ?_)
  intro response
  cases response with
  | none =>
      refine syncs_pure (hQ false _ (Host.Onward.refl l) ?_)
      intro h
      cases h
  | some grantB64 =>
      refine syncs_bind (syncs_ofExcept ?_)
      intro answered hdecode
      cases grantB64 with
      | malformed text => cases hdecode
      | valid bytes =>
          obtain rfl : bytes = answered := Except.ok.inj hdecode
          have honward :
              l.Onward (l.answer (.getGrant api.userId envId) (.ok (some (.valid bytes)))) :=
            ⟨rfl, List.subset_cons_self _ _⟩
          split
          · refine syncs_pure (hQ false _ honward ?_)
            intro h
            cases h
          · next hne =>
              refine syncs_bind (syncs_store ⟨grant, hl⟩ ?_)
              intro _ store' _
              exact syncs_pure (hQ true _ ⟨rfl, List.subset_cons_self _ _⟩
                fun _ => ⟨bytes, List.mem_cons_self, hne⟩)

theorem syncs_adoptIfOrg {Q : Bool → Host → Prop} (hl : l.target = some (envId, grant))
    (hQ : ∀ rotated l', l.Onward l' → (rotated = true → ∃ g ∈ l'.answered, g ≠ grant) →
      Q rotated l') : Syncs (adoptIfOrg api config envId grant) Q l := by
  unfold adoptIfOrg
  split
  · exact syncs_adoptRotation hl hQ
  · refine syncs_pure (hQ false l (Host.Onward.refl l) ?_)
    intro h
    cases h

theorem syncs_grantChanged {Q : Bool → Host → Prop}
    (hQ : ∀ changed l', l.Onward l' → Q changed l') :
    Syncs (grantChanged api envId grant) Q l := by
  refine syncs_bind (syncs_http ?_)
  intro response
  cases response with
  | none => exact syncs_pure (hQ true _ (Host.Onward.refl l))
  | some grantB64 =>
      refine syncs_bind (syncs_ofExcept ?_)
      intro answered hdecode
      cases grantB64 with
      | malformed text => cases hdecode
      | valid bytes => exact syncs_pure (hQ _ _ ⟨rfl, List.subset_cons_self _ _⟩)

theorem syncs_changedIfOrg {Q : Bool → Host → Prop}
    (hQ : ∀ changed l', l.Onward l' → Q changed l') :
    Syncs (changedIfOrg api config envId grant) Q l := by
  unfold changedIfOrg
  split
  · exact syncs_grantChanged hQ
  · exact syncs_pure (hQ false l (Host.Onward.refl l))

/-- A sync that goes on with its environment opened. -/
theorem syncs_resolveEnv {Q : Ident × Environment → Host → Prop} (hl : l.target = none)
    (hanswered : l.answered = [])
    (hQ : ∀ envId env l', l'.target = some (envId, env.encVaultKey) → Q (envId, env) l') :
    Syncs (resolveEnv config) Q l := by
  refine syncs_bind (syncs_store ⟨hl, hanswered⟩ ?_)
  intro found store' _
  cases found with
  | none => exact syncs_throw
  | some env =>
      obtain ⟨envId, env⟩ := env
      exact syncs_pure (hQ envId env _ rfl)

theorem syncs_pull (hl : l.target = none) (hanswered : l.answered = []) :
    Syncs (Cli.pull api config) (fun _ _ => True) l := by
  refine syncs_bind (syncs_resolveEnv hl hanswered ?_)
  intro envId env l₁ h₁
  refine syncs_bind (syncs_store trivial ?_)
  intro base store' hbase
  refine syncs_bind (syncs_http ?_)
  intro snapshot
  cases snapshot with
  | none => exact syncs_pure trivial
  | some snapshot =>
      refine syncs_bind (syncs_adoptIfOrg h₁ ?_)
      intro rotated l₂ h₂ hrotated
      refine syncs_bind (syncs_applySnapshot (h₂.target.trans h₁) hrotated ?_)
      intro l₃ h₃
      refine syncs_bind (syncs_store ⟨env.encVaultKey, h₃.target.trans (h₂.target.trans h₁)⟩ ?_)
      intro _ _ _
      exact syncs_pure trivial

theorem syncs_pushLoop {attempts : Nat} (hl : l.target = some (envId, grant)) :
    Syncs (pushLoop api config envId grant attempts) (fun _ _ => True) l := by
  induction attempts generalizing l with
  | zero => exact syncs_throw
  | succ attempts ih =>
      rw [pushLoop]
      refine syncs_bind (syncs_bind (syncs_http ?_))
      intro snapshot
      cases snapshot with
      | none => exact syncs_throw
      | some snapshot =>
          refine syncs_pure (syncs_bind (syncs_applySnapshot hl (by simp) ?_))
          intro l₁ h₁
          have hl₁ := h₁.target.trans hl
          refine syncs_bind (syncs_store ⟨grant, hl₁⟩ ?_)
          intro _ store' _
          refine syncs_bind (syncs_bind (syncs_store trivial ?_))
          intro locals store'' _
          refine syncs_pure ?_
          split
          · refine syncs_bind (syncs_adoptIfOrg hl₁ ?_)
            intro rotated l₂ h₂ hrotated
            split
            · refine syncs_bind (syncs_applySnapshot (h₂.target.trans hl₁) ?_ ?_)
              · intro _
                exact hrotated (by assumption)
              · intro l₃ _
                exact syncs_pure trivial
            · exact syncs_pure trivial
          · refine syncs_bind (syncs_changedIfOrg ?_)
            intro changed l₂ h₂
            have hl₂ := h₂.target.trans hl₁
            split
            · exact syncs_bind syncs_throw
            · refine syncs_bind (syncs_attempt_http ?_)
              intro response
              split
              · refine syncs_bind (syncs_store ⟨grant, hl₂⟩ ?_)
                intro _ _ _
                exact syncs_pure trivial
              · exact ih hl₂
              · exact syncs_throw

theorem syncs_push {master : Bytes} (hl : l.target = none) (hanswered : l.answered = []) :
    Syncs (Cli.push api master config) (fun _ _ => True) l := by
  refine syncs_bind (syncs_resolveEnv hl hanswered ?_)
  intro envId env l₁ h₁
  refine syncs_bind (syncs_store trivial ?_)
  intro project store' _
  cases project with
  | none => exact syncs_throw
  | some projectName =>
      refine syncs_bind (syncs_prepares
        (prepares_ensureAccount : Prog.UsesE (Prepares api config.projectId envId) _) fun _ => ?_)
      refine syncs_bind (syncs_prepares
        (prepares_nameKey : Prog.UsesE (Prepares api config.projectId envId) _) fun key => ?_)
      refine syncs_bind (syncs_prepares prepares_ensureProjectEnv fun _ => ?_)
      exact syncs_pushLoop h₁

end Syncs

theorem hostile_valid : hostileOutline.Valid where
  start := by
    intro _ op _ l l' _ _ hl
    obtain rfl : l' = ⟨l.store, l.store, none, [], false⟩ := hl
    have hsync : Syncs op.action (fun _ _ => True) ⟨l.store, l.store, none, [], false⟩ := by
      cases op with
      | pull api config => exact syncs_pull rfl rfl
      | push api master config => exact syncs_push rfl rfl
    unfold Syncs Setting.wpE at hsync
    rw [Prog.expand_perform] at hsync
    exact Setting.wp_mono hsync fun _ _ _ _ _ => trivial
  finish := fun _ _ _ => trivial
  guar_rely := fun _ _ _ => trivial
  idle_stable := fun _ _ _ _ => trivial

/-- A device of the system, idle or in an operation. -/
abbrev HostWorld := Config Unit Call.Reply Unit Host SyncOp (Except Cli.Error Int)

/-- An idle device with a store. -/
def hostIdle (store : Store) : HostWorld :=
  ⟨(), fun _ => ⟨⟨store, store, none, [], false⟩, none⟩⟩

/-- The handler of commands against the answers of a server. -/
def hostHandle (answers : (r : Request) → Except Cli.Error r.Response) (c : Call)
    (t : Unit × Host) : c.Reply × Unit × Host :=
  ((t.2.perform answers c).1, (), (t.2.perform answers c).2)

/-- The result of an operation against the answers of a server, and the device after it. -/
def hostRun (answers : (r : Request) → Except Cli.Error r.Response) (op : SyncOp)
    (store : Store) : Except Cli.Error Int × Unit × Host :=
  op.action.run.run (hostHandle answers) ((), ⟨store, store, none, [], false⟩)

/-- A device at the end of an operation. -/
def hostAfter (answers : (r : Request) → Except Cli.Error r.Response) (op : SyncOp)
    (store : Store) : HostWorld :=
  ⟨(), fun _ => ⟨(hostRun answers op store).2.2, some (op, .ret (hostRun answers op store).1)⟩⟩

/-- An operation whose commands pass a check is a run under a condition that they meet. -/
theorem restrict_hostAfter {K} {answers : (r : Request) → Except Cli.Error r.Response}
    {op : SyncOp} {store : Store} {check : Call → Host → Bool}
    (hstart : K.start () op () ⟨store, store, none, [], false⟩)
    (hcheck : ∀ c l, check c l →
      K.exec () c () l (l.perform answers c).1 () (l.perform answers c).2)
    (hp : op.action.run.passes (hostHandle answers) (fun c t => check c t.2)
      ((), ⟨store, store, none, [], false⟩)) :
    (hostile.restrict K).Reaches (hostIdle store) (hostAfter answers op store) := by
  let begun : HostWorld := ⟨(), fun _ => ⟨⟨store, store, none, [], false⟩,
    some (op, hostile.prog () op)⟩⟩
  have hbegin : (hostile.restrict K).Step (hostIdle store) begun := by
    have h : (hostile.restrict K).Step (hostIdle store)
        ⟨(), Function.update (hostIdle store).threads () (begun.threads ())⟩ :=
      .start rfl ⟨rfl, hstart⟩
    have hbegun : begun = ⟨(), Function.update (hostIdle store).threads () (begun.threads ())⟩ := by
      congr 1
    rw [hbegun]
    exact h
  have halone : System.Alone ((hostile.restrict K).exec ()) (hostile.prog () op) ()
      ⟨store, store, none, [], false⟩ (hostRun answers op store).1 (hostRun answers op store).2.1
      (hostRun answers op store).2.2 :=
    System.Alone.of_passes (S := Unit)
      (fun c t ht => ⟨Host.executes_perform answers c t.2, hcheck c t.2 ht⟩) hp
  have hrest : (hostile.restrict K).Reaches begun ⟨(), Function.update begun.threads ()
      ⟨(hostRun answers op store).2.2, some (op, .ret (hostRun answers op store).1)⟩⟩ :=
    halone.reaches rfl rfl
  have hend : hostAfter answers op store = ⟨(), Function.update begun.threads ()
      ⟨(hostRun answers op store).2.2, some (op, .ret (hostRun answers op store).1)⟩⟩ := by
    rw [hostAfter]
    congr 1
  rw [hend]
  exact hrest.head hbegin

theorem reaches_hostAfter (answers : (r : Request) → Except Cli.Error r.Response) (op : SyncOp)
    (store : Store) : hostile.Reaches (hostIdle store) (hostAfter answers op store) := by
  let K : System.Condition Unit Call.Reply Unit Host SyncOp (Except Cli.Error Int) :=
    ⟨fun _ _ _ _ => True, fun _ _ _ _ _ _ _ => True, fun _ _ _ _ _ => True⟩
  let check : Call → Host → Bool := fun _ _ => true
  have hpasses : op.action.run.passes (hostHandle answers) (fun c t => check c t.2)
      ((), ⟨store, store, none, [], false⟩) := Prog.passes_of_forall (fun _ _ => rfl) _ _
  have hany : (hostile.restrict K).Reaches (hostIdle store) (hostAfter answers op store) :=
    restrict_hostAfter trivial (fun _ _ _ => trivial) hpasses
  exact hany.of_restrict

/-- A server that answers every snapshot with one secret, and every request for a grant. -/
def answersSecret (entry : Api.SecretEntry) (grant : Option Base64) :
    (r : Request) → Except Cli.Error r.Response
  | .snapshot .. => .ok (some ⟨1, [entry]⟩)
  | .getGrant .. => .ok grant
  | _ => .error (.network "connection closed")

theorem hostile_good (store : Store) : hostileOutline.Good (hostIdle store) :=
  ⟨trivial, fun _ => trivial⟩

/-- What the next command of a sync does: it opens an environment, receives a grant, or writes
to the environment that it opened. -/
inductive Host.Takes (l : Host) : (c : Call) → c.Reply → Host → Prop
  | nothing {c : Call} {r : c.Reply} : Host.Takes l c r l
  | opened {c : Call} {r : c.Reply} {envId : Ident} {grant : Bytes} : l.target = none →
      l.answered = [] → Host.Takes l c r { l with target := some (envId, grant) }
  | answered {userId envId : Ident} {grant : Bytes} :
      Host.Takes l (.http (.getGrant userId envId)) (.ok (some (.valid grant)))
        { l with answered := grant :: l.answered }
  | granted {c : Call} {r : c.Reply} {envId : Ident} {grant grant' : Bytes} :
      l.target = some (envId, grant) →
      Host.Takes l c r { l with store := l.store.withGrant envId grant' }
  | synced {c : Call} {r : c.Reply} {envId : Ident} {grant : Bytes} {revision : Int} :
      l.target = some (envId, grant) →
      Host.Takes l c r { l with store := l.store.withRevision envId revision }
  | replaced {envId : Ident} {grant : Bytes} {secret : SyncSecret} {r} :
      l.target = some (envId, grant) →
      ((∃ g ∈ l.answered, g ≠ grant) ∨ ∀ row, l.store.secrets.lookup secret.id = some row →
        row.envId = envId → row.version ≤ secret.version) →
      Host.Takes l (.store (.putRemoteSecret envId secret)) r
        { l with
          store := l.store.replaceSecret envId secret
          crossed := l.crossed || Host.heldElsewhere envId secret.id l.store }

theorem Owed.takes_store {c : StoreCmd} {l : Host} {r : Except Cli.Error c.Reply} {store' : Store}
    (h : Owed (.store c) l) (he : c.exec l.store = (r, store')) :
    l.Takes (.store c) r (l.record c r store') := by
  cases c with
  | getEnvironment projectId name =>
      obtain ⟨rfl, rfl⟩ := Prod.mk.inj he
      cases hfound : l.store.getEnvironment projectId name with
      | none => exact .nothing
      | some found => exact .opened h.1 h.2
  | updateEnvVaultKey envId encVaultKey =>
      obtain ⟨grant, htarget⟩ := h
      rcases StoreCmd.write_cases (l.store.updateEnvVaultKey envId encVaultKey) l.store with
        ⟨store'', hstore, hwrite⟩ | ⟨e, hwrite⟩
      · obtain ⟨rfl, rfl⟩ := Prod.mk.inj (hwrite.symm.trans he)
        rw [Store.updateEnvVaultKey_eq_ok hstore]
        exact .granted htarget
      · obtain ⟨rfl, rfl⟩ := Prod.mk.inj (hwrite.symm.trans he)
        exact .nothing
  | putRemoteSecret envId secret =>
      obtain ⟨grant, htarget, hversion⟩ := h
      rcases StoreCmd.write_cases (l.store.putRemoteSecret envId secret) l.store with
        ⟨store'', hstore, hwrite⟩ | ⟨e, hwrite⟩
      · obtain ⟨rfl, rfl⟩ := Prod.mk.inj (hwrite.symm.trans he)
        rw [Store.putRemoteSecret_eq_ok hstore]
        exact .replaced htarget hversion
      · obtain ⟨rfl, rfl⟩ := Prod.mk.inj (hwrite.symm.trans he)
        exact .nothing
  | setSyncedRevision envId revision =>
      obtain ⟨grant, htarget⟩ := h
      rcases StoreCmd.write_cases (l.store.setSyncedRevision envId revision) l.store with
        ⟨store'', hstore, hwrite⟩ | ⟨e, hwrite⟩
      · obtain ⟨rfl, rfl⟩ := Prod.mk.inj (hwrite.symm.trans he)
        rw [Store.setSyncedRevision_eq_ok hstore]
        exact .synced htarget
      · obtain ⟨rfl, rfl⟩ := Prod.mk.inj (hwrite.symm.trans he)
        exact .nothing
  | vaultSet => exact h.elim
  | vaultDelete => exact h.elim
  | putIdentityWithKeys => exact h.elim
  | createProjectWithId => exact h.elim
  | createEnvironment => exact h.elim
  | _ =>
      obtain ⟨rfl, rfl⟩ := Prod.mk.inj he
      exact .nothing

theorem Owed.takes {c : Call} {l l' : Host} {r : c.Reply} (h : Owed c l)
    (he : l.Executes c r l') : l.Takes c r l' := by
  cases c with
  | fresh =>
      obtain rfl : l' = l := he
      exact .nothing
  | store c =>
      rcases he with ⟨hexec, hl'⟩ | ⟨-, rfl⟩
      · rw [hl']
        exact h.takes_store hexec
      · exact .nothing
  | http q =>
      obtain rfl : l' = l.answer q r := he
      unfold Host.answer
      split
      · exact .answered
      · exact .nothing

/-- Every command of a sync in a run is bounded, also in a run under a condition. -/
theorem hostile_bounded {K} {store : Store} {w : HostWorld}
    (hw : (hostile.restrict K).Reaches (hostIdle store) w) :
    ((hostile.restrict hostileOutline.condition).restrict K).Reaches (hostIdle store) w :=
  (hostile_good store).restrict_condition hostile_valid hw

end Sotto
