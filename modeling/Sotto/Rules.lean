import Sotto.System
import Sotto.Server.Effects
import Sotto.Cli.Errors

/-!
# Rules for the commands of a device

One rule for each kind of command: a draw, the network, a call of the store, a
query of the server, a request. They hold in every setting that runs the commands
as a device does and in which the environment stays linked, whatever it relies on
and guarantees. A command that can only read, or that the linked environment makes
ineffective, is calm: it changes no shared state and of the device only what no
program reads.
-/

namespace Sotto

open Core Cli

/-- What stays true of the database while the devices work: the environment and
its project exist, the users are initialised, and accounts keep their keys. -/
structure Linked (S : Setup) (db : Server.Db) : Prop where
  environment : ∃ env, db.environments.lookup S.envId = some env
  project : db.projects.lookup S.projectId ≠ none
  initialised : ∀ d, ∃ account, db.users.lookup (S.user d) = some (some account)
  accounts : ∀ u account, db.users.lookup u = some (some account) →
    account.publicKey = (S.keypair u).public

/-- Devices that may differ in the store, in the grant they hold and in what they last
saw. -/
structure Device.Rest (l l' : Device) : Prop where
  edits : l'.edits = l.edits
  current : l'.current = l.current
  last : l'.last = l.last
  draws : l.draws ≤ l'.draws

/-- Devices that may differ in what they last saw. -/
structure Device.Same (l l' : Device) : Prop extends l.Rest l' where
  store : l'.store = l.store
  adopted : l'.adopted = l.adopted

/-- Devices that may differ in draws only. -/
structure Device.Still (l l' : Device) : Prop extends l.Same l' where
  seen : l'.seen = l.seen

namespace Device

variable {l l' l'' : Device}

theorem Rest.refl (l : Device) : l.Rest l := ⟨rfl, rfl, rfl, le_rfl⟩

theorem Rest.trans (h : l.Rest l') (h' : l'.Rest l'') : l.Rest l'' :=
  ⟨h'.edits.trans h.edits, h'.current.trans h.current, h'.last.trans h.last,
    h.draws.trans h'.draws⟩

theorem Same.refl (l : Device) : l.Same l := ⟨Rest.refl l, rfl, rfl⟩

theorem Same.trans (h : l.Same l') (h' : l'.Same l'') : l.Same l'' :=
  ⟨h.toRest.trans h'.toRest, h'.store.trans h.store, h'.adopted.trans h.adopted⟩

theorem Still.refl (l : Device) : l.Still l := ⟨Same.refl l, rfl⟩

theorem Still.trans (h : l.Still l') (h' : l'.Still l'') : l.Still l'' :=
  ⟨h.toSame.trans h'.toSame, h'.seen.trans h.seen⟩

end Device

/-- Store calls that only read. -/
def Cli.StoreCmd.isRead : StoreCmd → Bool
  | .getAccountKeys => true
  | .getProject _ => true
  | .getEnvironment .. => true
  | .allSecrets _ => true
  | .findSecret .. => true
  | .syncedRevision _ => true
  | .findEnvironment _ => true
  | _ => false

/-- Store calls that cannot create a secret. -/
def Cli.StoreCmd.isPlain : StoreCmd → Bool
  | .vaultSet .. => false
  | _ => true

/-- Statements that only read. -/
def Server.Stmt.isQuery : Server.Stmt → Bool
  | .updateAccount .. => false
  | .insertProject .. => false
  | .insertEnvironment .. => false
  | .writeSecrets .. => false
  | .rotate .. => false
  | .resetAccount .. => false
  | .createGrant .. => false
  | _ => true

/-- Commands that leave the shared state of a linked environment and what the device
last saw as they are. -/
def Calm (S : Setup) : Cmd → Prop
  | .fresh => True
  | .net => True
  | .store c => c.isRead
  | .server stmt =>
      match stmt with
      | .updateAccount userId _ => ∃ d, userId = S.user d
      | .insertProject id .. => id = S.projectId
      | .insertEnvironment _ _ _ id .. => id = S.envId
      | .selectSecrets _ => False
      | stmt => stmt.isQuery

/-! ### Executions -/

theorem newIds_self (store : Store) : newIds store store = [] := by
  have h : ∀ s ∈ store.secrets.rows, ¬ (store.secrets.lookup s.1).isNone := by
    rintro ⟨id, row⟩ hs
    rw [Table.mem_rows.1 hs]
    simp
  simp only [newIds, List.map_eq_nil_iff, List.filter_eq_nil_iff]
  exact h

theorem changedRows_self (store : Store) : changedRows store store = [] := by
  have h : ∀ s ∈ store.secrets.rows, ¬ (store.secrets.lookup s.1 ≠ some s.2) := by
    rintro ⟨id, row⟩ hs
    rw [Table.mem_rows.1 hs]
    simp
  simp only [changedRows, List.filter_eq_nil_iff]
  intro s hs
  simpa using h s hs

theorem StoreCmd.exec_snd_of_error {c : StoreCmd} {store : Store} {e : Cli.Error}
    (h : (c.exec store).1 = .error e) : (c.exec store).2 = store := by
  have hwrite : ∀ result : Except Cli.Error Store,
      (StoreCmd.write result store).1 = .error e → (StoreCmd.write result store).2 = store := by
    intro result hr
    cases result with
    | ok store' => cases hr
    | error e' => rfl
  cases c with
  | updateEnvVaultKey envId key => exact hwrite _ h
  | putRemoteSecret envId secret => exact hwrite _ h
  | setSyncedRevision envId revision => exact hwrite _ h
  | vaultSet => exact hwrite _ h
  | vaultDelete => exact hwrite _ h
  | putIdentityWithKeys => exact hwrite _ h
  | createProjectWithId => exact hwrite _ h
  | createEnvironment => exact hwrite _ h
  | _ => rfl

/-- A store call that fails changes nothing. -/
theorem perform_store_error {d : Nat} {c : StoreCmd} {s : Shared} {l : Device} {e : Cli.Error}
    (h : (c.exec l.store).1 = .error e) : perform d (.store c) s l = (.error e, s, l) := by
  have hstore := StoreCmd.exec_snd_of_error h
  unfold perform
  simp only [h, hstore]
  have hcreated : createdBy c l.store l.store = [] := by
    unfold createdBy
    split
    · rw [newIds_self, List.map_nil]
    · rfl
  have hrecord : ({ l with store := l.store } : Device).record c
      (Except.toBool (.error e : Except Cli.Error c.Reply)) l.store l.store = l := by
    unfold Device.record
    split <;> simp [recordEdits, changedRows_self, Except.toBool]
  rw [hcreated, hrecord]
  rfl

theorem perform_store_of_isRead {d : Nat} {c : StoreCmd} {s : Shared} {l : Device}
    (hc : c.isRead) : ∃ v, (c.exec l.store).1 = .ok v ∧ perform d (.store c) s l = (.ok v, s, l) := by
  cases c with
  | updateEnvVaultKey => cases hc
  | putRemoteSecret => cases hc
  | setSyncedRevision => cases hc
  | vaultSet => cases hc
  | vaultDelete => cases hc
  | putIdentityWithKeys => cases hc
  | createProjectWithId => cases hc
  | createEnvironment => cases hc
  | _ => exact ⟨_, rfl, rfl⟩

theorem Stmt.exec_snd_of_isQuery {stmt : Server.Stmt} (h : stmt.isQuery) (db : Server.Db) :
    (stmt.exec db).2 = db := by
  cases stmt with
  | updateAccount => cases h
  | insertProject => cases h
  | insertEnvironment => cases h
  | writeSecrets => cases h
  | rotate => cases h
  | resetAccount => cases h
  | createGrant => cases h
  | _ => rfl

/-- A statement that changes no row leaves the shared state as it is, unless it is a
rotation. -/
theorem callServer_snd {stmt : Server.Stmt} {s : Shared} (h : (stmt.exec s.db).2 = s.db)
    (hr : ∀ access envId orgId req, stmt ≠ .rotate access envId orgId req) :
    (s.callServer stmt).2 = s := by
  unfold Shared.callServer
  cases stmt with
  | rotate access envId orgId req => exact absurd rfl (hr access envId orgId req)
  | _ =>
      simp only [h]

theorem callServer_rotate_of_error {access : Server.ProjectAccess} {envId orgId : Ident}
    {req : Server.Rotation} {s : Shared} {e : Server.Error}
    (h : ((Server.Stmt.rotate access envId orgId req).exec s.db).1 = .error e) :
    (s.callServer (.rotate access envId orgId req)).2 = s := by
  have hdb : ((Server.Stmt.rotate access envId orgId req).exec s.db).2 = s.db :=
    Server.commit_snd_of_error h
  unfold Shared.callServer
  simp only [h, hdb]
  rfl

theorem observe_same (stmt : Server.Stmt) (accepted : Bool) (before after : Server.Db)
    (l : Device) : l.Same (l.observe stmt accepted before after) := by
  unfold Device.observe
  split
  · exact ⟨⟨rfl, rfl, rfl, le_rfl⟩, rfl, rfl⟩
  · split
    · exact ⟨⟨rfl, rfl, rfl, le_rfl⟩, rfl, rfl⟩
    · exact Device.Same.refl l
  · exact Device.Same.refl l

theorem observe_of_calm {S : Setup} {stmt : Server.Stmt} (h : Calm S (.server stmt))
    (accepted : Bool) (before after : Server.Db) (l : Device) :
    l.observe stmt accepted before after = l := by
  cases stmt with
  | selectSecrets => cases h
  | writeSecrets => cases h
  | _ => rfl

theorem Linked.exec_snd_of_calm {S : Setup} {db : Server.Db} (L : Linked S db)
    {stmt : Server.Stmt} (h : Calm S (.server stmt)) : (stmt.exec db).2 = db := by
  cases stmt with
  | updateAccount userId account =>
      obtain ⟨d, rfl⟩ := h
      obtain ⟨existing, he⟩ := L.initialised d
      exact Server.updateAccount_inert he
  | insertProject id ownerId orgId encName =>
      obtain rfl : id = S.projectId := h
      exact Server.insertProject_inert L.project
  | insertEnvironment access projectId userId id encName encVaultKey =>
      obtain rfl : id = S.envId := h
      obtain ⟨env, he⟩ := L.environment
      exact Server.insertEnvironment_inert (by simp [he])
  | writeSecrets => cases h
  | rotate => cases h
  | selectSecrets => cases h
  | _ => exact Stmt.exec_snd_of_isQuery h db

/-- A calm command changes of the device only draws. -/
theorem Executes.of_calm {S : Setup} {d : Nat} {c : Cmd} {s : Shared} {l : Device} {r : c.Reply}
    {s' : Shared} {l' : Device} (L : Linked S s.db) (hc : Calm S c)
    (h : Executes d c s l r s' l') : s' = s ∧ l.Still l' := by
  rcases h with h | ⟨-, rfl, rfl⟩
  · cases c with
    | fresh =>
        simp only [perform, Prod.mk.injEq] at h
        obtain ⟨-, rfl, rfl⟩ := h
        exact ⟨rfl, ⟨⟨rfl, rfl, rfl, Nat.le_succ _⟩, rfl, rfl⟩, rfl⟩
    | net =>
        simp only [perform, Prod.mk.injEq] at h
        obtain ⟨-, rfl, rfl⟩ := h
        exact ⟨rfl, Device.Still.refl l⟩
    | store c =>
        obtain ⟨v, -, hv⟩ := perform_store_of_isRead (d := d) (s := s) (l := l) hc
        rw [hv] at h
        simp only [Prod.mk.injEq] at h
        obtain ⟨-, rfl, rfl⟩ := h
        exact ⟨rfl, Device.Still.refl l⟩
    | server stmt =>
        simp only [perform, Prod.mk.injEq] at h
        obtain ⟨-, rfl, rfl⟩ := h
        rw [observe_of_calm hc]
        refine ⟨callServer_snd (L.exec_snd_of_calm hc) ?_, Device.Still.refl l⟩
        rintro access envId orgId req rfl
        cases hc
  · exact ⟨rfl, Device.Still.refl _⟩

/-- No execution of a step replies with the refusal. -/
theorem Executes.notRefused {d : Nat} {c : Cmd} {s : Shared} {l : Device} {r : c.Reply}
    {s' : Shared} {l' : Device} (h : Executes d c s l r s' l') : c.NotRefused r := by
  rcases h with h | ⟨hf, -, -⟩
  · cases c with
    | fresh => trivial
    | net =>
        simp only [perform, Prod.mk.injEq] at h
        obtain ⟨rfl, -⟩ := h
        intro e he
        cases he
    | server stmt => trivial
    | store c =>
        obtain rfl : (c.exec l.store).1 = r := congrArg (fun r => r.1) h
        exact c.exec_notRefused l.store
  · cases c with
    | fresh => trivial
    | net =>
        obtain ⟨m, rfl⟩ := hf
        intro e he
        cases he
        intro h
        cases h
    | server stmt => trivial
    | store c =>
        obtain ⟨m, rfl⟩ := hf
        have hstore : ∀ e, (.error (.store m) : Except Cli.Error c.Reply) = .error e →
            NotRefused e := by
          intro e he
          cases he
          intro h
          cases h
        cases c with
        | vaultSet => trivial
        | vaultDelete => trivial
        | _ => exact hstore

/-- Only a statement changes the database. -/
theorem Executes.db_of_local {d : Nat} {c : Cmd} {s : Shared} {l : Device} {r : c.Reply}
    {s' : Shared} {l' : Device} (hc : ∀ stmt, c ≠ .server stmt) (h : Executes d c s l r s' l') :
    s'.db = s.db := by
  rcases h with h | ⟨-, rfl, -⟩
  · obtain rfl : (perform d c s l).2.1 = s' := congrArg (fun r => r.2.1) h
    cases c with
    | server stmt => exact absurd rfl (hc stmt)
    | _ => rfl
  · rfl

/-- A command does not change which operation runs. -/
theorem Executes.current {d : Nat} {c : Cmd} {s : Shared} {l : Device} {r : c.Reply} {s' : Shared}
    {l' : Device} (h : Executes d c s l r s' l') : l'.current = l.current := by
  rcases h with h | ⟨-, -, rfl⟩
  · obtain rfl : (perform d c s l).2.2 = l' := congrArg (fun r => r.2.2) h
    cases c with
    | server stmt => exact (observe_same stmt _ _ _ l).current
    | store c =>
        simp only [perform, Device.record]
        split <;> rfl
    | _ => rfl
  · rfl

/-- The operation that a device runs is the one it started last. -/
theorem current_of_running {S : Setup} {w : Setup.World} (hw : S.system.Reaches S.init w) {d : Nat}
    {op : Op} {p : Prog Cmd.Reply (Except Cli.Error Unit)}
    (hr : (w.threads d).running = some (op, p)) : (w.threads d).own.current = some op := by
  induction hw generalizing op p with
  | refl => cases hr
  | @tail w₁ w₂ _ hstep ih =>
      cases hstep with
      | @start i op' l' hrun hs =>
          by_cases hi : d = i
          · subst hi
            simp only [Function.update_self, Option.some.injEq, Prod.mk.injEq] at hr ⊢
            obtain ⟨rfl, -⟩ := hr
            rw [hs]
          · simp only [Function.update_of_ne hi] at hr ⊢
            exact ih hr
      | @call i op' c k r s' l' hrun he =>
          by_cases hi : d = i
          · subst hi
            simp only [Function.update_self, Option.some.injEq, Prod.mk.injEq] at hr ⊢
            obtain ⟨rfl, -⟩ := hr
            exact (Executes.current he).trans (ih hrun)
          · simp only [Function.update_of_ne hi] at hr ⊢
            exact ih hr
      | @finish i op' a l' hrun hf =>
          by_cases hi : d = i
          · subst hi
            simp only [Function.update_self] at hr
            cases hr
          · simp only [Function.update_of_ne hi] at hr ⊢
            exact ih hr

/-! ### Settings -/

/-- A setting that runs commands as device `d` does, in a linked environment, and
owes nothing for a command that changes no shared state. -/
structure Follows (S : Setup) (d : Nat) (G : Setting Cmd.Reply Shared Device) : Prop where
  exec : ∀ {c s l r s' l'}, G.exec c s l r s' l' → Executes d c s l r s' l'
  guar_refl : ∀ c s l, G.guar c s l s
  linked : ∀ {s}, G.inv s → Linked S s.db

section Ensures

variable (G : Setting Cmd.Reply Shared Device) {α ε : Type}

/-- What a CLI operation ensures: `Q` when it succeeds and `E` when it fails. -/
abbrev Ensures (action : Action α) (Q : α → Shared → Device → Prop)
    (E : Cli.Error → Shared → Device → Prop) (s : Shared) (l : Device) : Prop :=
  G.wpE Call.steps action Q E s l

/-- What the steps of a request ensure. -/
abbrev Serves (steps : ExceptT ε (Prog Cmd.Reply) α) (Q : α → Shared → Device → Prop)
    (E : ε → Shared → Device → Prop) (s : Shared) (l : Device) : Prop :=
  G.wpE Prog.perform steps Q E s l

end Ensures

/-- A command all of whose steps are calm. -/
def CalmCall (S : Setup) (c : Call) : Prop := c.steps.Uses (Calm S)

namespace Follows

variable {S : Setup} {d : Nat} {G : Setting Cmd.Reply Shared Device} {α : Type}
  {s : Shared} {l : Device}

/-- An operation whose errors are not the refusal. -/
theorem ensures_silent (F : Follows S d G) {p : Action α} {Q : α → Shared → Device → Prop}
    {E : Cli.Error → Shared → Device → Prop} (hp : Silent p)
    (h : Ensures G p Q (fun e s' l' => NotRefused e → E e s' l') s l) : Ensures G p Q E s l := by
  refine Setting.wp_returns (fun he => (F.exec he).notRefused) (hp.expand steps_notRefused) ?_
  refine Setting.wp_mono h ?_
  intro r s' l' _ hr
  cases r with
  | ok a => exact fun _ => hr
  | error e => exact fun hT => hr (hT e rfl)

/-- An operation of calm commands returns in every state that the others lead to. -/
theorem ensures_calm (F : Follows S d G) {p : Action α} {Q : α → Shared → Device → Prop}
    {E : Cli.Error → Shared → Device → Prop} (hp : Prog.UsesE (CalmCall S) p)
    (hQ : ∀ a s' l', G.rely s s' → G.inv s' → l.Still l' → Q a s' l')
    (hE : ∀ e s' l', G.rely s s' → G.inv s' → l.Still l' → E e s' l') :
    Ensures G p Q E s l := by
  refine Setting.wp_of_uses Device.Still.refl Device.Still.trans
    (fun hc hi he => (F.exec he).of_calm (F.linked hi) hc) (fun _ => F.guar_refl _ _ _)
    (hp.expand fun _ h => h) ?_
  intro r s' l' hs hi hl
  cases r with
  | ok a => exact hQ a s' l' hs hi hl
  | error e => exact hE e s' l' hs hi hl

theorem ensures_fresh (F : Follows S d G) {Q : Seed → Shared → Device → Prop}
    {E : Cli.Error → Shared → Device → Prop}
    (hQ : ∀ s', G.rely s s' → G.inv s' →
      Q ⟨d + 1, l.draws⟩ s' { l with draws := l.draws + 1 }) :
    Ensures G Action.fresh Q E s l := by
  refine Setting.wpE_lift ?_
  rw [Prog.expand_perform_eq]
  refine Setting.wp_perform ?_
  intro s' hs hi r s'' l' he
  rcases F.exec he with he | ⟨hf, -, -⟩
  · simp only [perform, Prod.mk.injEq] at he
    obtain ⟨rfl, rfl, rfl⟩ := he
    refine ⟨F.guar_refl _ _ _, hi, ?_⟩
    intro s₃ hs₃ hi₃
    exact hQ s₃ (G.rely_trans hs hs₃) hi₃
  · exact hf.elim

/-! ### The store -/

/-- The device after a store call that succeeds. -/
def afterStore (c : StoreCmd) (l : Device) : Device :=
  { l with store := (c.exec l.store).2 }.record c true l.store (c.exec l.store).2

/-- A store call that creates no secret: it succeeds as the store's function does,
or fails without effect. -/
theorem ensures_store (F : Follows S d G) {c : StoreCmd} (hc : c.isPlain)
    {Q : c.Reply → Shared → Device → Prop} {E : Cli.Error → Shared → Device → Prop}
    (hQ : ∀ v s' s'', (c.exec l.store).1 = .ok v → G.rely s s' → G.inv s' →
      G.exec (.store c) s' l (.ok v) s' (afterStore c l) → G.rely s' s'' → G.inv s'' →
      Q v s'' (afterStore c l))
    (hE : ∀ e s', ((c.exec l.store).1 = .error e ∨ ∃ m, e = .store m) → G.rely s s' →
      G.inv s' → E e s' l) :
    Ensures G (Action.store c) Q E s l := by
  unfold Ensures Setting.wpE Action.store
  rw [ExceptT.run_mk, Prog.expand_perform_eq]
  refine Setting.wp_perform ?_
  intro s' hs hi r s'' l' hex
  rcases F.exec hex with he | ⟨⟨m, rfl⟩, rfl, rfl⟩
  · cases hr : (c.exec l.store).1 with
    | error e =>
        rw [perform_store_error hr] at he
        simp only [Prod.mk.injEq] at he
        obtain ⟨rfl, rfl, rfl⟩ := he
        refine ⟨F.guar_refl _ _ _, hi, ?_⟩
        intro s₃ hs₃ hi₃
        exact hE e s₃ (Or.inl hr) (G.rely_trans hs hs₃) hi₃
    | ok v =>
        have hcreated : createdBy c l.store (c.exec l.store).2 = [] := by
          cases c with
          | vaultSet => cases hc
          | _ => rfl
        simp only [perform, hr, hcreated, Except.toBool, List.nil_append, Prod.mk.injEq] at he
        obtain ⟨rfl, rfl, rfl⟩ := he
        refine ⟨F.guar_refl _ _ _, hi, ?_⟩
        intro s₃ hs₃ hi₃
        exact hQ v s' s₃ hr hs hi hex hs₃ hi₃
  · refine ⟨F.guar_refl _ _ _, hi, ?_⟩
    intro s₃ hs₃ hi₃
    exact hE _ s₃ (Or.inr ⟨m, rfl⟩) (G.rely_trans hs hs₃) hi₃

theorem ensures_read (F : Follows S d G) {c : StoreCmd} (hc : c.isRead)
    {Q : c.Reply → Shared → Device → Prop} {E : Cli.Error → Shared → Device → Prop}
    (hQ : ∀ v s', (c.exec l.store).1 = .ok v → G.rely s s' → G.inv s' → Q v s' l)
    (hE : ∀ m s', G.rely s s' → G.inv s' → E (.store m) s' l) :
    Ensures G (Action.store c) Q E s l := by
  obtain ⟨v, hv, hp⟩ := perform_store_of_isRead (d := d) (s := s) (l := l) hc
  have hplain : c.isPlain := by
    cases c with
    | vaultSet => cases hc
    | _ => rfl
  have hafter : afterStore c l = l := by
    have := congrArg (fun r => r.2.2) hp
    simpa [perform, hv, Except.toBool, afterStore] using this
  refine F.ensures_store hplain ?_ ?_
  · intro v' s' s'' hv' hs _ _ hs' hi'
    rw [hafter]
    exact hQ v' s'' hv' (G.rely_trans hs hs') hi'
  · intro e s' he hs hi
    rcases he with he | ⟨m, rfl⟩
    · rw [hv] at he
      cases he
    · exact hE m s' hs hi

theorem ensures_ofExcept {result : Except Cli.Error α} {Q : α → Shared → Device → Prop}
    {E : Cli.Error → Shared → Device → Prop}
    (hQ : ∀ a s', result = .ok a → G.rely s s' → G.inv s' → Q a s' l)
    (hE : ∀ e s', result = .error e → G.rely s s' → G.inv s' → E e s' l) :
    Ensures G (Action.ofExcept result) Q E s l := by
  intro s' hs hi
  cases result with
  | ok a => exact hQ a s' rfl hs hi
  | error e => exact hE e s' rfl hs hi

/-! ### Requests -/

theorem serves_net (F : Follows S d G) {Q : Unit → Shared → Device → Prop}
    {E : Cli.Error → Shared → Device → Prop}
    (hQ : ∀ s', G.rely s s' → G.inv s' → Q () s' l)
    (hE : ∀ m s', G.rely s s' → G.inv s' → E (.network m) s' l) :
    Serves G Exchange.net Q E s l := by
  unfold Serves Setting.wpE
  rw [Prog.expand_perform]
  refine Setting.wp_perform ?_
  intro s' hs hi r s'' l' he
  rcases F.exec he with he | ⟨⟨m, rfl⟩, rfl, rfl⟩
  · simp only [perform, Prod.mk.injEq] at he
    obtain ⟨rfl, rfl, rfl⟩ := he
    refine ⟨F.guar_refl _ _ _, hi, ?_⟩
    intro s₃ hs₃ hi₃
    exact hQ s₃ (G.rely_trans hs hs₃) hi₃
  · refine ⟨F.guar_refl _ _ _, hi, ?_⟩
    intro s₃ hs₃ hi₃
    exact hE m s₃ (G.rely_trans hs hs₃) hi₃

theorem serves_perform {stmt : Server.Stmt} {Q : stmt.Reply → Shared → Device → Prop}
    {E : Server.Error → Shared → Device → Prop}
    (h : G.wp (Prog.perform (Cmd.server stmt)) (fun r s' l' =>
      (∀ v, r = .ok v → Q v s' l') ∧ ∀ e, r = .error e → E e s' l') s l) :
    Serves G (Server.Database.perform stmt : Handler stmt.Reply) Q E s l := by
  unfold Serves Setting.wpE
  rw [Prog.expand_perform]
  refine Setting.wp_mono h ?_
  rintro r s' l' - ⟨hQ, hE⟩
  cases r with
  | ok v => exact hQ v rfl
  | error e => exact hE e rfl

/-- A calm statement answers what the database holds at that moment, or fails. -/
theorem serves_calm (F : Follows S d G) {stmt : Server.Stmt}
    (hc : Calm S (.server stmt)) {Q : stmt.Reply → Shared → Device → Prop}
    {E : Server.Error → Shared → Device → Prop}
    (hQ : ∀ v s' s'' l', (stmt.exec s'.db).1 = .ok v → G.rely s s' → G.inv s' → l.Still l' →
      G.rely s' s'' → G.inv s'' → Q v s'' l')
    (hE : ∀ e s' s'' l', ((stmt.exec s'.db).1 = .error e ∨ e = .internal) → G.rely s s' →
      G.inv s' → l.Still l' → G.rely s' s'' → G.inv s'' → E e s'' l') :
    Serves G (Server.Database.perform stmt : Handler stmt.Reply) Q E s l := by
  refine serves_perform (Setting.wp_perform ?_)
  intro s' hs hi r s'' l' hex
  obtain ⟨rfl, hl⟩ := (F.exec hex).of_calm (F.linked hi) hc
  refine ⟨F.guar_refl _ _ _, hi, ?_⟩
  intro s₃ hs₃ hi₃
  rcases F.exec hex with he | ⟨hf, -, -⟩
  · obtain rfl : (stmt.exec s''.db).1 = r := congrArg (fun r => r.1) he
    refine ⟨?_, ?_⟩
    · intro v hr
      exact hQ v s'' s₃ l' hr hs hi hl hs₃ hi₃
    · intro e hr
      exact hE e s'' s₃ l' (Or.inl hr) hs hi hl hs₃ hi₃
  · obtain rfl : r = .error .internal := hf
    refine ⟨by simp, ?_⟩
    intro e he
    obtain rfl : Server.Error.internal = e := by simpa using he
    exact hE _ s'' s₃ l' (Or.inr rfl) hs hi hl hs₃ hi₃

/-- Reading the secrets: the device has then seen the database as it is. -/
theorem serves_selectSecrets (F : Follows S d G) {envId : Ident}
    {Q : List (Ident × Server.Secret) → Shared → Device → Prop}
    {E : Server.Error → Shared → Device → Prop}
    (hQ : ∀ s' s'', G.rely s s' → G.inv s' →
      G.exec (.server (.selectSecrets envId)) s' l (.ok (s'.db.secretsOf envId)) s'
        { l with seen := s'.db } →
      G.rely s' s'' → G.inv s'' → Q (s'.db.secretsOf envId) s'' { l with seen := s'.db })
    (hE : ∀ s', G.rely s s' → G.inv s' → E .internal s' l) :
    Serves G (Server.Database.perform (.selectSecrets envId) :
      Handler (List (Ident × Server.Secret))) Q E s l := by
  refine serves_perform (Setting.wp_perform ?_)
  intro s' hs hi r s'' l' hex
  rcases F.exec hex with he | ⟨hf, rfl, rfl⟩
  · have hshared : (s'.callServer (.selectSecrets envId)).2 = s' := rfl
    simp only [perform, hshared, Prod.mk.injEq] at he
    obtain ⟨rfl, rfl, rfl⟩ := he
    refine ⟨F.guar_refl _ _ _, hi, ?_⟩
    intro s₃ hs₃ hi₃
    refine ⟨?_, by simp [Shared.callServer, Server.Stmt.exec, Server.query]⟩
    intro v hv
    obtain rfl : s'.db.secretsOf envId = v := by
      simpa [Shared.callServer, Server.Stmt.exec, Server.query] using hv
    exact hQ s' s₃ hs hi hex hs₃ hi₃
  · obtain rfl : r = .error .internal := hf
    refine ⟨F.guar_refl _ _ _, hi, ?_⟩
    intro s₃ hs₃ hi₃
    refine ⟨by simp, ?_⟩
    intro e he
    obtain rfl : Server.Error.internal = e := by simpa using he
    exact hE s₃ (G.rely_trans hs hs₃) hi₃

/-- A transaction: it commits, or fails without effect. -/
theorem serves_commit (F : Follows S d G) {stmt : Server.Stmt}
    {Q : stmt.Reply → Shared → Device → Prop} {E : Server.Error → Shared → Device → Prop}
    (hfail : ∀ {s' : Shared} {e}, (stmt.exec s'.db).1 = .error e →
      (s'.callServer stmt).2 = s' ∧ ∀ l' : Device, l'.observe stmt false s'.db s'.db = l')
    (hQ : ∀ v s' l', (stmt.exec s'.db).1 = .ok v → G.rely s s' → G.inv s' →
      l' = l.observe stmt true s'.db (stmt.exec s'.db).2 →
      G.exec (.server stmt) s' l (.ok v) (s'.callServer stmt).2 l' →
      G.guar (.server stmt) s' l (s'.callServer stmt).2 ∧ G.inv (s'.callServer stmt).2 ∧
        ∀ s'', G.rely (s'.callServer stmt).2 s'' → G.inv s'' → Q v s'' l')
    (hE : ∀ e s', G.rely s s' → G.inv s' → E e s' l) :
    Serves G (Server.Database.perform stmt : Handler stmt.Reply) Q E s l := by
  refine serves_perform (Setting.wp_perform ?_)
  intro s' hs hi r s'' l' hex
  rcases F.exec hex with he | ⟨hf, rfl, rfl⟩
  · have hfst : (s'.callServer stmt).1 = (stmt.exec s'.db).1 := rfl
    simp only [perform, Prod.mk.injEq, hfst] at he
    obtain ⟨rfl, rfl, rfl⟩ := he
    cases hr : (stmt.exec s'.db).1 with
    | ok v =>
        rw [hr] at hex
        obtain ⟨hg, hi', hk⟩ := hQ v s' _ hr hs hi rfl hex
        refine ⟨hg, hi', ?_⟩
        intro s₃ hs₃ hi₃
        refine ⟨?_, by simp⟩
        intro v' hv'
        obtain rfl : v = v' := by simpa using hv'
        exact hk s₃ hs₃ hi₃
    | error e =>
        obtain ⟨hshared, hobserve⟩ := hfail hr
        refine ⟨by rw [hshared]; exact F.guar_refl _ _ _, by rw [hshared]; exact hi, ?_⟩
        intro s₃ hs₃ hi₃
        rw [hshared] at hs₃
        have hl : l.observe stmt (Except.toBool (.error e : Except Server.Error stmt.Reply)) s'.db
            (s'.callServer stmt).2.db = l := by
          rw [hshared]
          exact hobserve l
        rw [hl]
        refine ⟨by simp, ?_⟩
        intro e' he'
        obtain rfl : e = e' := by simpa using he'
        exact hE e s₃ (G.rely_trans hs hs₃) hi₃
  · obtain rfl : r = .error .internal := hf
    refine ⟨F.guar_refl _ _ _, hi, ?_⟩
    intro s₃ hs₃ hi₃
    refine ⟨by simp, ?_⟩
    intro e he
    obtain rfl : Server.Error.internal = e := by simpa using he
    exact hE _ _ (G.rely_trans hs hs₃) hi₃

/-- The steps around a handler: it answers, or the network fails before or after. -/
theorem serves_send (F : Follows S d G) {handler : Handler α}
    {Q : Except Server.Error α → Shared → Device → Prop}
    {E : Cli.Error → Shared → Device → Prop}
    (hnet : ∀ m s', G.rely s s' → G.inv s' → E (.network m) s' l)
    (hh : ∀ s₀, G.rely s s₀ → G.inv s₀ → Serves G handler
      (fun a s' l' => (∀ s'', G.rely s' s'' → G.inv s'' → Q (.ok a) s'' l') ∧
        ∀ m s'', G.rely s' s'' → G.inv s'' → E (.network m) s'' l')
      (fun e s' l' => (∀ s'', G.rely s' s'' → G.inv s'' → Q (.error e) s'' l') ∧
        ∀ m s'', G.rely s' s'' → G.inv s'' → E (.network m) s'' l') s₀ l) :
    Serves G (send handler) Q E s l := by
  unfold send
  refine Setting.wpE_bind (F.serves_net ?_ hnet)
  intro s₀ hs hi
  refine Setting.wpE_bind (Setting.wpE_lift_run (Setting.wpE_mono (hh s₀ hs hi) ?_ ?_))
  · rintro a s' l' hi' ⟨hQ, hE⟩
    refine Setting.wpE_bind (F.serves_net ?_ hE)
    intro s'' hs' hi''
    refine Setting.wpE_pure ?_
    intro s₃ hs₃ hi₃
    exact hQ s₃ (G.rely_trans hs' hs₃) hi₃
  · rintro e s' l' hi' ⟨hQ, hE⟩
    refine Setting.wpE_bind (F.serves_net ?_ hE)
    intro s'' hs' hi''
    refine Setting.wpE_pure ?_
    intro s₃ hs₃ hi₃
    exact hQ s₃ (G.rely_trans hs' hs₃) hi₃

theorem serves_request (F : Follows S d G) {handler : Handler α} {Q : α → Shared → Device → Prop}
    {E : Cli.Error → Shared → Device → Prop}
    (hnet : ∀ m s', G.rely s s' → G.inv s' → E (.network m) s' l)
    (hh : ∀ s₀, G.rely s s₀ → G.inv s₀ → Serves G handler
      (fun a s' l' => (∀ s'', G.rely s' s'' → G.inv s'' → Q a s'' l') ∧
        ∀ m s'', G.rely s' s'' → G.inv s'' → E (.network m) s'' l')
      (fun e s' l' => ∀ e' s'', (e' = serverError e ∨ ∃ m, e' = .network m) → G.rely s' s'' →
        G.inv s'' → E e' s'' l') s₀ l) :
    Serves G (request handler) Q E s l := by
  unfold request
  refine Setting.wpE_bind (F.serves_send hnet ?_)
  intro s₀ hs hi
  refine Setting.wpE_mono (hh s₀ hs hi) ?_ ?_
  · rintro a s' l' _ ⟨hQ, hE⟩
    refine ⟨?_, hE⟩
    intro s'' hs' _ s₃ hs₃ hi₃
    exact hQ s₃ (G.rely_trans hs' hs₃) hi₃
  · intro e s' l' _ hE
    refine ⟨?_, ?_⟩
    · intro s'' hs' _ s₃ hs₃ hi₃
      exact hE _ s₃ (Or.inl rfl) (G.rely_trans hs' hs₃) hi₃
    · intro m s'' hs' hi''
      exact hE _ s'' (Or.inr ⟨m, rfl⟩) hs' hi''

theorem ensures_http {r : Request} {Q : r.Response → Shared → Device → Prop}
    {E : Cli.Error → Shared → Device → Prop} (h : Serves G r.exchange Q E s l) :
    Ensures G (Action.http r) Q E s l := by
  unfold Serves Setting.wpE at h
  unfold Ensures Setting.wpE Action.http
  rw [Prog.expand_perform] at h
  rw [ExceptT.run_mk, Prog.expand_perform_eq]
  exact h

end Follows

end Sotto
