import Sotto.Cli.Statements
import Sotto.Rules

/-!
# What the requests of a device are answered

A conditional snapshot request reads the revision and then the rows, from two
states of the database; a grant request reads the caller's grant; a batch or a
rotation is committed or refused by one transaction, and its response can still
be lost. Every other request of a push is calm.
-/

namespace Sotto

open Core Cli

/-- The environment's revision. -/
def RevisionAt (S : Setup) (s : Shared) (revision : Int) : Prop :=
  ∃ env, s.db.environments.lookup S.envId = some env ∧ env.revision = revision

/-- The grant the server holds for the user of a device. -/
def grantAt (S : Setup) (d : Nat) (db : Server.Db) : Option Bytes :=
  db.grants.lookup (S.envId, S.user d)

/-- The server answers that the user of a device has no grant. -/
def NoGrant (S : Setup) (d : Nat) (db : Server.Db) : Prop :=
  grantAt S d db = none ∨ ∃ m, Server.envAccess S.envId (S.user d) db = .error (.notFound m)

/-- A device whose user has access fetched a snapshot: the revision was read at `s₁` and
the rows at `s₂`. -/
structure Fetched (S : Setup) (d : Nat) (G : Setting Cmd.Reply Shared Device) (s : Shared)
    (l : Device) (s₁ s₂ : Shared) (revision : Int) (l' : Device) : Prop where
  access : ∃ s₀ access, G.rely s₀ s₁ ∧
    Server.envAccess S.envId (S.user d) s₀.db = .ok access
  before : G.rely s s₁
  inv₁ : G.inv s₁
  revision : RevisionAt S s₁ revision
  between : G.rely s₁ s₂
  inv₂ : G.inv s₂
  exec : ∃ l₁ l₂, l.Still l₁ ∧ l₂.Still l' ∧
    G.exec (.server (.selectSecrets S.envId)) s₂ l₁ (.ok (s₂.db.secretsOf S.envId)) s₂ l₂
  same : l.Same l'
  seen : l'.seen = s₂.db

theorem Fetched.still {S : Setup} {d : Nat} {G : Setting Cmd.Reply Shared Device} {s s₁ s₂ : Shared}
    {l l₁ l' : Device} {revision : Int} (h : Fetched S d G s l s₁ s₂ revision l₁) (hl : l₁.Still l') :
    Fetched S d G s l s₁ s₂ revision l' := by
  obtain ⟨a, b, ha, hb, hexec⟩ := h.exec
  exact ⟨h.access, h.before, h.inv₁, h.revision, h.between, h.inv₂, ⟨a, b, ha, hb.trans hl, hexec⟩,
    h.same.trans hl.toSame, hl.seen.trans h.seen⟩

/-- Devices that differ at most in having read the secrets of a state between two. -/
structure Looked (G : Setting Cmd.Reply Shared Device) (s : Shared) (l : Device) (s' : Shared)
    (l' : Device) : Prop where
  rely : G.rely s s'
  same : l.Same l'
  seen : l'.seen = l.seen ∨ ∃ s₂, G.rely s s₂ ∧ G.inv s₂ ∧ G.rely s₂ s' ∧ l'.seen = s₂.db

namespace Looked

variable {S : Setup} {d : Nat} {G : Setting Cmd.Reply Shared Device} {s s' s'' s₁ s₂ : Shared}
  {l l' l₁ : Device} {revision : Int}

theorem of_still (hs : G.rely s s') (hl : l.Still l') : Looked G s l s' l' :=
  ⟨hs, hl.toSame, Or.inl hl.seen⟩

theorem of_fetched (h : Fetched S d G s l s₁ s₂ revision l₁) (hs : G.rely s₂ s')
    (hl : l₁.Still l') : Looked G s l s' l' := by
  have h₂ : G.rely s s₂ := G.rely_trans h.before h.between
  exact ⟨G.rely_trans h₂ hs, h.same.trans hl.toSame,
    Or.inr ⟨s₂, h₂, h.inv₂, hs, hl.seen.trans h.seen⟩⟩

theorem refl (hs : G.rely s s') (l : Device) : Looked G s l s' l :=
  of_still hs (Device.Still.refl l)

theorem still_left (h : Looked G s l₁ s' l') (hl : l.Still l₁) : Looked G s l s' l' := by
  refine ⟨h.rely, hl.toSame.trans h.same, h.seen.imp_left ?_⟩
  intro hseen
  exact hseen.trans hl.seen

theorem trans_left (h : Looked G s' l s'' l') (hs : G.rely s s') : Looked G s l s'' l' := by
  refine ⟨G.rely_trans hs h.rely, h.same, h.seen.imp_right ?_⟩
  rintro ⟨s₂, h₂, hi₂, h', hseen⟩
  exact ⟨s₂, G.rely_trans hs h₂, hi₂, h', hseen⟩

theorem trans_right (h : Looked G s l s' l') (hs : G.rely s' s'') : Looked G s l s'' l' := by
  refine ⟨G.rely_trans h.rely hs, h.same, h.seen.imp_right ?_⟩
  rintro ⟨s₂, h₂, hi₂, h', hseen⟩
  exact ⟨s₂, h₂, hi₂, G.rely_trans h' hs, hseen⟩

end Looked

/-- The snapshot of a revision and the rows of a state. -/
def snapshotOf (S : Setup) (revision : Int) (s : Shared) : Api.Snapshot :=
  ⟨revision, (s.db.secretsOf S.envId).map Server.secretView⟩

/-- The shared state after a statement. -/
abbrev Shared.after (stmt : Server.Stmt) (s : Shared) : Shared := (s.callServer stmt).2

/-- A statement was accepted. -/
structure Committed (G : Setting Cmd.Reply Shared Device) (stmt : Server.Stmt) (v : stmt.Reply)
    (s : Shared) (l l' : Device) : Prop where
  result : (stmt.exec s.db).1 = .ok v
  exec : G.exec (.server stmt) s l (.ok v) (s.after stmt) l'

/-- An accepted statement owes its guarantee and keeps the invariant, and `Q` holds
from then on. -/
def Accepts (G : Setting Cmd.Reply Shared Device) (stmt : Server.Stmt) (s : Shared) (l l' : Device)
    (Q : Shared → Device → Prop) : Prop :=
  G.guar (.server stmt) s l (s.after stmt) ∧ G.inv (s.after stmt) ∧
    ∀ s', G.rely (s.after stmt) s' → G.inv s' → Q s' l'

namespace Follows

variable {S : Setup} {d : Nat} {G : Setting Cmd.Reply Shared Device} {α : Type}
  {s : Shared} {l : Device}

theorem serves_check {result : Except Server.Error α} {Q : α → Shared → Device → Prop}
    {E : Server.Error → Shared → Device → Prop}
    (hQ : ∀ a s', result = .ok a → G.rely s s' → G.inv s' → Q a s' l)
    (hE : ∀ e s', result = .error e → G.rely s s' → G.inv s' → E e s' l) :
    Serves G (Server.check result : Handler α) Q E s l := by
  cases result with
  | ok a => exact Setting.wpE_pure fun s' => hQ a s' rfl
  | error e => exact Setting.wpE_throw fun s' => hE e s' rfl

theorem serves_require {p : Prop} [Decidable p] {e : Server.Error} {Q : Unit → Shared → Device → Prop}
    {E : Server.Error → Shared → Device → Prop}
    (hQ : ∀ s', p → G.rely s s' → G.inv s' → Q () s' l)
    (hE : ∀ s', ¬ p → G.rely s s' → G.inv s' → E e s' l) :
    Serves G (Server.require p e : Handler Unit) Q E s l := by
  unfold Server.require
  split
  · next h => exact Setting.wpE_pure fun s' => hQ s' h
  · next h => exact Setting.wpE_throw fun s' => hE s' h

/-! ### Snapshots -/

theorem serves_snapshot (F : Follows S d G) {ifNoneMatch : Option Int}
    {Q : Option Api.Snapshot → Shared → Device → Prop} {E : Server.Error → Shared → Device → Prop}
    (hcurrent : ∀ revision s₁ s' l', ifNoneMatch = some revision → G.rely s s₁ → G.inv s₁ →
      RevisionAt S s₁ revision → G.rely s₁ s' → G.inv s' → l.Still l' → Q none s' l')
    (hrows : ∀ revision s₁ s₂ s' l', ifNoneMatch ≠ some revision →
      Fetched S d G s l s₁ s₂ revision l' → G.rely s₂ s' → G.inv s' →
      Q (some (snapshotOf S revision s₂)) s' l')
    (hE : ∀ e s' l', Looked G s l s' l' → G.inv s' → E e s' l') :
    Serves G (Server.snapshot (S.user d) S.envId ifNoneMatch : Handler _) Q E s l := by
  unfold Server.snapshot
  refine Setting.wpE_bind (F.serves_calm (by exact rfl) ?_ ?_)
  · intro access s₀ s₀' l₀ haccess hs₀ hi₀ hl₀ hs₀' hi₀'
    unfold Server.envRevision
    refine Setting.wpE_bind (Setting.wpE_bind (F.serves_calm (by exact rfl) ?_ ?_))
    · intro env s₁ s₁' l₁ henv hs₁ hi₁ hl₁ hs₁' hi₁'
      have hbefore : G.rely s s₁ := G.rely_trans hs₀ (G.rely_trans hs₀' hs₁)
      have henv : s₁.db.environments.lookup S.envId = env := by
        simpa [Server.Stmt.exec, Server.query] using henv
      cases env with
      | none =>
          refine Setting.wpE_throw ?_
          intro s' hs' hi'
          exact hE _ s' l₁ (.of_still (G.rely_trans hbefore (G.rely_trans hs₁' hs'))
            (hl₀.trans hl₁)) hi'
      | some env =>
          refine Setting.wpE_pure ?_
          intro s₁'' hs₁'' hi₁''
          have hafter : G.rely s₁ s₁'' := G.rely_trans hs₁' hs₁''
          change Serves G (if ifNoneMatch = some env.revision then _ else _) Q E s₁'' l₁
          split
          · next hmatch =>
              refine Setting.wpE_pure ?_
              intro s' hs' hi'
              exact hcurrent env.revision s₁ s' l₁ hmatch hbefore hi₁ ⟨env, henv, rfl⟩
                (G.rely_trans hafter hs') hi' (hl₀.trans hl₁)
          · next hmatch =>
              refine Setting.wpE_bind (F.serves_selectSecrets ?_ ?_)
              · intro s₂ s₂' hs₂ hi₂ hexec hs₂' hi₂'
                refine Setting.wpE_pure ?_
                intro s' hs' hi'
                refine hrows env.revision s₁ s₂ s' _ hmatch ?_ (G.rely_trans hs₂' hs') hi'
                have hl : l.Still l₁ := hl₀.trans hl₁
                exact ⟨⟨s₀, access, G.rely_trans hs₀' hs₁, haccess⟩, hbefore, hi₁,
                  ⟨env, henv, rfl⟩, G.rely_trans hafter hs₂, hi₂,
                  ⟨l₁, _, hl, Device.Still.refl _, hexec⟩,
                  ⟨⟨hl.edits, hl.current, hl.last, hl.draws⟩, hl.store, hl.adopted⟩, rfl⟩
              · intro s' hs' hi'
                exact hE _ s' l₁ (.of_still (G.rely_trans hbefore (G.rely_trans hafter hs'))
                  (hl₀.trans hl₁)) hi'
    · intro e s₁ s' l₁ _ hs₁ _ hl₁ hs' hi'
      exact hE e s' l₁ (.of_still (G.rely_trans hs₀ (G.rely_trans hs₀' (G.rely_trans hs₁ hs')))
        (hl₀.trans hl₁)) hi'
  · intro e s₀ s' l₀ _ hs₀ _ hl₀ hs' hi'
    exact hE e s' l₀ (.of_still (G.rely_trans hs₀ hs') hl₀) hi'

/-- A request for a snapshot. -/
theorem ensures_snapshot (F : Follows S d G) {ifNoneMatch : Option Int}
    {Q : Option Api.Snapshot → Shared → Device → Prop} {E : Cli.Error → Shared → Device → Prop}
    (hcurrent : ∀ revision s₁ s' l', ifNoneMatch = some revision → G.rely s s₁ → G.inv s₁ →
      RevisionAt S s₁ revision → G.rely s₁ s' → G.inv s' → l.Still l' → Q none s' l')
    (hrows : ∀ revision s₁ s₂ s' l', ifNoneMatch ≠ some revision →
      Fetched S d G s l s₁ s₂ revision l' → G.rely s₂ s' → G.inv s' →
      Q (some (snapshotOf S revision s₂)) s' l')
    (hE : ∀ e s' l', Looked G s l s' l' → G.inv s' → E e s' l') :
    Ensures G ((S.api d).snapshot S.envId ifNoneMatch) Q E s l := by
  refine ensures_http (F.serves_request ?_ ?_)
  · intro m s' hs hi
    exact hE _ s' l (.of_still hs (Device.Still.refl l)) hi
  · intro s₀ hs₀ hi₀
    refine F.serves_snapshot ?_ ?_ ?_
    · intro revision s₁ s' l' hmatch hs hi hrev hs' hi' hl
      refine ⟨?_, ?_⟩
      · intro s'' hs'' hi''
        exact hcurrent revision s₁ s'' l' hmatch (G.rely_trans hs₀ hs) hi hrev
          (G.rely_trans hs' hs'') hi'' hl
      · intro m s'' hs'' hi''
        exact hE _ s'' l'
          (.of_still (G.rely_trans hs₀ (G.rely_trans hs (G.rely_trans hs' hs''))) hl) hi''
    · intro revision s₁ s₂ s' l' hmatch hfetch hs' hi'
      have hfetch' : Fetched S d G s l s₁ s₂ revision l' :=
        { hfetch with before := G.rely_trans hs₀ hfetch.before }
      refine ⟨?_, ?_⟩
      · intro s'' hs'' hi''
        exact hrows revision s₁ s₂ s'' l' hmatch hfetch' (G.rely_trans hs' hs'') hi''
      · intro m s'' hs'' hi''
        exact hE _ s'' l' (.of_fetched hfetch' (G.rely_trans hs' hs'') (Device.Still.refl l')) hi''
    · intro e s' l' hl hi e' s'' _ hs' hi'
      exact hE e' s'' l' ((hl.trans_left hs₀).trans_right hs') hi'

/-- A request for a snapshot without a condition. -/
theorem ensures_fullSnapshot (F : Follows S d G)
    {Q : Api.Snapshot → Shared → Device → Prop} {E : Cli.Error → Shared → Device → Prop}
    (hrows : ∀ revision s₁ s₂ s' l', Fetched S d G s l s₁ s₂ revision l' → G.rely s₂ s' →
      G.inv s' → Q (snapshotOf S revision s₂) s' l')
    (hE : ∀ e s' l', Looked G s l s' l' → G.inv s' → E e s' l') :
    Ensures G (fullSnapshot (S.api d) S.envId) Q E s l := by
  unfold fullSnapshot
  refine Setting.wpE_bind (F.ensures_snapshot ?_ ?_ hE)
  · intro revision s₁ s' l' hmatch
    cases hmatch
  · intro revision s₁ s₂ s' l' _ hfetch hs' hi'
    refine Setting.wpE_pure ?_
    intro s'' hs'' hi''
    exact hrows revision s₁ s₂ s'' l' hfetch (G.rely_trans hs' hs'') hi''

/-! ### Grants -/

theorem serves_getGrant (F : Follows S d G)
    {Q : Base64 → Shared → Device → Prop} {E : Server.Error → Shared → Device → Prop}
    (hsome : ∀ grant s₃ s' l', G.rely s s₃ → G.inv s₃ → grantAt S d s₃.db = some grant →
      G.rely s₃ s' → G.inv s' → l.Still l' → Q (.valid grant) s' l')
    (hE : ∀ e s₃ s' l', (∀ m, e = .notFound m → NoGrant S d s₃.db) → G.rely s s₃ → G.inv s₃ →
      G.rely s₃ s' → G.inv s' → l.Still l' → E e s' l') :
    Serves G (Server.getGrant (S.user d) S.envId : Handler _) Q E s l := by
  unfold Server.getGrant
  refine Setting.wpE_bind (F.serves_calm (by exact rfl) ?_ ?_)
  · intro access s₀ s₀' l₀ _ hs₀ hi₀ hl₀ hs₀' hi₀'
    refine Setting.wpE_bind (F.serves_calm (by exact rfl) ?_ ?_)
    · intro grant s₃ s₃' l₃ hgrant hs₃ hi₃ hl₃ hs₃' hi₃'
      have hbefore : G.rely s s₃ := G.rely_trans hs₀ (G.rely_trans hs₀' hs₃)
      have hgrant : grantAt S d s₃.db = grant := Except.ok.inj hgrant
      cases grant with
      | some grant =>
          refine Setting.wpE_pure ?_
          intro s' hs' hi'
          exact hsome grant s₃ s' l₃ hbefore hi₃ hgrant (G.rely_trans hs₃' hs') hi' (hl₀.trans hl₃)
      | none =>
          refine Setting.wpE_throw ?_
          intro s' hs' hi'
          exact hE _ s₃ s' l₃ (fun _ _ => Or.inl hgrant) hbefore hi₃ (G.rely_trans hs₃' hs') hi'
            (hl₀.trans hl₃)
    · intro e s₃ s' l₃ he hs₃ hi₃ hl₃ hs' hi'
      refine hE e s₃ s' l₃ ?_ (G.rely_trans hs₀ (G.rely_trans hs₀' hs₃)) hi₃ hs' hi'
        (hl₀.trans hl₃)
      rintro m rfl
      rcases he with he | he
      · simp [Server.Stmt.exec, Server.query] at he
      · cases he
  · intro e s₃ s' l₃ he hs₃ hi₃ hl₃ hs' hi'
    refine hE e s₃ s' l₃ ?_ hs₃ hi₃ hs' hi' hl₃
    rintro m rfl
    rcases he with he | he
    · exact Or.inr ⟨m, he⟩
    · cases he

/-- A request for the grant of the device's user. -/
theorem ensures_getGrant (F : Follows S d G)
    {Q : Option Base64 → Shared → Device → Prop} {E : Cli.Error → Shared → Device → Prop}
    (hsome : ∀ grant s₃ s' l', G.rely s s₃ → G.inv s₃ → grantAt S d s₃.db = some grant →
      G.rely s₃ s' → G.inv s' → l.Still l' → Q (some (.valid grant)) s' l')
    (hnone : ∀ s₃ s' l', G.rely s s₃ → G.inv s₃ → NoGrant S d s₃.db → G.rely s₃ s' → G.inv s' →
      l.Still l' → Q none s' l')
    (hE : ∀ e s' l', G.rely s s' → G.inv s' → l.Still l' → E e s' l') :
    Ensures G ((S.api d).getGrant S.envId) Q E s l := by
  refine ensures_http (Setting.wpE_bind (F.serves_send ?_ ?_))
  · intro m s' hs hi
    exact hE _ s' l hs hi (Device.Still.refl l)
  intro s₀ hs₀ hi₀
  refine F.serves_getGrant ?_ ?_
  · intro grant s₃ s' l' hs₃ hi₃ hgrant hs' hi' hl
    refine ⟨?_, ?_⟩
    · intro s'' hs'' _
      refine Setting.wpE_pure ?_
      intro t ht hit
      exact hsome grant s₃ t l' (G.rely_trans hs₀ hs₃) hi₃ hgrant
        (G.rely_trans hs' (G.rely_trans hs'' ht)) hit hl
    · intro m s'' hs'' hi''
      exact hE _ s'' l' (G.rely_trans hs₀ (G.rely_trans hs₃ (G.rely_trans hs' hs''))) hi'' hl
  · intro e s₃ s' l' hnotFound hs₃ hi₃ hs' hi' hl
    have hafter : ∀ t, G.rely s' t → G.rely s t := fun t ht =>
      G.rely_trans hs₀ (G.rely_trans hs₃ (G.rely_trans hs' ht))
    refine ⟨?_, fun m s'' hs'' hi'' => hE _ s'' l' (hafter s'' hs'') hi'' hl⟩
    intro s'' hs'' _
    cases e with
    | notFound m =>
        refine Setting.wpE_pure ?_
        intro t ht hit
        exact hnone s₃ t l' (G.rely_trans hs₀ hs₃) hi₃ (hnotFound m rfl)
          (G.rely_trans hs' (G.rely_trans hs'' ht)) hit hl
    | _ =>
        refine Setting.wpE_throw ?_
        intro t ht hit
        exact hE _ t l' (hafter t (G.rely_trans hs'' ht)) hit hl

/-! ### Transactions -/

theorem serves_writeSecrets (F : Follows S d G) {batch : Api.BatchRequest}
    {Q : Int → Shared → Device → Prop} {E : Server.Error → Shared → Device → Prop}
    (hW : ∀ access v s₄ l₄ l₅, G.rely s s₄ → G.inv s₄ → l.Still l₄ →
      Committed G (.writeSecrets access S.envId batch) v s₄ l₄ l₅ →
      l₅ = { l₄ with seen := (s₄.after (.writeSecrets access S.envId batch)).db } →
      Accepts G (.writeSecrets access S.envId batch) s₄ l₄ l₅ (Q v))
    (hE : ∀ e s' l', G.rely s s' → G.inv s' → l.Still l' → E e s' l') :
    Serves G (Server.writeSecrets (S.user d) S.envId batch : Handler _) Q E s l := by
  unfold Server.writeSecrets
  refine Setting.wpE_bind (serves_require ?_ ?_)
  swap
  · intro s' _ hs hi
    exact hE _ s' l hs hi (Device.Still.refl l)
  intro s₀ _ hs₀ hi₀
  refine Setting.wpE_bind (F.serves_calm (by exact rfl) ?_ ?_)
  swap
  · intro e s₁ s' l₁ _ hs₁ _ hl₁ hs' hi'
    exact hE e s' l₁ (G.rely_trans hs₀ (G.rely_trans hs₁ hs')) hi' hl₁
  rintro ⟨project, access⟩ s₁ s₁' l₁ _ hs₁ hi₁ hl₁ hs₁' hi₁'
  have hbefore : G.rely s s₁' := G.rely_trans hs₀ (G.rely_trans hs₁ hs₁')
  refine Setting.wpE_bind (serves_check ?_ ?_)
  swap
  · intro e s' _ hs' hi'
    exact hE e s' l₁ (G.rely_trans hbefore hs') hi' hl₁
  intro _ s₃ _ hs₃ hi₃
  refine F.serves_commit ?_ ?_ ?_
  · intro s' e he
    refine ⟨callServer_snd (Server.commit_snd_of_error he) ?_, fun _ => rfl⟩
    rintro access envId orgId req h
    cases h
  · rintro v s₄ l' hv hs₄ hi₄ rfl hexec
    exact hW access v s₄ l₁ _ (G.rely_trans hbefore (G.rely_trans hs₃ hs₄)) hi₄ hl₁ ⟨hv, hexec⟩ rfl
  · intro e s' hs' hi'
    exact hE e s' l₁ (G.rely_trans hbefore (G.rely_trans hs₃ hs')) hi' hl₁

/-- A request to write a batch: it is refused, or accepted by one transaction after
which its response arrives or is lost. -/
theorem ensures_writeSecrets (F : Follows S d G) {batch : Api.BatchRequest}
    {Q : Int → Shared → Device → Prop} {E : Cli.Error → Shared → Device → Prop}
    (hW : ∀ access v s₄ l₄ l₅, G.rely s s₄ → G.inv s₄ → l.Still l₄ →
      Committed G (.writeSecrets access S.envId batch) v s₄ l₄ l₅ →
      l₅ = { l₄ with seen := (s₄.after (.writeSecrets access S.envId batch)).db } →
      Accepts G (.writeSecrets access S.envId batch) s₄ l₄ l₅ fun s' l' =>
        Q v s' l' ∧ ∀ m, E (.network m) s' l')
    (hE : ∀ e s' l', G.rely s s' → G.inv s' → l.Still l' → E e s' l') :
    Ensures G ((S.api d).writeSecrets S.envId batch) Q E s l := by
  refine ensures_http (F.serves_request ?_ ?_)
  · intro m s' hs hi
    exact hE _ s' l hs hi (Device.Still.refl l)
  intro s₀ hs₀ hi₀
  refine F.serves_writeSecrets ?_ ?_
  · intro access v s₄ l₄ l₅ hs₄ hi₄ hl₄ hcommit hl₅
    obtain ⟨hg, hi, hk⟩ := hW access v s₄ l₄ l₅ (G.rely_trans hs₀ hs₄) hi₄ hl₄ hcommit hl₅
    refine ⟨hg, hi, ?_⟩
    intro s' hs' _
    exact ⟨fun t ht hit => (hk t (G.rely_trans hs' ht) hit).1,
      fun m t ht hit => (hk t (G.rely_trans hs' ht) hit).2 m⟩
  · intro e s' l' hs' hi' hl e' t _ ht hit
    exact hE e' t l' (G.rely_trans hs₀ (G.rely_trans hs' ht)) hit hl

theorem serves_rotate (F : Follows S d G) {req : Api.RotateRequest}
    {Q : Int → Shared → Device → Prop} {E : Server.Error → Shared → Device → Prop}
    (hW : ∀ access orgId rotation v s₇ l₇, G.rely s s₇ → G.inv s₇ → l.Still l₇ →
      access.userId = S.user d → Server.decodeRotation (S.user d) req = .ok rotation →
      Committed G (.rotate access S.envId orgId rotation) v s₇ l₇ l₇ →
      Accepts G (.rotate access S.envId orgId rotation) s₇ l₇ l₇ (Q v))
    (hE : ∀ e s' l', G.rely s s' → G.inv s' → l.Still l' → E e s' l') :
    Serves G (Server.rotate (S.user d) S.envId req : Handler _) Q E s l := by
  unfold Server.rotate
  refine Setting.wpE_bind (F.serves_calm (by exact rfl) ?_ ?_)
  swap
  · intro e s₁ s' l₁ _ hs₁ _ hl₁ hs' hi'
    exact hE e s' l₁ (G.rely_trans hs₁ hs') hi' hl₁
  rintro ⟨project, access⟩ s₁ s₁' l₁ haccess hs₁ hi₁ hl₁ hs₁' hi₁'
  have huser : access.userId = S.user d := Server.envAccess_userId haccess
  have hbefore : G.rely s s₁' := G.rely_trans hs₁ hs₁'
  refine Setting.wpE_bind (serves_check ?_ ?_)
  swap
  · intro e s' _ hs' hi'
    exact hE e s' l₁ (G.rely_trans hbefore hs') hi' hl₁
  intro _ s₂ _ hs₂ hi₂
  refine Setting.wpE_bind (F.serves_calm (by exact rfl) ?_ ?_)
  swap
  · intro e s₃ s' l₃ _ hs₃ _ hl₃ hs' hi'
    exact hE e s' l₃ (G.rely_trans hbefore (G.rely_trans hs₂ (G.rely_trans hs₃ hs'))) hi'
      (hl₁.trans hl₃)
  intro orgId s₃ s₃' l₃ _ hs₃ hi₃ hl₃ hs₃' hi₃'
  have hbefore' : G.rely s s₃' := G.rely_trans hbefore (G.rely_trans hs₂ (G.rely_trans hs₃ hs₃'))
  cases orgId with
  | none =>
      refine Setting.wpE_throw ?_
      intro s' hs' hi'
      exact hE _ s' l₃ (G.rely_trans hbefore' hs') hi' (hl₁.trans hl₃)
  | some orgId =>
      refine Setting.wpE_bind (serves_check ?_ ?_)
      swap
      · intro e s' _ hs' hi'
        exact hE e s' l₃ (G.rely_trans hbefore' hs') hi' (hl₁.trans hl₃)
      intro rotation s₄ hrotation hs₄ hi₄
      refine F.serves_commit ?_ ?_ ?_
      · intro s' e he
        exact ⟨callServer_rotate_of_error he, fun _ => rfl⟩
      · rintro v s₇ l' hv hs₇ hi₇ rfl hexec
        exact hW access orgId rotation v s₇ _ (G.rely_trans hbefore' (G.rely_trans hs₄ hs₇)) hi₇
          (hl₁.trans hl₃) huser hrotation ⟨hv, hexec⟩
      · intro e s' hs' hi'
        exact hE e s' l₃ (G.rely_trans hbefore' (G.rely_trans hs₄ hs')) hi' (hl₁.trans hl₃)

/-- A request to rotate: it is refused, or accepted by one transaction after which
its response arrives or is lost. -/
theorem ensures_rotate (F : Follows S d G) {req : Api.RotateRequest}
    {Q : Int → Shared → Device → Prop} {E : Cli.Error → Shared → Device → Prop}
    (hW : ∀ access orgId rotation v s₇ l₇, G.rely s s₇ → G.inv s₇ → l.Still l₇ →
      access.userId = S.user d → Server.decodeRotation (S.user d) req = .ok rotation →
      Committed G (.rotate access S.envId orgId rotation) v s₇ l₇ l₇ →
      Accepts G (.rotate access S.envId orgId rotation) s₇ l₇ l₇ fun s' l' =>
        Q v s' l' ∧ ∀ m, E (.network m) s' l')
    (hE : ∀ e s' l', G.rely s s' → G.inv s' → l.Still l' → E e s' l') :
    Ensures G ((S.api d).rotate S.envId req) Q E s l := by
  refine ensures_http (F.serves_request ?_ ?_)
  · intro m s' hs hi
    exact hE _ s' l hs hi (Device.Still.refl l)
  intro s₀ hs₀ hi₀
  refine F.serves_rotate ?_ ?_
  · intro access orgId rotation v s₇ l₇ hs₇ hi₇ hl₇ huser hrotation hcommit
    obtain ⟨hg, hi, hk⟩ :=
      hW access orgId rotation v s₇ l₇ (G.rely_trans hs₀ hs₇) hi₇ hl₇ huser hrotation hcommit
    refine ⟨hg, hi, ?_⟩
    intro s' hs' _
    exact ⟨fun t ht hit => (hk t (G.rely_trans hs' ht) hit).1,
      fun m t ht hit => (hk t (G.rely_trans hs' ht) hit).2 m⟩
  · intro e s' l' hs' hi' hl e' t _ ht hit
    exact hE e' t l' (G.rely_trans hs₀ (G.rely_trans hs' ht)) hit hl

end Follows

/-! ### Calm requests -/

section CalmRequests

variable {S : Setup} {α : Type} {d : Nat}

theorem calm_putAccount {bundle : Api.AccountBundle} :
    CalmCall S (.http (.putAccount (S.user d) bundle)) :=
  uses_putAccount trivial fun _ => ⟨d, rfl⟩

theorem calm_listOrgs {userId : Ident} : CalmCall S (.http (.listOrgs userId)) :=
  uses_listOrgs trivial rfl

theorem calm_createProject {userId : Ident} {project : Api.NewProject}
    (h : project.id = S.projectId) : CalmCall S (.http (.createProject userId project)) :=
  uses_createProject trivial (fun _ => rfl) (fun _ _ => h) rfl rfl

theorem calm_createEnvironment {userId projectId : Ident} {env : Api.NewEnvironment}
    (h : env.id = S.envId) : CalmCall S (.http (.createEnvironment userId projectId env)) :=
  uses_createEnvironment trivial rfl (fun _ _ _ => h) rfl

theorem calm_listGrantHolders {userId : Ident} :
    CalmCall S (.http (.listGrantHolders userId S.envId)) :=
  uses_listGrantHolders trivial rfl rfl

end CalmRequests

end Sotto
