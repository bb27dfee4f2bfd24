import Sotto.Rounds.Pull
import Sotto.Cli.Commands

/-!
# The rounds of a push

What one round of a push can have done: it fast-forwards to a snapshot, compares,
and then either has nothing to write, is refused, writes a batch, or meets a
conflict and starts the next round. A round ends with a result or with a retry.
-/

namespace Sotto

open Core Cli

/-- The changes that a store needs to write over the rows of a snapshot. -/
def changesOf (S : Setup) (rows : List (Ident × Server.Secret)) (store : Store) :
    List Api.SecretChange :=
  (store.allSecrets S.envId).filterMap fun l =>
    changeOf l (serverEntry (rows.map Server.secretView) l.id)

section Outcomes

variable (S : Setup) (d : Nat) (G : Setting Cmd.Reply Shared Device)

/-- Between two states the server answered with another grant, or that there is none. -/
def GrantChanged (grant : Bytes) (s s' : Shared) : Prop :=
  S.orgId ≠ none ∧ ∃ s₃, G.rely s s₃ ∧ G.inv s₃ ∧
    (NoGrant S d s₃.db ∨ ∃ grant', grantAt S d s₃.db = some grant' ∧ grant' ≠ grant) ∧
    G.rely s₃ s'

/-- Between two states the server answered that the grant is the one held; without an
organisation it is not asked. -/
def SameGrant (grant : Bytes) (s s' : Shared) : Prop :=
  (S.orgId = none ∧ G.rely s s') ∨
    ∃ s₃, G.rely s s₃ ∧ G.inv s₃ ∧ grantAt S d s₃.db = some grant ∧ G.rely s₃ s'

/-- The device after it applied a snapshot without force and recorded its revision. -/
def Device.forward (rows : List (Ident × Server.Secret)) (revision : Int) (l : Device) : Device :=
  (l.merge S false rows).synced S revision

/-- A push forwarded to the snapshot of `s₁` and `s₂` and wrote its changes at `s₄`. -/
structure Wrote (grant : Bytes) (s : Shared) (l : Device) (s₁ s₂ s₄ : Shared) (revision : Int)
    (l₁ : Device) (access : Server.ProjectAccess) (v : Int) (l₄ l₅ : Device) : Prop where
  fetched : Fetched S d G s l s₁ s₂ revision l₁
  forward : (l₁.forward S (s₂.db.secretsOf S.envId) revision).Still l₄
  changes : changesOf S (s₂.db.secretsOf S.envId) l₄.store ≠ []
  grant : SameGrant S d G grant s₂ s₄
  before : G.rely s₂ s₄
  inv₄ : G.inv s₄
  committed : Committed G (.writeSecrets access S.envId
    ⟨revision, changesOf S (s₂.db.secretsOf S.envId) l₄.store⟩) v s₄ l₄ l₅
  seen : l₅ = { l₄ with seen := (s₄.after (.writeSecrets access S.envId
    ⟨revision, changesOf S (s₂.db.secretsOf S.envId) l₄.store⟩)).db }

/-- The shared state after the batch of a push. -/
abbrev afterBatch (s₂ s₄ : Shared) (revision : Int) (access : Server.ProjectAccess)
    (l₄ : Device) : Shared :=
  s₄.after (.writeSecrets access S.envId ⟨revision, changesOf S (s₂.db.secretsOf S.envId) l₄.store⟩)

/-- What a round of a push can have done; a retry has no result. -/
inductive PushRound (grant : Bytes) (s : Shared) (l : Device) :
    Option (Except Cli.Error Int) → Shared → Device → Prop
  | stopped {e s' l'} : NotRefused e → Looked G s l s' l' →
      PushRound grant s l (some (.error e)) s' l'
  | part {e n s₁ s₂ revision l₁ s'} : NotRefused e → Fetched S d G s l s₁ s₂ revision l₁ →
      G.rely s₂ s' → PushRound grant s l (some (.error e)) s'
        (l₁.merge S false ((s₂.db.secretsOf S.envId).take n))
  | forwarded {r s₁ s₂ revision l₁ s' l'} :
      r = none ∨ (∃ e, NotRefused e ∧ r = some (.error e)) →
      Fetched S d G s l s₁ s₂ revision l₁ → G.rely s₂ s' →
      (l₁.forward S (s₂.db.secretsOf S.envId) revision).Still l' → PushRound grant s l r s' l'
  | refused {s₁ s₂ revision l₁ s' l'} : Fetched S d G s l s₁ s₂ revision l₁ →
      GrantChanged S d G grant s₂ s' →
      (l₁.forward S (s₂.db.secretsOf S.envId) revision).Still l' →
      changesOf S (s₂.db.secretsOf S.envId) l'.store ≠ [] →
      PushRound grant s l (some (.error rotatedError)) s' l'
  | unchanged {s₁ s₂ revision l₁ s' l'} : Fetched S d G s l s₁ s₂ revision l₁ →
      KeptGrant S d G grant s₂ s' →
      (l₁.forward S (s₂.db.secretsOf S.envId) revision).Still l' →
      changesOf S (s₂.db.secretsOf S.envId) l'.store = [] →
      PushRound grant s l (some (.ok revision)) s' l'
  | adopted {s₁ s₂ s₃ revision l₁ grant' l₂ s' rows r} : Fetched S d G s l s₁ s₂ revision l₁ →
      changesOf S (s₂.db.secretsOf S.envId)
        (l₁.forward S (s₂.db.secretsOf S.envId) revision).store = [] →
      Adopted S d G grant s₂ (l₁.forward S (s₂.db.secretsOf S.envId) revision) s₃ grant' s' l₂ →
      (rows = s₂.db.secretsOf S.envId ∧ r = .ok revision) ∨
        (∃ e n, NotRefused e ∧ rows = (s₂.db.secretsOf S.envId).take n ∧ r = .error e) →
      PushRound grant s l (some r) s' (l₂.merge S true rows)
  | wrote {s₁ s₂ s₄ revision l₁ access v l₄ l₅ r s' l'} :
      Wrote S d G grant s l s₁ s₂ s₄ revision l₁ access v l₄ l₅ →
      G.rely (afterBatch S s₂ s₄ revision access l₄) s' →
      (r = .ok v ∧ l' = l₅.synced S v) ∨ (∃ e, NotRefused e ∧ r = .error e ∧ l' = l₅) →
      PushRound grant s l (some r) s' l'

end Outcomes

section Checks

variable {S : Setup} {d : Nat} {G : Setting Cmd.Reply Shared Device} {s s' s'' : Shared}
  {grant : Bytes}

theorem SameGrant.rely (h : SameGrant S d G grant s s') : G.rely s s' := by
  rcases h with ⟨-, h⟩ | ⟨s₃, h₃, -, -, h⟩
  · exact h
  · exact G.rely_trans h₃ h

theorem SameGrant.trans_left (h : SameGrant S d G grant s' s'') (hs : G.rely s s') :
    SameGrant S d G grant s s'' := by
  rcases h with ⟨horg, h⟩ | ⟨s₃, h₃, hi₃, hgrant, h⟩
  · exact Or.inl ⟨horg, G.rely_trans hs h⟩
  · exact Or.inr ⟨s₃, G.rely_trans hs h₃, hi₃, hgrant, h⟩

theorem SameGrant.trans_right (h : SameGrant S d G grant s s') (hs : G.rely s' s'') :
    SameGrant S d G grant s s'' := by
  rcases h with ⟨horg, h⟩ | ⟨s₃, h₃, hi₃, hgrant, h⟩
  · exact Or.inl ⟨horg, G.rely_trans h hs⟩
  · exact Or.inr ⟨s₃, h₃, hi₃, hgrant, G.rely_trans h hs⟩

theorem GrantChanged.trans_left (h : GrantChanged S d G grant s' s'') (hs : G.rely s s') :
    GrantChanged S d G grant s s'' := by
  obtain ⟨horg, s₃, h₃, hi₃, hgrant, h⟩ := h
  exact ⟨horg, s₃, G.rely_trans hs h₃, hi₃, hgrant, h⟩

theorem GrantChanged.trans_right (h : GrantChanged S d G grant s s') (hs : G.rely s' s'') :
    GrantChanged S d G grant s s'' := by
  obtain ⟨horg, s₃, h₃, hi₃, hgrant, h⟩ := h
  exact ⟨horg, s₃, h₃, hi₃, hgrant, G.rely_trans h hs⟩

/-- A round that ended is one that ended before further steps of the others. -/
theorem PushRound.trans_right {l l' : Device} {r : Option (Except Cli.Error Int)}
    (h : PushRound S d G grant s l r s' l') (hs : G.rely s' s'') :
    PushRound S d G grant s l r s'' l' := by
  cases h with
  | stopped hr hl => exact .stopped hr (hl.trans_right hs)
  | part hr hfetch h => exact .part hr hfetch (G.rely_trans h hs)
  | forwarded hr hfetch h hl => exact .forwarded hr hfetch (G.rely_trans h hs) hl
  | refused hfetch hchanged hl hne => exact .refused hfetch (hchanged.trans_right hs) hl hne
  | unchanged hfetch hkept hl hempty => exact .unchanged hfetch (hkept.trans_right hs) hl hempty
  | adopted hfetch hempty hadopt hrows => exact .adopted hfetch hempty (hadopt.trans_right hs) hrows
  | wrote hwrote h hr => exact .wrote hwrote (G.rely_trans h hs) hr

end Checks

namespace Follows

variable {S : Setup} {d : Nat} {G : Setting Cmd.Reply Shared Device} {s : Shared} {l : Device}
  {grant : Bytes}

/-- The check before a batch is written: the grant is the same, or it changed. -/
theorem ensures_changedIfOrg (F : Follows S d G)
    {Q : Bool → Shared → Device → Prop} {E : Cli.Error → Shared → Device → Prop}
    (hsame : ∀ s' l', SameGrant S d G grant s s' → G.inv s' → l.Still l' → Q false s' l')
    (hchanged : ∀ s' l', GrantChanged S d G grant s s' → G.inv s' → l.Still l' → Q true s' l')
    (hE : ∀ e s' l', G.rely s s' → G.inv s' → l.Still l' → E e s' l') :
    Ensures G (changedIfOrg (S.api d) S.config S.envId grant) Q E s l := by
  unfold changedIfOrg
  cases horg : S.orgId with
  | none =>
      rw [if_neg (by simp [Setup.config, horg])]
      refine Setting.wpE_pure ?_
      intro s' hs' hi'
      exact hsame s' l (Or.inl ⟨horg, hs'⟩) hi' (Device.Still.refl l)
  | some orgId =>
      rw [if_pos (by simp [Setup.config, horg])]
      have horg' : S.orgId ≠ none := by simp [horg]
      unfold grantChanged
      refine Setting.wpE_bind (F.ensures_getGrant ?_ ?_ hE)
      · intro current s₃ s₃' l₃ hs₃ hi₃ hcurrent hs₃' _ hl₃
        refine Setting.wpE_bind (ensures_ofExcept ?_ ?_)
        swap
        · intro e s' he
          cases he
        intro grant' s₄ hgrant' hs₄ _
        obtain rfl : current = grant' := Except.ok.inj hgrant'
        refine Setting.wpE_pure ?_
        intro s' hs' hi'
        have hafter : G.rely s₃ s' := G.rely_trans hs₃' (G.rely_trans hs₄ hs')
        by_cases heq : current = grant
        · rw [decide_eq_false (by simpa using heq)]
          exact hsame s' l₃ (Or.inr ⟨s₃, hs₃, hi₃, by rw [hcurrent, heq], hafter⟩) hi' hl₃
        · rw [decide_eq_true heq]
          exact hchanged s' l₃ ⟨horg', s₃, hs₃, hi₃, Or.inr ⟨current, hcurrent, heq⟩, hafter⟩ hi' hl₃
      · intro s₃ s₃' l₃ hs₃ hi₃ hnone hs₃' _ hl₃
        refine Setting.wpE_pure ?_
        intro s' hs' hi'
        exact hchanged s' l₃ ⟨horg', s₃, hs₃, hi₃, Or.inl hnone, G.rely_trans hs₃' hs'⟩ hi' hl₃

theorem ensures_diff (F : Follows S d G) {s₂ : Shared} {revision : Int}
    {Q : List Api.SecretChange → Shared → Device → Prop}
    {E : Cli.Error → Shared → Device → Prop}
    (hQ : ∀ s', G.rely s s' → G.inv s' → Q (changesOf S (s₂.db.secretsOf S.envId) l.store) s' l)
    (hE : ∀ e s', G.rely s s' → G.inv s' → E e s' l) :
    Ensures G (diff S.envId (snapshotOf S revision s₂)) Q E s l := by
  unfold diff
  refine Setting.wpE_bind (F.ensures_read rfl ?_ fun m s' => hE _ s')
  intro locals s₁ hlocals hs₁ _
  obtain rfl : l.store.allSecrets S.envId = locals := Except.ok.inj hlocals
  refine Setting.wpE_pure ?_
  intro s' hs' hi'
  exact hQ s' (G.rely_trans hs₁ hs') hi'

/-- The rounds of a push, under an invariant that a retry keeps. -/
theorem ensures_pushLoop (F : Follows S d G) {I : Shared → Device → Prop}
    {Q : Except Cli.Error Int → Shared → Device → Prop}
    (hopen : ∀ {s l}, I s l → Opened S l.store grant)
    (hretry : ∀ {s l s' l'}, I s l → G.inv s' → PushRound S d G grant s l none s' l' → I s' l')
    (hwrite : ∀ {s l s₁ s₂ s₄ revision l₁ access v l₄ l₅}, I s l →
      Wrote S d G grant s l s₁ s₂ s₄ revision l₁ access v l₄ l₅ →
      G.guar (.server (.writeSecrets access S.envId
          ⟨revision, changesOf S (s₂.db.secretsOf S.envId) l₄.store⟩)) s₄ l₄
        (afterBatch S s₂ s₄ revision access l₄) ∧ G.inv (afterBatch S s₂ s₄ revision access l₄))
    (hdone : ∀ {s l r s' l'}, I s l → G.inv s' → PushRound S d G grant s l (some r) s' l' →
      Q r s' l')
    (attempts : Nat) (hI : I s l) :
    Ensures G (pushLoop (S.api d) S.config S.envId grant attempts)
      (fun v => Q (.ok v)) (fun e => Q (.error e)) s l := by
  induction attempts generalizing s l with
  | zero =>
      refine Setting.wpE_throw ?_
      intro s' hs' hi'
      exact hdone hI hi' (.stopped (notRefused_of_conflict (by decide))
        (.of_still hs' (Device.Still.refl l)))
  | succ attempts ih =>
      rw [pushLoop]
      refine Setting.wpE_bind (F.ensures_silent silent_fullSnapshot (F.ensures_fullSnapshot ?_ ?_))
      swap
      · intro e s' l' hl' hi' he
        exact hdone hI hi' (.stopped he hl')
      intro revision s₁ s₂ s₂' l₁ hfetch hs₂' _
      have ho₁ : Opened S l₁.store grant := by
        rw [hfetch.same.store]
        exact hopen hI
      refine Setting.wpE_bind (F.ensures_silent silent_applySnapshot
        (F.ensures_applySnapshot ho₁ ?_ ?_))
      swap
      · intro e n s' hs' hi' he
        exact hdone hI hi' (.part he hfetch (G.rely_trans hs₂' hs'))
      intro s₃ hs₃ _
      refine Setting.wpE_bind (F.ensures_silent (silent_store rfl)
        (F.ensures_setSyncedRevision ho₁.mergeAll ?_ ?_))
      swap
      · intro e s' hs' hi' he
        have hpart : PushRound S d G grant s l (some (.error e)) s'
            (l₁.merge S false ((s₂.db.secretsOf S.envId).take (s₂.db.secretsOf S.envId).length)) :=
          .part he hfetch (G.rely_trans hs₂' (G.rely_trans hs₃ hs'))
        rw [List.take_length] at hpart
        exact hdone hI hi' hpart
      intro s₄ hs₄ _
      have h₂₄ : G.rely s₂ s₄ := G.rely_trans hs₂' (G.rely_trans hs₃ hs₄)
      change Ensures G _ _ _ s₄ (l₁.forward S (s₂.db.secretsOf S.envId) revision)
      have ho₂ : Opened S (l₁.forward S (s₂.db.secretsOf S.envId) revision).store grant :=
        ho₁.mergeAll.withRevision
      refine Setting.wpE_bind (F.ensures_silent silent_diff (F.ensures_diff ?_ ?_))
      swap
      · intro e s' hs' hi' he
        exact hdone hI hi' (.forwarded (Or.inr ⟨e, he, rfl⟩) hfetch (G.rely_trans h₂₄ hs')
          (Device.Still.refl _))
      intro s₅ hs₅ _
      have h₂₅ : G.rely s₂ s₅ := G.rely_trans h₂₄ hs₅
      split
      · next hempty =>
          have hempty : changesOf S (s₂.db.secretsOf S.envId)
              (l₁.forward S (s₂.db.secretsOf S.envId) revision).store = [] := by
            simpa using hempty
          refine Setting.wpE_bind (F.ensures_silent silent_adoptIfOrg
            (F.ensures_adoptIfOrg ho₂ ?_ ?_ ?_))
          · intro s₆ l₆ hkept _ hl₆
            refine Setting.wpE_bind (Setting.wpE_pure ?_)
            intro s₇ hs₇ _
            refine Setting.wpE_pure ?_
            intro s' hs' hi'
            refine hdone hI hi' (.unchanged hfetch ?_ hl₆ (by rwa [hl₆.store]))
            exact (hkept.trans_left h₂₅).trans_right (G.rely_trans hs₇ hs')
          · intro s₆ grant' s₇ l₇ hadopt _
            have ho₇ : Opened S l₇.store grant' := by
              obtain ⟨_, l₀, hl₀, -, -, -, rfl⟩ := hadopt.exec
              have ho₀ : Opened S l₀.store grant := by
                rw [hl₀.store]
                exact ho₂
              exact ho₀.withGrant
            refine Setting.wpE_bind (F.ensures_silent silent_applySnapshot
              (F.ensures_applySnapshot ho₇ ?_ ?_))
            · intro s₈ hs₈ _
              refine Setting.wpE_pure ?_
              intro s' hs' hi'
              exact hdone hI hi' (.adopted hfetch hempty ((hadopt.trans_left h₂₅).trans_right
                (G.rely_trans hs₈ hs')) (Or.inl ⟨rfl, rfl⟩))
            · intro e n s' hs' hi' he
              exact hdone hI hi' (.adopted hfetch hempty ((hadopt.trans_left h₂₅).trans_right hs')
                (Or.inr ⟨e, n, he, rfl, rfl⟩))
          · intro e s' l' hs' hi' hl' he
            exact hdone hI hi' (.forwarded (Or.inr ⟨e, he, rfl⟩) hfetch (G.rely_trans h₂₅ hs') hl')
      · next hempty =>
          have hempty : changesOf S (s₂.db.secretsOf S.envId)
              (l₁.forward S (s₂.db.secretsOf S.envId) revision).store ≠ [] := by
            simpa using hempty
          refine Setting.wpE_bind (F.ensures_silent silent_changedIfOrg
            (F.ensures_changedIfOrg ?_ ?_ ?_))
          · intro s₆ l₆ hsame _ hl₆
            simp only [Bool.false_eq_true, if_false]
            refine Setting.wpE_bind (Setting.wpE_lift_run (F.ensures_writeSecrets ?_ ?_))
            · intro access v s₇ l₇ l₈ hs₇ hi₇ hl₇ hcommit hseen
              have hl : (l₁.forward S (s₂.db.secretsOf S.envId) revision).Still l₇ :=
                hl₆.trans hl₇
              rw [← hl.store] at hcommit hseen hempty ⊢
              have hwrote : Wrote S d G grant s l s₁ s₂ s₇ revision l₁ access v l₇ l₈ :=
                ⟨hfetch, hl, hempty, (hsame.trans_left h₂₅).trans_right hs₇,
                  G.rely_trans h₂₅ (G.rely_trans hsame.rely hs₇), hi₇, hcommit, hseen⟩
              obtain ⟨hg, hi₈⟩ := hwrite hI hwrote
              refine ⟨hg, hi₈, ?_⟩
              intro s₉ hs₉ _
              refine ⟨?_, ?_⟩
              · have ho₈ : Opened S l₈.store grant := by
                  rw [hseen]
                  exact ho₂.of_environments (by rw [hl.store])
                refine Setting.wpE_bind (F.ensures_silent (silent_store rfl)
                  (F.ensures_setSyncedRevision ho₈ ?_ ?_))
                · intro s₁₀ hs₁₀ _
                  refine Setting.wpE_pure ?_
                  intro s' hs' hi'
                  exact hdone hI hi' (.wrote hwrote (G.rely_trans hs₉ (G.rely_trans hs₁₀ hs'))
                    (Or.inl ⟨rfl, rfl⟩))
                · intro e s' hs' hi' he
                  exact hdone hI hi' (.wrote hwrote (G.rely_trans hs₉ hs')
                    (Or.inr ⟨e, he, rfl, rfl⟩))
              · intro m
                refine Setting.wpE_throw ?_
                intro s' hs' hi'
                exact hdone hI hi' (.wrote hwrote (G.rely_trans hs₉ hs')
                  (Or.inr ⟨_, (by intro h; cases h), rfl, rfl⟩))
            · intro e s₇ l₇ hs₇ hi₇ hl₇
              have h₂₇ : G.rely s₂ s₇ := G.rely_trans h₂₅ (G.rely_trans hsame.rely hs₇)
              have hl : (l₁.forward S (s₂.db.secretsOf S.envId) revision).Still l₇ :=
                hl₆.trans hl₇
              cases e with
              | conflict m =>
                  exact ih (hretry hI hi₇ (.forwarded (Or.inl rfl) hfetch h₂₇ hl))
              | _ =>
                  refine Setting.wpE_throw ?_
                  intro s' hs' hi'
                  exact hdone hI hi' (.forwarded (Or.inr ⟨_, (by intro h; cases h), rfl⟩) hfetch
                    (G.rely_trans h₂₇ hs') hl)
          · intro s₆ l₆ hchanged _ hl₆
            simp only [if_true]
            refine Setting.wpE_bind (Setting.wpE_throw ?_)
            intro s' hs' hi'
            refine hdone hI hi' (.refused hfetch ?_ hl₆ (by rwa [hl₆.store]))
            exact (hchanged.trans_left h₂₅).trans_right hs'
          · intro e s' l' hs' hi' hl' he
            exact hdone hI hi' (.forwarded (Or.inr ⟨e, he, rfl⟩) hfetch (G.rely_trans h₂₅ hs') hl')

end Follows

/-! ### Before the rounds -/

section Calm

variable {S : Setup} {d : Nat}

/-- What a push does before its rounds is calm. -/
theorem calm_of_prepares {c : Call} (h : Prepares (S.api d) S.projectId S.envId c) :
    CalmCall S c := by
  cases h with
  | fresh => exact ⟨trivial, fun _ => trivial⟩
  | keys => exact ⟨rfl, fun _ => trivial⟩
  | account => exact calm_putAccount
  | orgs => exact calm_listOrgs
  | project h => exact calm_createProject h
  | environment h => exact calm_createEnvironment h

end Calm

namespace Follows

variable {S : Setup} {d : Nat} {G : Setting Cmd.Reply Shared Device} {s : Shared} {l : Device}
  {grant : Bytes}

/-- A push, under an invariant that holds before its rounds and that a retry keeps. -/
theorem ensures_push (F : Follows S d G) {I : Shared → Device → Prop}
    {Q : Except Cli.Error Int → Shared → Device → Prop} {master : Bytes}
    (hopen : ∀ {s l}, I s l → Opened S l.store grant)
    (hretry : ∀ {s l s' l'}, I s l → G.inv s' → PushRound S d G grant s l none s' l' → I s' l')
    (hwrite : ∀ {s l s₁ s₂ s₄ revision l₁ access v l₄ l₅}, I s l →
      Wrote S d G grant s l s₁ s₂ s₄ revision l₁ access v l₄ l₅ →
      G.guar (.server (.writeSecrets access S.envId
          ⟨revision, changesOf S (s₂.db.secretsOf S.envId) l₄.store⟩)) s₄ l₄
        (afterBatch S s₂ s₄ revision access l₄) ∧ G.inv (afterBatch S s₂ s₄ revision access l₄))
    (hdone : ∀ {s l r s' l'}, I s l → G.inv s' → PushRound S d G grant s l (some r) s' l' →
      Q r s' l')
    (ho : Opened S l.store grant) (hI : ∀ {s' l'}, G.rely s s' → G.inv s' → l.Still l' → I s' l') :
    Ensures G (Cli.push (S.api d) master S.config)
      (fun v => Q (.ok v)) (fun e => Q (.error e)) s l := by
  have hfail : ∀ e s' l', NotRefused e → G.rely s s' → G.inv s' → l.Still l' →
      Q (.error e) s' l' := by
    intro e s' l' he hs' hi' hl'
    exact hdone (hI hs' hi' hl') hi'
      (.stopped he (.of_still (G.rely_refl s') (Device.Still.refl l')))
  unfold Cli.push
  refine Setting.wpE_bind (F.ensures_silent silent_resolveEnv (F.ensures_resolveEnv ho ?_ ?_))
  swap
  · intro e s' hs' hi' he
    exact hfail e s' l he hs' hi' (Device.Still.refl l)
  intro s₀ hs₀ _
  refine Setting.wpE_bind (F.ensures_read rfl ?_ ?_)
  swap
  · intro m s' hs' hi'
    exact hfail _ s' l (by intro h; cases h) (G.rely_trans hs₀ hs') hi' (Device.Still.refl l)
  intro project s₁ _ hs₁ _
  have h₀₁ : G.rely s s₁ := G.rely_trans hs₀ hs₁
  cases project with
  | none =>
      refine Setting.wpE_throw ?_
      intro s' hs' hi'
      exact hfail _ s' l (by intro h; cases h) (G.rely_trans h₀₁ hs') hi' (Device.Still.refl l)
  | some projectName =>
      refine Setting.wpE_bind (F.ensures_silent silent_ensureAccount
        (F.ensures_calm (prepares_ensureAccount.mono calm_of_prepares) ?_ ?_))
      swap
      · intro e s' l' hs' hi' hl' he
        exact hfail e s' l' he (G.rely_trans h₀₁ hs') hi' hl'
      intro _ s₂ l₂ hs₂ _ hl₂
      refine Setting.wpE_bind (F.ensures_silent silent_nameKey
        (F.ensures_calm (prepares_nameKey.mono calm_of_prepares) ?_ ?_))
      swap
      · intro e s' l' hs' hi' hl' he
        exact hfail e s' l' he (G.rely_trans h₀₁ (G.rely_trans hs₂ hs')) hi' (hl₂.trans hl')
      intro key s₃ l₃ hs₃ _ hl₃
      have h₀₃ : G.rely s s₃ := G.rely_trans h₀₁ (G.rely_trans hs₂ hs₃)
      refine Setting.wpE_bind (F.ensures_silent silent_ensureProjectEnv
        (F.ensures_calm (prepares_ensureProjectEnv.mono calm_of_prepares) ?_ ?_))
      swap
      · intro e s' l' hs' hi' hl' he
        exact hfail e s' l' he (G.rely_trans h₀₃ hs') hi' ((hl₂.trans hl₃).trans hl')
      intro _ s₄ l₄ hs₄ hi₄ hl₄
      exact F.ensures_pushLoop hopen hretry hwrite hdone _
        (hI (G.rely_trans h₀₃ hs₄) hi₄ ((hl₂.trans hl₃).trans hl₄))

end Follows

end Sotto
