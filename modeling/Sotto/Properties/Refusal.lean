import Sotto.Base.Holder
import Sotto.Base.Undisturbed
import Sotto.Team

/-!
# What a pull does after a refused push

A push that is refused because of a rotation has already recorded the revision it read.
If the server is still at that revision, the pull that the refusal asks for is answered
304 and stops there, with the grant before the rotation in the store; at any other
revision it adopts the grant and takes over the rows.
-/

namespace Sotto

open Core Cli

/-- A device holds a grant of a vault key that is not the current one. -/
def Outdated (S : Setup) (d : Nat) (s : Shared) (l : Device) : Prop :=
  S.orgId ≠ none ∧ ∃ grant key, Holder S d grant key s l ∧ s.keys.head? ≠ some key

/-- A device holds the server's grant, and a copy of each row of the server. -/
def Recovered (S : Setup) (d : Nat) (s : Shared) (l : Device) : Prop :=
  (∃ grant, grantAt S d s.db = some grant ∧
    l.store.environments.lookup S.envId = some ⟨S.projectId, S.envName, grant⟩) ∧
  ∀ id r, s.db.secrets.lookup id = some r →
    l.store.secrets.lookup id = some (localRow S.envId r)

section Rounds

variable {S : Setup} {d : Nat} {G : Setting Cmd.Reply Shared Device} {s s' : Shared}
  {l l' : Device} {grant key : Bytes}

theorem Outdated.later (h : Outdated S d s l) (hs : Later S d s s') (hi : s'.Sound S) :
    Outdated S d s' l := by
  obtain ⟨horg, grant, key, hg, hne⟩ := h
  refine ⟨horg, grant, key, hg.later hs hi, ?_⟩
  intro hhead
  rw [hs.keys_eq hi.nodup hg.holds.known hhead] at hhead
  exact hne hhead

theorem Outdated.finish {last : Option (Op × Except Cli.Error Unit)}
    {edits : Table Ident SecretRow} (h : Outdated S d s l) :
    Outdated S d s { l with last, edits } := by
  obtain ⟨horg, grant, key, hg, hne⟩ := h
  exact ⟨horg, grant, key, hg.finish, hne⟩

/-- A device that fetched a snapshot has access from then on. -/
theorem Fetched.accessLater (Gr : Grounded S d G) {s₁ s₂ s₃ : Shared} {revision : Int} {l₁ : Device}
    (h : Fetched S d G s l s₁ s₂ revision l₁) (hs : Evolves S s₂ s₃) :
    ∃ access, Server.envAccess S.envId (S.user d) s₃.db = .ok access := by
  obtain ⟨s₀, access, hs₀, haccess⟩ := h.access
  refine ⟨access, ?_⟩
  have hlater : Evolves S s₀ s₃ :=
    ((Gr.later hs₀).toEvolves.trans (Gr.later h.between).toEvolves).trans hs
  rw [hlater.access, haccess]

/-- The grant that a device holds is not the server's when the server answers otherwise. -/
theorem Holder.outdated_of_changed (Gr : Grounded S d G) {s₁ s₂ : Shared} {revision : Int}
    {l₁ : Device} (hg : Holder S d grant key s' l') (hs : Holds S d s₂ grant key)
    (hfetch : Fetched S d G s l s₁ s₂ revision l₁) (h : GrantChanged S d G grant s₂ s')
    (hi : s'.Sound S) : Outdated S d s' l' := by
  obtain ⟨horg, s₃, h₃, hi₃, hchanged, h₃'⟩ := h
  have hs₃ : Holds S d s₃ grant key := hs.evolves (Gr.later h₃).toEvolves (Gr.sound hi₃).nodup
  refine ⟨horg, grant, key, hg, ?_⟩
  intro hhead
  have hhead₃ : s₃.keys.head? = some key := by
    rwa [(Gr.later h₃').keys_eq hi.nodup hs₃.known hhead] at hhead
  have hlive := hs₃.live hhead₃
  rcases hchanged with (hnone | ⟨m, hnone⟩) | ⟨grant', hgrant', hne⟩
  · rw [hnone] at hlive
    cases hlive
  · obtain ⟨access, haccess⟩ := hfetch.accessLater Gr (Gr.later h₃).toEvolves
    rw [haccess] at hnone
    cases hnone
  · rw [hgrant'] at hlive
    exact hne (Option.some.inj hlive)

end Rounds

/-! ### The outline -/

/-- What the outline adds: a device whose last operation was a refused push holds a grant
from before a rotation. -/
def refusalExtension (S : Setup) :
    Outline.Extension Nat Cmd.Reply Shared Device Op (Except Cli.Error Unit) where
  limit := anyRun
  inv _ := True
  guar _ _ _ _ _ := True
  idle d s l := l.last = some (.push, .error rotatedError) → Outdated S d s l
  post d op r s l := op = .push → r = .error rotatedError → Outdated S d s l

/-- The outline over the base outline. -/
def refusal (S : Setup) : Outline (S.grounded.restrict anyRun) :=
  (base S).extend (refusalExtension S)

theorem refusal_grounded {S : Setup} (d : Nat) : Grounded S d ((refusal S).setting d) :=
  (base_grounded d).extend (fun h => h) fun _ _ _ => trivial

theorem refusal_owes {S : Setup} {d : Nat} {c : Cmd} {s : Shared} {l : Device} {r : c.Reply}
    {s' : Shared} {l' : Device} (h : ((refusal S).setting d).exec c s l r s' l') :
    ((refusal S).setting d).guar c s l s' ∧ ((refusal S).setting d).inv s' :=
  Outline.owes_of_extend (fun _ _ _ _ => trivial) (fun _ => trivial) h

/-- The outline is valid: a push is refused only when the device's grant is outdated. -/
theorem refusal_valid {S : Setup} : (refusal S).Valid := by
  refine base_valid.extend (le_anyRun _) ?_ ?_ ?_
  · rintro d op s l₀ l hi - hsound - hstart -
    obtain rfl : l = l₀.launched op := hstart
    by_cases hop : op = .push
    · subst hop
      have Gr : Grounded S d ((refusal S).setting d) := refusal_grounded d
      obtain ⟨grant, key, hg⟩ := Holder.exists_of_sound hsound.begin
      refine Follows.wp_of_ensures (Gr.follows.ensures_actionPush (I := Holder S d grant key)
        (fun h => h.opened) ?_ ?_ ?_ hg.opened ?_)
      · intro s l s' l' h hi' hround
        cases hround with
        | forwarded _ hfetch hs hl' =>
            exact (h.forward Gr hfetch (Gr.later hs) hi'.1).same hl'.toSame
      · intro s l s₁ s₂ s₄ revision l₁ access v l₄ l₅ _ hwrote
        exact refusal_owes hwrote.committed.exec
      · intro s l r s' l' h hi' hround _ hr
        cases r with
        | ok v => cases hr
        | error e =>
            obtain rfl : e = rotatedError := by simpa [Except.map] using hr
            cases hround with
            | stopped he => exact absurd rfl he
            | part he => exact absurd rfl he
            | forwarded he =>
                rcases he with he | ⟨e, he, heq⟩
                · cases he
                · cases heq
                  exact absurd rfl he
            | @refused s₁ s₂ _ l₁ _ _ hfetch hchanged hl' _ =>
                have hs : Later S d s₂ s' := Gr.later hchanged.rely
                have hg' : Holder S d grant key s' l' :=
                  (h.forward Gr hfetch hs hi'.1).same hl'.toSame
                have hg₂ := h.fetched Gr hfetch (Later.refl s₂) (Gr.sound hfetch.inv₂)
                exact hg'.outdated_of_changed Gr hg₂.holds hfetch hchanged hi'.1
            | adopted _ _ _ hrows =>
                rcases hrows with ⟨-, heq⟩ | ⟨e, _, he, -, heq⟩
                · cases heq
                · cases heq
                  exact absurd rfl he
            | wrote _ _ hr =>
                rcases hr with ⟨heq, -⟩ | ⟨e, he, heq, -⟩
                · cases heq
                · cases heq
                  exact absurd rfl he
      · intro s' l' hs' hi' hl'
        exact (hg.later hs' hi'.1).same hl'.toSame
    · refine Setting.wp_mono (Setting.wp_true refusal_owes) ?_
      intro r s' l' _ _ hpush
      exact absurd hpush hop
  · rintro d op r s l l' hi - - hpost hfinish - hlast
    obtain rfl : l' = _ := hfinish
    simp only [Option.some.injEq, Prod.mk.injEq] at hlast
    exact (hpost hlast.1 hlast.2).finish
  · rintro d s s' l hi - hi' - hs - hl hlast
    exact (hl hlast).later hs hi'

theorem refusal_init {S : Setup} : (refusal S).Good S.init where
  inv := ⟨sound_init S, trivial⟩
  thread d := by
    refine ⟨soundDevice_init S d, ?_⟩
    intro hlast
    cases hlast

/-- A device whose last operation was a refused push holds a grant from before a rotation. -/
theorem outdated_of_refused {S : Setup} {w : Setup.World} (hw : S.system.Reaches S.init w)
    {d : Nat} (hidle : (w.threads d).running = none)
    (hlast : (w.threads d).own.last = some (.push, .error rotatedError)) :
    Outdated S d w.shared (w.threads d).own :=
  ((refusal_init.reaches refusal_valid (grounded_reaches (reaches_anyRun hw))).idle hidle).2 hlast

/-- After a refused push, a pull without concurrent changes that returns Ok recovers the
environment if and only if the user still has a grant and the server has left the revision
that the refused push recorded. -/
theorem refused_push_recovers_iff (S : Setup) {w : Setup.World} (hw : S.system.Reaches S.init w)
    {d : Nat} (hidle : (w.threads d).running = none)
    (hlast : (w.threads d).own.last = some (.push, .error rotatedError)) {s' : Shared} {l' : Device}
    (hpull : S.Alone d .pull w.shared (w.threads d).own (.ok ()) s' l') :
    Recovered S d s' l' ↔ (∃ grant, grantAt S d w.shared.db = some grant) ∧
      ¬ RevisionAt S w.shared ((w.threads d).own.store.syncedRevision S.envId) := by
  have hi : w.shared.Sound S := (base_good (reaches_anyRun hw)).inv
  obtain ⟨horg, grant, key, hg, hne⟩ := outdated_of_refused hw hidle hlast
  obtain ⟨rfl, h⟩ := hpull.pull hi.linked hg.opened
  have hother : grantAt S d w.shared.db ≠ some grant := by
    intro hgrant
    obtain ⟨key', hhead, hholds⟩ := Holds.of_grantAt hi hgrant
    obtain rfl := hholds.key_unique hg.holds
    exact hne hhead
  have hstored : ∀ {l : Device} {grant' : Bytes}, Opened S l.store grant →
      grantAt S d w.shared.db = some grant' →
      l.store.environments.lookup S.envId ≠ some ⟨S.projectId, S.envName, grant'⟩ := by
    intro l grant' ho hgrant' henv
    rw [ho.environment] at henv
    obtain rfl : grant = grant' := by simpa using henv
    exact hother hgrant'
  have ho : Opened S ((w.threads d).own.launched .pull).store grant := hg.opened
  constructor
  · rintro ⟨⟨grant', hgrant', henv⟩, -⟩
    refine ⟨⟨grant', hgrant'⟩, ?_⟩
    intro hrev
    cases h with
    | current _ hl => exact hstored (ho.same hl.toSame) hgrant' henv
    | kept hrev' hne' => exact hne' (hrev.unique hrev')
    | adopted hrev' hne' => exact hne' (hrev.unique hrev')
  · rintro ⟨⟨grant', hgrant'⟩, hrev⟩
    cases h with
    | current hrev' => exact absurd hrev' hrev
    | kept _ _ _ _ hkept =>
        rcases hkept with hnone | hsame | hnone
        · exact absurd hnone horg
        · exact absurd hsame hother
        · rw [hgrant'] at hnone
          cases hnone
    | @adopted l₁ revision grant'' _ _ hl₁ _ _ hgrant'' _ =>
        rw [hgrant'] at hgrant''
        cases hgrant''
        refine ⟨⟨grant', hgrant', ?_⟩, ?_⟩
        · have hopen : Opened S (l₁.adopt S grant').store grant' := (ho.same hl₁).withGrant
          exact hopen.mergeAll.withRevision.environment
        · intro id r hr
          have hmem : (id, r) ∈ w.shared.db.secretsOf S.envId :=
            mem_secretsOf.2 ⟨hr, (hi.rows id r hr).1⟩
          change (Store.mergeAll S.envId true _ (l₁.adopt S grant').store).secrets.lookup id = _
          rw [Store.lookup_mergeAll (nodup_secretsOf _ _) hmem, Store.takes, Bool.true_or,
            if_pos rfl]

/-! ### Runs of the team -/

/-- Whether the last operation of an idle device was a refused push. -/
def refusedPush (d : Nat) (w : Setup.World) : Bool :=
  (w.threads d).running.isNone &&
    match (w.threads d).own.last with
    | some (.push, .error e) => decide (e = rotatedError)
    | _ => false

theorem refused_of_refusedPush {d : Nat} {w : Setup.World} (h : refusedPush d w = true) :
    (w.threads d).running = none ∧ (w.threads d).own.last = some (.push, .error rotatedError) := by
  rw [refusedPush, Bool.and_eq_true] at h
  obtain ⟨hidle, hlast⟩ := h
  refine ⟨Option.isNone_iff_eq_none.1 hidle, ?_⟩
  split at hlast
  · next e heq =>
      obtain rfl : e = rotatedError := of_decide_eq_true hlast
      exact heq
  · cases hlast

/-- A run to a refused push: a device sets a secret and another rotates the key first. -/
def refusalRun : List Move :=
  Team.whole 0 (.set "X" Team.value) ++ Team.whole 1 .rotate ++ Team.whole 0 .push

set_option maxRecDepth 10000 in
/-- The pull after a refused push returns Ok and does not recover the environment. -/
theorem refused_push_unrecovered : ∃ w, Team.setup.system.Reaches Team.setup.init w ∧
    (w.threads 0).running = none ∧ (w.threads 0).own.last = some (.push, .error rotatedError) ∧
    ∃ s' l', Team.setup.Alone 0 .pull w.shared (w.threads 0).own (.ok ()) s' l' ∧
      ¬ Recovered Team.setup 0 s' l' := by
  have hrun : refusedPush 0 (Team.setup.run refusalRun Team.setup.init) = true := by
    decide +kernel
  have hpull : (Team.pulledAlone 0 (Team.setup.run refusalRun Team.setup.init)).1 = .ok () := by
    decide +kernel
  obtain ⟨hidle, hlast⟩ := refused_of_refusedPush hrun
  refine ⟨_, Setup.reaches_run, hidle, hlast, _, _, Team.alone_pulledAlone hpull, ?_⟩
  rintro ⟨⟨grant, hgrant, henv⟩, -⟩
  have hne : ((Team.pulledAlone 0 (Team.setup.run refusalRun Team.setup.init)).2.2.store.environments.lookup
      Team.setup.envId).map (·.encVaultKey) ≠
      grantAt Team.setup 0 (Team.pulledAlone 0 (Team.setup.run refusalRun Team.setup.init)).2.1.db := by
    decide +kernel
  rw [hgrant, henv] at hne
  exact hne rfl

/-- A run in which the server leaves the revision of the refused push. -/
def recoveryRun : List Move :=
  refusalRun ++ Team.whole 1 (.set "Y" Team.value) ++ Team.whole 1 .push

set_option maxRecDepth 10000 in
/-- After a refused push and another write, a pull recovers the environment. -/
theorem refused_push_recovers_later : ∃ s' l', Recovered Team.setup 0 s' l' ∧
    s'.db.secrets.rows ≠ [] := by
  have hrun : refusedPush 0 (Team.setup.run recoveryRun Team.setup.init) = true := by
    decide +kernel
  have hpull : (Team.pulledAlone 0 (Team.setup.run recoveryRun Team.setup.init)).1 = .ok () := by
    decide +kernel
  obtain ⟨hidle, hlast⟩ := refused_of_refusedPush hrun
  refine ⟨_, _, (refused_push_recovers_iff Team.setup Setup.reaches_run hidle hlast
    (Team.alone_pulledAlone hpull)).2 ⟨?_, ?_⟩, ?_⟩
  · have hgrant : (grantAt Team.setup 0
        (Team.setup.run recoveryRun Team.setup.init).shared.db).isSome = true := by
      decide +kernel
    exact Option.isSome_iff_exists.1 hgrant
  · rintro ⟨env, henv, hrev⟩
    have hne : ((Team.setup.run recoveryRun Team.setup.init).shared.db.environments.lookup
        Team.setup.envId).map (·.revision) ≠
        some (((Team.setup.run recoveryRun Team.setup.init).threads 0).own.store.syncedRevision
          Team.setup.envId) := by
      decide +kernel
    rw [henv] at hne
    exact hne (congrArg some hrev)
  · decide +kernel

end Sotto
