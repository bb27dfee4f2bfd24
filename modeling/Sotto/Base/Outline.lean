import Sotto.Base.Edits
import Sotto.Rounds.Action

/-!
# The base outline

The proof outline of the invariants that hold in every run. Every device relies on
the server's state to evolve, and guarantees it; further outlines of the system are
layered over this one.
-/

namespace Sotto

open Core Cli

section Rounds

variable {S : Setup} {d : Nat} {G : Setting Cmd.Reply Shared Device} {grant : Bytes}
  {s s' : Shared} {l l' : Device}

theorem Opened.same (h : Opened S l.store grant) (hl : l.Same l') : Opened S l'.store grant :=
  h.of_environments (by rw [hl.store])

theorem Opened.forward {rows : List (Ident × Server.Secret)} {revision : Int}
    (h : Opened S l.store grant) : Opened S (l.forward S rows revision).store grant :=
  h.mergeAll.withRevision

theorem Fetched.later (Gr : Grounded S d G) {s₁ s₂ : Shared} {revision : Int} {l₁ : Device}
    (h : Fetched S d G s l s₁ s₂ revision l₁) : Later S d s s₂ :=
  (Gr.later h.before).trans (Gr.later h.between)

/-- What is fetched is sound to merge as long as the server's state evolves. -/
theorem Device.Sound.mergeFetched (Gr : Grounded S d G) {s₁ s₂ : Shared} {revision : Int}
    {l₁ l₂ : Device} {force : Bool} {rows : List (Ident × Server.Secret)} (hl : l₂.Sound S d s')
    (h : Fetched S d G s l s₁ s₂ revision l₁) (hs : Evolves S s₂ s')
    (hrows : rows ⊆ s₂.db.secretsOf S.envId) : (l₂.merge S force rows).Sound S d s' :=
  hl.merge hs (Gr.sound h.inv₂) fun _ he => (mem_secretsOf.1 (hrows he)).1

theorem Device.Sound.applied (Gr : Grounded S d G) {s₁ s₂ : Shared} {revision : Int}
    {l₁ l₂ : Device} {force : Bool} {r : Except Cli.Error Int} (hl : l₂.Sound S d s')
    (h : Fetched S d G s l s₁ s₂ revision l₁) (hs : Evolves S s₂ s')
    (ha : Applied S force (s₂.db.secretsOf S.envId) revision l₂ r l') : l'.Sound S d s' := by
  cases ha with
  | part e n => exact hl.mergeFetched Gr h hs (List.take_subset _ _)
  | whole => exact (hl.mergeFetched Gr h hs (List.Subset.refl _)).synced

theorem KeptGrant.rely (h : KeptGrant S d G grant s s') : G.rely s s' := by
  rcases h with ⟨-, h⟩ | ⟨s₃, h₃, -, -, h⟩
  · exact h
  · exact G.rely_trans h₃ h

theorem Adopted.rely {s₃ : Shared} {grant' : Bytes} (h : Adopted S d G grant s l s₃ grant' s' l') :
    G.rely s s' :=
  G.rely_trans h.before h.after

theorem GrantChanged.rely (h : GrantChanged S d G grant s s') : G.rely s s' := by
  obtain ⟨-, s₃, h₃, -, -, h⟩ := h
  exact G.rely_trans h₃ h

theorem Device.Sound.adopted (Gr : Grounded S d G) {s₃ : Shared} {grant' : Bytes}
    (hl : l.Sound S d s') (hi : s'.Sound S) (h : Adopted S d G grant s l s₃ grant' s' l') :
    l'.Sound S d s' := by
  obtain ⟨_, l₄, hl₄, -, -, -, rfl⟩ := h.exec
  obtain ⟨key, -, hholds⟩ := Holds.of_grantAt (Gr.sound h.inv₃) h.current
  exact (hl.same hl₄.toSame).adopt ⟨key, hholds.evolves (Gr.later h.after).toEvolves hi.nodup⟩

/-- A pull keeps a device sound. -/
theorem Device.Sound.pulled (Gr : Grounded S d G) {r : Except Cli.Error Int} (hl : l.Sound S d s)
    (hi : s'.Sound S) (h : Pulled S d G grant s l r s' l') : l'.Sound S d s' := by
  cases h with
  | stopped hlooked => exact (hl.later (Gr.later hlooked.rely) hi).same hlooked.same
  | current hs₁ _ _ hs' hsame =>
      exact (hl.later ((Gr.later hs₁).trans (Gr.later hs')) hi).same hsame.toSame
  | @kept s₁ s₂ _ l₁ _ _ _ _ hfetch hkept happly =>
      have h₂ : Later S d s₂ s' := Gr.later hkept.rely
      have hl₁ : l₁.Sound S d s' := (hl.later ((hfetch.later Gr).trans h₂) hi).same hfetch.same
      exact hl₁.applied Gr hfetch h₂.toEvolves happly
  | @adopted s₁ s₂ _ _ l₁ _ l₂ _ _ _ _ hfetch hadopt happly =>
      have h₂ : Later S d s₂ s' := Gr.later hadopt.rely
      have hl₁ : l₁.Sound S d s' := (hl.later ((hfetch.later Gr).trans h₂) hi).same hfetch.same
      exact (hl₁.adopted Gr hi hadopt).applied Gr hfetch h₂.toEvolves happly

theorem Device.Sound.forward (Gr : Grounded S d G) {s₁ s₂ : Shared} {revision : Int} {l₁ : Device}
    (hl : l.Sound S d s) (h : Fetched S d G s l s₁ s₂ revision l₁) (hs : Later S d s₂ s')
    (hi : s'.Sound S) : (l₁.forward S (s₂.db.secretsOf S.envId) revision).Sound S d s' := by
  have hl₁ : l₁.Sound S d s' := (hl.later ((h.later Gr).trans hs) hi).same h.same
  exact (hl₁.mergeFetched Gr h hs.toEvolves (List.Subset.refl _)).synced

theorem Device.Sound.seen (hl : l.Sound S d s) {db : Server.Db} :
    ({ l with seen := db } : Device).Sound S d s :=
  hl.same ⟨⟨rfl, rfl, rfl, le_rfl⟩, rfl, rfl⟩

/-- The device that writes a batch is sound when it writes. -/
theorem Wrote.sound (Gr : Grounded S d G) {s₁ s₂ s₄ : Shared} {revision : Int} {l₁ : Device}
    {access : Server.ProjectAccess} {v : Int} {l₄ l₅ : Device}
    (h : Wrote S d G grant s l s₁ s₂ s₄ revision l₁ access v l₄ l₅) (hl : l.Sound S d s) :
    l₄.Sound S d s₄ :=
  (hl.forward Gr h.fetched (Gr.later h.before) (Gr.sound h.inv₄)).same h.forward.toSame

/-- It is sound after it has written. -/
theorem Wrote.soundAfter (Gr : Grounded S d G) {s₁ s₂ s₄ : Shared} {revision : Int} {l₁ : Device}
    {access : Server.ProjectAccess} {v : Int} {l₄ l₅ : Device}
    (h : Wrote S d G grant s l s₁ s₂ s₄ revision l₁ access v l₄ l₅) (hl : l.Sound S d s) :
    l₅.Sound S d (afterBatch S s₂ s₄ revision access l₄) := by
  have hl₄ := h.sound Gr hl
  obtain ⟨-, hup⟩ := h.uploaded Gr fun id row hrow => (hl₄.rows id row hrow).1
  have hi₄ := Gr.sound h.inv₄
  rw [h.seen]
  refine (hl₄.evolves (hup.evolves hi₄) (hup.sound hi₄ hl₄) ?_).seen
  rw [hup.created, hup.keys]
  exact hl₄.fresh

/-- A round of a push keeps a device sound. -/
theorem Device.Sound.pushRound (Gr : Grounded S d G) {r : Option (Except Cli.Error Int)}
    (hl : l.Sound S d s) (hi : s'.Sound S) (h : PushRound S d G grant s l r s' l') :
    l'.Sound S d s' := by
  cases h with
  | stopped _ hlooked => exact (hl.later (Gr.later hlooked.rely) hi).same hlooked.same
  | @part _ _ s₁ s₂ _ l₁ _ _ hfetch hs =>
      have hl₁ : l₁.Sound S d s' :=
        (hl.later ((hfetch.later Gr).trans (Gr.later hs)) hi).same hfetch.same
      exact hl₁.mergeFetched Gr hfetch (Gr.later hs).toEvolves (List.take_subset _ _)
  | forwarded _ hfetch hs hl' => exact (hl.forward Gr hfetch (Gr.later hs) hi).same hl'.toSame
  | refused hfetch hchanged hl' _ =>
      exact (hl.forward Gr hfetch (Gr.later hchanged.rely) hi).same hl'.toSame
  | unchanged hfetch hkept hl' _ =>
      exact (hl.forward Gr hfetch (Gr.later hkept.rely) hi).same hl'.toSame
  | @adopted s₁ s₂ s₃ revision l₁ grant' l₂ _ rows _ hfetch _ hadopt hrows =>
      have hl₂ : l₂.Sound S d s' :=
        (hl.forward Gr hfetch (Gr.later hadopt.rely) hi).adopted Gr hi hadopt
      rcases hrows with ⟨rfl, -⟩ | ⟨_, n, -, rfl, -⟩
      · exact hl₂.mergeFetched Gr hfetch (Gr.later hadopt.rely).toEvolves (List.Subset.refl _)
      · exact hl₂.mergeFetched Gr hfetch (Gr.later hadopt.rely).toEvolves (List.take_subset _ _)
  | @wrote s₁ s₂ s₄ revision l₁ access v l₄ l₅ _ _ _ hwrote hs hr =>
      have hl₅ := hwrote.soundAfter Gr hl
      have hl' := hl₅.later (Gr.later hs) hi
      rcases hr with ⟨-, rfl⟩ | ⟨_, -, -, rfl⟩
      · exact hl'.synced
      · exact hl'

end Rounds

/-! ### The outline -/

/-- The outline of the invariants that hold in every run. -/
def base (S : Setup) : Outline (S.system.restrict anyRun) where
  rely d := Later S d
  guar d _ s _ s' := Evolves S s s' ∧ ∀ i, i ≠ d → Later S i s s'
  inv s := s.Sound S
  idle d s l := l.Sound S d s
  post d _ _ s l := l.Sound S d s
  rely_refl _ := Later.refl
  rely_trans _ := Later.trans

variable {S : Setup}

theorem base_grounded (d : Nat) : Grounded S d ((base S).setting d) where
  follows :=
    { exec := fun h => h.1
      guar_refl := fun _ s _ => ⟨Evolves.refl s, fun _ _ => Later.refl s⟩
      linked := fun h => h.linked }
  later h := h
  sound h := h

/-- What a batch owes. -/
theorem Wrote.guarantees {d : Nat} {G : Setting Cmd.Reply Shared Device} (Gr : Grounded S d G)
    {grant : Bytes} {s : Shared} {l : Device} {s₁ s₂ s₄ : Shared} {revision : Int} {l₁ : Device}
    {access : Server.ProjectAccess} {v : Int} {l₄ l₅ : Device}
    (h : Wrote S d G grant s l s₁ s₂ s₄ revision l₁ access v l₄ l₅) (hl : l.Sound S d s) :
    Evolves S s₄ (afterBatch S s₂ s₄ revision access l₄) ∧
      (∀ i, i ≠ d → Later S i s₄ (afterBatch S s₂ s₄ revision access l₄)) ∧
      (afterBatch S s₂ s₄ revision access l₄).Sound S := by
  have hl₄ := h.sound Gr hl
  obtain ⟨-, hup⟩ := h.uploaded Gr fun id row hrow => (hl₄.rows id row hrow).1
  have hi₄ := Gr.sound h.inv₄
  exact ⟨hup.evolves hi₄, fun i hne => hup.later hi₄ hl₄ hne, hup.sound hi₄ hl₄⟩

theorem Rotated.same {d : Nat} {G : Setting Cmd.Reply Shared Device} {s : Shared} {l : Device}
    {s₁ s₂ s₇ : Shared} {revision : Int} {keySeed : Seed} {access : Server.ProjectAccess}
    {orgId : Ident} {rotation : Server.Rotation} {v : Int} {l₇ : Device}
    (h : Rotated S d G s l s₁ s₂ s₇ revision keySeed access orgId rotation v l₇) : l.Same l₇ := by
  obtain ⟨l₀, l₁, hl₀, hfetch, hl₁⟩ := h.fetched
  exact hl₀.toSame.trans (hfetch.same.trans hl₁.toSame)

theorem Rotated.later {d : Nat} {G : Setting Cmd.Reply Shared Device} (Gr : Grounded S d G)
    {s : Shared} {l : Device} {s₁ s₂ s₇ : Shared} {revision : Int} {keySeed : Seed}
    {access : Server.ProjectAccess} {orgId : Ident} {rotation : Server.Rotation} {v : Int}
    {l₇ : Device} (h : Rotated S d G s l s₁ s₂ s₇ revision keySeed access orgId rotation v l₇) :
    Later S d s s₇ := by
  obtain ⟨_, _, _, hfetch, _⟩ := h.fetched
  exact (hfetch.later Gr).trans (Gr.later h.before)

/-- What a rotation owes. -/
theorem Rotated.guarantees {d : Nat} {G : Setting Cmd.Reply Shared Device} (Gr : Grounded S d G)
    {s : Shared} {l : Device} {s₁ s₂ s₇ : Shared} {revision : Int} {keySeed : Seed}
    {access : Server.ProjectAccess} {orgId : Ident} {rotation : Server.Rotation} {v : Int}
    {l₇ : Device} (h : Rotated S d G s l s₁ s₂ s₇ revision keySeed access orgId rotation v l₇)
    (hl : l.Sound S d s) :
    Evolves S s₇ (afterRotation S s₇ access orgId rotation) ∧
      (∀ i, i ≠ d → Later S i s₇ (afterRotation S s₇ access orgId rotation)) ∧
      (afterRotation S s₇ access orgId rotation).Sound S ∧
      l₇.Sound S d (afterRotation S s₇ access orgId rotation) := by
  have hkey := h.rekeyed Gr
  have hi₇ := Gr.sound h.inv₇
  have hsound := hkey.sound hi₇ (h.notMem_keys Gr hl)
  refine ⟨hkey.evolves, fun i hne => hkey.later h.fresh.1 hne, hsound, ?_⟩
  have hl₇ : l₇.Sound S d s₇ := (hl.later (h.later Gr) hi₇).same h.same
  refine hl₇.evolves hkey.evolves hsound ?_
  intro n hn
  obtain ⟨hcreated, hkeys⟩ := hl₇.fresh n hn
  rw [hkey.created, hkey.keys]
  refine ⟨hcreated, ?_⟩
  intro hmem
  rcases List.mem_cons.1 hmem with heq | hmem
  · injection heq with hseed
    have hdraw := h.fresh.2.2
    rw [← hseed] at hdraw
    simp only at hdraw
    omega
  · exact hkeys hmem

theorem Device.Sound.begin {d : Nat} {op : Op} {s : Shared} {l : Device} (hl : l.Sound S d s) :
    ({ l with adopted := false, current := some op } : Device).Sound S d s :=
  ⟨hl.grant, hl.rows, hl.fresh⟩

/-- The base outline is valid: each operation keeps its device sound. -/
theorem base_valid : (base S).Valid where
  start := by
    rintro d op s l₀ l hi hl ⟨rfl, -⟩
    replace hl : ({ l₀ with adopted := false, current := some op } : Device).Sound S d s := hl.begin
    generalize ({ l₀ with adopted := false, current := some op } : Device) = l at hl
    have Gr : Grounded S d ((base S).setting d) := base_grounded d
    obtain ⟨grant, key, ho, hg⟩ := hl.grant
    have hstable : ∀ {s l s' l'}, Opened S l.store grant ∧ l.Sound S d s → s'.Sound S →
        Looked ((base S).setting d) s l s' l' → Opened S l'.store grant ∧ l'.Sound S d s' := by
      rintro s l s' l' ⟨ho, hl⟩ hi' hlooked
      exact ⟨ho.same hlooked.same, (hl.later hlooked.rely hi').same hlooked.same⟩
    apply Follows.wp_of_ensures
    cases op with
    | set name value =>
        refine Gr.follows.ensures_set ?_ ?_
        · intro s₁ store' hs₁ hi₁ hset _
          have hl₁ : l.Sound S d s₁ := hl.later hs₁ hi₁
          have hby := setBy_of_setTo hl₁ ho (hg.evolves hs₁.toEvolves hi₁.nodup) hset
          have hi₂ := sound_afterSet hby hi₁ hl₁
          refine ⟨⟨evolves_afterSet, fun i hne => later_afterSet hby hne⟩, hi₂, ?_⟩
          intro s' hs' hi'
          exact (hl₁.set hby).later hs' hi'
        · intro e s' l' hs' hi' hsame
          exact (hl.later hs' hi').same hsame.toSame
    | delete name =>
        refine Gr.follows.ensures_delete ?_ ?_
        · intro s₁ s' store' hs₁ hi₁ hdelete _ hs' hi'
          have hl₁ : l.Sound S d s₁ := hl.later hs₁ hi₁
          obtain ⟨id, row, -, -, -, -, rfl⟩ :=
            deleteBy_of_deleteTo hl₁ ho (hg.evolves hs₁.toEvolves hi₁.nodup) hdelete
          exact hl₁.delete.later hs' hi'
        · intro e s' l' hs' hi' hsame
          exact (hl.later hs' hi').same hsame.toSame
    | pull =>
        refine Gr.follows.ensures_actionPull ho ?_
        intro r s' l' hi' hpulled
        exact hl.pulled Gr hi' hpulled
    | push =>
        refine Gr.follows.ensures_actionPush
          (I := fun s l => Opened S l.store grant ∧ l.Sound S d s) And.left ?_ ?_ ?_ ho ?_
        · rintro s l s' l' ⟨ho, hl⟩ hi' hround
          refine ⟨?_, hl.pushRound Gr hi' hround⟩
          cases hround with
          | forwarded _ hfetch _ hl' =>
              exact (ho.same hfetch.same).forward.same hl'.toSame
        · rintro s l s₁ s₂ s₄ revision l₁ access v l₄ l₅ ⟨-, hl⟩ hwrote
          obtain ⟨hevolves, hlater, hsound⟩ := hwrote.guarantees Gr hl
          exact ⟨⟨hevolves, hlater⟩, hsound⟩
        · rintro s l r s' l' ⟨-, hl⟩ hi' hround
          exact hl.pushRound Gr hi' hround
        · intro s' l' hs' hi' hsame
          exact hstable ⟨ho, hl⟩ hi' (.of_still hs' hsame)
    | rotate =>
        refine Gr.follows.ensures_rotateActive
          (I := fun s l => Opened S l.store grant ∧ l.Sound S d s) And.left hstable ?_ ?_ ?_ ⟨ho, hl⟩
        · rintro s l s₁ s₂ s₇ revision keySeed access orgId rotation v l₇ - ⟨ho, hl⟩ hrot
          obtain ⟨hevolves, hlater, hsound, hl₇⟩ := hrot.guarantees Gr hl
          exact ⟨⟨hevolves, hlater⟩, hsound, ho.same hrot.same, hl₇⟩
        · rintro s l r s' l' ⟨-, hl⟩ hi' hpulled
          exact hl.pulled Gr hi' hpulled
        · rintro e s l ⟨-, hl⟩ -
          exact hl
    | rotateEnv revoke =>
        refine Gr.follows.ensures_actionRotateEnv
          (I := fun s l => Opened S l.store grant ∧ l.Sound S d s) hstable ?_ ?_ ⟨ho, hl⟩
        · rintro s l s₁ s₂ s₇ revision keySeed access orgId rotation v l₇ - ⟨ho, hl⟩ hrot
          obtain ⟨hevolves, hlater, hsound, hl₇⟩ := hrot.guarantees Gr hl
          exact ⟨⟨hevolves, hlater⟩, hsound, ho.same hrot.same, hl₇⟩
        · rintro r s l ⟨-, hl⟩ -
          exact hl
  finish := by
    rintro d op r s l l' hi hl ⟨rfl, -⟩
    exact ⟨hl.grant, hl.rows, hl.fresh⟩
  guar_rely := by
    intro i j c s l s' hne hi hg
    exact hg.2 i hne
  idle_stable := by
    intro d s s' l hi hi' hs hl
    exact hl.later hs hi'

theorem linked_init (S : Setup) : Linked S S.db := by
  obtain ⟨encName, henv⟩ := S.environment
  obtain ⟨ownerId, encName', hproject⟩ := S.project
  exact ⟨⟨_, henv⟩, by simp [hproject], S.initialised, S.accounts⟩

theorem sound_init (S : Setup) : S.init.shared.Sound S := by
  refine ⟨linked_init S, ?_, by simp [Setup.init], ?_, ?_, by simp [Setup.init]⟩
  · intro key hkey
    exact ⟨S.vaultKey, by simpa [Setup.init] using hkey⟩
  · intro u grant hgrant
    obtain ⟨ephemeral, rfl⟩ := S.grants u grant hgrant
    exact ⟨ephemeral, _, rfl, rfl⟩
  · intro id r hr
    have hr : S.db.secrets.lookup id = some r := hr
    rw [S.secrets] at hr
    cases hr

theorem opened_init (S : Setup) (d : Nat) :
    ∃ grant, S.db.grants.lookup (S.envId, S.user d) = some grant ∧
      Opened S (S.init.threads d).own.store grant := by
  obtain ⟨grant, hgrant, henv⟩ := S.granted d
  exact ⟨grant, hgrant, henv, S.onlyEnvironment d⟩

theorem soundDevice_init (S : Setup) (d : Nat) :
    (S.init.threads d).own.Sound S d S.init.shared := by
  obtain ⟨grant, hgrant, hopen⟩ := opened_init S d
  obtain ⟨ephemeral, rfl⟩ := S.grants _ _ hgrant
  refine ⟨⟨_, _, hopen, ⟨ephemeral, rfl⟩, List.mem_singleton_self _, fun _ => hgrant⟩, ?_, ?_⟩
  · intro id row hrow
    have hrow : (S.store d).secrets.lookup id = some row := hrow
    rw [(S.noSecrets d).1] at hrow
    cases hrow
  · intro n _
    refine ⟨by simp [Setup.init], ?_⟩
    have howner := S.vaultKeyOwner
    intro hmem
    have hseed : (⟨d + 1, n⟩ : Seed) = S.vaultKey := by simpa [Setup.init] using hmem
    rw [← hseed] at howner
    simp at howner

/-- The base outline holds of the linked environment before its first edit. -/
theorem base_init : (base S).Good S.init where
  inv := sound_init S
  thread := soundDevice_init S

/-! ### Extensions -/

/-- The system of the devices, restricted to the steps that the base outline describes. -/
def Setup.grounded (S : Setup) : System Nat Cmd.Reply Shared Device Op (Except Cli.Error Unit) :=
  S.system.restrict (base S).condition

theorem le_anyRun (K : Limit) : K.Le anyRun :=
  ⟨fun _ => trivial, fun _ => trivial, fun _ => trivial⟩

theorem reaches_anyRun {w : Setup.World} (h : S.system.Reaches S.init w) :
    (S.system.restrict anyRun).Reaches S.init w :=
  h.restrict_of_forall (fun _ _ _ _ => trivial) (fun _ _ _ _ _ _ _ => trivial)
    fun _ _ _ _ _ => trivial

/-- The base outline holds throughout every run. -/
theorem base_good {K : Limit} {w : Setup.World} (h : (S.system.restrict K).Reaches S.init w) :
    (base S).Good w :=
  base_init.reaches base_valid (h.restrict_mono (le_anyRun K))

/-- Every run is a run of the grounded system. -/
theorem grounded_reaches {K : Limit} {w : Setup.World}
    (h : (S.system.restrict K).Reaches S.init w) : (S.grounded.restrict K).Reaches S.init w :=
  base_init.layer base_valid (le_anyRun K) h

/-- A command of a device in a run is one of the grounded system. -/
theorem grounded_exec {w : Setup.World} (hw : (base S).Good w) {d : Nat} {op : Op} {c : Cmd}
    {k : c.Reply → Prog Cmd.Reply (Except Cli.Error Unit)} {r : c.Reply} {s' : Shared} {l' : Device}
    (hr : (w.threads d).running = some (op, .call c k))
    (he : S.system.exec d c w.shared (w.threads d).own r s' l') :
    S.grounded.exec d c w.shared (w.threads d).own r s' l' := by
  obtain ⟨hg, hi⟩ := hw.exec hr ⟨he, trivial⟩
  exact ⟨he, hw.inv, hi, hg⟩

/-- An outline over a grounded one is grounded. -/
theorem Grounded.extend {P : System Nat Cmd.Reply Shared Device Op (Except Cli.Error Unit)}
    {K : Limit} {O : Outline (P.restrict K)} {d : Nat} (Gr : Grounded S d (O.setting d))
    (hP : ∀ {c s l r s' l'}, P.exec d c s l r s' l' → Executes d c s l r s' l')
    {E : Outline.Extension Nat Cmd.Reply Shared Device Op (Except Cli.Error Unit)}
    (hE : ∀ c s l, E.guar d c s l s) : Grounded S d ((O.extend E).setting d) where
  follows :=
    { exec := fun h => hP h.1.1
      guar_refl := fun c s l => ⟨Gr.follows.guar_refl c s l, hE c s l⟩
      linked := fun h => Gr.follows.linked h.1 }
  later h := Gr.later h
  sound h := Gr.sound h.1

end Sotto
