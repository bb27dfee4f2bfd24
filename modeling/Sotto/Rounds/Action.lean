import Sotto.Rounds.Rotate
import Sotto.Rounds.Edit

/-!
# The operations of a device

One rule for each operation that runs rounds, in the form in which a proof outline
needs it.
-/

namespace Sotto

open Core Cli

namespace Follows

variable {S : Setup} {d : Nat} {G : Setting Cmd.Reply Shared Device} {s : Shared} {l : Device}
  {grant : Bytes} {Q : Except Cli.Error Unit → Shared → Device → Prop}

theorem wp_of_ensures {α : Type} {action : Action α} {Q : Except Cli.Error α → Shared → Device → Prop}
    (h : Ensures G action (fun v => Q (.ok v)) (fun e => Q (.error e)) s l) :
    G.wp (action.run.expand Call.steps) Q s l := by
  refine Setting.wp_mono h ?_
  intro r s' l' _ hr
  cases r with
  | ok v => exact hr
  | error e => exact hr

theorem ensures_discard {α : Type} {action : Action α} {P : Except Cli.Error α → Shared → Device → Prop}
    (h : Ensures G action (fun v => P (.ok v)) (fun e => P (.error e)) s l)
    (hQ : ∀ r s' l', G.inv s' → P r s' l' → Q (r.map fun _ => ()) s' l')
    (hstable : ∀ v s' s'' l', P (.ok v) s' l' → G.rely s' s'' → P (.ok v) s'' l') :
    Ensures G (do let _ ← action; return ()) (fun v => Q (.ok v)) (fun e => Q (.error e)) s l := by
  refine Setting.wpE_bind (Setting.wpE_mono h ?_ ?_)
  · intro v s' l' _ hP
    refine Setting.wpE_pure ?_
    intro s'' hs'' hi''
    exact hQ (.ok v) s'' l' hi'' (hstable v s' s'' l' hP hs'')
  · intro e s' l' hi' hP
    exact hQ (.error e) s' l' hi' hP

theorem ensures_actionPull (F : Follows S d G) (ho : Opened S l.store grant)
    (hQ : ∀ r s' l', G.inv s' → Pulled S d G grant s l r s' l' → Q (r.map fun _ => ()) s' l') :
    Ensures G (S.action d .pull) (fun v => Q (.ok v)) (fun e => Q (.error e)) s l :=
  ensures_discard (F.ensures_pull ho) hQ fun _ _ _ _ h hs => h.trans_right hs

theorem ensures_actionPush (F : Follows S d G) {I : Shared → Device → Prop}
    (hopen : ∀ {s l}, I s l → Opened S l.store grant)
    (hretry : ∀ {s l s' l'}, I s l → G.inv s' → PushRound S d G grant s l none s' l' → I s' l')
    (hwrite : ∀ {s l s₁ s₂ s₄ revision l₁ access v l₄ l₅}, I s l →
      Wrote S d G grant s l s₁ s₂ s₄ revision l₁ access v l₄ l₅ →
      G.guar (.server (.writeSecrets access S.envId
          ⟨revision, changesOf S (s₂.db.secretsOf S.envId) l₄.store⟩)) s₄ l₄
        (afterBatch S s₂ s₄ revision access l₄) ∧ G.inv (afterBatch S s₂ s₄ revision access l₄))
    (hdone : ∀ {s l r s' l'}, I s l → G.inv s' → PushRound S d G grant s l (some r) s' l' →
      Q (r.map fun _ => ()) s' l')
    (ho : Opened S l.store grant) (hI : ∀ {s' l'}, G.rely s s' → G.inv s' → l.Still l' → I s' l') :
    Ensures G (S.action d .push) (fun v => Q (.ok v)) (fun e => Q (.error e)) s l := by
  have hpush : Ensures G (Cli.push (S.api d) (S.master (S.user d)) S.config)
      (fun v s' l' => ∃ t m, I t m ∧ PushRound S d G grant t m (some (.ok v)) s' l')
      (fun e s' l' => ∃ t m, I t m ∧ PushRound S d G grant t m (some (.error e)) s' l') s l :=
    F.ensures_push (Q := fun r s' l' => ∃ t m, I t m ∧ PushRound S d G grant t m (some r) s' l')
      hopen hretry hwrite (fun {s l r s' l'} hI _ h => ⟨s, l, hI, h⟩) ho hI
  refine ensures_discard
    (P := fun r s' l' => ∃ t m, I t m ∧ PushRound S d G grant t m (some r) s' l') hpush ?_ ?_
  · rintro r s' l' hi' ⟨t, m, hIt, hround⟩
    exact hdone hIt hi' hround
  · rintro v s' s'' l' ⟨t, m, hIt, hround⟩ hs
    exact ⟨t, m, hIt, hround.trans_right hs⟩

theorem ensures_actionRotateEnv (F : Follows S d G) {I : Shared → Device → Prop}
    {revoke : Option Ident}
    (hstable : ∀ {s l s' l'}, I s l → G.inv s' → Looked G s l s' l' → I s' l')
    (hrotate : ∀ {s l s₁ s₂ s₇ revision keySeed access orgId rotation v l₇}, S.orgId ≠ none →
      I s l → Rotated S d G s l s₁ s₂ s₇ revision keySeed access orgId rotation v l₇ →
      G.guar (.server (.rotate access S.envId orgId rotation)) s₇ l₇
          (afterRotation S s₇ access orgId rotation) ∧
        G.inv (afterRotation S s₇ access orgId rotation) ∧
        I (afterRotation S s₇ access orgId rotation) l₇)
    (hQ : ∀ {r s l}, I s l → G.inv s → Q r s l) (hI : I s l) :
    Ensures G (S.action d (.rotateEnv revoke)) (fun v => Q (.ok v)) (fun e => Q (.error e)) s l := by
  simp only [Setup.action]
  split
  · refine Setting.wpE_throw ?_
    intro s' hs' hi'
    exact hQ (hstable hI hi' (.refl hs' l)) hi'
  · next horg =>
      refine Setting.wpE_bind
        (Setting.wpE_mono (F.ensures_rotateEnv hstable (hrotate (by simp [horg])) hI) ?_ ?_)
      · intro _ s₁ l₁ _ hI₁
        refine Setting.wpE_pure ?_
        intro s' hs' hi'
        exact hQ (hstable hI₁ hi' (.refl hs' l₁)) hi'
      · intro e s₁ l₁ hi₁ hI₁
        exact hQ hI₁ hi₁

end Follows

end Sotto
