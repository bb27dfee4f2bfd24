import Sotto.Rounds.Action

/-!
# An operation without concurrent changes

While a device runs an operation and no other does, it finds one state of the server
from its start until a statement of its own changes it. A pull then either has the
current revision already, or merges the server's rows under the grant it holds, or
adopts another grant and takes over all rows.
-/

namespace Sotto

open Core Cli

/-- A device that starts an operation. -/
abbrev Device.launched (op : Op) (l : Device) : Device :=
  { l with adopted := false, current := some op }

namespace Setup

/-- A device runs an operation from its start to its result while no other takes a step. -/
def Alone (S : Setup) (d : Nat) (op : Op) (s : Shared) (l : Device) (r : Except Cli.Error Unit)
    (s' : Shared) (l' : Device) : Prop :=
  System.Alone (S.system.exec d) (S.system.prog d op) s (l.launched op) r s' l'

/-- The result of running an operation alone and without faults. -/
def alone (S : Setup) (d : Nat) (op : Op) (s : Shared) (l : Device) :
    Except Cli.Error Unit × Shared × Device :=
  (S.system.prog d op).run (fun c (t : Shared × Device) => perform d c t.1 t.2)
    (s, l.launched op)

theorem alone_spec (S : Setup) (d : Nat) (op : Op) (s : Shared) (l : Device) :
    S.Alone d op s l (S.alone d op s l).1 (S.alone d op s l).2.1 (S.alone d op s l).2.2 :=
  System.Alone.of_run (fun _ _ => Or.inl rfl) (S.system.prog d op) (s, l.launched op)

end Setup

/-- The setting of a device that runs alone in a linked environment. -/
def undisturbed (S : Setup) (d : Nat) : Setting Cmd.Reply Shared Device where
  rely s s' := s' = s
  exec := Executes d
  guar _ _ _ _ := True
  inv s := Linked S s.db
  rely_refl _ := rfl
  rely_trans := by
    rintro s _ _ rfl rfl
    rfl

theorem undisturbed_follows {S : Setup} {d : Nat} : Follows S d (undisturbed S d) where
  exec := fun h => h
  guar_refl := fun _ _ _ => trivial
  linked := fun h => h

/-- What a pull that returns Ok has done when the server did not change. -/
inductive Refreshed (S : Setup) (d : Nat) (grant : Bytes) (s : Shared) (l : Device) : Device → Prop
  | current {l₁} : RevisionAt S s (l.store.syncedRevision S.envId) → l.Still l₁ →
      Refreshed S d grant s l l₁
  | kept {l₁ revision} : RevisionAt S s revision →
      l.store.syncedRevision S.envId ≠ revision → l.Same l₁ → l₁.seen = s.db →
      S.orgId = none ∨ grantAt S d s.db = some grant ∨ grantAt S d s.db = none →
      Refreshed S d grant s l ((l₁.merge S false (s.db.secretsOf S.envId)).synced S revision)
  | adopted {l₁ revision grant'} : RevisionAt S s revision →
      l.store.syncedRevision S.envId ≠ revision → l.Same l₁ → l₁.seen = s.db →
      S.orgId ≠ none → grantAt S d s.db = some grant' → grant' ≠ grant →
      Refreshed S d grant s l
        (((l₁.adopt S grant').merge S true (s.db.secretsOf S.envId)).synced S revision)

section Pull

variable {S : Setup} {d : Nat} {grant : Bytes} {s s' : Shared} {l l' : Device}

theorem Pulled.refreshed {v : Int} (h : Pulled S d (undisturbed S d) grant s l (.ok v) s' l') :
    s' = s ∧ Refreshed S d grant s l l' := by
  cases h with
  | current hs₁ _ hrev hs' hl =>
      obtain rfl := hs₁
      exact ⟨hs', .current hrev hl⟩
  | kept hne hfetch hkept happly =>
      obtain ⟨_, _, rfl, haccess⟩ := hfetch.access
      obtain rfl := hfetch.before
      obtain rfl := hfetch.between
      cases happly with
      | whole =>
          rcases hkept with ⟨horg, hs'⟩ | ⟨_, rfl, -, hgrant, hs'⟩
          · exact ⟨hs', .kept hfetch.revision hne hfetch.same hfetch.seen (Or.inl horg)⟩
          · refine ⟨hs', .kept hfetch.revision hne hfetch.same hfetch.seen (Or.inr ?_)⟩
            rcases hgrant with hgrant | hnone | ⟨m, hnone⟩
            · exact Or.inl hgrant
            · exact Or.inr hnone
            · rw [haccess] at hnone
              cases hnone
  | adopted hne hfetch hadopt happly =>
      obtain rfl := hfetch.before
      obtain rfl := hfetch.between
      obtain rfl := hadopt.before
      obtain ⟨_, l₄, hl₄, -, -, -, rfl⟩ := hadopt.exec
      cases happly with
      | whole =>
          have hfetch := hfetch.still hl₄
          exact ⟨hadopt.after, .adopted hfetch.revision hne hfetch.same hfetch.seen hadopt.org
            hadopt.current hadopt.other⟩

/-- A pull that runs alone and returns Ok leaves the server as it is. -/
theorem Setup.Alone.pull (h : S.Alone d .pull s l (.ok ()) s' l') (hi : Linked S s.db)
    (ho : Opened S l.store grant) :
    s' = s ∧ Refreshed S d grant s (l.launched .pull) l' := by
  have ho : Opened S (l.launched .pull).store grant := ho
  have hwp : (undisturbed S d).wp (S.system.prog d .pull) (fun r s' l' => r = .ok () →
      ∃ v, Pulled S d (undisturbed S d) grant s (l.launched .pull) (.ok v) s' l')
      s (l.launched .pull) := by
    refine Follows.wp_of_ensures (undisturbed_follows.ensures_actionPull
      (Q := fun r s' l' => r = .ok () →
        ∃ v, Pulled S d (undisturbed S d) grant s (l.launched .pull) (.ok v) s' l') ho ?_)
    intro r s₁ l₁ _ hpulled hr
    cases r with
    | ok v => exact ⟨v, hpulled⟩
    | error e => cases hr
  obtain ⟨-, hok⟩ := System.Alone.of_wp (G := undisturbed S d) h hi hwp
  obtain ⟨v, hpulled⟩ := hok rfl
  exact hpulled.refreshed

end Pull

end Sotto
