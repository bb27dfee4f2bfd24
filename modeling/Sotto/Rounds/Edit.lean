import Sotto.Answers

/-!
# Edits

A set draws an id and the randomness of one encryption, and then is one call of the
store; a deletion is one such call. Either changes the store or fails without
effect.
-/

namespace Sotto

open Core Cli

/-- The device after an edit left another store. -/
def Device.edited (store : Store) (l : Device) : Device :=
  { l with store, edits := recordEdits l.store store l.edits }

/-- The call of the store that sets a name, with the draws of a device. -/
abbrev setCmd (S : Setup) (d : Nat) (l : Device) (name : String) (value : Bytes) : StoreCmd :=
  .vaultSet (S.keypair (S.user d)) S.projectId S.envName ⟨d + 1, l.draws⟩ ⟨d + 1, l.draws + 1⟩
    name value

/-- The call of the store that deletes a name. -/
abbrev deleteCmd (S : Setup) (d : Nat) (name : String) : StoreCmd :=
  .vaultDelete (S.keypair (S.user d)) S.projectId S.envName name

/-- The shared state after a set: what it creates is recorded. -/
def afterSet (name : String) (before after : Store) (s : Shared) : Shared :=
  { s with created := (newIds before after).map (·, name) ++ s.created }

/-- A set that succeeds on a store. -/
def SetTo (S : Setup) (d : Nat) (l : Device) (name : String) (value : Bytes) (store : Store) :
    Prop :=
  ∃ vault, Vault.open l.store (S.keypair (S.user d)) S.projectId S.envName = .ok vault ∧
    vault.set ⟨d + 1, l.draws⟩ ⟨d + 1, l.draws + 1⟩ name value l.store = .ok store

/-- A deletion that succeeds on a store. -/
def DeleteTo (S : Setup) (d : Nat) (l : Device) (name : String) (store : Store) : Prop :=
  ∃ vault, Vault.open l.store (S.keypair (S.user d)) S.projectId S.envName = .ok vault ∧
    vault.delete name l.store = .ok store

theorem write_bind_eq {α : Type} {x : Except Cli.Error α} {f : α → Except Cli.Error Store}
    {store : Store} :
    (∃ a store', x = .ok a ∧ f a = .ok store' ∧ StoreCmd.write (x >>= f) store = (.ok (), store')) ∨
      ∃ e, StoreCmd.write (x >>= f) store = (.error e, store) := by
  cases x with
  | error e => exact Or.inr ⟨e, rfl⟩
  | ok a =>
      cases hf : f a with
      | error e =>
          right
          refine ⟨e, ?_⟩
          simp [bind, Except.bind, hf, StoreCmd.write]
      | ok store' =>
          left
          refine ⟨a, store', rfl, hf, ?_⟩
          simp [bind, Except.bind, hf, StoreCmd.write]

namespace Follows

variable {S : Setup} {d : Nat} {G : Setting Cmd.Reply Shared Device} {s : Shared} {l : Device}
  {name : String} {value : Bytes} {Q : Except Cli.Error Unit → Shared → Device → Prop}

theorem ensures_set (F : Follows S d G)
    (hset : ∀ s₁ store', G.rely s s₁ → G.inv s₁ → SetTo S d l name value store' →
      G.exec (.store (setCmd S d l name value)) s₁ { l with draws := l.draws + 2 } (.ok ())
        (afterSet name l.store store' s₁) { l.edited store' with draws := l.draws + 2 } →
      G.guar (.store (setCmd S d l name value)) s₁ { l with draws := l.draws + 2 }
          (afterSet name l.store store' s₁) ∧
        G.inv (afterSet name l.store store' s₁) ∧
        ∀ s', G.rely (afterSet name l.store store' s₁) s' → G.inv s' →
          Q (.ok ()) s' { l.edited store' with draws := l.draws + 2 })
    (hfail : ∀ e s' l', G.rely s s' → G.inv s' → l.Still l' → Q (.error e) s' l') :
    Ensures G (S.action d (.set name value)) (fun v => Q (.ok v)) (fun e => Q (.error e)) s l := by
  unfold Setup.action
  refine Setting.wpE_bind (F.ensures_fresh ?_)
  intro s₁ hs₁ _
  refine Setting.wpE_bind (F.ensures_fresh ?_)
  intro s₂ hs₂ _
  have hl : l.Still { l with draws := l.draws + 1 + 1 } :=
    ⟨⟨⟨rfl, rfl, rfl, by simp only; omega⟩, rfl, rfl⟩, rfl⟩
  have h₀₂ : G.rely s s₂ := G.rely_trans hs₁ hs₂
  unfold Setting.wpE Action.store
  rw [ExceptT.run_mk, Prog.expand_perform_eq]
  refine Setting.wp_perform ?_
  intro s₃ hs₃ hi₃ r s₄ l₄ hex
  have h₀₃ : G.rely s s₃ := G.rely_trans h₀₂ hs₃
  rcases F.exec hex with he | ⟨⟨m, rfl⟩, rfl, rfl⟩
  · rcases @write_bind_eq _ (Vault.open l.store (S.keypair (S.user d)) S.projectId S.envName)
        (fun vault => vault.set ⟨d + 1, l.draws⟩ ⟨d + 1, l.draws + 1⟩ name value l.store)
        l.store with ⟨vault, store', hopen, hstore, hw⟩ | ⟨e, hw⟩
    · have hw : (setCmd S d l name value).exec l.store = (.ok (), store') := hw
      simp only [perform, hw, createdBy, Device.record, Prod.mk.injEq] at he
      obtain ⟨rfl, rfl, rfl⟩ := he
      obtain ⟨hg, hi, hk⟩ := hset s₃ store' h₀₃ hi₃ ⟨vault, hopen, hstore⟩ hex
      exact ⟨hg, hi, fun s' hs' hi' => hk s' hs' hi'⟩
    · have hw : (setCmd S d l name value).exec l.store = (.error e, l.store) := hw
      have herr : perform d (.store (setCmd S d l name value)) s₃
          { l with draws := l.draws + 1 + 1 } = (.error e, s₃, { l with draws := l.draws + 1 + 1 }) :=
        perform_store_error (by rw [hw])
      rw [herr] at he
      simp only [Prod.mk.injEq] at he
      obtain ⟨rfl, rfl, rfl⟩ := he
      refine ⟨F.guar_refl _ _ _, hi₃, ?_⟩
      intro s' hs' hi'
      exact hfail e s' _ (G.rely_trans h₀₃ hs') hi' hl
  · refine ⟨F.guar_refl _ _ _, hi₃, ?_⟩
    intro s' hs' hi'
    exact hfail _ s' _ (G.rely_trans h₀₃ hs') hi' hl

theorem ensures_delete (F : Follows S d G)
    (hdelete : ∀ s₁ s' store', G.rely s s₁ → G.inv s₁ → DeleteTo S d l name store' →
      G.exec (.store (deleteCmd S d name)) s₁ l (.ok ()) s₁ (l.edited store') →
      G.rely s₁ s' → G.inv s' → Q (.ok ()) s' (l.edited store'))
    (hfail : ∀ e s' l', G.rely s s' → G.inv s' → l.Still l' → Q (.error e) s' l') :
    Ensures G (S.action d (.delete name)) (fun v => Q (.ok v)) (fun e => Q (.error e)) s l := by
  unfold Setup.action
  have hplain : (deleteCmd S d name).isPlain := rfl
  refine F.ensures_store hplain ?_ ?_
  · intro _ s₁ s' hok hs₁ hi₁ hex hs' hi'
    rcases @write_bind_eq _ (Vault.open l.store (S.keypair (S.user d)) S.projectId S.envName)
        (fun vault => vault.delete name l.store)
        l.store with ⟨vault, store', hopen, hstore, hw⟩ | ⟨e, hw⟩
    · have hw : (deleteCmd S d name).exec l.store = (.ok (), store') := hw
      have hafter : afterStore (deleteCmd S d name) l = l.edited store' := by
        simp only [afterStore, hw, Device.record, Device.edited]
      rw [hafter] at hex ⊢
      exact hdelete s₁ s' store' hs₁ hi₁ ⟨vault, hopen, hstore⟩ hex hs' hi'
    · have hw : (deleteCmd S d name).exec l.store = (.error e, l.store) := hw
      have hok : ((deleteCmd S d name).exec l.store).1 = .ok _ := hok
      rw [hw] at hok
      cases hok
  · intro e s' _ hs' hi'
    exact hfail e s' l hs' hi' (Device.Still.refl l)

end Follows

end Sotto
