import Sotto.Cli.Session
import Mathlib.Data.Set.Finite.Basic

/-!
# When setting up a session is atomic

A setup flow that fails should leave the identity record and the secret key as they were. It does
not in two cases: the session cannot be cached after both were replaced, and the store refuses the
identity after the secret key was replaced, where the rollback removes the entry of the keychain
instead of restoring it. Which flows are atomic is decided by the operations that fail and by the
secret key that was there.
-/

namespace Sotto

namespace Cli

namespace Session

open Core

/-- A flow that sets up the identity of a device. -/
inductive Setup
  | init (password : Bytes)
  | reinit (password : Bytes)
  | restore (password secretKey salt : Bytes) (accountKeys : AccountKeys)

/-- The program of a setup flow. -/
def Setup.flow (seed : Seed) (now ttl : Int) : Setup → Flow Unit
  | init password => do
      let _ ← Session.init seed now ttl password
  | reinit password => do
      let _ ← Session.reinit seed now ttl password
  | restore password secretKey salt accountKeys =>
      Session.restore seed now ttl password secretKey salt accountKeys

/-- No operation fails. -/
def working : Operation → Option Error := fun _ => none

/-- A failed flow did no harm: the identity record and the secret key are as they were, so what
could be unlocked can be unlocked with the same password, and what was not initialised can be
initialised. -/
structure Unharmed (s s' : Storage) : Prop where
  identity : s'.identity = s.identity
  secretKey : s'.secretKey = s.secretKey
  unlock : ∀ now ttl password, ((Session.unlock now ttl password).exec working s).1 = .ok () →
    ((Session.unlock now ttl password).exec working s').1 = .ok ()
  init : ∀ seed now ttl password, s.identity = none →
    ∃ kit, ((Session.init seed now ttl password).exec working s').1 = .ok kit

/-- If a flow fails, it did no harm. -/
def Flow.Harmless {α : Type} (flow : Flow α) (fails : Operation → Option Error) (s : Storage) :
    Prop :=
  ∀ e s', flow.exec fails s = (.error e, s') → Unharmed s s'

/-- Whatever a setup flow draws, if it fails, it did no harm. -/
def Setup.Atomic (setup : Setup) (fails : Operation → Option Error) (s : Storage) : Prop :=
  ∀ seed now ttl, (setup.flow seed now ttl).Harmless fails s

/-- The flow comes to replace the secret key. -/
def Setup.Replaces (fails : Operation → Option Error) (s : Storage) : Setup → Prop
  | init _ => fails .getIdentity = none ∧ s.identity = none ∧ fails .derive = none ∧
      fails .setSecretKey = none
  | reinit _ => fails .derive = none ∧ fails .setSecretKey = none
  | restore password secretKey salt accountKeys =>
      fails .getIdentity = none ∧ s.identity = none ∧ fails .derive = none ∧
      (∃ keypair, Vault.openAccountKeypair (Kdf.deriveMasterKey password secretKey salt)
        accountKeys.encPrivateKeys = .ok keypair) ∧
      fails .setSecretKey = none

/-- What the rollback leaves in the keychain is what was there. -/
def Setup.RollsBack (fails : Operation → Option Error) (s : Storage) : Setup → Prop
  | restore _ secretKey _ _ =>
      if fails .deleteSecretKey = none then s.secretKey = none else s.secretKey = some secretKey
  | _ => fails .deleteSecretKey = none ∧ s.secretKey = none

/-! ### Runs of the steps -/

section Runs

variable {fails : Operation → Option Error} {s : Storage} {α β : Type}

theorem exec_bind_of_ok {flow : Flow α} {f : α → Flow β} {a : α} {s' : Storage}
    (h : flow.exec fails s = (.ok a, s')) : (flow >>= f).exec fails s = (f a).exec fails s' :=
  Prog.runE_bind_of_ok h

theorem exec_bind_of_error {flow : Flow α} {f : α → Flow β} {e : Error} {s' : Storage}
    (h : flow.exec fails s = (.error e, s')) : (flow >>= f).exec fails s = (.error e, s') :=
  Prog.runE_bind_of_error h

theorem exec_step_of_none {c : Cmd} (h : fails c.operation = none) :
    (step c).exec fails s = (.ok (c.effect s).1, (c.effect s).2) := by
  show c.exec fails s = _
  rw [Cmd.exec, h]

theorem exec_step_of_some {c : Cmd} {e : Error} (h : fails c.operation = some e) :
    (step c).exec fails s = (.error e, s) := by
  show c.exec fails s = _
  rw [Cmd.exec, h]

theorem exec_attempt (flow : Flow α) :
    (attempt flow).exec fails s = (.ok (flow.exec fails s).1, (flow.exec fails s).2) :=
  Prog.runE_lift flow.run

variable {secretKey : Bytes} {identity : Identity} {keys : AccountKeys}

theorem exec_persist_of_ok (hset : fails .setSecretKey = none)
    (hput : fails .putIdentityWithKeys = none) :
    (persist secretKey identity keys).exec fails s =
      (.ok (), ⟨some identity, some keys, some secretKey, s.session⟩) := by
  unfold persist
  rw [exec_bind_of_ok (exec_step_of_none hset), exec_bind_of_ok (exec_attempt _),
    exec_step_of_none hput]
  rfl

/-- A refused identity leaves the keychain with no secret key, or with the new one. -/
theorem exec_persist_of_error {e : Error} (hset : fails .setSecretKey = none)
    (hput : fails .putIdentityWithKeys = some e) :
    (persist secretKey identity keys).exec fails s = (.error e, { s with
      secretKey := if fails .deleteSecretKey = none then none else some secretKey }) := by
  unfold persist
  rw [exec_bind_of_ok (exec_step_of_none hset), exec_bind_of_ok (exec_attempt _),
    exec_step_of_some hput]
  refine (exec_bind_of_ok (exec_attempt _)).trans ?_
  cases hdel : fails .deleteSecretKey with
  | none =>
      rw [exec_step_of_none hdel]
      rfl
  | some e' =>
      rw [exec_step_of_some hdel]
      rfl

theorem exec_persist_of_unset {e : Error} (hset : fails .setSecretKey = some e) :
    (persist secretKey identity keys).exec fails s = (.error e, s) := by
  unfold persist
  rw [exec_bind_of_error (exec_step_of_some hset)]

end Runs

/-! ### Harm -/

section Harm

variable {s s' : Storage}

/-- Without failures, whether the password unlocks is decided by the identity and the secret key. -/
theorem exec_unlock_congr (hidentity : s'.identity = s.identity)
    (hsecret : s'.secretKey = s.secretKey) (now ttl : Int) (password : Bytes) :
    ((unlock now ttl password).exec working s').1 = ((unlock now ttl password).exec working s).1 := by
  have hget : ∀ t : Storage, (step .getSecretKey).exec working t = (.ok t.secretKey, t) :=
    fun _ => rfl
  have hrow : ∀ t : Storage, (step .getIdentity).exec working t = (.ok t.identity, t) :=
    fun _ => rfl
  unfold unlock
  rw [exec_bind_of_ok (hget s), exec_bind_of_ok (hget s'), hsecret]
  cases s.secretKey with
  | none => rfl
  | some secretKey =>
      dsimp only
      rw [exec_bind_of_ok (hrow s), exec_bind_of_ok (hrow s'), hidentity]
      cases s.identity with
      | none => rfl
      | some identity =>
          dsimp only
          rw [exec_bind_of_ok (exec_step_of_none rfl), exec_bind_of_ok (exec_step_of_none rfl)]
          dsimp only [Cmd.effect]
          cases Aead.open (Kdf.deriveMasterKey password secretKey identity.kdfSalt)
            identity.encVerifier .verifier <;> rfl

theorem exec_init_of_none (h : s.identity = none) (seed : Seed) (now ttl : Int) (password : Bytes) :
    ∃ kit, ((init seed now ttl password).exec working s).1 = .ok kit := by
  have hrow : (step .getIdentity).exec working s = (.ok none, s) := by rw [← h]; rfl
  unfold init
  rw [exec_bind_of_ok hrow]
  exact ⟨_, rfl⟩

theorem unharmed_iff : Unharmed s s' ↔ s'.identity = s.identity ∧ s'.secretKey = s.secretKey := by
  constructor
  · intro h
    exact ⟨h.identity, h.secretKey⟩
  · rintro ⟨hidentity, hsecret⟩
    refine ⟨hidentity, hsecret, ?_, ?_⟩
    · intro now ttl password h
      rw [exec_unlock_congr hidentity hsecret]
      exact h
    · intro seed now ttl password h
      exact exec_init_of_none (hidentity.trans h) seed now ttl password

theorem Unharmed.refl (s : Storage) : Unharmed s s := unharmed_iff.2 ⟨rfl, rfl⟩

end Harm

/-! ### The end of a setup -/

section Finish

variable {fails : Operation → Option Error} {s : Storage} {α : Type} {secretKey masterKey : Bytes}
  {identity : Identity} {keys : AccountKeys} {now ttl : Int}

/-- What all setup flows end with: the identity is persisted, and the session cached. -/
def finish (secretKey : Bytes) (identity : Identity) (keys : AccountKeys) (masterKey : Bytes)
    (now ttl : Int) : Flow Unit := do
  persist secretKey identity keys
  cacheSession masterKey now ttl

/-- A flow that fails at its end did no harm, unless it replaced what was there. -/
theorem harmless_finish_iff :
    (finish secretKey identity keys masterKey now ttl).Harmless fails s ↔
    (fails .setSecretKey = none →
      if fails .putIdentityWithKeys = none then
        fails .setSession = none ∨ s.identity = some identity ∧ s.secretKey = some secretKey
      else if fails .deleteSecretKey = none then s.secretKey = none
      else s.secretKey = some secretKey) := by
  unfold finish Flow.Harmless
  cases hset : fails .setSecretKey with
  | some e =>
      rw [exec_bind_of_error (exec_persist_of_unset hset)]
      constructor
      · intro _ h
        cases h
      · rintro - e' s' h
        cases h
        exact Unharmed.refl s
  | none =>
      cases hput : fails .putIdentityWithKeys with
      | some e =>
          rw [exec_bind_of_error (exec_persist_of_error hset hput)]
          constructor
          · rintro h -
            have hkey := (h e _ rfl).secretKey
            rw [if_neg (by simp)]
            split at hkey
            · next hdel =>
                rw [if_pos hdel]
                exact hkey.symm
            · next hdel =>
                rw [if_neg hdel]
                exact hkey.symm
          · intro h e' s' hr
            cases hr
            have hkey := h rfl
            rw [if_neg (by simp)] at hkey
            refine unharmed_iff.2 ⟨rfl, ?_⟩
            dsimp only
            split at hkey
            · next hdel => rw [if_pos hdel, hkey]
            · next hdel => rw [if_neg hdel, hkey]
      | none =>
          rw [exec_bind_of_ok (exec_persist_of_ok hset hput)]
          cases hsession : fails .setSession with
          | none =>
              rw [cacheSession, exec_step_of_none hsession]
              constructor
              · rintro - -
                rw [if_pos rfl]
                exact Or.inl rfl
              · rintro - e s' h
                cases h
          | some e =>
              rw [cacheSession, exec_step_of_some hsession]
              constructor
              · rintro h -
                have hsame := h e _ rfl
                rw [if_pos rfl]
                exact Or.inr ⟨hsame.identity.symm, hsame.secretKey.symm⟩
              · intro h e' s' hr
                cases hr
                have hsame := h rfl
                rw [if_pos rfl] at hsame
                rcases hsame with hsame | ⟨hidentity, hkey⟩
                · cases hsame
                · exact unharmed_iff.2 ⟨hidentity.symm, hkey.symm⟩

theorem harmless_step_bind_iff {β : Type} {c : Cmd} {f : c.Reply → Flow β}
    (heffect : (c.effect s).2 = s) : (step c >>= f).Harmless fails s ↔
      (fails c.operation = none → (f (c.effect s).1).Harmless fails s) := by
  unfold Flow.Harmless
  cases hc : fails c.operation with
  | some e =>
      rw [exec_bind_of_error (exec_step_of_some hc)]
      constructor
      · intro _ h
        cases h
      · rintro - e' s' h
        cases h
        exact Unharmed.refl s
  | none =>
      rw [exec_bind_of_ok (exec_step_of_none hc), heffect]
      simp

theorem harmless_throw {β : Type} (e : Error) : (throw e : Flow β).Harmless fails s := by
  intro e' s' h
  cases h
  exact Unharmed.refl s

theorem harmless_bind_pure_iff {β : Type} {flow : Flow α} {b : β} :
    (flow >>= fun _ => pure b).Harmless fails s ↔ flow.Harmless fails s := by
  unfold Flow.Harmless
  cases hf : flow.exec fails s with
  | mk r s₁ =>
      cases r with
      | ok a =>
          rw [exec_bind_of_ok hf]
          constructor
          · rintro - e s' h
            cases h
          · rintro - e s' h
            cases h
      | error e =>
          rw [exec_bind_of_error hf]
          constructor
          · intro h e' s' hr
            cases hr
            exact h e s₁ rfl
          · intro h e' s' hr
            cases hr
            exact h e s₁ rfl

end Finish

/-! ### The flows -/

section Flows

variable {fails : Operation → Option Error} {s : Storage}

/-- A draw whose parts are none of the given keys. -/
theorem exists_seed_notMem (keys : List Bytes) : ∃ seed, ∀ part, Bytes.random seed part ∉ keys := by
  let draws : List Nat := keys.map fun
    | .random seed _ => seed.draw
    | _ => 0
  obtain ⟨n, hn⟩ := Infinite.exists_notMem_finset draws.toFinset
  refine ⟨⟨0, n⟩, ?_⟩
  intro part hmem
  exact hn (List.mem_toFinset.2 (List.mem_map.2 ⟨_, hmem, rfl⟩))

/-- A fresh identity is not the one that was there, nor is the new secret key. -/
theorem harmless_reinit_iff (password : Bytes) :
    (∀ seed now ttl, (reinit seed now ttl password).Harmless fails s) ↔
      ((Setup.reinit password).Replaces fails s →
        if fails .putIdentityWithKeys = none then fails .setSession = none
        else (Setup.reinit password).RollsBack fails s) := by
  have hreinit : ∀ seed now ttl, (reinit seed now ttl password).Harmless fails s ↔
      (fails .derive = none → fails .setSecretKey = none →
        if fails .putIdentityWithKeys = none then fails .setSession = none ∨
          s.identity = some ⟨.random seed 1, Aead.seal (seed, 2) (Kdf.deriveMasterKey password
            (.random seed 0) (.random seed 1)) verifierPlaintext .verifier⟩ ∧
          s.secretKey = some (.random seed 0)
        else if fails .deleteSecretKey = none then s.secretKey = none
        else s.secretKey = some (.random seed 0)) := by
    intro seed now ttl
    refine (harmless_step_bind_iff rfl).trans (forall_congr' fun _ => ?_)
    dsimp only [Cmd.effect]
    rw [← bind_assoc, harmless_bind_pure_iff]
    exact harmless_finish_iff
  simp only [hreinit, Setup.Replaces, Setup.RollsBack]
  constructor
  · rintro h ⟨hderive, hset⟩
    obtain ⟨seed, hseed⟩ := exists_seed_notMem s.secretKey.toList
    have hfresh : s.secretKey ≠ some (.random seed 0) := by
      intro heq
      exact hseed 0 (by simp [heq])
    have hend := h seed 0 0 hderive hset
    split at hend
    · next hput =>
        rw [if_pos hput]
        exact hend.resolve_right fun hsame => hfresh hsame.2
    · next hput =>
        rw [if_neg hput]
        split at hend
        · next hdel => exact ⟨hdel, hend⟩
        · exact absurd hend hfresh
  · intro h seed _ _ hderive hset
    have hend := h ⟨hderive, hset⟩
    split at hend
    · next hput =>
        rw [if_pos hput]
        exact Or.inl hend
    · next hput =>
        rw [if_neg hput, if_pos hend.1]
        exact hend.2

theorem harmless_init_iff (seed : Seed) (now ttl : Int) (password : Bytes) :
    (init seed now ttl password).Harmless fails s ↔
      (fails .getIdentity = none → s.identity = none →
        (reinit seed now ttl password).Harmless fails s) := by
  refine (harmless_step_bind_iff rfl).trans (forall_congr' fun _ => ?_)
  dsimp only [Cmd.effect]
  cases hrow : s.identity with
  | none => simp
  | some identity => exact ⟨fun _ h => absurd h (by simp), fun _ => harmless_throw _⟩

theorem harmless_restore_iff (seed : Seed) (now ttl : Int) (password secretKey salt : Bytes)
    (accountKeys : AccountKeys) :
    (restore seed now ttl password secretKey salt accountKeys).Harmless fails s ↔
      ((Setup.restore password secretKey salt accountKeys).Replaces fails s →
        if fails .putIdentityWithKeys = none then fails .setSession = none
        else (Setup.restore password secretKey salt accountKeys).RollsBack fails s) := by
  refine (harmless_step_bind_iff rfl).trans ?_
  simp only [Setup.Replaces, Setup.RollsBack, and_imp]
  refine forall_congr' fun _ => ?_
  dsimp only [Cmd.effect]
  cases hrow : s.identity with
  | some identity => exact ⟨fun _ h => absurd h (by simp), fun _ => harmless_throw _⟩
  | none =>
      refine (harmless_step_bind_iff rfl).trans ?_
      simp only [true_implies]
      refine forall_congr' fun _ => ?_
      dsimp only [Cmd.effect]
      cases hopen : Vault.openAccountKeypair (Kdf.deriveMasterKey password secretKey salt)
        accountKeys.encPrivateKeys with
      | error e =>
          refine ⟨?_, fun _ => harmless_throw _⟩
          rintro - ⟨keypair, hkeypair⟩
          cases hkeypair
      | ok keypair =>
          refine harmless_finish_iff.trans ?_
          simp [hrow]

end Flows

/-- A setup flow is atomic if and only if, where it comes to replace the secret key, either all its
writes succeed or the store refuses the identity and the rollback leaves the secret key that was
there. -/
theorem setup_atomic_iff (setup : Setup) (fails : Operation → Option Error) (s : Storage) :
    setup.Atomic fails s ↔ (setup.Replaces fails s →
      if fails .putIdentityWithKeys = none then fails .setSession = none
      else setup.RollsBack fails s) := by
  cases setup with
  | init password =>
      have hinit : (Setup.init password).Atomic fails s ↔
          (fails .getIdentity = none → s.identity = none →
            ∀ seed now ttl, (reinit seed now ttl password).Harmless fails s) := by
        simp only [Setup.Atomic, Setup.flow, harmless_bind_pure_iff, harmless_init_iff]
        exact ⟨fun h hget hrow seed now ttl => h seed now ttl hget hrow,
          fun h seed now ttl hget hrow => h hget hrow seed now ttl⟩
      rw [hinit, harmless_reinit_iff]
      simp only [Setup.Replaces, and_imp]
      rfl
  | reinit password =>
      simp only [Setup.Atomic, Setup.flow, harmless_bind_pure_iff]
      exact harmless_reinit_iff password
  | restore password secretKey salt accountKeys =>
      have : Nonempty Seed := ⟨⟨0, 0⟩⟩
      simp only [Setup.Atomic, Setup.flow, harmless_restore_iff, forall_const]

/-- A device without an identity. -/
def blank : Storage := ⟨none, none, none, none⟩

/-- Only the given operation fails. -/
def failing (operation : Operation) : Operation → Option Error := fun operation' =>
  if operation' = operation then some (.keychain "unavailable") else none

/-- An `init` that cannot cache the session fails and leaves an identity. -/
theorem setup_not_atomic :
    ¬ ∀ setup fails s, Setup.Atomic setup fails s := by
  intro h
  have hinit := h (.init (.raw .empty)) (failing .setSession) blank ⟨0, 0⟩ 0 0 _ _ rfl
  exact absurd hinit.identity (by decide +kernel)

end Session

end Cli

end Sotto
