import Sotto.Billing.Phases
import Sotto.Properties.Paid

/-!
# Leases of operations

Every write of an operation counts its version up and so overtakes all leases of the operation that
were issued before. A worker whose lease is overtaken changes nothing, and a worker's own result
overtakes its lease. A lease that has merely expired is still the operation's.
-/

namespace Sotto

namespace Billing

open Core
open Server (LifecycleState)

/-- The operation of a lease has been written since the lease was issued. -/
def DeletionLease.Overtaken (db : Db) (lease : DeletionLease) : Prop :=
  ∃ d, db.deletions.lookup lease.id = some d ∧ lease.stateVersion < d.stateVersion

/-- The lease is the operation's, though it has expired. -/
def DeletionLease.Expired (s : World) (lease : DeletionLease) : Prop :=
  ∃ d t, s.db.deletions.lookup lease.id = some d ∧ d.heldBy lease ∧ d.leaseExpiresAt = some t ∧
    t ≤ s.now

/-- Every operation is as it was or has a higher version, and then its leases are overtaken. -/
structure Advances (s s' : World) : Prop where
  versions : ∀ id d, s.db.deletions.lookup id = some d →
    ∃ d', s'.db.deletions.lookup id = some d' ∧ (d' = d ∨ d.stateVersion < d'.stateVersion)
  overtakes : ∀ lease ∈ s.leases,
    s'.db.deletions.lookup lease.id ≠ s.db.deletions.lookup lease.id → lease.Overtaken s'.db

section Steps

variable {textGt : String → String → Bool} {w₀ w w' : Situation}

theorem advances_of_deletions {s s' : World} (h : s'.db.deletions = s.db.deletions) :
    Advances s s' where
  versions id d hd := ⟨d, by rw [h, hd], Or.inl rfl⟩
  overtakes lease _ hne := absurd (by rw [h]) hne

theorem advances_of_writes {s s' : World} {c : Cmd} {id : Ident} {d : Deletion} (hs : s.Sound)
    (h : Writes s.now s.db c id d s'.db) : Advances s s' := by
  have hnext := next_of_writes h
  refine ⟨?_, ?_⟩
  · intro id' d' hd'
    rw [lookup_of_writes h]
    split
    · next heq =>
        subst heq
        rcases hnext with ⟨hfresh, -⟩ | ⟨d'', hd'', hnext⟩
        · cases hfresh.symm.trans hd'
        · cases hd''.symm.trans hd'
          exact ⟨d, rfl, Or.inr (by rw [hnext.stateVersion]; omega)⟩
    · exact ⟨d', hd', Or.inl rfl⟩
  · intro lease hlease hchanged
    obtain ⟨d', hd', hversion, -⟩ := (hs.leases lease hlease).operation
    rw [lookup_of_writes h] at hchanged
    split at hchanged
    · next heq =>
        rw [heq] at hd'
        refine ⟨d, by rw [lookup_of_writes h, if_pos heq], ?_⟩
        rcases hnext with ⟨hfresh, -⟩ | ⟨d'', hd'', hnext⟩
        · cases hfresh.symm.trans hd'
        · cases hd''.symm.trans hd'
          rw [hnext.stateVersion]
          omega
    · exact absurd rfl hchanged

theorem advances_of_step (hfresh : w₀.Fresh) (hrun : (deletionSystem textGt).Reaches w₀ w)
    (hstep : (deletionSystem textGt).Step w w') : Advances w.shared w'.shared := by
  cases progress_of_step hfresh.idle hrun hstep with
  | kept hdb => exact advances_of_deletions (by rw [hdb])
  | relinked hrelinks => exact advances_of_deletions hrelinks.deletions
  | written _ _ _ _ hwrites _ => exact advances_of_writes (sound_of_reaches hfresh hrun) hwrites

/-- A lease that is overtaken stays so. -/
theorem overtaken_of_reaches (hfresh : w₀.Fresh) (hrun : (deletionSystem textGt).Reaches w₀ w)
    {lease : DeletionLease} (h : lease.Overtaken w.shared.db)
    (hrun' : (deletionSystem textGt).Reaches w w') : lease.Overtaken w'.shared.db := by
  induction hrun' with
  | refl => exact h
  | @tail w₁ w₂ hrun₁ hstep ih =>
      obtain ⟨d, hd, hversion⟩ := ih
      obtain ⟨d', hd', hnext⟩ :=
        (advances_of_step hfresh (hrun.trans hrun₁) hstep).versions _ d hd
      refine ⟨d', hd', ?_⟩
      rcases hnext with rfl | hnext
      · exact hversion
      · exact hversion.trans hnext

/-- What a worker writes is the row of its lease, while it holds the lease. -/
theorem held_of_writes {now : Int} {db db' : Db} {c : Cmd} {id : Ident} {d : Deletion}
    {lease : DeletionLease} (hc : c.lease = some lease) (h : Writes now db c id d db') :
    id = lease.id ∧ ∃ d', db.deletions.lookup lease.id = some d' ∧ d'.heldBy lease := by
  cases h <;> cases hc
  all_goals exact ⟨rfl, _, ‹_›, ‹_›⟩

theorem lease_of_issues {lease : DeletionLease} {provider : Bool} {c : Cmd} {now : Int}
    {db db' : Db} {id : Ident} {d : Deletion} (hissues : (Op.advance lease provider).Issues c)
    (h : Writes now db c id d db') : c.lease = some lease := by
  cases h <;> simp_all [Op.Issues, Cmd.lease]

end Steps

/-- A step of a worker that advances an operation under a lease. -/
def Works (textGt : String → String → Bool) (lease : DeletionLease) (w w' : Situation) : Prop :=
  ∃ i provider c k r, (w.threads i).running = some (.advance lease provider, .call c k) ∧
    Executes textGt c w.shared r w'.shared ∧
    w'.threads = Function.update w.threads i ⟨(), some (.advance lease provider, k r)⟩

section Works

variable {textGt : String → String → Bool} {w₀ w w' : Situation} {lease : DeletionLease}

theorem Works.step (h : Works textGt lease w w') : (deletionSystem textGt).Step w w' := by
  obtain ⟨i, provider, c, k, r, hr, he, hthreads⟩ := h
  have hstep : (deletionSystem textGt).Step w ⟨w'.shared, Function.update w.threads i
      ⟨(), some (.advance lease provider, k r)⟩⟩ := .call hr he
  rw [← hthreads] at hstep
  exact hstep

/-- A worker changes nothing, or it holds its lease and overtakes it. -/
theorem Works.cases (hfresh : w₀.Fresh) (hrun : (deletionSystem textGt).Reaches w₀ w)
    (h : Works textGt lease w w') : w'.shared.db = w.shared.db ∨
      (∃ d, w.shared.db.deletions.lookup lease.id = some d ∧ d.heldBy lease) ∧
        lease.Overtaken w'.shared.db := by
  obtain ⟨i, provider, c, k, r, hr, he, -⟩ := h
  obtain ⟨huses, hstart⟩ := issues_of_reaches hfresh.idle hrun hr
  cases ends_of_executes he with
  | kept hdb _ => exact Or.inl hdb
  | @relinked event hc _ _ =>
      subst hc
      exact huses.1.elim
  | refused _ _ hdb _ => exact Or.inl hdb
  | written hwrites _ _ =>
      obtain ⟨rfl, d, hd, hheld⟩ := held_of_writes (lease_of_issues huses.1 hwrites) hwrites
      refine Or.inr ⟨⟨d, hd, hheld⟩, ?_⟩
      rcases next_of_writes hwrites with ⟨hnone, -⟩ | ⟨d', hd', hnext⟩
      · cases hnone.symm.trans hd
      · cases hd'.symm.trans hd
        refine ⟨_, by rw [lookup_of_writes hwrites, if_pos rfl], ?_⟩
        simp only [Deletion.heldBy, decide_eq_true_eq] at hheld
        rw [hnext.stateVersion]
        omega

/-- A worker whose lease is overtaken changes nothing. -/
theorem Works.unchanged (hfresh : w₀.Fresh) (hrun : (deletionSystem textGt).Reaches w₀ w)
    (hovertaken : lease.Overtaken w.shared.db) (h : Works textGt lease w w') :
    w'.shared.db = w.shared.db := by
  refine (h.cases hfresh hrun).resolve_right ?_
  rintro ⟨⟨d, hd, hheld⟩, -⟩
  obtain ⟨d', hd', hversion⟩ := hovertaken
  cases hd'.symm.trans hd
  simp only [Deletion.heldBy, decide_eq_true_eq] at hheld
  omega

end Works

/-- In every run, a step leaves every operation as it is or counts its version up, which overtakes
every lease of it that was issued; once a lease is overtaken, a worker that has it changes nothing
in the database, and a worker that changes something overtakes its own lease. -/
theorem leases_exclusive {textGt : String → String → Bool} {w₀ w w' : Situation}
    (hfresh : w₀.Fresh) (hrun : (deletionSystem textGt).Reaches w₀ w)
    (hstep : (deletionSystem textGt).Step w w') :
    Advances w.shared w'.shared ∧
      ∀ lease,
        (Works textGt lease w w' → w'.shared.db ≠ w.shared.db →
          lease.Overtaken w'.shared.db) ∧
        (lease.Overtaken w'.shared.db → ∀ w₁ w₂, (deletionSystem textGt).Reaches w' w₁ →
          Works textGt lease w₁ w₂ → w₂.shared.db = w₁.shared.db) := by
  refine ⟨advances_of_step hfresh hrun hstep, fun lease => ⟨?_, ?_⟩⟩
  · intro hworks hchanged
    exact ((hworks.cases hfresh hrun).resolve_left hchanged).2
  · intro hovertaken w₁ w₂ hrun₁ hworks
    have hrun' := hrun.tail hstep
    have hlater := overtaken_of_reaches hfresh hrun' hovertaken hrun₁
    exact hworks.unchanged hfresh (hrun'.trans hrun₁) hlater

/-! ### A lease that has expired -/

namespace Checkout

/-- The operation was claimed, and the lease has expired. -/
def late : World := elapsed (claimed (requested world))

/-- The worker goes on with the lease. -/
def resuming : Situation where
  shared := late
  threads := Function.update (quiet late).threads 0 ⟨(), some (.advance (lease .requested 1 0) true,
    perform (.transitionState (lease .requested 1 0) .cancellingBilling))⟩

/-- Its transition is applied. -/
def applied : Situation where
  shared := begun late
  threads := Function.update resuming.threads 0 ⟨(), some (.advance (lease .requested 1 0) true,
    .ret (late.commit (transitionState late.now (lease .requested 1 0) .cancellingBilling)).1)⟩

theorem reaches_resuming : (deletionSystem fun _ _ => false).Reaches (quiet world) resuming := by
  have hrequest : ((deletionSystem fun _ _ => false).restrict (onlyIf fun _ _ _ _ => True)).Reaches
      (quiet world) (quiet (requested world)) :=
    @reaches_issue _ _ _ (.request (.text "operation") (.text "org") (.text "owner")
      (.text "org") 30) _ _ trivial (.request rfl) trivial
  have hclaim : ((deletionSystem fun _ _ => false).restrict (onlyIf fun _ _ _ _ => True)).Reaches
      (quiet (requested world)) (quiet (claimed (requested world))) :=
    @reaches_issue _ _ _ (.claim "worker" []) _ _ trivial (.claim rfl) trivial
  have helapse : ((deletionSystem fun _ _ => false).restrict (onlyIf fun _ _ _ _ => True)).Reaches
      (quiet (claimed (requested world))) (quiet late) :=
    @reaches_issue _ _ _ (.tick 2592000) _ _ trivial (.tick (by decide +kernel)) trivial
  have hlease : lease .requested 1 0 ∈ late.leases := by decide +kernel
  exact (System.Reaches.of_restrict ((hrequest.trans hclaim).trans helapse)).tail
    (step_advance rfl hlease)

theorem works_applied : Works (fun _ _ => false) (lease .requested 1 0) resuming applied :=
  ⟨0, true, _, _, _, rfl, .transitionState rfl, rfl⟩

end Checkout

/-- A worker whose lease has expired applies its result, where nobody else has claimed the
operation. -/
theorem expired_applied : ¬ ∀ (textGt : String → String → Bool) (w₀ w w' : Situation)
    (lease : DeletionLease), w₀.Fresh → (deletionSystem textGt).Reaches w₀ w →
    lease.Expired w.shared ∨ lease.Overtaken w.shared.db → Works textGt lease w w' →
    w'.shared.db = w.shared.db := by
  intro h
  have hexpired : (Checkout.lease .requested 1 0).Expired Checkout.resuming.shared := by
    have hheld : (Checkout.late.db.deletions.lookup (.text "operation")).any fun d =>
        d.heldBy (Checkout.lease .requested 1 0) && d.leaseExpiresAt = some 300 := by
      decide +kernel
    rw [Option.any_eq_true] at hheld
    obtain ⟨d, hd, hheld⟩ := hheld
    rw [Bool.and_eq_true, decide_eq_true_eq] at hheld
    exact ⟨d, 300, hd, hheld.1, hheld.2, by decide +kernel⟩
  have hsame := h _ _ _ _ (Checkout.lease .requested 1 0) ⟨fun _ => rfl, rfl, rfl⟩
    Checkout.reaches_resuming (Or.inl hexpired) Checkout.works_applied
  have hbefore : (Checkout.late.db.deletions.lookup (.text "operation")).map Deletion.state =
      some .requested := by decide +kernel
  have hafter : ((Checkout.begun Checkout.late).db.deletions.lookup (.text "operation")).map
      Deletion.state = some .cancellingBilling := by decide +kernel
  have hsame : (Checkout.begun Checkout.late).db = Checkout.late.db := hsame
  rw [hsame, hbefore] at hafter
  cases hafter

/-- The result of a worker overtakes its lease. -/
theorem leases_exclusive_applied :
    (Checkout.lease .requested 1 0).Overtaken Checkout.applied.shared.db := by
  have hchanged : Checkout.applied.shared.db ≠ Checkout.resuming.shared.db := by
    intro hsame
    have hstate := congrArg (fun db : Db => (db.deletions.lookup (.text "operation")).map
      Deletion.state) hsame
    revert hstate
    decide +kernel
  exact ((leases_exclusive ⟨fun _ => rfl, rfl, rfl⟩ Checkout.reaches_resuming
    Checkout.works_applied.step).2 _).1 Checkout.works_applied hchanged

end Billing

end Sotto
