import Sotto.Properties.Lifecycle

/-!
# Purges that fail

A purge is refused only because its observation of billing has grown stale. A retry resumes it where
it failed, and nothing between there and the purge observes billing again, so it is refused every
time.
-/

namespace Sotto

namespace Billing

open Core
open Server (Tier LifecycleState)

/-- An operation is in a state, or goes on in it after a failure. -/
def Deletion.At (state : DeletionState) (d : Deletion) : Prop :=
  d.state = state ∨ (d.state = .failed ∧ d.resumeState = some state)

/-- The observation of billing is too old for a purge. -/
def Deletion.Stale (now : Int) (d : Deletion) : Prop :=
  ∀ t, d.billingCheckedAt = some t → t < now - billingObservationMaxAge

/-- What holds of an operation that is retained or is purged: its billing has ended, its purge
deadline has passed, its organisation is linked to its subscription still, and where its purge has
failed, its observation is too old. -/
structure Deletion.Gated (s : World) (d : Deletion) : Prop where
  ended : d.At .retention ∨ d.At .purging →
    d.lastBillingState = some .terminal ∨ d.lastBillingState = some .missing
  due : d.At .purging → d.purgeAfter ≤ s.now
  linked : ¬ d.state.isTerminal → ∀ org, s.db.organizations.lookup d.orgId = some org →
    org.stripeSubscriptionId = d.subscriptionId
  stale : d.state = .failed → d.resumeState = some .purging → d.Stale s.now

theorem Deletion.Stale.later {now now' : Int} {d : Deletion} (h : d.Stale now) (hnow : now ≤ now') :
    d.Stale now' := by
  intro t ht
  have := h t ht
  omega

/-- A purge is not permitted with a stale observation. -/
theorem not_fresh_of_stale {now : Int} {d : Deletion} (h : d.Stale now) :
    d.isFresh now ≠ some true := by
  intro hfresh
  obtain ⟨t, ht, hage⟩ := checked_of_isFresh hfresh
  have := h t ht
  unfold billingObservationMaxAge at this
  omega

/-- An observation that is not fresh is stale. -/
theorem stale_of_not_fresh {now : Int} {d : Deletion} (h : d.isFresh now = some false) :
    d.Stale now := by
  intro t ht
  unfold Deletion.isFresh at h
  rw [ht, Option.map_some] at h
  by_contra hage
  rw [decide_eq_true (by omega : t ≥ now - billingObservationMaxAge)] at h
  cases hs : d.billingObservationSource <;> simp [hs, sqlAnd] at h

section Steps

variable {textGt : String → String → Bool} {w₀ w w' : Situation} {s : World} {op : Op} {c : Cmd}
  {id : Ident} {d d' : Deletion} {db' : Db}

/-- What a write leaves of the organisations of operations that are not over. -/
theorem linked_of_writes (hs : s.Sound) (hgoverned : s.db.Governed) (hissues : op.Issues c)
    (hstart : op.MayStart s) (hwrites : Writes s.now s.db c id d' db') {id' : Ident}
    (hd : s.db.deletions.lookup id' = some d) (hopen : ¬ d.state.isTerminal)
    (hlast : id' = id → d'.state ≠ .completed) {org : Organization}
    (horg : db'.organizations.lookup d.orgId = some org) :
    ∃ org', s.db.organizations.lookup d.orgId = some org' ∧
      org'.stripeSubscriptionId = org.stripeSubscriptionId := by
  have hmodify : ∀ {o : Ident} {f : Organization → Organization},
      db'.organizations = s.db.organizations.modify o f →
      (∀ org, (f org).stripeSubscriptionId = org.stripeSubscriptionId) →
      ∃ org', s.db.organizations.lookup d.orgId = some org' ∧
        org'.stripeSubscriptionId = org.stripeSubscriptionId := by
    intro o f hdb hf
    rw [hdb, Table.lookup_modify] at horg
    split at horg
    · next heq =>
        obtain ⟨org', horg', rfl⟩ := Option.map_eq_some_iff.1 horg
        exact ⟨org', heq ▸ horg', (hf org').symm⟩
    · exact ⟨org, horg, rfl⟩
  cases hwrites with
  | requested =>
      exact hmodify (f := fun org => { org with lifecycle := .deleting }) rfl fun _ => rfl
  | recovered =>
      refine hmodify (f := Organization.reactivated _) rfl fun org => ?_
      unfold Organization.reactivated
      split <;> rfl
  | @purged lease finishedAt d₀ org₀ fresh hd₀ hheld =>
      have hne : id' ≠ lease.id := fun heq => hlast heq rfl
      have hmem := mem_leases_of_issues hissues hstart rfl
      have hclaimable := claimable_of_held hs hmem hd₀ hheld
      have horgId : d.orgId ≠ d₀.orgId := by
        intro heq
        refine hne (hgoverned.single d.orgId id' lease.id ⟨d, hd, rfl, hopen⟩
          ⟨d₀, hd₀, heq.symm, ?_⟩)
        exact not_terminal_of_claimable hclaimable
      have hsame : (s.db.organizations.modify d₀.orgId (Organization.tombstone s.now)).lookup
          d.orgId = some org := horg
      rw [Table.lookup_modify_of_ne horgId] at hsame
      exact ⟨org, hsame, rfl⟩
  | _ => exact ⟨org, horg, rfl⟩

/-- What is written keeps the dates and the subscription of the operation. -/
theorem linked_of_written (hs : s.Sound) (hgoverned : s.db.Governed) (hissues : op.Issues c)
    (hstart : op.MayStart s) (hwrites : Writes s.now s.db c id d' db')
    (hd : s.db.deletions.lookup id = some d) (hgated : d.Gated s)
    (hmoves : d.Moves d') (hnext : d.Next d') (hopen : ¬ d'.state.isTerminal) {org : Organization}
    (horg : db'.organizations.lookup d'.orgId = some org) :
    org.stripeSubscriptionId = d'.subscriptionId := by
  have hopen₀ : ¬ d.state.isTerminal := by
    intro hterminal
    rw [(hmoves.terminal hterminal).1] at hopen
    exact hopen hterminal
  rw [hnext.orgId] at horg
  obtain ⟨org', horg', hsame⟩ := linked_of_writes hs hgoverned hissues hstart hwrites hd hopen₀
    (fun _ hstate => hopen (by rw [hstate]; rfl)) horg
  rw [← hsame, hgated.linked hopen₀ org' horg', hnext.subscriptionId]

/-- A purge is refused only because of its observation. -/
theorem stale_of_refused {lease : DeletionLease} {org : Organization} {fresh : Bool}
    (hs : s.Sound) (hgoverned : s.db.Governed) (hd : s.db.deletions.lookup lease.id = some d)
    (hgated : d.Gated s) (hstate : d.state = .purging)
    (horg : s.db.organizations.lookup d.orgId = some org) (hfresh : d.isFresh s.now = some fresh)
    (hpermits : ¬ d.permitsPurge s.now org fresh) : d.Stale s.now := by
  have hopen : ¬ d.state.isTerminal := by simp [hstate, DeletionState.isTerminal]
  have hlifecycle : org.lifecycle = .deleting :=
    (hgoverned.opened _ _ horg).2 ⟨lease.id, d, hd, rfl, hopen⟩
  have hended := hgated.ended (Or.inr (Or.inl hstate))
  have hchecked : d.billingCheckedAt ≠ none := by
    intro hnone
    have hnone := (hs.operations _ _ hd).checks.billingResultPair.2 hnone
    rcases hended with h | h <;> cases hnone.symm.trans h
  refine stale_of_not_fresh ?_
  cases fresh with
  | false => exact hfresh
  | true =>
      refine absurd ?_ hpermits
      rw [Deletion.permitsPurge, decide_eq_true_eq]
      exact ⟨hstate, hlifecycle, hgated.due (Or.inl hstate), hchecked, rfl, hended,
        Or.inr (hgated.linked hopen org horg)⟩

/-- The row that is written is gated. -/
theorem gated_of_writes (hs : s.Sound) (hgoverned : s.db.Governed) (hissues : op.Issues c)
    (hphase : op.InPhase c) (hstart : op.MayStart s) (hwrites : Writes s.now s.db c id d' db')
    (hgated : ∀ d, s.db.deletions.lookup id = some d → d.Gated s) :
    d'.Gated { s with db := db' } := by
  have hlinked := fun d (hd : s.db.deletions.lookup id = some d) hnext =>
    linked_of_written hs hgoverned hissues hstart hwrites hd (hgated d hd)
      (moves_of_writes hs hissues hphase hstart hwrites hd) hnext
  cases hwrites with
  | @requested _ orgId actor _ retentionDays org _ horg _ _ _ =>
      refine ⟨?_, ?_, ?_, ?_⟩
      · rintro ((h | h) | (h | h)) <;> simp [Deletion.requested] at h
      · rintro (h | h) <;> simp [Deletion.requested] at h
      · intro _ org' horg'
        have horg' : (s.db.organizations.modify orgId fun org =>
            { org with lifecycle := .deleting }).lookup orgId = some org' := horg'
        rw [Table.lookup_modify_self, horg] at horg'
        cases horg'
        rfl
      · intro h
        simp [Deletion.requested] at h
  | @resumed _ _ _ _ _ _ d hd hfailed hresume =>
      have hold := hgated _ hd
      obtain ⟨state, hstate⟩ := Option.ne_none_iff_exists'.1 hresume
      have hat : ∀ {st}, (d.resumed s.now).released.At st → d.At st := by
        rintro st (h | ⟨-, h⟩)
        · simp only [Deletion.released, Deletion.resumed, hstate, Option.getD_some] at h
          exact Or.inr ⟨hfailed, by rw [hstate, h]⟩
        · cases h
      refine ⟨fun h => hold.ended (h.imp hat hat), fun h => hold.due (hat h), fun hopen org horg =>
        hlinked _ hd ⟨rfl, rfl, rfl, rfl, rfl⟩ hopen horg, ?_⟩
      intro _ h
      cases h
  | recovering hd _ =>
      refine ⟨?_, ?_, fun hopen org horg => hlinked _ hd ⟨rfl, rfl, rfl, rfl, rfl⟩ hopen horg, ?_⟩
      · rintro ((h | h) | (h | h)) <;> simp [Deletion.released, Deletion.recovering] at h
      · rintro (h | h) <;> simp [Deletion.released, Deletion.recovering] at h
      · intro h
        simp [Deletion.released, Deletion.recovering] at h
  | claimed hd _ =>
      have hold := hgated _ hd
      exact ⟨hold.ended, hold.due, fun hopen org horg =>
        hlinked _ hd ⟨rfl, rfl, rfl, rfl, rfl⟩ hopen horg, hold.stale⟩
  | transitioned hd hheld =>
      have hnext := next_of_issues hissues hstart
      subst hnext
      have hopen := open_of_claimable (hs.operations _ _ hd).checks
        (claimable_of_held hs (mem_leases_of_issues hissues hstart rfl) hd hheld)
      refine ⟨?_, ?_, fun hopen org horg => hlinked _ hd ⟨rfl, rfl, rfl, rfl, rfl⟩ hopen horg, ?_⟩
      · rintro ((h | h) | (h | h)) <;> simp [Deletion.released, Deletion.transitioned] at h
      · rintro (h | h) <;> simp [Deletion.released, Deletion.transitioned] at h
      · intro h
        simp [Deletion.released, Deletion.transitioned] at h
  | @billingFinished lease gate d hd hheld =>
      have hstate : d.state = .cancellingBilling ∧ (gate = .terminal ∨ gate = .missing) :=
        issues_of_held hs hissues hphase hstart rfl hd hheld
      refine ⟨?_, ?_, fun hopen org horg => hlinked _ hd ⟨rfl, rfl, rfl, rfl, rfl⟩ hopen horg, ?_⟩
      · rintro -
        exact hstate.2.imp (congrArg some) (congrArg some)
      · rintro (h | h) <;> simp [Deletion.released, Deletion.billingFinished] at h
      · intro h
        simp [Deletion.released, Deletion.billingFinished] at h
  | @reconciled lease gate d hd hheld hdue =>
      have hopen := open_of_claimable (hs.operations _ _ hd).checks
        (claimable_of_held hs (mem_leases_of_issues hissues hstart rfl) hd hheld)
      have hpurge : ∀ {st}, st = .retention ∨ st = .purging →
          (d.reconciled s.now gate).released.At st → gate = .terminal ∨ gate = .missing := by
        rintro st hst (h | ⟨h, -⟩)
        · by_contra hnot
          rcases hst with rfl | rfl <;> simp [Deletion.released, Deletion.reconciled, hnot] at h
        · exfalso
          by_cases hgate : gate = .terminal ∨ gate = .missing <;>
            simp [Deletion.released, Deletion.reconciled, hgate] at h
      refine ⟨?_, ?_, fun hopen org horg => hlinked _ hd ⟨rfl, rfl, rfl, rfl, rfl⟩ hopen horg, ?_⟩
      · intro h
        have hgate := h.elim (hpurge (Or.inl rfl)) (hpurge (Or.inr rfl))
        exact hgate.imp (congrArg some) (congrArg some)
      · intro h
        exact hdue (hpurge (Or.inr rfl) h)
      · intro h
        by_cases hgate : gate = .terminal ∨ gate = .missing <;>
          simp [Deletion.released, Deletion.reconciled, hgate] at h
  | recovered hd hheld =>
      refine ⟨?_, ?_, fun hopen org horg => hlinked _ hd ⟨rfl, rfl, rfl, rfl, rfl⟩ hopen horg, ?_⟩
      · rintro ((h | h) | (h | h)) <;> simp [Deletion.released, Deletion.recovered] at h
      · rintro (h | h) <;> simp [Deletion.released, Deletion.recovered] at h
      · intro h
        simp [Deletion.released, Deletion.recovered] at h
  | purging hd hheld hretention hafter =>
      have hold := hgated _ hd
      refine ⟨fun _ => hold.ended (Or.inl (Or.inl hretention)), fun _ => hafter, fun hopen org horg =>
        hlinked _ hd ⟨rfl, rfl, rfl, rfl, rfl⟩ hopen horg, ?_⟩
      intro h
      simp [Deletion.released, Deletion.purging] at h
  | @retried lease code delay d hd hheld =>
      have hold := hgated _ hd
      exact ⟨hold.ended, hold.due, fun hopen org horg =>
        hlinked _ hd ⟨rfl, rfl, rfl, rfl, rfl⟩ hopen horg, hold.stale⟩
  | @failed lease code d hd hheld =>
      have hold := hgated _ hd
      have hmem := mem_leases_of_issues hissues hstart rfl
      have hstate := (state_of_held hs hmem hd hheld).1
      have hphases : d.state ∈ [.cancellingBilling, .retention, .recovering] :=
        issues_of_held hs hissues hphase hstart rfl hd hheld
      have hat : ∀ {st}, st = .retention ∨ st = .purging →
          (d.failed lease.state code).released.At st → d.state = st := by
        rintro st hst (h | ⟨-, h⟩)
        · rcases hst with rfl | rfl <;> simp [Deletion.released, Deletion.failed] at h
        · rw [hstate]
          exact Option.some.inj h
      refine ⟨?_, ?_, fun hopen org horg => hlinked _ hd ⟨rfl, rfl, rfl, rfl, rfl⟩ hopen horg, ?_⟩
      · rintro (h | h)
        · exact hold.ended (Or.inl (Or.inl (hat (Or.inl rfl) h)))
        · exact hold.ended (Or.inr (Or.inl (hat (Or.inr rfl) h)))
      · intro h
        exact hold.due (Or.inl (hat (Or.inr rfl) h))
      · intro _ h
        have hpurging := hat (Or.inr rfl) (Or.inr ⟨rfl, h⟩)
        simp [hpurging] at hphases
  | purged hd hheld =>
      refine ⟨?_, ?_, fun hopen org horg => hlinked _ hd ⟨rfl, rfl, rfl, rfl, rfl⟩ hopen horg, ?_⟩
      · rintro ((h | h) | (h | h)) <;> simp [Deletion.released, Deletion.completed] at h
      · rintro (h | h) <;> simp [Deletion.released, Deletion.completed] at h
      · intro h
        simp [Deletion.released, Deletion.completed] at h
  | @purgeRefused lease d org fresh hd hheld horg hfresh hpermits =>
      have hold := hgated _ hd
      have hstate : d.state = .purging := issues_of_held hs hissues hphase hstart rfl hd hheld
      refine ⟨fun _ => hold.ended (Or.inr (Or.inl hstate)), fun _ => hold.due (Or.inl hstate),
        fun hopen org horg => hlinked _ hd ⟨rfl, rfl, rfl, rfl, rfl⟩ hopen horg, fun _ _ => ?_⟩
      have hstale : d.Stale s.now :=
        stale_of_refused hs hgoverned hd hold hstate horg hfresh hpermits
      exact hstale
  | recorded hd _ _ hgate =>
      refine ⟨?_, ?_, fun hopen org horg => hlinked _ hd ⟨rfl, rfl, rfl, rfl, rfl⟩ hopen horg, ?_⟩
      · rintro -
        exact hgate.imp (congrArg some) (congrArg some)
      · rintro (h | h) <;> simp [Deletion.released, OperatorObservation.recorded] at h
      · intro h
        simp [Deletion.released, OperatorObservation.recorded] at h

/-- Every operation is gated. -/
def World.Gated (s : World) : Prop :=
  ∀ id d, s.db.deletions.lookup id = some d → d.Gated s

theorem now_of_step (h : (deletionSystem textGt).Step w w') : w.shared.now ≤ w'.shared.now := by
  cases h with
  | start _ _ => exact le_refl _
  | finish _ _ => exact le_refl _
  | call _ he => exact now_of_executes he

theorem Deletion.Gated.later {s s' : World} (h : d.Gated s) (hnow : s.now ≤ s'.now)
    (hlinked : ¬ d.state.isTerminal → ∀ org, s'.db.organizations.lookup d.orgId = some org →
      ∃ org', s.db.organizations.lookup d.orgId = some org' ∧
        org'.stripeSubscriptionId = org.stripeSubscriptionId) : d.Gated s' where
  ended := h.ended
  due := fun hat => (h.due hat).trans hnow
  linked := by
    intro hopen org horg
    obtain ⟨org', horg', hsame⟩ := hlinked hopen org horg
    rw [← hsame]
    exact h.linked hopen org' horg'
  stale := fun hfailed hresume => (h.stale hfailed hresume).later hnow

/-- An organisation that is being deleted keeps its subscription. -/
theorem linked_of_relinks {db db' : Db} (h : Relinks db db') (hgoverned : db.Governed)
    (hd : db.deletions.lookup id = some d) (hopen : ¬ d.state.isTerminal) {org : Organization}
    (horg : db'.organizations.lookup d.orgId = some org) :
    ∃ org', db.organizations.lookup d.orgId = some org' ∧
      org'.stripeSubscriptionId = org.stripeSubscriptionId := by
  have hfrozen := h.organizations d.orgId
  rw [horg, Option.map_some, eq_comm, Option.map_eq_some_iff] at hfrozen
  obtain ⟨org', horg', hsame⟩ := hfrozen
  refine ⟨org', horg', ?_⟩
  have hdeleting : org'.lifecycle = .deleting :=
    (hgoverned.opened _ _ horg').2 ⟨id, d, hd, rfl, hopen⟩
  have hkept : ∀ org : Organization, org.lifecycle = .deleting → org.frozen = org :=
    fun org hl => if_neg (by simp [hl])
  have hlifecycle : org.lifecycle = .deleting := by
    rw [← lifecycle_frozen, ← hsame, lifecycle_frozen, hdeleting]
  rw [hkept org hlifecycle, hkept org' hdeleting] at hsame
  rw [hsame]

/-- In every run, every operation is gated. -/
theorem gated_of_reaches (h : w₀.Opening) (hrun : (deletionSystem textGt).Reaches w₀ w) :
    w.shared.Gated := by
  induction hrun with
  | refl =>
      intro id d hd
      rw [h.deletions] at hd
      cases hd
  | @tail w₁ w₂ hrun hstep ih =>
      have hnow := now_of_step hstep
      have hgoverned := governed_of_reaches h hrun
      intro id d hd
      cases progress_of_step h.idle hrun hstep with
      | kept hdb =>
          rw [hdb] at hd
          refine (ih id d hd).later hnow fun _ org horg => ?_
          rw [hdb] at horg
          exact ⟨org, horg, rfl⟩
      | relinked hrelinks =>
          rw [hrelinks.deletions] at hd
          exact (ih id d hd).later hnow fun hopen _ horg =>
            linked_of_relinks hrelinks hgoverned hd hopen horg
      | @written _ _ _ _ id' d' _ hissues hphase hstart hwrites _ =>
          have hs := sound_of_reaches h.toFresh hrun
          rw [lookup_of_writes hwrites] at hd
          split at hd
          · next heq =>
              cases hd
              exact (gated_of_writes hs hgoverned hissues hphase hstart hwrites (ih id')).later
                hnow fun _ org horg => ⟨org, horg, rfl⟩
          · next hne =>
              exact (ih id d hd).later hnow fun hopen _ horg => linked_of_writes hs hgoverned
                hissues hstart hwrites hd hopen (fun heq => absurd heq hne) horg

/-! ### Dead ends -/

/-- An operation that cannot be purged any more: it is in recovery, or its purge is tried with an
observation that is too old. -/
def Deletion.Doomed (now : Int) (d : Deletion) : Prop :=
  d.InRecovery ∨ (d.At .purging ∧ d.Stale now)

theorem Deletion.Doomed.later {now now' : Int} (h : d.Doomed now) (hnow : now ≤ now') :
    d.Doomed now' :=
  h.imp id fun h => ⟨h.1, h.2.later hnow⟩

theorem not_completed_of_doomed {now : Int} (h : d.Doomed now) : d.state ≠ .completed := by
  intro hstate
  rcases h with (h | ⟨h, -⟩ | h) | ⟨h | ⟨h, -⟩, -⟩ <;> cases hstate.symm.trans h

/-- A write leaves an operation that cannot be purged such. -/
theorem doomed_of_writes (hs : s.Sound) (hissues : op.Issues c) (hphase : op.InPhase c)
    (hstart : op.MayStart s) (hwrites : Writes s.now s.db c id d' db')
    (hd : s.db.deletions.lookup id = some d) (h : d.Doomed s.now) : d'.Doomed s.now := by
  have hmoves := moves_of_writes hs hissues hphase hstart hwrites hd
  rcases h with h | ⟨hat, hstale⟩
  · exact Or.inl (hmoves.inRecovery h)
  have hphases : ∀ {lease : DeletionLease}, c.lease = some lease → id = lease.id →
      d.heldBy lease → d.state = .purging ∧ d.state.Issues c := by
    rintro lease hc rfl hheld
    have hmem := mem_leases_of_issues hissues hstart hc
    have hclaimable := claimable_of_held hs hmem hd hheld
    refine ⟨hat.resolve_right ?_, issues_of_held hs hissues hphase hstart hc hd hheld⟩
    rintro ⟨hfailed, -⟩
    simp [hfailed, DeletionState.Claimable] at hclaimable
  cases hwrites with
  | requested _ _ _ hfresh => cases hfresh.symm.trans hd
  | resumed hd' hfailed hresume =>
      cases hd'.symm.trans hd
      rcases hat with hstate | ⟨-, hstate⟩
      · cases hfailed.symm.trans hstate
      · refine Or.inr ⟨Or.inl ?_, hstale⟩
        simp [Deletion.released, Deletion.resumed, hstate]
  | recovering hd' _ => exact Or.inl (Or.inl rfl)
  | claimed hd' _ =>
      cases hd'.symm.trans hd
      exact Or.inr ⟨hat, hstale⟩
  | transitioned hd' hheld =>
      cases hd'.symm.trans hd
      obtain ⟨hstate, hissue⟩ := hphases rfl rfl hheld
      cases hstate.symm.trans hissue
  | billingFinished hd' hheld =>
      cases hd'.symm.trans hd
      obtain ⟨hstate, hissue⟩ := hphases rfl rfl hheld
      cases hstate.symm.trans hissue.1
  | reconciled hd' hheld =>
      cases hd'.symm.trans hd
      obtain ⟨hstate, hissue⟩ := hphases rfl rfl hheld
      cases hstate.symm.trans hissue
  | recovered hd' hheld => exact Or.inl (Or.inr (Or.inr rfl))
  | purging hd' hheld =>
      cases hd'.symm.trans hd
      obtain ⟨hstate, hissue⟩ := hphases rfl rfl hheld
      cases hstate.symm.trans hissue
  | retried hd' hheld =>
      cases hd'.symm.trans hd
      exact Or.inr ⟨hat, hstale⟩
  | failed hd' hheld =>
      cases hd'.symm.trans hd
      obtain ⟨hstate, hissue⟩ := hphases rfl rfl hheld
      rw [hstate] at hissue
      simp [DeletionState.Issues] at hissue
  | @purged lease finishedAt _ org fresh hd' _ _ hfresh hpermits =>
      cases hd'.symm.trans hd
      rw [Deletion.permitsPurge, decide_eq_true_eq] at hpermits
      obtain ⟨-, -, -, -, rfl, -⟩ := hpermits
      exact absurd hfresh (not_fresh_of_stale hstale)
  | purgeRefused hd' hheld =>
      cases hd'.symm.trans hd
      exact Or.inr ⟨Or.inr ⟨rfl, rfl⟩, hstale⟩
  | recorded hd' _ _ _ _ _ _ _ hpurging hrecovering =>
      cases hd'.symm.trans hd
      rcases hat with hstate | ⟨-, hstate⟩
      · exact absurd hstate hpurging
      · exact absurd hstate hrecovering.2.2

theorem doomed_of_reaches (hfresh : w₀.Fresh) (hrun : (deletionSystem textGt).Reaches w₀ w)
    (hd : w.shared.db.deletions.lookup id = some d) (h : d.Doomed w.shared.now)
    (hrun' : (deletionSystem textGt).Reaches w w') :
    ∃ d', w'.shared.db.deletions.lookup id = some d' ∧ d'.Doomed w'.shared.now := by
  induction hrun' with
  | refl => exact ⟨d, hd, h⟩
  | @tail w₁ w₂ hrun₁ hstep ih =>
      obtain ⟨d₁, hd₁, hdoomed⟩ := ih
      have hnow := now_of_step hstep
      have hrun := hrun.trans hrun₁
      cases progress_of_step hfresh.idle hrun hstep with
      | kept hdb => exact ⟨d₁, by rw [hdb, hd₁], hdoomed.later hnow⟩
      | relinked hrelinks => exact ⟨d₁, by rw [hrelinks.deletions, hd₁], hdoomed.later hnow⟩
      | @written _ _ _ _ id' d' _ hissues hphase hstart hwrites _ =>
          rw [lookup_of_writes hwrites]
          split
          · next heq =>
              subst heq
              exact ⟨d', rfl, (doomed_of_writes (sound_of_reaches hfresh hrun) hissues hphase
                hstart hwrites hd₁ hdoomed).later hnow⟩
          · exact ⟨d₁, hd₁, hdoomed.later hnow⟩

/-- A purge that has failed is never completed, whatever is done. -/
theorem failed_purge_never_completed (h : w₀.Opening)
    (hrun : (deletionSystem textGt).Reaches w₀ w)
    (hd : w.shared.db.deletions.lookup id = some d) (hfailed : d.state = .failed)
    (hresume : d.resumeState = some .purging) (hrun' : (deletionSystem textGt).Reaches w w') :
    ∃ d', w'.shared.db.deletions.lookup id = some d' ∧ d'.state ≠ .completed := by
  have hstale := (gated_of_reaches h hrun id d hd).stale hfailed hresume
  obtain ⟨d', hd', hdoomed⟩ := doomed_of_reaches h.toFresh hrun hd
    (Or.inr ⟨Or.inr ⟨hfailed, hresume⟩, hstale⟩) hrun'
  exact ⟨d', hd', not_completed_of_doomed hdoomed⟩

end Steps

/-! ### A purge that comes too late

The subscription of an organisation has ended. Its deletion is requested and retained, a worker
looks the subscription up at the end of the retention, and the purge is claimed only after more than
fifteen minutes. -/

namespace Overdue

def world : World :=
  { Checkout.world with
    db := { Checkout.world.db with
      organizations := AList.insert (.text "org")
        { Checkout.org with stripeSubscriptionId := some (.text "subscription") } ∅ }
    provider := ⟨∅, AList.insert (.text "subscription") (.text "org", .canceled) ∅⟩ }

def lease (state : DeletionState) (stateVersion attemptCount : Int) : DeletionLease :=
  { Checkout.lease state stateVersion attemptCount with
    subscriptionId := some (.text "subscription") }

/-- What the provider answers. -/
def ended : SubscriptionObservation := .current ⟨.text "subscription", .canceled⟩

section Stages

variable (s : World)

def begun : World :=
  (s.commit (transitionState s.now (lease .requested 1 0) .cancellingBilling)).2

def retained : World :=
  (s.commit (finishBilling s.now (lease .cancellingBilling 3 1) .terminal)).2

def reconciled : World :=
  (s.commit (finishRetentionReconciliation s.now (lease .retention 5 1) .terminal)).2

def delayed : World := { s with now := 2593000 }

def refused : World :=
  { (s.commit (purge s.now (lease .purging 7 0) 2593000)).2 with now := 2593000 }

/-- From the request until the retention. -/
def retaining : World := retained (Checkout.claimed (begun (Checkout.claimed
  (Checkout.requested s))))

/-- From the end of the retention until the purge. -/
def purging : World := Checkout.claimed (delayed (reconciled (Checkout.claimed
  (Checkout.elapsed s))))

end Stages

/-- The purge has failed. -/
def failed : World := refused (purging (retaining world))

abbrev system := deletionSystem fun _ _ => false

theorem reaches_request {s : World} : system.Reaches (quiet s) (quiet (Checkout.requested s)) :=
  System.Reaches.of_restrict (K := onlyIf fun _ _ _ _ => True) <|
    @reaches_issue _ _ _ (.request (.text "operation") (.text "org") (.text "owner")
      (.text "org") 30) _ _ trivial (.request rfl) trivial

theorem reaches_claim {s : World} : system.Reaches (quiet s) (quiet (Checkout.claimed s)) :=
  System.Reaches.of_restrict (K := onlyIf fun _ _ _ _ => True) <|
    @reaches_issue _ _ _ (.claim "worker" []) _ _ trivial (.claim rfl) trivial

theorem reaches_advance {s s' : World} {a : Except Error (Option DeletionView)}
    (lease : DeletionLease) (hlease : lease ∈ s.leases)
    (h : System.Alone (fun c s _ r s' _ => Executes (fun _ _ => false) c s r s' ∧ True)
      (advance lease true) s () a s' ()) : system.Reaches (quiet s) (quiet s') :=
  System.Reaches.of_restrict (K := onlyIf fun _ _ _ _ => True) <|
    @reaches_of_alone _ _ _ (.advance lease true) _ _ hlease h

theorem reaches_retaining : system.Reaches (quiet world) (quiet (retaining world)) := by
  have hbegin : system.Reaches (quiet (Checkout.claimed (Checkout.requested world)))
      (quiet (begun (Checkout.claimed (Checkout.requested world)))) :=
    reaches_advance (lease .requested 1 0) (by decide +kernel)
      (.call ⟨.transitionState rfl, trivial⟩ .ret)
  have hretain : system.Reaches
      (quiet (Checkout.claimed (begun (Checkout.claimed (Checkout.requested world)))))
      (quiet (retaining world)) :=
    reaches_advance (lease .cancellingBilling 3 1) (by decide +kernel)
      (.call (r := .ok ended) ⟨.cancelSubscription, trivial⟩
        (.call (l := ()) ⟨.finishBilling rfl, trivial⟩ .ret))
  exact reaches_request.trans (reaches_claim.trans (hbegin.trans (reaches_claim.trans hretain)))

theorem reaches_purging : system.Reaches (quiet (retaining world))
    (quiet (purging (retaining world))) := by
  have hreconcile : system.Reaches
      (quiet (Checkout.claimed (Checkout.elapsed (retaining world))))
      (quiet (reconciled (Checkout.claimed (Checkout.elapsed (retaining world))))) :=
    reaches_advance (lease .retention 5 1) (by decide +kernel)
      (.call (r := .ok ended) ⟨.getSubscription, trivial⟩
        (.call (l := ()) ⟨.finishRetention rfl, trivial⟩ .ret))
  have hdelay : system.Reaches
      (quiet (reconciled (Checkout.claimed (Checkout.elapsed (retaining world)))))
      (quiet (delayed (reconciled (Checkout.claimed (Checkout.elapsed (retaining world)))))) :=
    System.Reaches.of_restrict (K := onlyIf fun _ _ _ _ => True) <|
      @reaches_issue _ _ _ (.tick 2593000) _ _ trivial (.tick (by decide +kernel)) trivial
  exact (Checkout.reaches_elapsed (by decide +kernel)).trans
    (reaches_claim.trans (hreconcile.trans (hdelay.trans reaches_claim)))

theorem reaches_failed : system.Reaches (quiet world) (quiet failed) := by
  have hrefuse : system.Reaches (quiet (purging (retaining world))) (quiet failed) :=
    reaches_advance (lease .purging 7 0) (by decide +kernel)
      (.call ⟨.purge (by decide +kernel) rfl, trivial⟩ .ret)
  exact reaches_retaining.trans (reaches_purging.trans hrefuse)

theorem opening : (quiet world).Opening := by
  refine ⟨⟨fun _ => rfl, rfl, rfl⟩, ?_⟩
  intro orgId org horg
  have hactive : world.db.organizations.rows.all fun e => e.2.lifecycle = .active := by
    decide +kernel
  rw [List.all_eq_true] at hactive
  simpa using hactive (orgId, org) (Table.mem_rows.2 horg)

theorem operation_failed : ∃ d, failed.db.deletions.lookup (.text "operation") = some d ∧
    d.state = .failed ∧ d.resumeState = some .purging ∧ d.purgeAfter ≤ failed.now ∧
    d.orgId = .text "org" ∧ d.subscriptionId = some (.text "subscription") := by
  have hfailed : (failed.db.deletions.lookup (.text "operation")).any fun d =>
      d.state = .failed ∧ d.resumeState = some .purging ∧ d.purgeAfter ≤ failed.now ∧
        d.orgId = .text "org" ∧ d.subscriptionId = some (.text "subscription") := by
    decide +kernel
  rw [Option.any_eq_true] at hfailed
  obtain ⟨d, hd, hfailed⟩ := hfailed
  exact ⟨d, hd, of_decide_eq_true hfailed⟩

end Overdue

/-- The purge is retried, and the operation is not completed. -/
theorem failed_purge_never_completed_retried : ∃ d,
    (Checkout.requested Overdue.failed).db.deletions.lookup (.text "operation") = some d ∧
      d.state ≠ .completed := by
  obtain ⟨d, hd, hstate, hresume, -⟩ := Overdue.operation_failed
  exact failed_purge_never_completed Overdue.opening Overdue.reaches_failed hd hstate hresume
    Overdue.reaches_request

/-- There is an operation whose purge has failed and that no sequence of steps completes, though its
deadline has passed and its subscription has ended and is still the organisation's. -/
theorem failed_purge_dead_end : ¬ ∀ (textGt : String → String → Bool) (w₀ w : Situation) id d org,
    w₀.Opening → (deletionSystem textGt).Reaches w₀ w →
    w.shared.db.deletions.lookup id = some d → d.state = .failed →
    d.resumeState = some .purging → d.purgeAfter ≤ w.shared.now →
    (∀ sub, d.subscriptionId = some sub → ∃ orgId status,
      w.shared.provider.subscriptions.lookup sub = some (orgId, status) ∧
        status.purgeGate = .terminal) →
    w.shared.db.organizations.lookup d.orgId = some org →
    org.stripeSubscriptionId = d.subscriptionId →
    ∃ w' d', (deletionSystem textGt).Reaches w w' ∧
      w'.shared.db.deletions.lookup id = some d' ∧ d'.state = .completed := by
  intro h
  obtain ⟨d, hd, hstate, hresume, hafter, horgId, hsub⟩ := Overdue.operation_failed
  have horg : (Overdue.failed.db.organizations.lookup (.text "org")).any fun org =>
      org.stripeSubscriptionId = some (.text "subscription") := by decide +kernel
  rw [Option.any_eq_true] at horg
  obtain ⟨org, horg, hlinked⟩ := horg
  obtain ⟨w', d', hrun, hd', hcompleted⟩ := h _ _ _ _ d org Overdue.opening
    Overdue.reaches_failed hd hstate hresume hafter
    (fun sub h => by
      cases hsub.symm.trans h
      exact ⟨.text "org", .canceled, by decide +kernel, rfl⟩)
    (by rw [horgId]; exact horg) (by rw [hsub]; exact of_decide_eq_true hlinked)
  have hstale := (gated_of_reaches Overdue.opening Overdue.reaches_failed _ d hd).stale hstate
    hresume
  obtain ⟨d'', hd'', hdoomed⟩ := doomed_of_reaches Overdue.opening.toFresh
    Overdue.reaches_failed hd (Or.inr ⟨Or.inr ⟨hstate, hresume⟩, hstale⟩) hrun
  cases hd''.symm.trans hd'
  exact not_completed_of_doomed hdoomed hcompleted

end Billing

end Sotto
