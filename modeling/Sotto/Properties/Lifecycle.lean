import Sotto.Properties.Leases

/-!
# Recoveries, and the lifecycle of organisations

An operation that recovers has no way to the purge. The lifecycle of an organisation agrees with its
operations: it is being deleted while one of them is not over, and is deleted by the one that
completes.
-/

namespace Sotto

namespace Billing

open Core
open Server (LifecycleState)

/-! ### Recoveries -/

/-- An operation that recovers or has recovered. -/
def Deletion.InRecovery (d : Deletion) : Prop :=
  d.state = .recovering ∨ (d.state = .failed ∧ d.resumeState = some .recovering) ∨
    d.state = .cancelled

theorem Deletion.Moves.inRecovery {d d' : Deletion} (h : d.Moves d') (hd : d.InRecovery) :
    d'.InRecovery := by
  unfold Deletion.InRecovery at hd ⊢
  cases h with
  | stays hstate hresume =>
      rw [hstate, hresume]
      exact hd
  | resumes hfailed hresume _ =>
      rcases hd with hd | ⟨-, hd⟩ | hd
      · cases hfailed.symm.trans hd
      · rw [hd] at hresume
        exact Or.inl (Option.some.inj hresume).symm
      · cases hfailed.symm.trans hd
  | fails hclaimable hstate hresume =>
      rcases hd with hd | ⟨hd, -⟩ | hd
      · exact Or.inr (Or.inl ⟨hstate, by rw [hresume, hd]⟩)
      · simp [hd, DeletionState.Claimable] at hclaimable
      · simp [hd, DeletionState.Claimable] at hclaimable
  | recovers _ hstate _ => exact Or.inl hstate
  | cancelsBilling hstate =>
      rcases hd with hd | ⟨hd, -⟩ | hd <;> simp [hd] at hstate
  | retains hstate hresume =>
      rcases hd with hd | ⟨-, hd⟩ | hd
      · simp [hd] at hstate
      · exact absurd hd hresume
      · simp [hd] at hstate
  | purges hstate =>
      rcases hd with hd | ⟨hd, -⟩ | hd <;> cases hstate.symm.trans hd
  | cancels _ hstate _ => exact Or.inr (Or.inr hstate)
  | completes hstate =>
      rcases hd with hd | ⟨hd, -⟩ | hd <;> cases hstate.symm.trans hd

section Runs

variable {textGt : String → String → Bool} {w₀ w w' : Situation}

/-- A step leaves an operation as it is, or moves it along its lifecycle. -/
theorem moves_of_step (hfresh : w₀.Fresh) (hrun : (deletionSystem textGt).Reaches w₀ w)
    (hstep : (deletionSystem textGt).Step w w') {id : Ident} {d : Deletion}
    (hd : w.shared.db.deletions.lookup id = some d) :
    ∃ d', w'.shared.db.deletions.lookup id = some d' ∧ (d' = d ∨ d.Moves d' ∧ d.Next d') := by
  have hsame : w'.shared.db.deletions = w.shared.db.deletions →
      ∃ d', w'.shared.db.deletions.lookup id = some d' ∧ (d' = d ∨ d.Moves d' ∧ d.Next d') :=
    fun h => ⟨d, by rw [h, hd], Or.inl rfl⟩
  cases progress_of_step hfresh.idle hrun hstep with
  | kept hdb => exact hsame (by rw [hdb])
  | relinked hrelinks => exact hsame hrelinks.deletions
  | @written _ _ _ _ id' d' _ hissues hphase hstart hwrites _ =>
      rw [lookup_of_writes hwrites]
      split
      · next heq =>
          subst heq
          have hs := sound_of_reaches hfresh hrun
          refine ⟨d', rfl, Or.inr ⟨moves_of_writes hs hissues hphase hstart hwrites hd, ?_⟩⟩
          rcases next_of_writes hwrites with ⟨hnone, -⟩ | ⟨d'', hd'', hnext⟩
          · cases hnone.symm.trans hd
          · cases hd''.symm.trans hd
            exact hnext
      · exact ⟨d, hd, Or.inl rfl⟩

/-- Once an operation is recovering, it is recovering, has failed to, or is cancelled, in every
state that is reached later. -/
theorem recovery_irrevocable (hfresh : w₀.Fresh) (hrun : (deletionSystem textGt).Reaches w₀ w)
    {id : Ident} {d : Deletion} (hd : w.shared.db.deletions.lookup id = some d)
    (hrecovering : d.state = .recovering) (hrun' : (deletionSystem textGt).Reaches w w') :
    ∃ d', w'.shared.db.deletions.lookup id = some d' ∧ d'.InRecovery := by
  induction hrun' with
  | refl => exact ⟨d, hd, Or.inl hrecovering⟩
  | @tail w₁ w₂ hrun₁ hstep ih =>
      obtain ⟨d₁, hd₁, hrecovery⟩ := ih
      obtain ⟨d₂, hd₂, hnext⟩ := moves_of_step hfresh (hrun.trans hrun₁) hstep hd₁
      refine ⟨d₂, hd₂, ?_⟩
      rcases hnext with rfl | ⟨hmoves, -⟩
      · exact hrecovery
      · exact hmoves.inRecovery hrecovery

end Runs

namespace Checkout

/-- The owner cancels the deletion. -/
def cancelled (s : World) : World :=
  (s.commit (cancel s.now (.text "org") (.text "owner"))).2

theorem reaches_cancelled : (deletionSystem fun _ _ => false).Reaches (quiet world)
    (quiet (cancelled (requested world))) := by
  have hrequest : ((deletionSystem fun _ _ => false).restrict (onlyIf fun _ _ _ _ => True)).Reaches
      (quiet world) (quiet (requested world)) :=
    @reaches_issue _ _ _ (.request (.text "operation") (.text "org") (.text "owner")
      (.text "org") 30) _ _ trivial (.request rfl) trivial
  have hcancel : ((deletionSystem fun _ _ => false).restrict (onlyIf fun _ _ _ _ => True)).Reaches
      (quiet (requested world)) (quiet (cancelled (requested world))) :=
    @reaches_issue _ _ _ (.cancel (.text "org") (.text "owner")) _ _ trivial (.cancel rfl) trivial
  exact System.Reaches.of_restrict (hrequest.trans hcancel)

theorem reaches_elapsed {s : World} (hnow : s.now ≤ 2592000) :
    (deletionSystem fun _ _ => false).Reaches (quiet s) (quiet (elapsed s)) := by
  have helapse : ((deletionSystem fun _ _ => false).restrict (onlyIf fun _ _ _ _ => True)).Reaches
      (quiet s) (quiet (elapsed s)) :=
    @reaches_issue _ _ _ (.tick 2592000) _ _ trivial (.tick hnow) trivial
  exact System.Reaches.of_restrict helapse

end Checkout

/-- A deletion that was cancelled is in recovery when its retention would have ended. -/
theorem recovery_irrevocable_elapsed : ∃ d,
    (Checkout.elapsed (Checkout.cancelled (Checkout.requested Checkout.world))).db.deletions.lookup
      (.text "operation") = some d ∧ d.InRecovery := by
  have hrecovering : ((Checkout.cancelled (Checkout.requested Checkout.world)).db.deletions.lookup
      (.text "operation")).any fun d => d.state = .recovering := by decide +kernel
  rw [Option.any_eq_true] at hrecovering
  obtain ⟨d, hd, hstate⟩ := hrecovering
  exact recovery_irrevocable ⟨fun _ => rfl, rfl, rfl⟩ Checkout.reaches_cancelled hd
    (of_decide_eq_true hstate) (Checkout.reaches_elapsed (by decide +kernel))

/-! ### Lifecycles -/

/-- An operation of an organisation that is not over. -/
def Db.Open (db : Db) (orgId id : Ident) : Prop :=
  ∃ d, db.deletions.lookup id = some d ∧ d.orgId = orgId ∧ ¬ d.state.isTerminal

/-- An operation of an organisation that is completed. -/
def Db.Completed (db : Db) (orgId id : Ident) : Prop :=
  ∃ d, db.deletions.lookup id = some d ∧ d.orgId = orgId ∧ d.state = .completed

/-- The lifecycle of every organisation agrees with its operations. -/
structure Db.Agrees (db : Db) : Prop where
  deleting : ∀ orgId org, db.organizations.lookup orgId = some org →
    (org.lifecycle = .deleting ↔ ∃! id, db.Open orgId id)
  deleted : ∀ orgId org, db.organizations.lookup orgId = some org →
    (org.lifecycle = .deleted ↔ ∃ id, db.Completed orgId id)
  active : ∀ orgId org, db.organizations.lookup orgId = some org →
    (org.lifecycle = .active ↔ (∀ id, ¬ db.Open orgId id) ∧ ∀ id, ¬ db.Completed orgId id)

/-- What a run keeps: an organisation has an operation that is not over while it is being deleted
and at most one such operation at all, and a completed one when it is deleted. -/
structure Db.Governed (db : Db) : Prop where
  opened : ∀ orgId org, db.organizations.lookup orgId = some org →
    (org.lifecycle = .deleting ↔ ∃ id, db.Open orgId id)
  single : ∀ orgId id id', db.Open orgId id → db.Open orgId id' → id = id'
  completed : ∀ orgId org, db.organizations.lookup orgId = some org →
    (org.lifecycle = .deleted ↔ ∃ id, db.Completed orgId id)

theorem Db.Governed.agrees {db : Db} (h : db.Governed) : db.Agrees where
  deleting orgId org horg := by
    rw [h.opened orgId org horg]
    refine ⟨?_, fun ⟨id, hid, _⟩ => ⟨id, hid⟩⟩
    rintro ⟨id, hid⟩
    exact ⟨id, hid, fun id' hid' => h.single orgId id' id hid' hid⟩
  deleted := h.completed
  active orgId org horg := by
    have hopened := h.opened orgId org horg
    have hcompleted := h.completed orgId org horg
    rw [← not_exists, ← not_exists, ← hopened, ← hcompleted]
    cases org.lifecycle <;> simp

/-- The lifecycle of an organisation. -/
def Db.lifecycleOf (db : Db) (orgId : Ident) : Option LifecycleState :=
  (db.organizations.lookup orgId).map Organization.lifecycle

theorem lifecycleOf_eq_some {db : Db} {orgId : Ident} {l : LifecycleState} :
    db.lifecycleOf orgId = some l ↔
      ∃ org, db.organizations.lookup orgId = some org ∧ org.lifecycle = l := by
  rw [Db.lifecycleOf, Option.map_eq_some_iff]

/-- What a run keeps, in terms of lifecycles. -/
theorem governed_iff {db : Db} : db.Governed ↔
    (∀ orgId l, db.lifecycleOf orgId = some l → (l = .deleting ↔ ∃ id, db.Open orgId id)) ∧
    (∀ orgId id id', db.Open orgId id → db.Open orgId id' → id = id') ∧
    ∀ orgId l, db.lifecycleOf orgId = some l → (l = .deleted ↔ ∃ id, db.Completed orgId id) := by
  constructor
  · intro h
    refine ⟨?_, h.single, ?_⟩
    · intro orgId l hl
      obtain ⟨org, horg, rfl⟩ := lifecycleOf_eq_some.1 hl
      exact h.opened orgId org horg
    · intro orgId l hl
      obtain ⟨org, horg, rfl⟩ := lifecycleOf_eq_some.1 hl
      exact h.completed orgId org horg
  · rintro ⟨hopened, hsingle, hcompleted⟩
    refine ⟨?_, hsingle, ?_⟩
    · intro orgId org horg
      exact hopened orgId _ (lifecycleOf_eq_some.2 ⟨org, horg, rfl⟩)
    · intro orgId org horg
      exact hcompleted orgId _ (lifecycleOf_eq_some.2 ⟨org, horg, rfl⟩)

section Writes

variable {db db' : Db} {orgId id : Ident}

/-- A change that concerns one operation of one organisation at most. -/
theorem governed_of_change (h : db.Governed)
    (helse : ∀ o i, ¬ (o = orgId ∧ i = id) →
      (db'.Open o i ↔ db.Open o i) ∧ (db'.Completed o i ↔ db.Completed o i))
    (horgs : ∀ o, o ≠ orgId → db'.lifecycleOf o = db.lifecycleOf o)
    (hsingle : db'.Open orgId id → ∀ i, db.Open orgId i → i = id)
    (hhere : ∀ l, db'.lifecycleOf orgId = some l →
      (l = .deleting ↔ ∃ i, db'.Open orgId i) ∧ (l = .deleted ↔ ∃ i, db'.Completed orgId i)) :
    db'.Governed := by
  obtain ⟨hopened, hone, hcompleted⟩ := governed_iff.1 h
  have hother : ∀ o, o ≠ orgId → ∀ i,
      (db'.Open o i ↔ db.Open o i) ∧ (db'.Completed o i ↔ db.Completed o i) :=
    fun o hne i => helse o i fun heq => hne heq.1
  refine governed_iff.2 ⟨?_, ?_, ?_⟩
  · intro o l hl
    by_cases ho : o = orgId
    · subst ho
      exact (hhere l hl).1
    · rw [horgs o ho] at hl
      simp only [fun i => (hother o ho i).1, hopened o l hl]
  · intro o i i' hi hi'
    by_cases hid : o = orgId ∧ i = id
    · obtain ⟨rfl, rfl⟩ := hid
      by_cases hid' : i' = i
      · exact hid'.symm
      · rw [(helse o i' fun heq => hid' heq.2).1] at hi'
        exact (hsingle hi i' hi').symm
    · rw [(helse o i hid).1] at hi
      by_cases hid' : o = orgId ∧ i' = id
      · obtain ⟨rfl, rfl⟩ := hid'
        exact hsingle hi' i hi
      · rw [(helse o i' hid').1] at hi'
        exact hone o i i' hi hi'
  · intro o l hl
    by_cases ho : o = orgId
    · subst ho
      exact (hhere l hl).2
    · rw [horgs o ho] at hl
      simp only [fun i => (hother o ho i).2, hcompleted o l hl]

theorem governed_of_same (h : db.Governed) (hdeletions : db'.deletions = db.deletions)
    (horgs : ∀ o, db'.lifecycleOf o = db.lifecycleOf o) : db'.Governed := by
  obtain ⟨hopened, hone, hcompleted⟩ := governed_iff.1 h
  have hopen : ∀ o i, db'.Open o i ↔ db.Open o i := by
    intro o i
    unfold Db.Open
    rw [hdeletions]
  have hcomplete : ∀ o i, db'.Completed o i ↔ db.Completed o i := by
    intro o i
    unfold Db.Completed
    rw [hdeletions]
  refine governed_iff.2 ⟨?_, ?_, ?_⟩
  · intro o l hl
    rw [horgs o] at hl
    simp only [hopen, hopened o l hl]
  · intro o i i' hi hi'
    exact hone o i i' ((hopen o i).1 hi) ((hopen o i').1 hi')
  · intro o l hl
    rw [horgs o] at hl
    simp only [hcomplete, hcompleted o l hl]

theorem lifecycle_frozen (org : Organization) : org.frozen.lifecycle = org.lifecycle := by
  unfold Organization.frozen
  split <;> rfl

theorem lifecycleOf_relinks (h : Relinks db db') (o : Ident) :
    db'.lifecycleOf o = db.lifecycleOf o := by
  have hfrozen : Organization.lifecycle = Organization.lifecycle ∘ Organization.frozen :=
    funext fun org => (lifecycle_frozen org).symm
  unfold Db.lifecycleOf
  rw [hfrozen, ← Option.map_map, ← Option.map_map, h.organizations o]

theorem lifecycleOf_modify {f : Organization → Organization}
    (h : db'.organizations = db.organizations.modify orgId f) (o : Ident) :
    db'.lifecycleOf o = if o = orgId then (db.organizations.lookup orgId).map fun org =>
      (f org).lifecycle else db.lifecycleOf o := by
  unfold Db.lifecycleOf
  rw [h, Table.lookup_modify]
  split
  · next heq =>
      rw [heq, Option.map_map]
      rfl
  · rfl

variable {d d' : Deletion}

/-- The operation that is written is no longer what it was. -/
theorem open_of_lookup (hd' : db'.deletions.lookup id = some d') (o : Ident) :
    db'.Open o id ↔ d'.orgId = o ∧ ¬ d'.state.isTerminal := by
  constructor
  · rintro ⟨d, hd, h⟩
    cases hd.symm.trans hd'
    exact h
  · exact fun h => ⟨d', hd', h⟩

theorem completed_of_lookup (hd' : db'.deletions.lookup id = some d') (o : Ident) :
    db'.Completed o id ↔ d'.orgId = o ∧ d'.state = .completed := by
  constructor
  · rintro ⟨d, hd, h⟩
    cases hd.symm.trans hd'
    exact h
  · exact fun h => ⟨d', hd', h⟩

/-- The other operations are what they were, and so is this one for the other organisations. -/
theorem else_of_lookup
    (hlookup : ∀ i, db'.deletions.lookup i = if i = id then some d' else db.deletions.lookup i)
    (hbefore : ∀ d, db.deletions.lookup id = some d → d.orgId = d'.orgId) (o i : Ident)
    (hne : ¬ (o = d'.orgId ∧ i = id)) :
    (db'.Open o i ↔ db.Open o i) ∧ (db'.Completed o i ↔ db.Completed o i) := by
  by_cases hi : i = id
  · subst hi
    have ho : d'.orgId ≠ o := fun heq => hne ⟨heq.symm, rfl⟩
    have hd' : db'.deletions.lookup i = some d' := by rw [hlookup, if_pos rfl]
    rw [open_of_lookup hd', completed_of_lookup hd']
    refine ⟨iff_of_false (fun h => ho h.1) ?_, iff_of_false (fun h => ho h.1) ?_⟩
    · rintro ⟨d, hd, rfl, -⟩
      exact ho (hbefore d hd).symm
    · rintro ⟨d, hd, rfl, -⟩
      exact ho (hbefore d hd).symm
  · unfold Db.Open Db.Completed
    rw [hlookup, if_neg hi]
    exact ⟨Iff.rfl, Iff.rfl⟩

end Writes

section Runs

variable {textGt : String → String → Bool} {w₀ w w' : Situation}

/-- An operation that is not over stays so unless it is cancelled or completed. -/
theorem Deletion.Moves.ends {d d' : Deletion} (h : d.Moves d') (hchecks : d.Checks) :
    (d'.state.isTerminal = d.state.isTerminal ∧
        (d'.state = .completed ↔ d.state = .completed)) ∨
      (d.state = .recovering ∧ d'.state = .cancelled) ∨
      (d.state = .purging ∧ d'.state = .completed) := by
  cases h with
  | stays hstate => exact Or.inl (by rw [hstate]; exact ⟨rfl, Iff.rfl⟩)
  | resumes hfailed hresume =>
      have hclaimable := hchecks.resumeState _ hresume
      refine Or.inl ?_
      cases hstate : d'.state <;> simp_all [DeletionState.isTerminal]
  | fails hclaimable hstate =>
      refine Or.inl ?_
      cases hbefore : d.state <;> simp_all [DeletionState.isTerminal, DeletionState.Claimable]
  | recovers hcancel hstate =>
      refine Or.inl ?_
      cases hbefore : d.state <;> simp_all [DeletionState.isTerminal, DeletionState.canCancel]
  | cancelsBilling hbefore hstate =>
      refine Or.inl ?_
      rcases hbefore with hbefore | hbefore <;> simp [hbefore, hstate, DeletionState.isTerminal]
  | retains hbefore _ _ hstate =>
      refine Or.inl ?_
      rcases hbefore with hbefore | hbefore | hbefore | hbefore <;>
        simp [hbefore, hstate, DeletionState.isTerminal]
  | purges hbefore hstate =>
      exact Or.inl (by simp [hbefore, hstate, DeletionState.isTerminal])
  | cancels hbefore hstate => exact Or.inr (Or.inl ⟨hbefore, hstate⟩)
  | completes hbefore hstate => exact Or.inr (Or.inr ⟨hbefore, hstate⟩)

/-- A write of an operation that is over if and only if it was. -/
theorem governed_of_kept {db db' : Db} {id : Ident} {d d' : Deletion} (h : db.Governed)
    (hd : db.deletions.lookup id = some d)
    (hlookup : ∀ i, db'.deletions.lookup i = if i = id then some d' else db.deletions.lookup i)
    (horg : d'.orgId = d.orgId) (hterminal : d'.state.isTerminal = d.state.isTerminal)
    (hcompleted : d'.state = .completed ↔ d.state = .completed)
    (horgs : ∀ o, db'.lifecycleOf o = db.lifecycleOf o) : db'.Governed := by
  obtain ⟨hopened, hone, hcomplete⟩ := governed_iff.1 h
  have hd' : db'.deletions.lookup id = some d' := by rw [hlookup, if_pos rfl]
  have hsame : ∀ o i, (db'.Open o i ↔ db.Open o i) ∧ (db'.Completed o i ↔ db.Completed o i) := by
    intro o i
    by_cases hi : i = id
    · subst hi
      rw [open_of_lookup hd', completed_of_lookup hd', open_of_lookup hd, completed_of_lookup hd,
        horg, hterminal, hcompleted]
      exact ⟨Iff.rfl, Iff.rfl⟩
    · unfold Db.Open Db.Completed
      rw [hlookup, if_neg hi]
      exact ⟨Iff.rfl, Iff.rfl⟩
  refine governed_iff.2 ⟨?_, ?_, ?_⟩
  · intro o l hl
    rw [horgs o] at hl
    simp only [(hsame o _).1, hopened o l hl]
  · intro o i i' hi hi'
    exact hone o i i' ((hsame o i).1.1 hi) ((hsame o i').1.1 hi')
  · intro o l hl
    rw [horgs o] at hl
    simp only [(hsame o _).2, hcomplete o l hl]

/-- A write that ends an operation, together with the deletion of its organisation. -/
theorem governed_of_ended {db db' : Db} {id : Ident} {d d' : Deletion} {l' : LifecycleState}
    (h : db.Governed) (hd : db.deletions.lookup id = some d) (hopen : ¬ d.state.isTerminal)
    (hlookup : ∀ i, db'.deletions.lookup i = if i = id then some d' else db.deletions.lookup i)
    (horg : d'.orgId = d.orgId) (hterminal : d'.state.isTerminal)
    (horgs : ∀ o, db'.lifecycleOf o = if o = d'.orgId then
      (db.lifecycleOf o).map fun l => if l = .deleting then l' else l else db.lifecycleOf o)
    (hl' : l' ≠ .deleting) (hcompleted : d'.state = .completed ↔ l' = .deleted) :
    db'.Governed := by
  obtain ⟨hopened, hone, hcomplete⟩ := governed_iff.1 h
  have hd' : db'.deletions.lookup id = some d' := by rw [hlookup, if_pos rfl]
  have hbefore : db.Open d'.orgId id := ⟨d, hd, horg.symm, hopen⟩
  have helse := else_of_lookup hlookup fun d₁ hd₁ => by
    cases hd₁.symm.trans hd
    exact horg.symm
  refine governed_of_change h helse (fun o ho => ?_) (fun _ i hi => hone _ i id hi hbefore) ?_
  · rw [horgs, if_neg ho]
  · intro l hl
    rw [horgs, if_pos rfl, Option.map_eq_some_iff] at hl
    obtain ⟨l₀, hl₀, rfl⟩ := hl
    have hdeleting : l₀ = .deleting := (hopened _ l₀ hl₀).2 ⟨id, hbefore⟩
    subst hdeleting
    rw [if_pos rfl]
    refine ⟨iff_of_false hl' ?_, ?_⟩
    · rintro ⟨i, hi⟩
      by_cases heq : i = id
      · subst heq
        exact ((open_of_lookup hd' _).1 hi).2 hterminal
      · exact heq (hone _ i id ((helse _ i fun h => heq h.2).1.1 hi) hbefore)
    · rw [← hcompleted]
      constructor
      · intro hstate
        exact ⟨id, (completed_of_lookup hd' _).2 ⟨rfl, hstate⟩⟩
      · rintro ⟨i, hi⟩
        by_cases heq : i = id
        · subst heq
          exact ((completed_of_lookup hd' _).1 hi).2
        · have hcompleted := (hcomplete _ _ hl₀).2 ⟨i, (helse _ i fun h => heq h.2).2.1 hi⟩
          cases hcompleted

/-- A new operation, together with the freezing of its organisation. -/
theorem governed_of_requested {db db' : Db} {orgId id : Ident} {d' : Deletion} (h : db.Governed)
    (hl : db.lifecycleOf orgId = some .active) (hfresh : db.deletions.lookup id = none)
    (hlookup : ∀ i, db'.deletions.lookup i = if i = id then some d' else db.deletions.lookup i)
    (horg : d'.orgId = orgId) (hopen : ¬ d'.state.isTerminal)
    (horgs : ∀ o, db'.lifecycleOf o = if o = orgId then some .deleting else db.lifecycleOf o) :
    db'.Governed := by
  subst horg
  obtain ⟨hopened, -, hcomplete⟩ := governed_iff.1 h
  have hd' : db'.deletions.lookup id = some d' := by rw [hlookup, if_pos rfl]
  have hnone : ∀ i, ¬ db.Open d'.orgId i := by
    intro i hi
    cases (hopened _ _ hl).2 ⟨i, hi⟩
  have hnot : ∀ i, ¬ db.Completed d'.orgId i := by
    intro i hi
    cases (hcomplete _ _ hl).2 ⟨i, hi⟩
  have helse := else_of_lookup hlookup fun d hd => by cases hfresh.symm.trans hd
  refine governed_of_change h helse (fun o ho => ?_) (fun _ i hi => absurd hi (hnone i)) ?_
  · rw [horgs, if_neg ho]
  · intro l hl'
    rw [horgs, if_pos rfl] at hl'
    cases hl'
    refine ⟨iff_of_true rfl ⟨id, (open_of_lookup hd' _).2 ⟨rfl, hopen⟩⟩,
      iff_of_false (by simp) ?_⟩
    rintro ⟨i, hi⟩
    by_cases heq : i = id
    · subst heq
      have hstate := ((completed_of_lookup hd' _).1 hi).2
      simp [hstate, DeletionState.isTerminal] at hopen
    · exact hnot i ((helse _ i fun h => heq h.2).2.1 hi)

theorem governed_of_writes {s : World} {op : Op} {c : Cmd} {id : Ident} {d' : Deletion} {db' : Db}
    (hs : s.Sound) (h : s.db.Governed) (hissues : op.Issues c) (hphase : op.InPhase c)
    (hstart : op.MayStart s) (hwrites : Writes s.now s.db c id d' db') : db'.Governed := by
  have hlookup := lookup_of_writes hwrites
  have hmoves := fun d (hd : s.db.deletions.lookup id = some d) =>
    moves_of_writes hs hissues hphase hstart hwrites hd
  have hkept : ∀ d, s.db.deletions.lookup id = some d → d'.orgId = d.orgId →
      ¬ (d.state = .recovering ∧ d'.state = .cancelled) →
      ¬ (d.state = .purging ∧ d'.state = .completed) →
      db'.organizations = s.db.organizations → db'.Governed := by
    intro d hd horg hcancelled hcompleted horgs
    obtain ⟨hterminal, hsame⟩ := (((hmoves d hd).ends (hs.operations _ _ hd).checks).resolve_right
      fun h => h.elim hcancelled hcompleted)
    refine governed_of_kept h hd hlookup horg hterminal hsame fun o => ?_
    unfold Db.lifecycleOf
    rw [horgs]
  cases hwrites with
  | @requested _ orgId actor _ retentionDays org _ horg hactive hfresh hunique =>
      refine governed_of_requested h (lifecycleOf_eq_some.2 ⟨org, horg, hactive⟩) hfresh hlookup rfl
        (by simp [Deletion.requested, DeletionState.isTerminal]) fun o => ?_
      rw [lifecycleOf_modify (f := fun org : Organization => { org with lifecycle := .deleting })
        rfl o, horg]
      rfl
  | resumed hd hfailed _ =>
      refine hkept _ hd rfl ?_ ?_ rfl
      · rintro ⟨hstate, -⟩
        cases hfailed.symm.trans hstate
      · rintro ⟨hstate, -⟩
        cases hfailed.symm.trans hstate
  | recovering hd hcancel =>
      refine hkept _ hd rfl ?_ ?_ rfl
      · rintro ⟨-, hstate⟩
        cases hstate
      · rintro ⟨-, hstate⟩
        cases hstate
  | claimed hd _ =>
      refine hkept _ hd rfl ?_ ?_ rfl
      · rintro ⟨hbefore, hstate⟩
        cases hbefore.symm.trans hstate
      · rintro ⟨hbefore, hstate⟩
        cases hbefore.symm.trans hstate
  | transitioned hd _ =>
      have hnext := next_of_issues hissues hstart
      refine hkept _ hd rfl ?_ ?_ rfl
      · rintro ⟨-, hstate⟩
        cases hnext.symm.trans hstate
      · rintro ⟨-, hstate⟩
        cases hnext.symm.trans hstate
  | billingFinished hd _ =>
      refine hkept _ hd rfl ?_ ?_ rfl
      · rintro ⟨-, hstate⟩
        cases hstate
      · rintro ⟨-, hstate⟩
        cases hstate
  | reconciled hd hheld _ =>
      have hstate := issues_of_held hs hissues hphase hstart rfl hd hheld
      refine hkept _ hd rfl ?_ ?_ rfl
      · rintro ⟨hbefore, -⟩
        cases hstate.symm.trans hbefore
      · rintro ⟨hbefore, -⟩
        cases hstate.symm.trans hbefore
  | @recovered lease gate tier d hd hheld =>
      have hstate : d.state = .recovering := issues_of_held hs hissues hphase hstart rfl hd hheld
      have hlease := (state_of_held hs (mem_leases_of_issues hissues hstart rfl) hd hheld).2.1
      refine @governed_of_ended _ _ _ _ _ .active h hd ?_ hlookup rfl rfl ?_ (by simp) ?_
      · simp [hstate, DeletionState.isTerminal]
      · intro o
        rw [lifecycleOf_modify rfl o]
        show (if o = lease.orgId then _ else _) = if o = d.orgId then _ else _
        rw [hlease]
        split
        · next heq =>
            rw [heq]
            unfold Db.lifecycleOf
            rw [Option.map_map]
            congr 1
            funext org
            unfold Organization.reactivated
            rw [Function.comp_apply]
            split <;> simp_all
        · rfl
      · simp [Deletion.recovered, Deletion.released]
  | purging hd _ _ _ =>
      refine hkept _ hd rfl ?_ ?_ rfl
      · rintro ⟨-, hstate⟩
        cases hstate
      · rintro ⟨-, hstate⟩
        cases hstate
  | retried hd _ =>
      refine hkept _ hd rfl ?_ ?_ rfl
      · rintro ⟨hbefore, hstate⟩
        cases hbefore.symm.trans hstate
      · rintro ⟨hbefore, hstate⟩
        cases hbefore.symm.trans hstate
  | failed hd _ =>
      refine hkept _ hd rfl ?_ ?_ rfl
      · rintro ⟨-, hstate⟩
        cases hstate
      · rintro ⟨-, hstate⟩
        cases hstate
  | @purged lease finishedAt d org fresh hd hheld _ _ _ _ =>
      have hstate : d.state = .purging := issues_of_held hs hissues hphase hstart rfl hd hheld
      refine @governed_of_ended _ _ _ _ _ .deleted h hd ?_ hlookup rfl rfl ?_ (by simp) ?_
      · simp [hstate, DeletionState.isTerminal]
      · intro o
        rw [lifecycleOf_modify rfl o]
        show (if o = d.orgId then _ else _) = if o = d.orgId then _ else _
        split
        · next heq =>
            rw [heq]
            unfold Db.lifecycleOf
            rw [Option.map_map]
            congr 1
            funext org
            unfold Organization.tombstone
            rw [Function.comp_apply]
            split <;> simp_all
        · rfl
      · simp [Deletion.completed, Deletion.released]
  | purgeRefused hd =>
      refine hkept _ hd rfl ?_ ?_ rfl
      · rintro ⟨-, hstate⟩
        cases hstate
      · rintro ⟨-, hstate⟩
        cases hstate
  | recorded hd =>
      refine hkept _ hd rfl ?_ ?_ rfl
      · rintro ⟨-, hstate⟩
        cases hstate
      · rintro ⟨-, hstate⟩
        cases hstate

/-- Every organisation is active, and nothing else has happened. -/
structure Situation.Opening (w : Situation) : Prop extends w.Fresh where
  active : ∀ orgId org, w.shared.db.organizations.lookup orgId = some org →
    org.lifecycle = .active

theorem Situation.Opening.governed (h : w₀.Opening) : w₀.shared.db.Governed := by
  have hnone : ∀ {id d}, w₀.shared.db.deletions.lookup id ≠ some d := by
    intro id d hd
    rw [h.deletions] at hd
    cases hd
  refine ⟨?_, ?_, ?_⟩
  · intro orgId org horg
    refine iff_of_false (by simp [h.active orgId org horg]) ?_
    rintro ⟨id, d, hd, -⟩
    exact hnone hd
  · rintro orgId id id' ⟨d, hd, -⟩
    exact absurd hd hnone
  · intro orgId org horg
    refine iff_of_false (by simp [h.active orgId org horg]) ?_
    rintro ⟨id, d, hd, -⟩
    exact hnone hd

theorem governed_of_reaches (h : w₀.Opening) (hrun : (deletionSystem textGt).Reaches w₀ w) :
    w.shared.db.Governed := by
  induction hrun with
  | refl => exact h.governed
  | @tail w₁ w₂ hrun hstep ih =>
      cases progress_of_step h.idle hrun hstep with
      | kept hdb => rwa [hdb]
      | relinked hrelinks => exact governed_of_same ih hrelinks.deletions (lifecycleOf_relinks hrelinks)
      | written _ hissues hphase hstart hwrites _ =>
          exact governed_of_writes (sound_of_reaches h.toFresh hrun) ih hissues hphase hstart hwrites

/-- The dates of an operation stay. -/
theorem dates_of_reaches (hfresh : w₀.Fresh) (hrun : (deletionSystem textGt).Reaches w₀ w)
    (hrun' : (deletionSystem textGt).Reaches w w') {id : Ident} {d : Deletion}
    (hd : w.shared.db.deletions.lookup id = some d) :
    ∃ d', w'.shared.db.deletions.lookup id = some d' ∧ d'.requestedAt = d.requestedAt ∧
      d'.purgeAfter = d.purgeAfter := by
  induction hrun' with
  | refl => exact ⟨d, hd, rfl, rfl⟩
  | @tail w₁ w₂ hrun₁ hstep ih =>
      obtain ⟨d₁, hd₁, hrequested, hpurge⟩ := ih
      obtain ⟨d₂, hd₂, hnext⟩ := moves_of_step hfresh (hrun.trans hrun₁) hstep hd₁
      refine ⟨d₂, hd₂, ?_⟩
      rcases hnext with rfl | ⟨-, hnext⟩
      · exact ⟨hrequested, hpurge⟩
      · exact ⟨hnext.requestedAt.trans hrequested, hnext.purgeAfter.trans hpurge⟩

/-- In every state of every run, the lifecycle of each organisation agrees with its operations, and
no operation has changed its dates. -/
theorem lifecycles_agree (h : w₀.Opening) (hrun : (deletionSystem textGt).Reaches w₀ w) :
    w.shared.db.Agrees ∧ ∀ w', (deletionSystem textGt).Reaches w w' →
      ∀ id d, w.shared.db.deletions.lookup id = some d →
        ∃ d', w'.shared.db.deletions.lookup id = some d' ∧ d'.requestedAt = d.requestedAt ∧
          d'.purgeAfter = d.purgeAfter :=
  ⟨(governed_of_reaches h hrun).agrees, fun _ hrun' _ _ hd =>
    dates_of_reaches h.toFresh hrun hrun' hd⟩

end Runs

/-- The organisation whose deletion was requested is being deleted. -/
theorem lifecycles_agree_cancelled :
    (Checkout.cancelled (Checkout.requested Checkout.world)).db.Agrees := by
  have hopening : (quiet Checkout.world).Opening := by
    refine ⟨⟨fun _ => rfl, rfl, rfl⟩, ?_⟩
    intro orgId org horg
    have hactive : Checkout.world.db.organizations.rows.all fun e => e.2.lifecycle = .active := by
      decide +kernel
    rw [List.all_eq_true] at hactive
    simpa using hactive (orgId, org) (Table.mem_rows.2 horg)
  exact (lifecycles_agree hopening Checkout.reaches_cancelled).1

end Billing

end Sotto
