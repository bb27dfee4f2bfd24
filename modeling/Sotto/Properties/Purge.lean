import Sotto.Billing.Operations

/-!
# The gate of the purge

In every run of clients, operators, workers and webhooks, the data of an organisation is deleted only
by the purge of its operation, under the lease that is the operation's at that moment, and only
while every condition of the deletion holds. All other steps leave the data of every organisation.
-/

namespace Sotto

namespace Billing

open Core
open Server (Tier LifecycleState)

/-- What is kept of an organisation until it is purged. -/
def Organization.data (org : Organization) : Option Bytes × Option Ident × Bool :=
  (org.encName, org.createdBy, org.lifecycle = .deleted)

/-- No data is deleted, and no organisation becomes deleted. -/
structure KeepsData (db db' : Db) : Prop where
  holdings : db'.holdings = db.holdings
  organizations : ∀ orgId, (db'.organizations.lookup orgId).map Organization.data =
    (db.organizations.lookup orgId).map Organization.data

/-- What must hold where a worker purges the organisation of an operation. -/
structure MayPurge (s : World) (lease : DeletionLease) (d : Deletion) (org : Organization) :
    Prop where
  operation : s.db.deletions.lookup lease.id = some d
  state : d.state = .purging
  owner : d.leaseOwner = some lease.workerId
  version : d.stateVersion = lease.stateVersion
  organization : s.db.organizations.lookup d.orgId = some org
  lifecycle : org.lifecycle = .deleting
  purgeAfter : d.purgeAfter ≤ s.now
  billing : d.lastBillingState = some .terminal ∨ d.lastBillingState = some .missing
  checked : ∃ t, d.billingCheckedAt = some t ∧ s.now - t ≤ 15 * 60
  subscription : org.stripeSubscriptionId = none ∨ org.stripeSubscriptionId = d.subscriptionId

/-- A step deletes what one organisation owns, and leaves its tombstone. -/
structure Purges (s s' : World) (orgId : Ident) : Prop where
  holdings : s'.db.holdings = s.db.holdings.without orgId
  organization : ∀ org, s.db.organizations.lookup orgId = some org →
    s'.db.organizations.lookup orgId = some (org.tombstone s.now)
  others : ∀ orgId', orgId' ≠ orgId →
    s'.db.organizations.lookup orgId' = s.db.organizations.lookup orgId'

section Steps

variable {textGt : String → String → Bool} {s s' : World} {c : Cmd}

theorem KeepsData.refl (db : Db) : KeepsData db db := ⟨rfl, fun _ => rfl⟩

theorem keepsData_of_relinks {db db' : Db} (h : Relinks db db') : KeepsData db db' := by
  refine ⟨h.holdings, ?_⟩
  intro orgId
  have hdata : Organization.data = Organization.data ∘ Organization.frozen := by
    funext org
    unfold Organization.data Organization.frozen
    rw [Function.comp_apply]
    split <;> rfl
  rw [hdata, ← Option.map_map, ← Option.map_map, h.organizations orgId]

theorem keepsData_of_modify {db db' : Db} {orgId : Ident} (f : Organization → Organization)
    (hholdings : db'.holdings = db.holdings)
    (horganizations : db'.organizations = db.organizations.modify orgId f)
    (hf : ∀ org, db.organizations.lookup orgId = some org → (f org).data = org.data) :
    KeepsData db db' := by
  refine ⟨hholdings, ?_⟩
  intro orgId'
  rw [horganizations, Table.lookup_modify]
  split
  · next heq =>
      rw [heq]
      cases horg : db.organizations.lookup orgId with
      | none => rfl
      | some org => simp [hf org horg]
  · rfl

/-- A command other than a purge keeps all data. -/
theorem keepsData_of_writes {now : Int} {db db' : Db} {id : Ident} {d : Deletion}
    (h : Writes now db c id d db') (hc : ∀ lease, c ≠ .purge lease) : KeepsData db db' := by
  cases h with
  | requested _ horg hactive _ _ =>
      refine keepsData_of_modify (fun org => { org with lifecycle := .deleting }) rfl rfl ?_
      intro org' horg'
      cases horg.symm.trans horg'
      simp [Organization.data, hactive]
  | recovered _ _ =>
      refine keepsData_of_modify _ rfl rfl ?_
      intro org _
      unfold Organization.reactivated Organization.data
      split
      · next h => simp [h]
      · rfl
  | purged => exact absurd rfl (hc _)
  | _ => exact ⟨rfl, fun _ => rfl⟩

/-- A fresh observation is not older than its maximum age. -/
theorem checked_of_isFresh {now : Int} {d : Deletion} (h : d.isFresh now = some true) :
    ∃ t, d.billingCheckedAt = some t ∧ now - t ≤ 15 * 60 := by
  unfold Deletion.isFresh at h
  cases ht : d.billingCheckedAt with
  | none => cases hs : d.billingObservationSource <;> simp [ht, hs, sqlAnd] at h
  | some t =>
      refine ⟨t, rfl, ?_⟩
      by_cases hage : t ≥ now - billingObservationMaxAge
      · unfold billingObservationMaxAge at hage
        omega
      · rw [ht, Option.map_some, decide_eq_false hage] at h
        cases h

/-- A purge keeps all data, or its gate holds. -/
theorem purge_cases {lease : DeletionLease} {id : Ident} {d : Deletion}
    (h : Writes s.now s.db (.purge lease) id d s'.db) :
    KeepsData s.db s'.db ∨ ∃ d org, MayPurge s lease d org ∧ Purges s s' d.orgId := by
  generalize hdb : s'.db = db' at h
  cases h with
  | @purged lease finishedAt d org fresh hd hheld horg hfresh hpermits _ =>
      right
      simp only [Deletion.permitsPurge, decide_eq_true_eq] at hpermits
      obtain ⟨hstate, hlifecycle, hafter, -, rfl, hbilling, hsubscription⟩ := hpermits
      simp only [Deletion.heldBy, decide_eq_true_eq] at hheld
      refine ⟨d, org, ⟨hd, hstate, hheld.2, hheld.1, horg, hlifecycle, hafter, hbilling,
        checked_of_isFresh hfresh, hsubscription⟩, ?_, ?_, ?_⟩
      · rw [hdb]
        rfl
      · intro org' horg'
        cases horg.symm.trans horg'
        rw [hdb]
        exact (Table.lookup_modify_self _ _ _).trans (by rw [horg]; rfl)
      · intro orgId' hne
        rw [hdb]
        exact Table.lookup_modify_of_ne hne _ _
  | purgeRefused =>
      left
      exact ⟨rfl, fun _ => rfl⟩

/-- Every command keeps all data, or it is a purge whose gate holds. -/
theorem keepsData_or_purges {r : c.Reply} (h : Executes textGt c s r s') :
    KeepsData s.db s'.db ∨ ∃ lease d org, c = .purge lease ∧ MayPurge s lease d org ∧
      Purges s s' d.orgId := by
  cases ends_of_executes h with
  | kept hdb _ => exact Or.inl (hdb ▸ KeepsData.refl _)
  | relinked _ hrelinks _ => exact Or.inl (keepsData_of_relinks hrelinks)
  | refused _ _ hdb _ => exact Or.inl (hdb ▸ KeepsData.refl _)
  | written hwrites _ _ =>
      by_cases hpurge : ∃ lease, c = .purge lease
      · obtain ⟨lease, rfl⟩ := hpurge
        refine (purge_cases hwrites).imp_right ?_
        rintro ⟨d, org, hmay, hpurges⟩
        exact ⟨lease, d, org, rfl, hmay, hpurges⟩
      · exact Or.inl (keepsData_of_writes hwrites fun lease h => hpurge ⟨lease, h⟩)

end Steps

/-- In every run of the deletion subsystem, a step deletes data of an organisation only where a
worker purges it under the current lease of its operation and the gate of the purge holds; every
other step keeps all data. -/
theorem purge_gated {textGt : String → String → Bool} {w₀ w w' : Situation} (hidle : w₀.Idle)
    (hrun : (deletionSystem textGt).Reaches w₀ w) (hstep : (deletionSystem textGt).Step w w') :
    KeepsData w.shared.db w'.shared.db ∨
      ∃ i lease provider k d org,
        (w.threads i).running = some (.advance lease provider, .call (.purge lease) k) ∧
        lease ∈ w.shared.leases ∧ MayPurge w.shared lease d org ∧
        Purges w.shared w'.shared d.orgId := by
  cases hstep with
  | start _ _ => exact Or.inl (KeepsData.refl _)
  | finish _ _ => exact Or.inl (KeepsData.refl _)
  | @call i op c k r s' l' hr he =>
      refine (keepsData_or_purges he).imp_right ?_
      rintro ⟨lease, d, org, rfl, hmay, hpurges⟩
      obtain ⟨huses, hstarted⟩ := issues_of_reaches hidle hrun hr
      cases op with
      | issue c =>
          cases huses.1
          exact hstarted.elim
      | advance lease' provider =>
          cases huses.1
          exact ⟨i, lease, provider, k, d, org, hr, hstarted, hmay, hpurges⟩

/-! ### An operation that is purged -/

namespace Purged

def org : Organization where
  encName := some (.raw "acme".toUTF8)
  createdBy := some (.text "owner")
  tier := .free
  trialEndsAt := none
  lifecycle := .deleting
  deletedAt := none
  stripeCustomerId := none
  stripeSubscriptionId := none

/-- The operation after a fresh lookup at the end of its retention, claimed once more. -/
def operation : Deletion :=
  (((Deletion.requested 0 (.text "org") (.text "owner") 30 none).reconciled 2592000
    .missing).released.claimed 2592000 "worker")

def lease : DeletionLease where
  id := .text "operation"
  orgId := .text "org"
  state := .purging
  subscriptionId := none
  workerId := "worker"
  stateVersion := 2
  attemptCount := 0

def world : World where
  db := {
    organizations := AList.insert (.text "org") org ∅
    webhookEvents := ∅
    watermarks := ∅
    deletions := AList.insert (.text "operation") operation ∅
    holdings := ⟨∅, ∅, ∅, ∅, ∅, ∅, ∅⟩ }
  provider := ⟨∅, ∅⟩
  now := 2592000
  leases := [lease]
  deliveries := []

def idle : Situation := ⟨world, fun _ => ⟨(), none⟩⟩

end Purged

/-- A run in which the organisation is purged. -/
theorem purge_gated_purged : ∃ w w' : Situation,
    (deletionSystem fun _ _ => false).Reaches Purged.idle w ∧
    (deletionSystem fun _ _ => false).Step w w' ∧
    ∃ i lease provider k d org,
      (w.threads i).running = some (.advance lease provider, .call (.purge lease) k) ∧
      lease ∈ w.shared.leases ∧ MayPurge w.shared lease d org ∧
      Purges w.shared w'.shared d.orgId := by
  let claimed : Situation := ⟨Purged.world, Function.update Purged.idle.threads 0
    ⟨(), some (.advance Purged.lease true, advance Purged.lease true)⟩⟩
  have hmay : (Op.advance Purged.lease true).MayStart Purged.world := List.mem_cons_self
  have hstart : (deletionSystem fun _ _ => false).Step Purged.idle claimed :=
    .start (w := Purged.idle) rfl hmay
  have hpurge : Executes (fun _ _ => false) (.purge Purged.lease) Purged.world _
      { (Purged.world.commit (purge 2592000 Purged.lease 2592000)).2 with now := 2592000 } :=
    .purge (le_refl _) rfl
  have hcall : (deletionSystem fun _ _ => false).Step claimed
      ⟨_, Function.update claimed.threads 0 ⟨(), _⟩⟩ := .call rfl hpurge
  refine ⟨_, _, .single hstart, hcall, ?_⟩
  refine (purge_gated (fun _ => rfl) (.single hstart) hcall).resolve_left ?_
  intro hkeeps
  have horg := hkeeps.organizations (.text "org")
  revert horg
  decide +kernel

end Billing

end Sotto
