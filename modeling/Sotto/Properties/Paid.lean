import Sotto.Properties.Purge

/-!
# Subscriptions of a purged organisation

A subscription is linked to its organisation only while the organisation is active, so a checkout
that is paid while the deletion is under way is never seen by it, and the organisation is purged
while the subscription goes on. The purge leaves no subscription behind when every subscription was
linked at the request and no checkout is paid until the deletion ends.
-/

namespace Sotto

namespace Billing

open Core
open Server (Tier LifecycleState)

/-- A subscription that was bought for an organisation and has not ended. -/
def Provider.Live (p : Provider) (orgId subscriptionId : Ident) : Prop :=
  ∃ status, p.subscriptions.lookup subscriptionId = some (orgId, status) ∧
    status.purgeGate ≠ .terminal

/-- The answer to a lookup is what is the case, unless the lookup fails. -/
def Provider.Answers (p : Provider) (subscriptionId : Ident) :
    ProviderResult SubscriptionObservation → Prop
  | .ok (.current snapshot) =>
      ∃ orgId, p.subscriptions.lookup subscriptionId = some (orgId, snapshot.status)
  | .ok .missing => p.subscriptions.lookup subscriptionId = none
  | .error _ => True

/-- What the provider answers and what operators record is the case. -/
def Faithful : (c : Cmd) → World → c.Reply → World → Prop
  | .getSubscription id, _, r, s' => s'.provider.Answers id r
  | .cancelSubscription id, _, r, s' => s'.provider.Answers id r
  | .observe _ _ observation, s, _, _ =>
      ∀ orgId, ¬ s.provider.Live orgId observation.subscriptionId
  | _, _, _, _ => True

/-- The condition under which a purge leaves no subscription: where the deletion of an active
organisation is requested, each of its subscriptions that has not ended is the linked one, and a
checkout is paid only while its organisation is active. -/
def Timely (c : Cmd) (s : World) : Prop :=
  match c with
  | .request _ orgId _ _ _ => ∀ org, s.db.organizations.lookup orgId = some org →
      org.lifecycle = .active → ∀ id, s.provider.Live orgId id →
      org.stripeSubscriptionId = some id
  | .pay session _ _ => ∀ orgId, s.provider.sessions.lookup session = some orgId →
      ∃ org, s.db.organizations.lookup orgId = some org ∧ org.lifecycle = .active
  | _ => True

/-- The runs of the condition. -/
def timelyRuns (c : Cmd) (s : World) (r : c.Reply) (s' : World) : Prop :=
  Faithful c s r s' ∧ Timely c s

/-- What holds of the operations that are not over. -/
structure Covered (s : World) : Prop where
  unique : ∀ id id' d d', s.db.deletions.lookup id = some d → s.db.deletions.lookup id' = some d' →
    ¬ d.state.isTerminal → ¬ d'.state.isTerminal → d.orgId = d'.orgId → id = id'
  deleting : ∀ id d, s.db.deletions.lookup id = some d → ¬ d.state.isTerminal →
    ∃ org, s.db.organizations.lookup d.orgId = some org ∧ org.lifecycle = .deleting
  linked : ∀ id d, s.db.deletions.lookup id = some d → ¬ d.state.isTerminal →
    ∀ sub, s.provider.Live d.orgId sub → d.subscriptionId = some sub
  ended : ∀ id d, s.db.deletions.lookup id = some d → ¬ d.state.isTerminal →
    d.lastBillingState = some .terminal ∨ d.lastBillingState = some .missing →
    ∀ sub, ¬ s.provider.Live d.orgId sub

/-- While a lease is still the operation's, no subscription goes on. -/
def DeletionLease.Ended (lease : DeletionLease) (s : World) : Prop :=
  ∀ d, s.db.deletions.lookup lease.id = some d → d.heldBy lease →
    ∀ sub, ¬ s.provider.Live lease.orgId sub

section Steps

variable {textGt : String → String → Bool} {s s' : World} {c : Cmd} {op : Op} {id : Ident}
  {d : Deletion} {db' : Db}

theorem not_terminal_of_claimable {state : DeletionState} (h : state.Claimable) :
    ¬ state.isTerminal := by
  unfold DeletionState.Claimable at h
  cases state <;> simp_all [DeletionState.isTerminal]

end Steps

/-! ### Runs -/

/-- What all threads keep up: leases stay issued, and billing that has ended under one stays so. -/
def endedOutline (textGt : String → String → Bool) :
    Outline ((deletionSystem textGt).restrict (onlyIf timelyRuns)) where
  rely _ s s' := s.leases ⊆ s'.leases ∧ ∀ lease ∈ s.leases, lease.Ended s → lease.Ended s'
  guar _ _ s _ s' := s.leases ⊆ s'.leases ∧ ∀ lease ∈ s.leases, lease.Ended s → lease.Ended s'
  inv s := s.Sound ∧ Covered s
  idle _ _ _ := True
  post _ _ _ _ _ := True
  rely_refl _ _ := ⟨List.Subset.refl _, fun _ _ h => h⟩
  rely_trans := fun _ _ _ _ h h' => ⟨List.Subset.trans h.1 h'.1, fun lease hlease hended =>
    h'.2 lease (h.1 hlease) (h.2 lease hlease hended)⟩

/-- The setting of a thread. -/
abbrev threadSetting (textGt : String → String → Bool) (i : Nat) :
    @Setting Cmd Cmd.Reply World Unit := (endedOutline textGt).setting i

/-- What is ensured of a worker's program from a state on. -/
abbrev Ensured (textGt : String → String → Bool) (i : Nat) (p : Work) (s : World) : Prop :=
  (threadSetting textGt i).wp p (fun _ _ _ => True) s ()

section Runs

variable {textGt : String → String → Bool} {i : Nat} {s s' : World} {c : Cmd} {op : Op}
  {lease : DeletionLease} {provider : Bool} {observation : SubscriptionObservation} {p : Work}

theorem Situation.Fresh.good {w : Situation} (h : w.Fresh) : (endedOutline textGt).Good w := by
  refine ⟨⟨h.sound, ?_⟩, ?_⟩
  · have hnone : ∀ id, w.shared.db.deletions.lookup id = none := by
      intro id
      rw [h.deletions]
      rfl
    refine ⟨?_, ?_, ?_, ?_⟩ <;> simp [hnone]
  · intro i
    unfold Outline.Holds
    rw [h.idle i]
    trivial

end Runs

/-- The event of each paid checkout was accepted before the purge deadline of the organisation. -/
def World.Announced (s : World) : Prop :=
  ∀ id orgId status, s.provider.subscriptions.lookup id = some (orgId, status) →
    ∃ t event, (t, event) ∈ s.deliveries ∧ event.kind = .checkoutCompleted ∧
      event.object.clientReferenceId = some orgId ∧ event.object.subscription = some id ∧
      ∀ id' d, s.db.deletions.lookup id' = some d → d.orgId = orgId → t < d.purgeAfter

/-! ### An organisation that is purged while its subscription goes on

An administrator opens a checkout, and the owner requests the deletion. The checkout is paid while
the operation is retained, its event is delivered, and the retention ends. -/

namespace Checkout

def org : Organization where
  encName := some (.raw "acme".toUTF8)
  createdBy := some (.text "owner")
  tier := .free
  trialEndsAt := none
  lifecycle := .active
  deletedAt := none
  stripeCustomerId := none
  stripeSubscriptionId := none

def world : World where
  db := {
    organizations := AList.insert (.text "org") org ∅
    webhookEvents := ∅
    watermarks := ∅
    deletions := ∅
    holdings := {
      memberships := AList.insert (.text "org", .text "owner") ⟨.owner, none⟩ ∅
      projects := ∅
      environments := ∅
      grants := ∅
      secrets := ∅
      secretVersions := ∅
      machineTokens := ∅ } }
  provider := ⟨∅, ∅⟩
  now := 0
  leases := []
  deliveries := []

def lease (state : DeletionState) (stateVersion attemptCount : Int) : DeletionLease where
  id := .text "operation"
  orgId := .text "org"
  state := state
  subscriptionId := none
  workerId := "worker"
  stateVersion := stateVersion
  attemptCount := attemptCount

section Stages

variable (s : World)

def requested : World :=
  (s.commit (requestWithRetention s.now (.text "operation") (.text "org") (.text "owner")
    (.text "org") 30)).2

def claimed : World :=
  { (s.commit (claimDue s.now "worker" [])).2 with
    leases := ((s.commit (claimDue s.now "worker" [])).1.toOption.bind id).toList ++
      (s.commit (claimDue s.now "worker" [])).2.leases }

def begun : World :=
  (s.commit (transitionState s.now (lease .requested 1 0) .cancellingBilling)).2

def retained : World := (s.commit (finishBilling s.now (lease .cancellingBilling 3 1) .missing)).2

def elapsed : World := { s with now := 2592000 }

def entered : World := (s.commit (enterPurging s.now (lease .retention 5 0))).2

/-- Until the operation is retained. -/
def retaining : World := retained (claimed (begun (claimed (requested s))))

/-- From the retention until the purge is about to begin. -/
def purging : World := claimed (entered (claimed (elapsed s)))

end Stages

section Runs

variable {textGt : String → String → Bool} {s : World}

theorem reaches_claimed : ((deletionSystem textGt).restrict (onlyIf timelyRuns)).Reaches
    (quiet s) (quiet (claimed s)) :=
  @reaches_issue textGt _ _ (.claim "worker" []) _ _ trivial (.claim rfl) ⟨trivial, trivial⟩

theorem reaches_retaining (htimely : Timely (.request (.text "operation") (.text "org")
      (.text "owner") (.text "org") 30) s)
    (h₁ : lease .requested 1 0 ∈ (claimed (requested s)).leases)
    (h₂ : lease .cancellingBilling 3 1 ∈ (claimed (begun (claimed (requested s)))).leases) :
    ((deletionSystem textGt).restrict (onlyIf timelyRuns)).Reaches
      (quiet s) (quiet (retaining s)) := by
  have hrequest : ((deletionSystem textGt).restrict (onlyIf timelyRuns)).Reaches
      (quiet s) (quiet (requested s)) :=
    @reaches_issue textGt _ _ (.request (.text "operation") (.text "org") (.text "owner")
      (.text "org") 30) _ _ trivial (.request rfl) ⟨trivial, htimely⟩
  have hbegin : ((deletionSystem textGt).restrict (onlyIf timelyRuns)).Reaches
      (quiet (claimed (requested s))) (quiet (begun (claimed (requested s)))) :=
    @reaches_of_alone textGt _ _ (.advance (lease .requested 1 0) true) _ _ h₁
      (.call ⟨.transitionState rfl, trivial, trivial⟩ .ret)
  have hretain : ((deletionSystem textGt).restrict (onlyIf timelyRuns)).Reaches
      (quiet (claimed (begun (claimed (requested s))))) (quiet (retaining s)) :=
    @reaches_of_alone textGt _ _ (.advance (lease .cancellingBilling 3 1) true) _ _ h₂
      (.call ⟨.finishBilling rfl, trivial, trivial⟩ .ret)
  exact hrequest.trans (reaches_claimed.trans (hbegin.trans (reaches_claimed.trans hretain)))

theorem reaches_purging (hnow : s.now ≤ 2592000)
    (h : lease .retention 5 0 ∈ (claimed (elapsed s)).leases) :
    ((deletionSystem textGt).restrict (onlyIf timelyRuns)).Reaches
      (quiet s) (quiet (purging s)) := by
  have helapse : ((deletionSystem textGt).restrict (onlyIf timelyRuns)).Reaches
      (quiet s) (quiet (elapsed s)) :=
    @reaches_issue textGt _ _ (.tick 2592000) _ _ trivial (.tick hnow) ⟨trivial, trivial⟩
  have henter : ((deletionSystem textGt).restrict (onlyIf timelyRuns)).Reaches
      (quiet (claimed (elapsed s))) (quiet (entered (claimed (elapsed s)))) :=
    @reaches_of_alone textGt _ _ (.advance (lease .retention 5 0) true) _ _ h
      (.call ⟨.enterPurging rfl, trivial, trivial⟩ .ret)
  exact helapse.trans (reaches_claimed.trans (henter.trans reaches_claimed))

/-- The worker has started to purge. -/
def started (s : World) : Situation where
  shared := purging s
  threads := Function.update (quiet (purging s)).threads 0
    ⟨(), some (.advance (lease .purging 7 0) true, perform (.purge (lease .purging 7 0)))⟩

/-- The organisation is purged. -/
def purged (s : World) : Situation where
  shared := { ((purging s).commit (purge (purging s).now (lease .purging 7 0) 2592000)).2 with
    now := 2592000 }
  threads := Function.update (started s).threads 0 ⟨(), some (.advance (lease .purging 7 0) true,
    .ret ((purging s).commit (purge (purging s).now (lease .purging 7 0) 2592000)).1)⟩

end Runs

/-- The checkout is open. -/
def opened : World :=
  { world with provider := ⟨AList.insert (.text "session") (.text "org") ∅, ∅⟩ }

/-- The checkout is paid. -/
def paid : World :=
  { retaining opened with provider := {
      sessions := (retaining opened).provider.sessions.erase (.text "session")
      subscriptions := AList.insert (.text "subscription") (.text "org", .active)
        (retaining opened).provider.subscriptions } }

def subscriptions : Table Ident (Ident × SubscriptionStatus) :=
  AList.insert (.text "subscription") (.text "org", .active) ∅

def event : Event where
  id := "event"
  created := 0
  apiVersion := some "2026-07-29.dahlia"
  kind := .checkoutCompleted
  object := {
    id := none
    clientReferenceId := some (.text "org")
    customer := some (.text "customer")
    subscription := some (.text "subscription")
    status := none
    metadataOrgId := none }

/-- The event of the checkout is delivered. -/
def delivered : World :=
  { paid.withDb (webhook (fun _ _ => false) paid.now (fun _ => .error .malformedResponse) event
      paid.db).2 with deliveries := [(0, event)] }

section Runs

variable (textGt : String → String → Bool)

end Runs

end Checkout

end Billing

end Sotto
