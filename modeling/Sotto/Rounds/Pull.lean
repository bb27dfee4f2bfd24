import Sotto.Answers
import Sotto.Cli.Merge
import Sotto.Cli.Writes

/-!
# The rounds of a pull

What a pull can have done when it returns, relative to the states of the server it
read: nothing, a 304, the snapshot merged under the grant it holds, or the
snapshot applied under a new grant. A failure can stop it anywhere on the way, so
that only the first rows of the snapshot are applied.
-/

namespace Sotto

open Core Cli

/-- The store of a linked device: the environment under a grant, and no other. -/
structure Opened (S : Setup) (store : Store) (grant : Bytes) : Prop where
  environment : store.environments.lookup S.envId = some ⟨S.projectId, S.envName, grant⟩
  only : ∀ e env, store.environments.lookup e = some env → e = S.envId

namespace Opened

variable {S : Setup} {store store' : Store} {grant : Bytes}

theorem of_environments (h : Opened S store grant) (he : store'.environments = store.environments) :
    Opened S store' grant :=
  ⟨by rw [he]; exact h.environment, by rw [he]; exact h.only⟩

theorem mergeAll {force : Bool} {rows : List (Ident × Server.Secret)} (h : Opened S store grant) :
    Opened S (Store.mergeAll S.envId force rows store) grant :=
  h.of_environments Store.sameFrame_mergeAll.environments

theorem withRevision {revision : Int} (h : Opened S store grant) :
    Opened S (store.withRevision S.envId revision) grant :=
  h.of_environments rfl

theorem withGrant {grant' : Bytes} (h : Opened S store grant) :
    Opened S (store.withGrant S.envId grant') grant' := by
  constructor
  · simp [Store.withGrant, h.environment]
  · intro e env he
    simp only [Store.withGrant, Table.lookup_modify] at he
    split at he
    · assumption
    · exact h.only e env he

theorem getEnvironment (h : Opened S store grant) :
    store.getEnvironment S.projectId S.envName =
      some (S.envId, ⟨S.projectId, S.envName, grant⟩) := by
  have hmem : (S.envId, (⟨S.projectId, S.envName, grant⟩ : Environment)) ∈
      store.environments.rows := Table.mem_rows.2 h.environment
  unfold Store.getEnvironment
  cases hfind : store.environments.rows.find? fun e =>
      decide (e.2.projectId = S.projectId ∧ e.2.name = S.envName) with
  | none =>
      have := List.find?_eq_none.1 hfind _ hmem
      simp at this
  | some found =>
      obtain ⟨e, env⟩ := found
      have hlookup := Table.mem_rows.1 (List.mem_of_find?_eq_some hfind)
      obtain rfl := h.only e env hlookup
      rw [h.environment] at hlookup
      cases hlookup
      rfl

end Opened

/-- The device after it stored another grant. -/
def Device.adopt (S : Setup) (grant : Bytes) (l : Device) : Device :=
  { l with store := l.store.withGrant S.envId grant, adopted := true }

/-- The device after it applied rows. -/
def Device.merge (S : Setup) (force : Bool) (rows : List (Ident × Server.Secret)) (l : Device) :
    Device :=
  { l with store := Store.mergeAll S.envId force rows l.store }

/-- A row after rows were applied is the one before, or a copy of one of them. -/
theorem Device.lookup_merge_cases {S : Setup} {force : Bool} {rows : List (Ident × Server.Secret)}
    {l : Device} {id : Ident} {row : SecretRow}
    (h : (l.merge S force rows).store.secrets.lookup id = some row) :
    l.store.secrets.lookup id = some row ∨ ∃ r, (id, r) ∈ rows ∧ row = localRow S.envId r := by
  have hcases : (Store.mergeAll S.envId force rows l.store).secrets.lookup id =
      l.store.secrets.lookup id ∨ ∃ r, (id, r) ∈ rows ∧
        (Store.mergeAll S.envId force rows l.store).secrets.lookup id =
          some (localRow S.envId r) := Store.lookup_mergeAll_cases id
  rcases hcases with hkeep | ⟨r, hr, hcopy⟩
  · rw [Device.merge, hkeep] at h
    exact Or.inl h
  · rw [Device.merge, hcopy] at h
    exact Or.inr ⟨r, hr, (Option.some.inj h).symm⟩

/-- The device after it recorded a revision. -/
def Device.synced (S : Setup) (revision : Int) (l : Device) : Device :=
  { l with store := l.store.withRevision S.envId revision }

section Outcomes

variable (S : Setup) (d : Nat) (G : Setting Cmd.Reply Shared Device)

/-- Between two states the server answered that the grant is the one held, or that there
is none; without an organisation it is not asked. -/
def KeptGrant (grant : Bytes) (s s' : Shared) : Prop :=
  (S.orgId = none ∧ G.rely s s') ∨
    ∃ s₃, G.rely s s₃ ∧ G.inv s₃ ∧ (grantAt S d s₃.db = some grant ∨ NoGrant S d s₃.db) ∧
      G.rely s₃ s'

/-- Between two states the server answered with another grant, and the device stored it. -/
structure Adopted (grant : Bytes) (s : Shared) (l : Device) (s₃ : Shared) (grant' : Bytes)
    (s' : Shared) (l' : Device) : Prop where
  org : S.orgId ≠ none
  before : G.rely s s₃
  inv₃ : G.inv s₃
  current : grantAt S d s₃.db = some grant'
  other : grant' ≠ grant
  exec : ∃ s₄ l₄, l.Still l₄ ∧ G.inv s₄ ∧ G.rely s₃ s₄ ∧
    G.exec (.store (.updateEnvVaultKey S.envId grant')) s₄ l₄ (.ok ()) s₄ (l₄.adopt S grant') ∧
    l' = l₄.adopt S grant'
  after : G.rely s₃ s'

/-- The rows of a snapshot were applied, in part or as a whole with its revision. -/
inductive Applied (force : Bool) (rows : List (Ident × Server.Secret)) (revision : Int)
    (l : Device) : Except Cli.Error Int → Device → Prop
  | part (e : Cli.Error) (n : Nat) :
      Applied force rows revision l (.error e) (l.merge S force (rows.take n))
  | whole : Applied force rows revision l (.ok revision) ((l.merge S force rows).synced S revision)

/-- What a pull that started with `grant` can have done. -/
inductive Pulled (grant : Bytes) (s : Shared) (l : Device) :
    Except Cli.Error Int → Shared → Device → Prop
  | stopped {e s' l'} : Looked G s l s' l' → Pulled grant s l (.error e) s' l'
  | current {s₁ s' l'} : G.rely s s₁ → G.inv s₁ →
      RevisionAt S s₁ (l.store.syncedRevision S.envId) → G.rely s₁ s' → l.Still l' →
      Pulled grant s l (.ok (l.store.syncedRevision S.envId)) s' l'
  | kept {s₁ s₂ revision l₁ r s' l'} : l.store.syncedRevision S.envId ≠ revision →
      Fetched S d G s l s₁ s₂ revision l₁ → KeptGrant S d G grant s₂ s' →
      Applied S false (s₂.db.secretsOf S.envId) revision l₁ r l' → Pulled grant s l r s' l'
  | adopted {s₁ s₂ s₃ revision l₁ grant' l₂ r s' l'} : l.store.syncedRevision S.envId ≠ revision →
      Fetched S d G s l s₁ s₂ revision l₁ → Adopted S d G grant s₂ l₁ s₃ grant' s' l₂ →
      Applied S true (s₂.db.secretsOf S.envId) revision l₂ r l' → Pulled grant s l r s' l'

end Outcomes

section Intervals

variable {S : Setup} {d : Nat} {G : Setting Cmd.Reply Shared Device} {s s' s'' : Shared}
  {grant : Bytes}

theorem KeptGrant.trans_left (h : KeptGrant S d G grant s' s'') (hs : G.rely s s') :
    KeptGrant S d G grant s s'' := by
  rcases h with ⟨horg, h⟩ | ⟨s₃, h₃, hi₃, hgrant, h⟩
  · exact Or.inl ⟨horg, G.rely_trans hs h⟩
  · exact Or.inr ⟨s₃, G.rely_trans hs h₃, hi₃, hgrant, h⟩

theorem KeptGrant.trans_right (h : KeptGrant S d G grant s s') (hs : G.rely s' s'') :
    KeptGrant S d G grant s s'' := by
  rcases h with ⟨horg, h⟩ | ⟨s₃, h₃, hi₃, hgrant, h⟩
  · exact Or.inl ⟨horg, G.rely_trans h hs⟩
  · exact Or.inr ⟨s₃, h₃, hi₃, hgrant, G.rely_trans h hs⟩

theorem Adopted.trans_left {l l' : Device} {s₃ : Shared} {grant' : Bytes}
    (h : Adopted S d G grant s' l s₃ grant' s'' l') (hs : G.rely s s') :
    Adopted S d G grant s l s₃ grant' s'' l' :=
  { h with before := G.rely_trans hs h.before }

theorem Adopted.trans_right {l l' : Device} {s₃ : Shared} {grant' : Bytes}
    (h : Adopted S d G grant s l s₃ grant' s' l') (hs : G.rely s' s'') :
    Adopted S d G grant s l s₃ grant' s'' l' :=
  { h with after := G.rely_trans h.after hs }

theorem Pulled.trans_right {l l' : Device} {r : Except Cli.Error Int}
    (h : Pulled S d G grant s l r s' l') (hs : G.rely s' s'') :
    Pulled S d G grant s l r s'' l' := by
  cases h with
  | stopped hl => exact .stopped (hl.trans_right hs)
  | current h₁ hi₁ hrev h hl => exact .current h₁ hi₁ hrev (G.rely_trans h hs) hl
  | kept hne hfetch hkept happly => exact .kept hne hfetch (hkept.trans_right hs) happly
  | adopted hne hfetch hadopt happly => exact .adopted hne hfetch (hadopt.trans_right hs) happly

end Intervals

namespace Follows

variable {S : Setup} {d : Nat} {G : Setting Cmd.Reply Shared Device} {s : Shared} {l : Device}
  {grant : Bytes}

theorem ensures_resolveEnv (F : Follows S d G) (ho : Opened S l.store grant)
    {Q : Ident × Environment → Shared → Device → Prop} {E : Cli.Error → Shared → Device → Prop}
    (hQ : ∀ s', G.rely s s' → G.inv s' → Q (S.envId, ⟨S.projectId, S.envName, grant⟩) s' l)
    (hE : ∀ e s', G.rely s s' → G.inv s' → E e s' l) :
    Ensures G (resolveEnv S.config) Q E s l := by
  unfold resolveEnv
  refine Setting.wpE_bind (F.ensures_read rfl ?_ fun m s' => hE _ s')
  intro v s₁ hv hs₁ _
  obtain rfl : l.store.getEnvironment S.projectId S.envName = v := Except.ok.inj hv
  rw [ho.getEnvironment]
  refine Setting.wpE_pure ?_
  intro s' hs' hi'
  exact hQ s' (G.rely_trans hs₁ hs') hi'

/-- Applying the rows of a snapshot: all of them, or the first few before a failure. -/
theorem ensures_applySnapshot (F : Follows S d G) {force : Bool}
    {rows : List (Ident × Server.Secret)} (ho : Opened S l.store grant)
    {Q : Unit → Shared → Device → Prop} {E : Cli.Error → Shared → Device → Prop}
    (hQ : ∀ s', G.rely s s' → G.inv s' → Q () s' (l.merge S force rows))
    (hE : ∀ e n s', G.rely s s' → G.inv s' → E e s' (l.merge S force (rows.take n))) :
    Ensures G (applySnapshot S.envId force (rows.map Server.secretView)) Q E s l := by
  induction rows generalizing s l with
  | nil => exact Setting.wpE_pure fun s' hs hi => hQ s' hs hi
  | cons row rows ih =>
      rw [List.map_cons, applySnapshot]
      refine Setting.wpE_bind (F.ensures_read rfl ?_ fun m s' => hE _ 0 s')
      intro found s₁ hfound hs₁ hi₁
      obtain rfl : l.store.findSecret S.envId row.1 = found := Except.ok.inj hfound
      have hrest : ∀ s₂, G.rely s s₂ → G.inv s₂ →
          Ensures G (applySnapshot S.envId force (rows.map Server.secretView)) Q E s₂
            (l.merge S force [row]) := by
        intro s₂ hs₂ _
        refine ih ho.mergeAll ?_ ?_
        · intro s' hs' hi'
          exact hQ s' (G.rely_trans hs₂ hs') hi'
        · intro e n s' hs' hi'
          exact hE e (n + 1) s' (G.rely_trans hs₂ hs') hi'
      change Ensures G (if force || remoteWins (Server.secretView row)
        (l.store.findSecret S.envId row.1) then _ else _) Q E s₁ l
      split
      · next htakes =>
          have htakes : l.store.takes S.envId force row = true := htakes
          have hstore : l.store.putRemoteSecret S.envId (remoteSecret row) =
              .ok (l.store.mergeRow S.envId force row) := by
            rw [Store.putRemoteSecret, ho.environment, Store.mergeRow, if_pos htakes]
          refine Setting.wpE_bind (ensures_ofExcept ?_ ?_)
          swap
          · intro e s' he
            cases he
          rintro encName s₂ hn hs₂ hi₂
          cases hn
          refine Setting.wpE_bind (ensures_ofExcept ?_ ?_)
          swap
          · intro e s' he
            cases he
          rintro encValue s₃ hv hs₃ hi₃
          cases hv
          refine Setting.wpE_bind (ensures_ofExcept ?_ ?_)
          swap
          · intro e s' he
            cases he
          rintro encDataKey s₄ hk hs₄ hi₄
          cases hk
          have hs₀ : G.rely s s₄ :=
            G.rely_trans hs₁ (G.rely_trans hs₂ (G.rely_trans hs₃ hs₄))
          have hexec : ((StoreCmd.putRemoteSecret S.envId (remoteSecret row)).exec l.store) =
              (.ok (), l.store.mergeRow S.envId force row) := by
            simp only [StoreCmd.exec, hstore, StoreCmd.write]
          have hafter : afterStore (.putRemoteSecret S.envId (remoteSecret row)) l =
              l.merge S force [row] := by
            simp only [afterStore, hexec, Device.record, Device.merge, Store.mergeAll_cons,
              Store.mergeAll_nil]
          refine Setting.wpE_bind (F.ensures_store rfl ?_ ?_)
          · intro _ s₅ s₆ _ hs₅ _ _ hs₆ hi₆
            have := hrest s₆ (G.rely_trans hs₀ (G.rely_trans hs₅ hs₆)) hi₆
            rw [← hafter] at this
            exact this
          · intro e s' he hs' hi'
            exact hE e 0 s' (G.rely_trans hs₀ hs') hi'
      · next htakes =>
          have htakes : ¬ l.store.takes S.envId force row = true := htakes
          have hkeep : l.merge S force [row] = l := by
            simp only [Device.merge, Store.mergeAll_cons, Store.mergeAll_nil, Store.mergeRow,
              if_neg htakes]
          have := hrest s₁ hs₁ hi₁
          rw [hkeep] at this
          exact this

theorem ensures_setSyncedRevision (F : Follows S d G) {revision : Int}
    (ho : Opened S l.store grant)
    {Q : Unit → Shared → Device → Prop} {E : Cli.Error → Shared → Device → Prop}
    (hQ : ∀ s', G.rely s s' → G.inv s' → Q () s' (l.synced S revision))
    (hE : ∀ e s', G.rely s s' → G.inv s' → E e s' l) :
    Ensures G (Action.store (.setSyncedRevision S.envId revision)) Q E s l := by
  have hexec : ((StoreCmd.setSyncedRevision S.envId revision).exec l.store) =
      (.ok (), l.store.withRevision S.envId revision) := by
    simp only [StoreCmd.exec, Store.setSyncedRevision, ho.environment, StoreCmd.write,
      Store.withRevision]
  have hafter : afterStore (.setSyncedRevision S.envId revision) l = l.synced S revision := by
    simp only [afterStore, hexec, Device.record, Device.synced]
  refine F.ensures_store rfl ?_ ?_
  · intro _ s₁ s' _ hs₁ _ _ hs' hi'
    rw [hafter]
    exact hQ s' (G.rely_trans hs₁ hs') hi'
  · intro e s' _ hs' hi'
    exact hE e s' hs' hi'

/-- The adoption step: the grant is kept, or another one is stored. -/
theorem ensures_adoptIfOrg (F : Follows S d G) (ho : Opened S l.store grant)
    {Q : Bool → Shared → Device → Prop} {E : Cli.Error → Shared → Device → Prop}
    (hkept : ∀ s' l', KeptGrant S d G grant s s' → G.inv s' → l.Still l' → Q false s' l')
    (hadopted : ∀ s₃ grant' s' l', Adopted S d G grant s l s₃ grant' s' l' → G.inv s' →
      Q true s' l')
    (hE : ∀ e s' l', G.rely s s' → G.inv s' → l.Still l' → E e s' l') :
    Ensures G (adoptIfOrg (S.api d) S.config S.envId grant) Q E s l := by
  unfold adoptIfOrg
  cases horg : S.orgId with
  | none =>
      rw [if_neg (by simp [Setup.config, horg])]
      refine Setting.wpE_pure ?_
      intro s' hs' hi'
      exact hkept s' l (Or.inl ⟨horg, hs'⟩) hi' (Device.Still.refl l)
  | some orgId =>
      rw [if_pos (by simp [Setup.config, horg])]
      unfold adoptRotation
      refine Setting.wpE_bind (F.ensures_getGrant ?_ ?_ hE)
      · intro current s₃ s₃' l₃ hs₃ hi₃ hcurrent hs₃' hi₃' hl₃
        refine Setting.wpE_bind (ensures_ofExcept ?_ ?_)
        swap
        · intro e s' he
          cases he
        intro grant' s₄ hgrant' hs₄ hi₄
        obtain rfl : current = grant' := Except.ok.inj hgrant'
        split
        · next heq =>
            refine Setting.wpE_pure ?_
            intro s' hs' hi'
            refine hkept s' l₃ (Or.inr ⟨s₃, hs₃, hi₃, Or.inl (by rw [hcurrent, heq]), ?_⟩) hi' hl₃
            exact G.rely_trans hs₃' (G.rely_trans hs₄ hs')
        · next hne =>
            have hopen : Opened S l₃.store grant := by
              rw [hl₃.store]
              exact ho
            have hexec : ((StoreCmd.updateEnvVaultKey S.envId current).exec l₃.store) =
                (.ok (), l₃.store.withGrant S.envId current) := by
              simp only [StoreCmd.exec, Store.updateEnvVaultKey, hopen.environment,
                StoreCmd.write, Store.withGrant]
            have hafter : afterStore (.updateEnvVaultKey S.envId current) l₃ =
                l₃.adopt S current := by
              simp only [afterStore, hexec, Device.record, Device.adopt, Bool.or_true]
            refine Setting.wpE_bind (F.ensures_store rfl ?_ ?_)
            · intro _ s₅ s₆ _ hs₅ hi₅ hex hs₆ hi₆
              rw [hafter] at hex ⊢
              refine Setting.wpE_pure ?_
              intro s' hs' hi'
              have h₃₅ : G.rely s₃ s₅ := G.rely_trans hs₃' (G.rely_trans hs₄ hs₅)
              refine hadopted s₃ current s' _ ?_ hi'
              exact ⟨by simp [horg], hs₃, hi₃, hcurrent, hne, ⟨s₅, l₃, hl₃, hi₅, h₃₅, hex, rfl⟩,
                G.rely_trans h₃₅ (G.rely_trans hs₆ hs')⟩
            · intro e s' _ hs' hi'
              refine hE e s' l₃ ?_ hi' hl₃
              exact G.rely_trans hs₃ (G.rely_trans hs₃' (G.rely_trans hs₄ hs'))
      · intro s₃ s₃' l₃ hs₃ hi₃ hnone hs₃' hi₃' hl₃
        refine Setting.wpE_pure ?_
        intro s' hs' hi'
        exact hkept s' l₃ (Or.inr ⟨s₃, hs₃, hi₃, Or.inr hnone, G.rely_trans hs₃' hs'⟩) hi' hl₃

/-- Applying a snapshot and recording its revision. -/
theorem ensures_applied (F : Follows S d G) {force : Bool} {s₂ : Shared} {revision : Int}
    (ho : Opened S l.store grant)
    {Q : Except Cli.Error Int → Shared → Device → Prop}
    (hQ : ∀ r s' l', G.rely s s' → G.inv s' →
      Applied S force (s₂.db.secretsOf S.envId) revision l r l' → Q r s' l') :
    Ensures G (do
        applySnapshot S.envId force (snapshotOf S revision s₂).secrets
        Action.store (.setSyncedRevision S.envId (snapshotOf S revision s₂).revision)
        return (snapshotOf S revision s₂).revision)
      (fun v => Q (.ok v)) (fun e => Q (.error e)) s l := by
  refine Setting.wpE_bind (F.ensures_applySnapshot ho ?_ ?_)
  · intro s₃ hs₃ _
    refine Setting.wpE_bind (F.ensures_setSyncedRevision (ho.mergeAll) ?_ ?_)
    · intro s₄ hs₄ _
      refine Setting.wpE_pure ?_
      intro s' hs' hi'
      exact hQ _ s' _ (G.rely_trans hs₃ (G.rely_trans hs₄ hs')) hi' .whole
    · intro e s' hs' hi'
      refine hQ _ s' _ (G.rely_trans hs₃ hs') hi' ?_
      have happly : Applied S force (s₂.db.secretsOf S.envId) revision l (.error e)
          (l.merge S force ((s₂.db.secretsOf S.envId).take (s₂.db.secretsOf S.envId).length)) :=
        .part e _
      rwa [List.take_length] at happly
  · intro e n s' hs' hi'
    exact hQ _ s' _ hs' hi' (.part e n)

/-- A pull does what `Pulled` says. -/
theorem ensures_pull (F : Follows S d G) (ho : Opened S l.store grant) :
    Ensures G (Cli.pull (S.api d) S.config)
      (fun v => Pulled S d G grant s l (.ok v)) (fun e => Pulled S d G grant s l (.error e)) s l := by
  unfold Cli.pull
  refine Setting.wpE_bind (F.ensures_resolveEnv ho ?_ ?_)
  swap
  · intro e s' hs' _
    exact .stopped (.of_still hs' (Device.Still.refl l))
  intro s₀ hs₀ _
  refine Setting.wpE_bind (F.ensures_read rfl ?_ ?_)
  swap
  · intro m s' hs' _
    exact .stopped (.of_still (G.rely_trans hs₀ hs') (Device.Still.refl l))
  intro base s₁ hbase hs₁ _
  obtain rfl : l.store.syncedRevision S.envId = base := Except.ok.inj hbase
  have hs : G.rely s s₁ := G.rely_trans hs₀ hs₁
  refine Setting.wpE_bind (F.ensures_snapshot ?_ ?_ ?_)
  · intro revision t s' l' hmatch ht hit hrev hs' hi' hl
    obtain rfl : l.store.syncedRevision S.envId = revision := by simpa using hmatch
    refine Setting.wpE_pure ?_
    intro s'' hs'' _
    exact .current (G.rely_trans hs ht) hit hrev (G.rely_trans hs' hs'') hl
  · intro revision t₁ t₂ t l₁ hmatch hfetch ht hit
    have hne : l.store.syncedRevision S.envId ≠ revision := by simpa using hmatch
    have hfetch : Fetched S d G s l t₁ t₂ revision l₁ :=
      { hfetch with before := G.rely_trans hs hfetch.before }
    have hopen : Opened S l₁.store grant := by
      rw [hfetch.same.store]
      exact ho
    refine Setting.wpE_bind (F.ensures_adoptIfOrg hopen ?_ ?_ ?_)
    · intro s₃ l₃ hkept hi₃ hl₃
      have hopen₃ : Opened S l₃.store grant := by
        rw [hl₃.store]
        exact hopen
      refine F.ensures_applied hopen₃ ?_
      intro r s' l' hs' _ happly
      exact .kept hne (hfetch.still hl₃) ((hkept.trans_left ht).trans_right hs') happly
    · intro s₃ grant' s₄ l₄ hadopt hi₄
      have hopen₄ : Opened S l₄.store grant' := by
        obtain ⟨_, l₀, hl₀, -, -, -, rfl⟩ := hadopt.exec
        have hopen₀ : Opened S l₀.store grant := by
          rw [hl₀.store]
          exact hopen
        exact hopen₀.withGrant
      refine F.ensures_applied hopen₄ ?_
      intro r s' l' hs' _ happly
      exact .adopted hne hfetch ((hadopt.trans_left ht).trans_right hs') happly
    · intro e s' l' hs' _ hl'
      exact .stopped (.of_fetched hfetch (G.rely_trans ht hs') hl')
  · intro e s' l' hl' _
    exact .stopped (hl'.trans_left hs)

end Follows

end Sotto
