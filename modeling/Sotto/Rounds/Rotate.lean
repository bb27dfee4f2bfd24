import Sotto.Rounds.Push

/-!
# The rounds of a rotation

A round of a rotation reads everything it rewraps from the server and sends one
request. What an accepted request was built from is `Rotated`: the data keys of the
rows of a snapshot under a freshly drawn vault key, and grants of that key to the
public keys of members.
-/

namespace Sotto

open Core Cli

/-- A list of members with the public keys of their users. -/
def MembersKnown (S : Setup) (members : List Api.MemberInfo) : Prop :=
  ∀ m ∈ members, ∀ publicKey, m.publicKey = some publicKey →
    publicKey = .valid (S.keypair m.userId).public

/-- The retained versions with their data keys, as a rotation reads them. -/
def historyOf (S : Setup) (s : Shared) : List (Ident × Int × Base64) :=
  (s.db.historyOf S.envId).map fun v => (v.1.1, v.1.2, Server.encode v.2.encDataKey)

/-- The active machine tokens with their public keys, as a rotation reads them. -/
def tokensOf (S : Setup) (s : Shared) : List Api.MachineTokenInfo :=
  (s.db.activeTokensOf S.envId).map fun t => ⟨t.1, Server.encode t.2.publicKey⟩

/-- A rotation that started from the draws of `l` was accepted at `s₇`. -/
structure Rotated (S : Setup) (d : Nat) (G : Setting Cmd.Reply Shared Device) (s : Shared)
    (l : Device) (s₁ s₂ s₇ : Shared) (revision : Int) (keySeed : Seed)
    (access : Server.ProjectAccess) (orgId : Ident) (rotation : Server.Rotation) (v : Int)
    (l₇ : Device) : Prop where
  fetched : ∃ l₀ l₁, l.Still l₀ ∧ Fetched S d G s l₀ s₁ s₂ revision l₁ ∧ l₁.Still l₇
  fresh : keySeed.owner = d + 1 ∧ l.draws ≤ keySeed.draw ∧ keySeed.draw < l₇.draws
  request : ∃ secretSeed grantSeed oldVault members revoke holders dataKeys grants req,
    MembersKnown S members ∧
    rewrapKeys secretSeed oldVault (Core.Vault.generateVaultKey keySeed) S.envId 0
      ((snapshotOf S revision s₂).secrets.map fun s => (s.id, s.version, s.encDataKey)) =
        .ok dataKeys ∧
    regrant grantSeed (Core.Vault.generateVaultKey keySeed) members revoke 0 holders = .ok grants ∧
    req.baseRevision = revision ∧ req.grants = grants ∧
    req.dataKeys = dataKeys.map (fun k => ⟨k.1, k.2.2⟩) ∧
    Server.decodeRotation (S.user d) req = .ok rotation
  user : access.userId = S.user d
  before : G.rely s₂ s₇
  inv₇ : G.inv s₇
  committed : Committed G (.rotate access S.envId orgId rotation) v s₇ l₇ l₇
  history : ∃ historySeed oldVault historyKeys req s₃, G.rely s₂ s₃ ∧ G.rely s₃ s₇ ∧
    rewrapKeys historySeed oldVault (Core.Vault.generateVaultKey keySeed) S.envId 0
      (historyOf S s₃) = .ok historyKeys ∧
    req.historyKeys = historyKeys.map (fun h => ⟨h.1, h.2.1, h.2.2⟩) ∧
    Server.decodeRotation (S.user d) req = .ok rotation
  tokens : ∃ tokenSeed machineGrants req s₃, G.rely s₂ s₃ ∧ G.rely s₃ s₇ ∧
    regrantTokens tokenSeed (Core.Vault.generateVaultKey keySeed) 0 (tokensOf S s₃) =
      .ok machineGrants ∧
    req.machineGrants = machineGrants ∧ Server.decodeRotation (S.user d) req = .ok rotation

/-- The shared state after a rotation. -/
abbrev afterRotation (S : Setup) (s₇ : Shared) (access : Server.ProjectAccess) (orgId : Ident)
    (rotation : Server.Rotation) : Shared :=
  s₇.after (.rotate access S.envId orgId rotation)

namespace Follows

variable {S : Setup} {d : Nat} {G : Setting Cmd.Reply Shared Device} {s : Shared} {l : Device}
  {grant : Bytes}

theorem membersKnown_selectMembers {db : Server.Db} (L : Linked S db) (orgId : Ident) :
    ∀ rows, ((Server.Stmt.selectMembers orgId).exec db).1 = .ok rows →
      MembersKnown S (rows.map fun r => ⟨r.1, r.2.map Server.encode⟩) := by
  intro rows hrows m hm publicKey hkey
  obtain rfl := Except.ok.inj hrows
  simp only [List.map_map, List.mem_map, Function.comp_def] at hm
  obtain ⟨row, -, rfl⟩ := hm
  simp only [Option.map_map, Option.map_eq_some_iff, Option.bind_eq_some_iff] at hkey
  obtain ⟨account, ⟨user, huser, haccount⟩, rfl⟩ := hkey
  obtain rfl : user = some account := haccount
  simp only [Function.comp_def, Server.encode, L.accounts _ _ huser]

theorem ensures_listMembers (F : Follows S d G) {orgId : Ident}
    {Q : List Api.MemberInfo → Shared → Device → Prop} {E : Cli.Error → Shared → Device → Prop}
    (hQ : ∀ members s' l', MembersKnown S members → G.rely s s' → G.inv s' → l.Still l' →
      Q members s' l')
    (hE : ∀ e s' l', G.rely s s' → G.inv s' → l.Still l' → E e s' l') :
    Ensures G ((S.api d).listMembers orgId) Q E s l := by
  refine ensures_http (F.serves_request ?_ ?_)
  · intro m s' hs' hi'
    exact hE _ s' l hs' hi' (Device.Still.refl l)
  intro s₀ hs₀ _
  refine Setting.wpE_bind (F.serves_calm (by exact rfl) ?_ ?_)
  swap
  · intro e s₁ s' l₁ _ hs₁ _ hl₁ hs' _ e' t _ ht hit
    exact hE e' t l₁ (G.rely_trans hs₀ (G.rely_trans hs₁ (G.rely_trans hs' ht))) hit hl₁
  intro _ s₁ s₁' l₁ _ hs₁ _ hl₁ hs₁' _
  have h₀₁ : G.rely s s₁' := G.rely_trans hs₀ (G.rely_trans hs₁ hs₁')
  refine Setting.wpE_bind (F.serves_calm (by exact rfl) ?_ ?_)
  swap
  · intro e s₂ s' l₂ _ hs₂ _ hl₂ hs' _ e' t _ ht hit
    exact hE e' t l₂ (G.rely_trans h₀₁ (G.rely_trans hs₂ (G.rely_trans hs' ht))) hit
      (hl₁.trans hl₂)
  intro rows s₂ s₂' l₂ hrows hs₂ hi₂ hl₂ hs₂' _
  have h₀₂ : G.rely s s₂' := G.rely_trans h₀₁ (G.rely_trans hs₂ hs₂')
  refine Setting.wpE_pure ?_
  intro s₃ hs₃ _
  refine ⟨?_, ?_⟩
  · intro t ht hit
    exact hQ _ t l₂ (membersKnown_selectMembers (F.linked hi₂) orgId rows hrows)
      (G.rely_trans h₀₂ (G.rely_trans hs₃ ht)) hit (hl₁.trans hl₂)
  · intro m t ht hit
    exact hE _ t l₂ (G.rely_trans h₀₂ (G.rely_trans hs₃ ht)) hit (hl₁.trans hl₂)

theorem ensures_listHistory (F : Follows S d G)
    {Q : List Api.HistoryRow → Shared → Device → Prop} {E : Cli.Error → Shared → Device → Prop}
    (hQ : ∀ history s₃ s' l', history.map (fun h => (h.secretId, h.version, h.encDataKey)) =
      historyOf S s₃ → G.rely s s₃ → G.rely s₃ s' → G.inv s' → l.Still l' → Q history s' l')
    (hE : ∀ e s' l', G.rely s s' → G.inv s' → l.Still l' → E e s' l') :
    Ensures G ((S.api d).listHistory S.envId) Q E s l := by
  refine ensures_http (F.serves_request ?_ ?_)
  · intro m s' hs' hi'
    exact hE _ s' l hs' hi' (Device.Still.refl l)
  intro s₀ hs₀ _
  refine Setting.wpE_bind (F.serves_calm (by exact rfl) ?_ ?_)
  swap
  · intro e s₁ s' l₁ _ hs₁ _ hl₁ hs' _ e' t _ ht hit
    exact hE e' t l₁ (G.rely_trans hs₀ (G.rely_trans hs₁ (G.rely_trans hs' ht))) hit hl₁
  intro _ s₁ s₁' l₁ _ hs₁ _ hl₁ hs₁' _
  have h₀₁ : G.rely s s₁' := G.rely_trans hs₀ (G.rely_trans hs₁ hs₁')
  refine Setting.wpE_bind (F.serves_calm (by exact rfl) ?_ ?_)
  swap
  · intro e s₂ s' l₂ _ hs₂ _ hl₂ hs' _ e' t _ ht hit
    exact hE e' t l₂ (G.rely_trans h₀₁ (G.rely_trans hs₂ (G.rely_trans hs' ht))) hit
      (hl₁.trans hl₂)
  intro rows s₂ s₂' l₂ hrows hs₂ hi₂ hl₂ hs₂' _
  have h₀₂ : G.rely s s₂ := G.rely_trans h₀₁ hs₂
  obtain rfl := Except.ok.inj hrows
  refine Setting.wpE_pure ?_
  intro s₃ hs₃ _
  refine ⟨?_, ?_⟩
  · intro t ht hit
    refine hQ _ s₂ t l₂ ?_ h₀₂ (G.rely_trans hs₂' (G.rely_trans hs₃ ht)) hit (hl₁.trans hl₂)
    rw [historyOf, List.map_map]
    rfl
  · intro m t ht hit
    exact hE _ t l₂ (G.rely_trans h₀₂ (G.rely_trans hs₂' (G.rely_trans hs₃ ht))) hit
      (hl₁.trans hl₂)

theorem ensures_listMachineTokens (F : Follows S d G)
    {Q : List Api.MachineTokenInfo → Shared → Device → Prop}
    {E : Cli.Error → Shared → Device → Prop}
    (hQ : ∀ tokens s₃ s' l', tokens = tokensOf S s₃ → G.rely s s₃ → G.rely s₃ s' → G.inv s' →
      l.Still l' → Q tokens s' l')
    (hE : ∀ e s' l', G.rely s s' → G.inv s' → l.Still l' → E e s' l') :
    Ensures G ((S.api d).listMachineTokens S.envId) Q E s l := by
  refine ensures_http (F.serves_request ?_ ?_)
  · intro m s' hs' hi'
    exact hE _ s' l hs' hi' (Device.Still.refl l)
  intro s₀ hs₀ _
  refine Setting.wpE_bind (F.serves_calm (by exact rfl) ?_ ?_)
  swap
  · intro e s₁ s' l₁ _ hs₁ _ hl₁ hs' _ e' t _ ht hit
    exact hE e' t l₁ (G.rely_trans hs₀ (G.rely_trans hs₁ (G.rely_trans hs' ht))) hit hl₁
  intro _ s₁ s₁' l₁ _ hs₁ _ hl₁ hs₁' _
  have h₀₁ : G.rely s s₁' := G.rely_trans hs₀ (G.rely_trans hs₁ hs₁')
  refine Setting.wpE_bind (serves_require ?_ ?_)
  swap
  · intro s' _ hs' _ e' t _ ht hit
    exact hE e' t l₁ (G.rely_trans h₀₁ (G.rely_trans hs' ht)) hit hl₁
  intro s₂ _ hs₂ _
  have h₀₂ : G.rely s s₂ := G.rely_trans h₀₁ hs₂
  refine Setting.wpE_bind (F.serves_calm (by exact rfl) ?_ ?_)
  swap
  · intro e s₃ s' l₃ _ hs₃ _ hl₃ hs' _ e' t _ ht hit
    exact hE e' t l₃ (G.rely_trans h₀₂ (G.rely_trans hs₃ (G.rely_trans hs' ht))) hit
      (hl₁.trans hl₃)
  intro rows s₃ s₃' l₃ hrows hs₃ _ hl₃ hs₃' _
  have h₀₃ : G.rely s s₃ := G.rely_trans h₀₂ hs₃
  obtain rfl := Except.ok.inj hrows
  refine Setting.wpE_pure ?_
  intro s₄ hs₄ _
  refine ⟨?_, ?_⟩
  · intro t ht hit
    exact hQ _ s₃ t l₃ rfl h₀₃ (G.rely_trans hs₃' (G.rely_trans hs₄ ht)) hit (hl₁.trans hl₃)
  · intro m t ht hit
    exact hE _ t l₃ (G.rely_trans h₀₃ (G.rely_trans hs₃' (G.rely_trans hs₄ ht))) hit
      (hl₁.trans hl₃)

/-- The rounds of a rotation, under an invariant that reading and rotating keep. -/
theorem ensures_rotateLoop (F : Follows S d G) {I : Shared → Device → Prop}
    {revoke : Option Ident} {members : List Api.MemberInfo}
    (hmembers : MembersKnown S members)
    (hstable : ∀ {s l s' l'}, I s l → G.inv s' → Looked G s l s' l' → I s' l')
    (hrotate : ∀ {s l s₁ s₂ s₇ revision keySeed access orgId rotation v l₇}, I s l →
      Rotated S d G s l s₁ s₂ s₇ revision keySeed access orgId rotation v l₇ →
      G.guar (.server (.rotate access S.envId orgId rotation)) s₇ l₇
          (afterRotation S s₇ access orgId rotation) ∧
        G.inv (afterRotation S s₇ access orgId rotation) ∧
        I (afterRotation S s₇ access orgId rotation) l₇)
    (attempts : Nat) (hI : I s l) :
    Ensures G (rotateLoop (S.api d) (S.keypair (S.user d)) S.envId revoke members attempts)
      (fun _ => I) (fun _ => I) s l := by
  induction attempts generalizing s l with
  | zero =>
      refine Setting.wpE_throw ?_
      intro s' hs' hi'
      exact hstable hI hi' (.refl hs' l)
  | succ attempts ih =>
      rw [rotateLoop]
      have hfail : ∀ (e : Cli.Error) s' l', G.inv s' → Looked G s l s' l' → I s' l' :=
        fun _ s' l' hi' hl' => hstable hI hi' hl'
      refine Setting.wpE_bind (F.ensures_getGrant ?_ ?_ ?_)
      rotate_left
      · intro s₀ s' l' hs₀ _ _ hs' _ hl'
        refine Setting.wpE_pure ?_
        intro t ht hit
        exact hstable hI hit (.of_still (G.rely_trans hs₀ (G.rely_trans hs' ht)) hl')
      · intro e s' l' hs' hi' hl'
        exact hfail e s' l' hi' (.of_still hs' hl')
      intro oldGrant s₀ s₀' l₀ hs₀ _ _ hs₀' _ hl₀
      refine Setting.wpE_bind (ensures_ofExcept ?_ ?_)
      swap
      · intro e s' he
        cases he
      intro oldGrant' t₁ _ ht₁ _
      refine Setting.wpE_bind (ensures_ofExcept ?_ ?_)
      swap
      · intro e s' _ hs' hi'
        exact hfail e s' l₀ hi'
          (.of_still (G.rely_trans hs₀ (G.rely_trans hs₀' (G.rely_trans ht₁ hs'))) hl₀)
      intro oldVault t₂ _ ht₂ _
      have h₀₂ : G.rely s t₂ := G.rely_trans hs₀ (G.rely_trans hs₀' (G.rely_trans ht₁ ht₂))
      refine Setting.wpE_bind (F.ensures_fresh ?_)
      intro t₃ ht₃ _
      refine Setting.wpE_bind (F.ensures_fresh ?_)
      intro t₄ ht₄ _
      refine Setting.wpE_bind (F.ensures_fresh ?_)
      intro t₅ ht₅ _
      refine Setting.wpE_bind (F.ensures_fresh ?_)
      intro t₆ ht₆ _
      refine Setting.wpE_bind (F.ensures_fresh ?_)
      intro t₇ ht₇ _
      have h₀₇ : G.rely s t₇ := G.rely_trans h₀₂ (G.rely_trans ht₃ (G.rely_trans ht₄
        (G.rely_trans ht₅ (G.rely_trans ht₆ ht₇))))
      have hdraws : l.Still { l₀ with draws := l₀.draws + 1 + 1 + 1 + 1 + 1 } :=
        ⟨⟨⟨hl₀.edits, hl₀.current, hl₀.last, by have := hl₀.draws; simp only; omega⟩, hl₀.store,
          hl₀.adopted⟩, hl₀.seen⟩
      refine Setting.wpE_bind (F.ensures_fullSnapshot ?_ ?_)
      swap
      · intro e s' l' hl' hi'
        exact hfail e s' l' hi' ((hl'.trans_left h₀₇).still_left hdraws)
      intro revision s₁ s₂ s₂' l₁ hfetch hs₂' _
      have hfetch : Fetched S d G s _ s₁ s₂ revision l₁ :=
        { hfetch with before := G.rely_trans h₀₇ hfetch.before }
      have hread : ∀ {s' l'}, G.rely s₂ s' → l₁.Still l' → Looked G s l s' l' :=
        fun hs' hl' => (Looked.of_fetched hfetch hs' hl').still_left hdraws
      refine Setting.wpE_bind (ensures_ofExcept ?_ ?_)
      swap
      · intro e s' _ hs' hi'
        exact hfail e s' l₁ hi' (hread (G.rely_trans hs₂' hs') (Device.Still.refl l₁))
      intro dataKeys u₁ hdata hu₁ _
      have h₂₁ : G.rely s₂ u₁ := G.rely_trans hs₂' hu₁
      refine Setting.wpE_bind (F.ensures_listHistory ?_ ?_)
      swap
      · intro e s' l' hs' hi' hl'
        exact hfail e s' l' hi' (hread (G.rely_trans h₂₁ hs') hl')
      intro history s₃ u₂ m₂ hhistory hs₃ hs₃' _ hm₂
      have hu₂ : G.rely u₁ u₂ := G.rely_trans hs₃ hs₃'
      refine Setting.wpE_bind (ensures_ofExcept ?_ ?_)
      swap
      · intro e s' _ hs' hi'
        exact hfail e s' m₂ hi' (hread (G.rely_trans h₂₁ (G.rely_trans hu₂ hs')) hm₂)
      intro historyKeys u₃ hrewrap hu₃ _
      have h₂₃ : G.rely s₂ u₃ := G.rely_trans h₂₁ (G.rely_trans hu₂ hu₃)
      refine Setting.wpE_bind (F.ensures_calm (uses_http calm_listGrantHolders) ?_ ?_)
      swap
      · intro e s' l' hs' hi' hl'
        exact hfail e s' l' hi' (hread (G.rely_trans h₂₃ hs') (hm₂.trans hl'))
      intro holders u₄ m₄ hu₄ _ hm₄
      have hm : l₁.Still m₄ := hm₂.trans hm₄
      refine Setting.wpE_bind (ensures_ofExcept ?_ ?_)
      swap
      · intro e s' _ hs' hi'
        exact hfail e s' m₄ hi' (hread (G.rely_trans h₂₃ (G.rely_trans hu₄ hs')) hm)
      intro grants u₅ hgrants hu₅ _
      have h₂₅ : G.rely s₂ u₅ := G.rely_trans h₂₃ (G.rely_trans hu₄ hu₅)
      refine Setting.wpE_bind (F.ensures_listMachineTokens ?_ ?_)
      swap
      · intro e s' l' hs' hi' hl'
        exact hfail e s' l' hi' (hread (G.rely_trans h₂₅ hs') (hm.trans hl'))
      intro tokens s₄ u₆ m₆ htokens hs₄ hs₄' _ hm₆
      have hu₆ : G.rely u₅ u₆ := G.rely_trans hs₄ hs₄'
      have hm' : l₁.Still m₆ := hm.trans hm₆
      refine Setting.wpE_bind (ensures_ofExcept ?_ ?_)
      swap
      · intro e s' _ hs' hi'
        exact hfail e s' m₆ hi' (hread (G.rely_trans h₂₅ (G.rely_trans hu₆ hs')) hm')
      intro machineGrants u₇ hregrant hu₇ _
      have h₂₇ : G.rely s₂ u₇ := G.rely_trans h₂₅ (G.rely_trans hu₆ hu₇)
      refine Setting.wpE_bind (Setting.wpE_lift_run (F.ensures_rotate ?_ ?_))
      · intro access orgId rotation v s₇ l₇ hs₇ hi₇ hl₇ huser hrotation hcommit
        have hstill : l₁.Still l₇ := hm'.trans hl₇
        have hrotated : Rotated S d G s l s₁ s₂ s₇ revision ⟨d + 1, l₀.draws⟩ access orgId rotation
            v l₇ := by
          refine ⟨⟨_, l₁, hdraws, hfetch, hstill⟩, ⟨rfl, hl₀.draws, ?_⟩, ?_, huser,
            G.rely_trans h₂₇ hs₇, hi₇, hcommit, ?_, ?_⟩
          · have h₁ := hfetch.same.draws
            have h₂ := hstill.draws
            simp only at h₁ ⊢
            omega
          · exact ⟨_, _, oldVault, members, revoke, holders, dataKeys, grants, _, hmembers, hdata,
              hgrants, rfl, rfl, rfl, hrotation⟩
          · rw [hhistory] at hrewrap
            refine ⟨_, oldVault, historyKeys, _, s₃, G.rely_trans h₂₁ hs₃, ?_, hrewrap, rfl,
              hrotation⟩
            exact G.rely_trans hs₃' (G.rely_trans hu₃ (G.rely_trans hu₄ (G.rely_trans hu₅
              (G.rely_trans hu₆ (G.rely_trans hu₇ hs₇)))))
          · rw [htokens] at hregrant
            exact ⟨_, machineGrants, _, s₄, G.rely_trans h₂₅ hs₄,
              G.rely_trans hs₄' (G.rely_trans hu₇ hs₇), hregrant, rfl, hrotation⟩
        obtain ⟨hg, hi, hIr⟩ := hrotate hI hrotated
        refine ⟨hg, hi, ?_⟩
        intro s₈ hs₈ _
        refine ⟨?_, ?_⟩
        · refine Setting.wpE_pure ?_
          intro s' hs' hi'
          exact hstable hIr hi' (.refl (G.rely_trans hs₈ hs') l₇)
        · intro m
          refine Setting.wpE_throw ?_
          intro s' hs' hi'
          exact hstable hIr hi' (.refl (G.rely_trans hs₈ hs') l₇)
      · intro e s₈ l₈ hs₈ hi₈ hl₈
        have hI₈ : I s₈ l₈ :=
          hstable hI hi₈ (hread (G.rely_trans h₂₇ hs₈) (hm'.trans hl₈))
        cases e with
        | conflict m => exact ih hI₈
        | _ =>
            refine Setting.wpE_throw ?_
            intro s' hs' hi'
            exact hstable hI₈ hi' (.refl hs' l₈)

theorem ensures_rotateEnv (F : Follows S d G) {I : Shared → Device → Prop} {orgId : Ident}
    {revoke : Option Ident}
    (hstable : ∀ {s l s' l'}, I s l → G.inv s' → Looked G s l s' l' → I s' l')
    (hrotate : ∀ {s l s₁ s₂ s₇ revision keySeed access orgId rotation v l₇}, I s l →
      Rotated S d G s l s₁ s₂ s₇ revision keySeed access orgId rotation v l₇ →
      G.guar (.server (.rotate access S.envId orgId rotation)) s₇ l₇
          (afterRotation S s₇ access orgId rotation) ∧
        G.inv (afterRotation S s₇ access orgId rotation) ∧
        I (afterRotation S s₇ access orgId rotation) l₇)
    (hI : I s l) :
    Ensures G (Cli.rotateEnv (S.api d) (S.keypair (S.user d)) orgId S.envId revoke)
      (fun _ => I) (fun _ => I) s l := by
  unfold Cli.rotateEnv
  refine Setting.wpE_bind (F.ensures_listMembers ?_ ?_)
  · intro members s' l' hmembers hs' hi' hl'
    exact F.ensures_rotateLoop hmembers hstable hrotate _ (hstable hI hi' (.of_still hs' hl'))
  · intro e s' l' hs' hi' hl'
    exact hstable hI hi' (.of_still hs' hl')

/-- A rotation of the active environment: the rounds, and then a pull. -/
theorem ensures_rotateActive (F : Follows S d G) {I : Shared → Device → Prop}
    {Q : Except Cli.Error Unit → Shared → Device → Prop}
    (hopen : ∀ {s l}, I s l → Opened S l.store grant)
    (hstable : ∀ {s l s' l'}, I s l → G.inv s' → Looked G s l s' l' → I s' l')
    (hrotate : ∀ {s l s₁ s₂ s₇ revision keySeed access orgId rotation v l₇}, S.orgId ≠ none →
      I s l → Rotated S d G s l s₁ s₂ s₇ revision keySeed access orgId rotation v l₇ →
      G.guar (.server (.rotate access S.envId orgId rotation)) s₇ l₇
          (afterRotation S s₇ access orgId rotation) ∧
        G.inv (afterRotation S s₇ access orgId rotation) ∧
        I (afterRotation S s₇ access orgId rotation) l₇)
    (hpull : ∀ {s l r s' l'}, I s l → G.inv s' → Pulled S d G grant s l r s' l' →
      Q (r.map fun _ => ()) s' l')
    (hfail : ∀ {e s l}, I s l → G.inv s → Q (.error e) s l) (hI : I s l) :
    Ensures G (Cli.rotateActive (S.api d) (S.keypair (S.user d)) S.config)
      (fun v => Q (.ok v)) (fun e => Q (.error e)) s l := by
  unfold Cli.rotateActive
  split
  · refine Setting.wpE_throw ?_
    intro s' hs' hi'
    exact hfail (hstable hI hi' (.refl hs' l)) hi'
  next orgId horg =>
    have horg : S.orgId = some orgId := horg
    refine Setting.wpE_bind (F.ensures_resolveEnv (hopen hI) ?_ ?_)
    swap
    · intro e s' hs' hi'
      exact hfail (hstable hI hi' (.refl hs' l)) hi'
    intro s₁ hs₁ hi₁
    have hI₁ : I s₁ l := hstable hI hi₁ (.refl hs₁ l)
    have horg : S.orgId ≠ none := by simp [horg]
    refine Setting.wpE_bind
      (Setting.wpE_mono (F.ensures_rotateEnv hstable (hrotate horg) hI₁) ?_ ?_)
    swap
    · intro e s' l' hi' hI'
      exact hfail hI' hi'
    intro result s₂ l₂ hi₂ hI₂
    cases result with
    | none =>
        refine Setting.wpE_throw ?_
        intro s' hs' hi'
        exact hfail (hstable hI₂ hi' (.refl hs' l₂)) hi'
    | some v =>
        refine Setting.wpE_bind (Setting.wpE_mono (F.ensures_pull (hopen hI₂)) ?_ ?_)
        · intro revision s₃ l₃ hi₃ hpulled
          refine Setting.wpE_pure ?_
          intro s' hs' hi'
          exact hpull hI₂ hi' (hpulled.trans_right hs')
        · intro e s₃ l₃ hi₃ hpulled
          exact hpull hI₂ hi₃ hpulled

end Follows

end Sotto
