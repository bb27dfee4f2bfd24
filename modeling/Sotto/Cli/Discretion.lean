import Sotto.Cli.Guarded
import Sotto.Cli.Sync

/-!
# What the sync engine sends is guarded

Pull, push and rotation open grants and data keys with the user's keys, and send what they seal
again. While the answers that they get are guarded, so is every request that they send and every
row that they store.
-/

namespace Sotto

namespace Cli

open Core Api Prog

variable {known : Set Bytes} {α : Type} {Q : α → Prop} {api : HttpClient} {config : Config}
  {envId : Ident}

/-! ### Commands -/

theorem keeps_fresh : KeepsE (calls known) (fun seed => seed.owner ≠ 0) Action.fresh :=
  KeepsE.lift (Prog.keeps_perform (K := calls known) (c := Call.fresh) trivial)

theorem keeps_store {c : StoreCmd} (h : c.Guarded known) :
    KeepsE (calls known) (c.GuardedReply known) (Action.store c) :=
  Prog.keeps_perform (K := calls known) (c := Call.store c) h

theorem keeps_http {r : Request} (h : r.Guarded known) :
    KeepsE (calls known) (r.GuardedResponse known) (Action.http r) :=
  Prog.keeps_perform (K := calls known) (c := Call.http r) h

theorem keeps_ofExcept {result : Except Cli.Error α} (h : IfOk Q result) :
    KeepsE (calls known) Q (Action.ofExcept result) :=
  KeepsE.mk_pure h

theorem keeps_attempt {action : Action α} (h : KeepsE (calls known) Q action) :
    KeepsE (calls known) (IfOk Q) action.attempt :=
  KeepsE.lift h

theorem ifOk_b64decode {value : Base64} {P : Bytes → Prop} (h : value.Holds P) :
    IfOk P (b64decode value) := by
  cases value with
  | valid bytes => exact ifOk_ok.2 h
  | malformed text => exact ifOk_error

theorem holds_b64encode {P : Bytes → Prop} {bytes : Bytes} (h : P bytes) :
    (b64encode bytes).Holds P := h

/-- The secrets of a snapshot are guarded. -/
def GuardedEntries (known : Set Bytes) (secrets : List SecretEntry) : Prop :=
  ∀ s ∈ secrets, s.encName.Holds (Core.Guarded known) ∧ s.encValue.Holds (Core.Guarded known) ∧
    s.encDataKey.Holds (Core.Guarded known)

/-! ### Pull -/

theorem keeps_resolveEnv :
    KeepsE (calls known) (fun e => GuardedGrant known e.2.encVaultKey) (resolveEnv config) := by
  refine KeepsE.bind (keeps_store trivial) fun found hfound => ?_
  cases found with
  | none => exact KeepsE.throw
  | some env => exact KeepsE.pure (hfound env rfl)

theorem keeps_applySnapshot {force : Bool} {secrets : List SecretEntry}
    (h : GuardedEntries known secrets) :
    KeepsE (calls known) (fun _ => True) (applySnapshot envId force secrets) := by
  induction secrets with
  | nil => exact KeepsE.pure trivial
  | cons remote rest ih =>
      have hrest := ih fun s hs => h s (List.mem_cons_of_mem _ hs)
      obtain ⟨hname, hvalue, hkey⟩ := h remote List.mem_cons_self
      rw [applySnapshot]
      refine KeepsE.bind (keeps_store trivial) fun found _ => ?_
      split
      · refine KeepsE.bind (keeps_ofExcept (ifOk_b64decode hname)) fun encName hname => ?_
        refine KeepsE.bind (keeps_ofExcept (ifOk_b64decode hvalue)) fun encValue hvalue => ?_
        refine KeepsE.bind (keeps_ofExcept (ifOk_b64decode hkey)) fun encDataKey hkey => ?_
        exact KeepsE.bind (keeps_store ⟨hname, hvalue, hkey⟩) fun _ _ => hrest
      · exact hrest

theorem keeps_getGrant_api :
    KeepsE (calls known) (fun found => ∀ grant ∈ found, grant.Holds (GuardedGrant known))
      (api.getGrant envId) :=
  keeps_http trivial

theorem keeps_adoptRotation {grant : Bytes} :
    KeepsE (calls known) (fun _ => True) (adoptRotation api envId grant) := by
  refine KeepsE.bind keeps_getGrant_api fun found hfound => ?_
  cases found with
  | none => exact KeepsE.pure trivial
  | some value =>
      refine KeepsE.bind (keeps_ofExcept (ifOk_b64decode (hfound value rfl))) fun grant' hgrant => ?_
      split
      · exact KeepsE.pure trivial
      · exact KeepsE.bind (keeps_store hgrant) fun _ _ => KeepsE.pure trivial

theorem keeps_adoptIfOrg {grant : Bytes} :
    KeepsE (calls known) (fun _ => True) (adoptIfOrg api config envId grant) := by
  unfold adoptIfOrg
  split
  · exact keeps_adoptRotation
  · exact KeepsE.pure trivial

theorem keeps_changedIfOrg {grant : Bytes} :
    KeepsE (calls known) (fun _ => True) (changedIfOrg api config envId grant) := by
  unfold changedIfOrg grantChanged
  split
  · refine KeepsE.bind keeps_getGrant_api fun found hfound => ?_
    cases found with
    | none => exact KeepsE.pure trivial
    | some value =>
        refine KeepsE.bind (keeps_ofExcept (ifOk_b64decode (hfound value rfl))) fun _ _ => ?_
        exact KeepsE.pure trivial
  · exact KeepsE.pure trivial

theorem keeps_pull : KeepsE (calls known) (fun _ => True) (pull api config) := by
  refine KeepsE.bind keeps_resolveEnv fun env _ => ?_
  refine KeepsE.bind (keeps_store trivial) fun base _ => ?_
  refine KeepsE.bind (keeps_http trivial) fun found hfound => ?_
  cases found with
  | none => exact KeepsE.pure trivial
  | some snapshot =>
      refine KeepsE.bind keeps_adoptIfOrg fun rotated _ => ?_
      refine KeepsE.bind (keeps_applySnapshot (hfound snapshot rfl)) fun _ _ => ?_
      exact KeepsE.bind (keeps_store trivial) fun _ _ => KeepsE.pure trivial

/-! ### Push -/

theorem guarded_changeOf {l : SyncSecret} {remote : Option SecretEntry} {change : SecretChange}
    (hl : GuardedSecret known l.encName l.encValue l.encDataKey)
    (h : changeOf l remote = some change) : change.Guarded known := by
  have hset : (setChange l).Guarded known := by
    constructor
    · rintro value ⟨⟩
      exact holds_b64encode hl.encName
    · rintro value ⟨⟩
      exact holds_b64encode hl.encValue
    · rintro value ⟨⟩
      exact holds_b64encode hl.encDataKey
  have hdelete : (SecretChange.delete l.id).Guarded known :=
    ⟨by rintro _ ⟨⟩, by rintro _ ⟨⟩, by rintro _ ⟨⟩⟩
  cases remote with
  | none =>
      rw [changeOf] at h
      split at h
      · cases h
      · cases h
        exact hset
  | some remote =>
      rw [changeOf] at h
      split at h
      · cases h
        exact hset
      · split at h
        · cases h
          exact hdelete
        · cases h

theorem keeps_diff {snapshot : Snapshot} :
    KeepsE (calls known) (fun changes => ∀ change ∈ changes, SecretChange.Guarded known change)
      (diff envId snapshot) := by
  refine KeepsE.bind (keeps_store trivial) fun locals hlocals => KeepsE.pure ?_
  intro change hchange
  obtain ⟨l, hl, heq⟩ := List.mem_filterMap.1 hchange
  exact guarded_changeOf (hlocals l hl) heq

theorem keeps_accountMaterial :
    KeepsE (calls known) (AccountKeys.Guarded known) accountMaterial := by
  refine KeepsE.bind (keeps_store trivial) fun keys hkeys => ?_
  cases keys with
  | none => exact KeepsE.throw
  | some keys => exact KeepsE.pure (hkeys keys rfl)

theorem keeps_ensureAccount : KeepsE (calls known) (fun _ => True) (ensureAccount api) := by
  refine KeepsE.bind keeps_accountMaterial fun keys hkeys => ?_
  refine KeepsE.bind (keeps_attempt (keeps_http ⟨hkeys.publicKey, hkeys.encPrivateKeys,
    hkeys.kdfSalt, hkeys.recoveryBlob⟩)) fun r _ => ?_
  split
  · exact KeepsE.pure trivial
  · exact KeepsE.pure trivial
  · exact KeepsE.throw

/-- The key of an organisation is sealed to its member, so it is kept from the observer. -/
theorem keeps_orgKey {keypair : Keypair} {orgId : Ident} :
    KeepsE (calls known) (fun found => ∀ key ∈ found, ¬ Core.Guarded known key)
      (orgKey api keypair orgId) := by
  refine KeepsE.bind (keeps_http trivial) fun orgs horgs => ?_
  split
  · exact KeepsE.pure fun key h => nomatch h
  · next org horg =>
      split
      · exact KeepsE.pure fun key h => nomatch h
      · next enc henc =>
          have hgrant := (horgs org (List.mem_of_find?_eq_some horg)).2 enc henc
          refine KeepsE.bind (keeps_ofExcept (ifOk_b64decode hgrant)) fun grant hgrant => ?_
          refine KeepsE.bind (Q := fun key => ¬ Core.Guarded known key)
            (keeps_ofExcept fun key hkey => ?_) fun key hkey => KeepsE.pure ?_
          · exact not_guarded_of_openVaultKey hgrant (Error.ofCore_eq_ok.1 hkey)
          · rintro key ⟨⟩
            exact hkey

theorem keeps_nameKey {master : Bytes} {orgId : Option Ident}
    (hmaster : ¬ Core.Guarded known master) :
    KeepsE (calls known) (fun key => ¬ Core.Guarded known key) (nameKey api master orgId) := by
  unfold nameKey
  cases orgId with
  | none => exact KeepsE.pure hmaster
  | some orgId =>
      have haccount : KeepsE (calls known) (fun _ => True) (accountKeypair master) :=
        KeepsE.bind keeps_accountMaterial fun _ _ => keeps_ofExcept fun _ _ => trivial
      refine KeepsE.bind (keeps_attempt haccount) fun r _ => ?_
      cases r with
      | error e => exact KeepsE.pure hmaster
      | ok keypair =>
          refine KeepsE.bind (keeps_attempt keeps_orgKey) fun r hr => ?_
          split
          · next key => exact KeepsE.pure (ifOk_ok.1 hr key rfl)
          · exact KeepsE.pure hmaster

theorem keeps_tolerateOrgForbidden {orgId : Option Ident} {create : Action Unit}
    (h : KeepsE (calls known) (fun _ => True) create) :
    KeepsE (calls known) (fun _ => True) (tolerateOrgForbidden orgId create) := by
  refine KeepsE.bind (keeps_attempt h) fun r _ => ?_
  split
  · split
    · exact KeepsE.pure trivial
    · exact KeepsE.throw
  · exact KeepsE.throw
  · exact KeepsE.pure trivial

/-- The names of the project and the environment are sealed under the name key. -/
theorem keeps_ensureProjectEnv {key : Bytes} {orgId : Option Ident} {projectId : Ident}
    {projectName : String} {env : Environment} (hkey : ¬ Core.Guarded known key)
    (henv : GuardedGrant known env.encVaultKey) :
    KeepsE (calls known) (fun _ => True)
      (ensureProjectEnv api key orgId projectId projectName envId env) := by
  have hname : ∀ nonce plaintext aad,
      (b64encode (Aead.seal nonce key plaintext aad)).Holds (Core.Guarded known) :=
    fun _ _ _ => holds_b64encode (guarded_seal hkey)
  refine KeepsE.bind keeps_fresh fun seed _ => ?_
  refine KeepsE.bind (keeps_tolerateOrgForbidden (keeps_http ?_)) fun _ _ => ?_
  · exact hname (seed, 0) (Vault.nameBytes projectName) (.projectName projectId)
  · refine keeps_tolerateOrgForbidden (keeps_http ⟨?_, ?_⟩)
    · exact hname (seed, 1) (Vault.nameBytes env.name) (.envName envId)
    · exact holds_b64encode henv

theorem keeps_fullSnapshot :
    KeepsE (calls known) (fun snapshot => GuardedEntries known snapshot.secrets)
      (fullSnapshot api envId) := by
  refine KeepsE.bind (keeps_http trivial) fun found hfound => ?_
  cases found with
  | none => exact KeepsE.throw
  | some snapshot => exact KeepsE.pure (hfound snapshot rfl)

theorem keeps_pushLoop {grant : Bytes} (attempts : Nat) :
    KeepsE (calls known) (fun _ => True) (pushLoop api config envId grant attempts) := by
  induction attempts with
  | zero => exact KeepsE.throw
  | succ attempts ih =>
      rw [pushLoop]
      refine KeepsE.bind keeps_fullSnapshot fun snapshot hsnapshot => ?_
      refine KeepsE.bind (keeps_applySnapshot hsnapshot) fun _ _ => ?_
      refine KeepsE.bind (keeps_store trivial) fun _ _ => ?_
      refine KeepsE.bind keeps_diff fun changes hchanges => ?_
      split
      · refine KeepsE.bind keeps_adoptIfOrg fun rotated _ => ?_
        split
        · exact KeepsE.bind (keeps_applySnapshot hsnapshot) fun _ _ => KeepsE.pure trivial
        · exact KeepsE.pure trivial
      · refine KeepsE.bind keeps_changedIfOrg fun changed _ => ?_
        split
        · exact KeepsE.bind (Q := fun _ => False) KeepsE.throw fun _ h => h.elim
        · refine KeepsE.bind (keeps_attempt (keeps_http hchanges)) fun r _ => ?_
          split
          · exact KeepsE.bind (keeps_store trivial) fun _ _ => KeepsE.pure trivial
          · exact ih
          · exact KeepsE.throw

theorem keeps_push {master : Bytes} (hmaster : ¬ Core.Guarded known master) :
    KeepsE (calls known) (fun _ => True) (push api master config) := by
  refine KeepsE.bind keeps_resolveEnv fun env henv => ?_
  refine KeepsE.bind (keeps_store trivial) fun project _ => ?_
  cases project with
  | none => exact KeepsE.throw
  | some projectName =>
      refine KeepsE.bind keeps_ensureAccount fun _ _ => ?_
      refine KeepsE.bind (keeps_nameKey hmaster) fun key hkey => ?_
      exact KeepsE.bind (keeps_ensureProjectEnv hkey henv) fun _ _ => keeps_pushLoop _

/-! ### Rotation -/

theorem ifOk_rewrapKeys {seed : Seed} {oldVault newVault : Bytes} {part : Nat}
    {entries : List (Ident × Int × Base64)} (hnew : ¬ Core.Guarded known newVault) :
    IfOk (fun out => ∀ e ∈ out, e.2.2.Holds (Core.Guarded known))
      (rewrapKeys seed oldVault newVault envId part entries) := by
  induction entries generalizing part with
  | nil => exact ifOk_ok.2 fun e he => nomatch he
  | cons entry rest ih =>
      intro out hout
      obtain ⟨id, version, enc⟩ := entry
      simp only [rewrapKeys, Cli.bind_eq_ok, Cli.Error.ofCore_eq_ok, pure, Except.pure,
        Except.ok.injEq] at hout
      obtain ⟨wrapped, -, key, hkey, tail, htail, rfl⟩ := hout
      intro e he
      rcases List.mem_cons.1 he with rfl | he
      · exact holds_b64encode (guarded_of_rewrapDataKey hnew hkey)
      · exact ih tail htail e he

theorem ifOk_decodePublicKey {value : Base64} (h : value.Holds (GuardedKey known)) :
    IfOk (GuardedKey known) (decodePublicKey value) := by
  intro key hkey
  simp only [decodePublicKey, Cli.bind_eq_ok] at hkey
  obtain ⟨bytes, hbytes, hlen⟩ := hkey
  split at hlen
  · obtain rfl := Except.ok.inj hlen
    exact ifOk_b64decode h bytes hbytes
  · cases hlen

/-- A rotation seals the new key to the public keys of members. -/
theorem ifOk_regrant {seed : Seed} {newVault : Bytes} {members : List MemberInfo}
    {revoke : Option Ident} {part : Nat} {holders : List Ident}
    (hmembers : ∀ m ∈ members, ∀ key ∈ m.publicKey, key.Holds (GuardedKey known))
    (hnew : ¬ Core.Guarded known newVault) :
    IfOk (fun grants => ∀ g ∈ grants, g.encVaultKey.Holds (GuardedGrant known))
      (regrant seed newVault members revoke part holders) := by
  induction holders generalizing part with
  | nil => exact ifOk_ok.2 fun e he => nomatch he
  | cons holder rest ih =>
      rw [regrant]
      split
      · exact ih
      · split
        · exact ih
        · next m hm =>
            split
            · exact ifOk_error
            · next value hvalue =>
                intro out hout
                simp only [Cli.bind_eq_ok, pure, Except.pure, Except.ok.injEq] at hout
                obtain ⟨publicKey, hpublic, tail, htail, rfl⟩ := hout
                have hkey := ifOk_decodePublicKey
                  (hmembers m (List.mem_of_find?_eq_some hm) value hvalue) publicKey hpublic
                intro g hg
                rcases List.mem_cons.1 hg with rfl | hg
                · exact holds_b64encode (guardedGrant_grantVaultKey hkey hnew)
                · exact ih tail htail g hg

theorem ifOk_regrantTokens {seed : Seed} {newVault : Bytes} {part : Nat}
    {tokens : List MachineTokenInfo} (htokens : ∀ t ∈ tokens, t.publicKey.Holds (GuardedKey known))
    (hnew : ¬ Core.Guarded known newVault) :
    IfOk (fun grants => ∀ g ∈ grants, g.encVaultKey.Holds (GuardedGrant known))
      (regrantTokens seed newVault part tokens) := by
  induction tokens generalizing part with
  | nil => exact ifOk_ok.2 fun e he => nomatch he
  | cons token rest ih =>
      intro out hout
      simp only [regrantTokens, Cli.bind_eq_ok, pure, Except.pure, Except.ok.injEq] at hout
      obtain ⟨publicKey, hpublic, tail, htail, rfl⟩ := hout
      have hkey := ifOk_decodePublicKey (htokens token List.mem_cons_self) publicKey hpublic
      intro g hg
      rcases List.mem_cons.1 hg with rfl | hg
      · exact holds_b64encode (guardedGrant_grantVaultKey hkey hnew)
      · exact ih (fun t ht => htokens t (List.mem_cons_of_mem _ ht)) tail htail g hg

theorem keeps_rotateLoop {keypair : Keypair} {revoke : Option Ident} {members : List MemberInfo}
    (hdraws : DrawsUnknown known)
    (hmembers : ∀ m ∈ members, ∀ key ∈ m.publicKey, key.Holds (GuardedKey known))
    (attempts : Nat) :
    KeepsE (calls known) (fun _ => True)
      (rotateLoop api keypair envId revoke members attempts) := by
  induction attempts with
  | zero => exact KeepsE.throw
  | succ attempts ih =>
      rw [rotateLoop]
      refine KeepsE.bind keeps_getGrant_api fun found _ => ?_
      cases found with
      | none => exact KeepsE.pure trivial
      | some value =>
          refine KeepsE.bind (Q := fun _ => True) (keeps_ofExcept fun _ _ => trivial) fun old _ => ?_
          refine KeepsE.bind (Q := fun _ => True) (keeps_ofExcept fun _ _ => trivial)
            fun oldVault _ => ?_
          refine KeepsE.bind keeps_fresh fun keySeed hkey => ?_
          have hnew : ¬ Core.Guarded known (Core.Vault.generateVaultKey keySeed) :=
            hdraws keySeed 0 hkey
          refine KeepsE.bind keeps_fresh fun secretSeed _ => ?_
          refine KeepsE.bind keeps_fresh fun historySeed _ => ?_
          refine KeepsE.bind keeps_fresh fun grantSeed _ => ?_
          refine KeepsE.bind keeps_fresh fun tokenSeed _ => ?_
          refine KeepsE.bind keeps_fullSnapshot fun snapshot _ => ?_
          refine KeepsE.bind (keeps_ofExcept (ifOk_rewrapKeys hnew)) fun dataKeys hdata => ?_
          refine KeepsE.bind (keeps_http trivial) fun history _ => ?_
          refine KeepsE.bind (keeps_ofExcept (ifOk_rewrapKeys hnew)) fun historyKeys hhistory => ?_
          refine KeepsE.bind (keeps_http trivial) fun holders _ => ?_
          refine KeepsE.bind (keeps_ofExcept (ifOk_regrant hmembers hnew)) fun grants hgrants => ?_
          refine KeepsE.bind (keeps_http trivial) fun tokens htokens => ?_
          refine KeepsE.bind (keeps_ofExcept (ifOk_regrantTokens htokens hnew))
            fun machineGrants hmachine => ?_
          refine KeepsE.bind (keeps_attempt (keeps_http ⟨hgrants, List.forall_mem_map.2 hdata,
            hmachine, List.forall_mem_map.2 hhistory⟩)) fun r _ => ?_
          split
          · exact KeepsE.pure trivial
          · exact ih
          · exact KeepsE.throw

theorem keeps_rotateEnv {keypair : Keypair} {orgId : Ident} {revoke : Option Ident}
    (hdraws : DrawsUnknown known) :
    KeepsE (calls known) (fun _ => True) (rotateEnv api keypair orgId envId revoke) :=
  KeepsE.bind (keeps_http trivial) fun _ hmembers => keeps_rotateLoop hdraws hmembers _

theorem keeps_rotateActive {keypair : Keypair} (hdraws : DrawsUnknown known) :
    KeepsE (calls known) (fun _ => True) (rotateActive api keypair config) := by
  unfold rotateActive
  split
  · exact KeepsE.throw
  · refine KeepsE.bind keeps_resolveEnv fun env _ => ?_
    refine KeepsE.bind (keeps_rotateEnv hdraws) fun rotated _ => ?_
    split
    · exact KeepsE.bind keeps_pull fun _ _ => KeepsE.pure trivial
    · exact KeepsE.throw

end Cli

end Sotto
