import Sotto.Properties.CompareAndSwap

/-!
# Rotations apply each entry once

A rotation names users, secrets, history versions and machine tokens in four lists. Three of them
are checked for repetitions, the list of secrets is not. A request that passes all checks of the
code and repeats no secret stores for each key that it names the one wrapped key that it carries,
in whatever order the lists are.
-/

namespace Sotto

namespace Server

open Core Api

/-- A server that runs the statements of one request after another. -/
abbrev Direct := ExceptT Error (StateM Db)

instance : Database Direct where
  perform s := ExceptT.mk fun db => s.exec db

/-- The answer to a rotation, and the database after it. -/
def rotated (userId envId : Ident) (req : RotateRequest) (db : Db) : Except Error Int × Db :=
  ((rotate userId envId req : Direct Int).run).run db

/-- A rotation that passes the checks of the code. -/
def Committable (userId envId : Ident) (req : RotateRequest) (db : Db) : Prop :=
  (WriteCall.rotate userId envId req).Permitted db ∧
    db.revisionOf envId = some req.baseRevision ∧ (WriteCall.rotate userId envId req).Valid db

/-- The keys of a list of entries are these, each once. -/
def NamesOnce {E K : Type} (entries : List E) (key : E → K) (keys : List K) : Prop :=
  (entries.map key).Nodup ∧ ∀ k, k ∈ entries.map key ↔ k ∈ keys

/-- The four lists of a rotation repeat no entry and miss none. -/
structure Exact (userId envId : Ident) (req : RotateRequest) (db : Db) : Prop where
  grants : (req.grants.map GrantEntry.userId).Nodup
  members : ∀ orgId, db.orgOf envId = some orgId →
    ∀ g ∈ req.grants, (db.memberships.lookup (orgId, g.userId)).isSome
  own : userId ∈ req.grants.map GrantEntry.userId
  secrets : NamesOnce req.dataKeys DataKeyEntry.secretId ((db.secretsOf envId).map Prod.fst)
  history : NamesOnce req.historyKeys (fun h => (h.secretId, h.version))
    ((db.historyOf envId).map Prod.fst)
  tokens : NamesOnce req.machineGrants MachineGrantEntry.tokenId
    ((db.activeTokensOf envId).map Prod.fst)

/-- The entries carry a blob for a key, and no other one. -/
def Carries {E K : Type} (entries : List E) (key : E → K) (blob : E → Base64) (k : K)
    (b : Bytes) : Prop :=
  (∃ e ∈ entries, key e = k) ∧ ∀ e ∈ entries, key e = k → blob e = .valid b

/-- The rows of a table carry the wrapped keys of a list of entries, and other rows are kept. -/
def Rewrapped {E K V : Type} [DecidableEq K] (entries : List E) (key : E → K) (blob : E → Base64)
    (wrap : V → Bytes → V) (rows : List (K × V)) (old new : Table K V) : Prop :=
  (∀ k v, (k, v) ∈ rows → ∃ b, Carries entries key blob k b ∧ new.lookup k = some (wrap v b)) ∧
    ∀ k, k ∉ rows.map Prod.fst → new.lookup k = old.lookup k

/-- Every wrapped key that is stored after a rotation is the one that the request carries for it. -/
structure Rekeyed (envId : Ident) (req : RotateRequest) (db db' : Db) : Prop where
  grants : ∀ userId b, db'.grants.lookup (envId, userId) = some b ↔
    Carries req.grants GrantEntry.userId GrantEntry.encVaultKey userId b
  otherGrants : ∀ envId' userId, envId' ≠ envId →
    db'.grants.lookup (envId', userId) = db.grants.lookup (envId', userId)
  secrets : Rewrapped req.dataKeys DataKeyEntry.secretId DataKeyEntry.encDataKey
    (fun s b => { s with encDataKey := b }) (db.secretsOf envId) db.secrets db'.secrets
  history : Rewrapped req.historyKeys (fun h => (h.secretId, h.version)) HistoryKeyEntry.encDataKey
    (fun v b => { v with encDataKey := b }) (db.historyOf envId) db.secretVersions
    db'.secretVersions
  tokens : Rewrapped req.machineGrants MachineGrantEntry.tokenId MachineGrantEntry.encVaultKey
    (fun t b => { t with encVaultKey := b }) (db.activeTokensOf envId) db.machineTokens
    db'.machineTokens
  access : SameAccess db db'
  revision : db'.revisionOf envId = some (req.baseRevision + 1)

/-- The same request with its lists in another order. -/
structure Reordered (req req' : RotateRequest) : Prop where
  baseRevision : req'.baseRevision = req.baseRevision
  grants : req.grants.Perm req'.grants
  dataKeys : req.dataKeys.Perm req'.dataKeys
  machineGrants : req.machineGrants.Perm req'.machineGrants
  historyKeys : req.historyKeys.Perm req'.historyKeys

/-- The same rows, up to their order. -/
structure SameRows (db db' : Db) : Prop where
  access : SameAccess db db'
  environments : db'.environments = db.environments
  grants : ∀ k, db'.grants.lookup k = db.grants.lookup k
  secrets : ∀ k, db'.secrets.lookup k = db.secrets.lookup k
  secretVersions : ∀ k, db'.secretVersions.lookup k = db.secretVersions.lookup k
  machineTokens : ∀ k, db'.machineTokens.lookup k = db.machineTokens.lookup k

/-- A rotation applies each entry of its lists once. -/
structure AppliesOnce (userId envId : Ident) (req : RotateRequest) (db : Db) : Prop where
  accepted : ∀ v db', rotated userId envId req db = (.ok v, db') →
    Exact userId envId req db ∧ Rekeyed envId req db db'
  rejected : ¬ Exact userId envId req db → ∃ e, rotated userId envId req db = (.error e, db)
  reordered : ∀ req', Reordered req req' → ∀ v db', rotated userId envId req db = (.ok v, db') →
    ∃ db'', rotated userId envId req' db = (.ok v, db'') ∧ SameRows db' db''

/-! ### The checks that do not read the database -/

/-- A wrapped key that decodes within its bound. -/
def WrappedKey (value : Base64) : Prop :=
  ∃ b : Bytes, value = .valid b ∧ b.len ≤ maxEncKey

/-- What a base64 text decodes to. -/
def decoded : Base64 → Bytes
  | .valid b => b
  | .malformed _ => default

/-- The form of a rotation is right. -/
structure WellFormedRotation (userId : Ident) (req : RotateRequest) : Prop where
  grants : (req.grants.map GrantEntry.userId).Nodup
  grantKeys : ∀ g ∈ req.grants, WrappedKey g.encVaultKey
  dataKeys : ∀ d ∈ req.dataKeys, WrappedKey d.encDataKey
  tokens : (req.machineGrants.map MachineGrantEntry.tokenId).Nodup
  tokenKeys : ∀ m ∈ req.machineGrants, WrappedKey m.encVaultKey
  history : (req.historyKeys.map fun h => (h.secretId, h.version)).Nodup
  historyKeys : ∀ h ∈ req.historyKeys, WrappedKey h.encDataKey
  own : ∃ g ∈ req.grants, g.userId = userId

/-- A rotation with its blobs decoded. -/
def opened (req : RotateRequest) : Rotation :=
  ⟨req.baseRevision, req.grants.map fun g => (g.userId, decoded g.encVaultKey),
    req.dataKeys.map fun d => (d.secretId, decoded d.encDataKey),
    req.machineGrants.map fun m => (m.tokenId, decoded m.encVaultKey),
    req.historyKeys.map fun h => ((h.secretId, h.version), decoded h.encDataKey)⟩

theorem decode_eq_ok_wrapped {value : Base64} {field : String} {b : Bytes} :
    decode value field maxEncKey = .ok b ↔ WrappedKey value ∧ b = decoded value := by
  rw [decode_eq_ok]
  constructor
  · rintro ⟨rfl, hlen⟩
    exact ⟨⟨b, rfl, hlen⟩, rfl⟩
  · rintro ⟨⟨b', rfl, hlen⟩, rfl⟩
    exact ⟨rfl, hlen⟩

theorem decodeEntries_eq_ok_iff {K : Type} {field : String} {l : List (K × Base64)}
    {out : List (K × Bytes)} : decodeEntries field l = .ok out ↔
      (∀ e ∈ l, WrappedKey e.2) ∧ out = l.map fun e => (e.1, decoded e.2) := by
  induction l generalizing out with
  | nil =>
    rw [decodeEntries]
    simp [eq_comm]
  | cons e l ih =>
    obtain ⟨k, value⟩ := e
    simp only [decodeEntries, bind_eq_ok, decode_eq_ok_wrapped, ih, pure, Except.pure,
      Except.ok.injEq, List.forall_mem_cons, List.map_cons]
    constructor
    · rintro ⟨_, ⟨hvalue, rfl⟩, _, ⟨hl, rfl⟩, rfl⟩
      exact ⟨⟨hvalue, hl⟩, rfl⟩
    · rintro ⟨⟨hvalue, hl⟩, rfl⟩
      exact ⟨_, ⟨hvalue, rfl⟩, _, ⟨hl, rfl⟩, rfl⟩

theorem decodeDistinct_eq_ok_iff {K : Type} [DecidableEq K] {duplicate field : String}
    {seen : List K} {l : List (K × Base64)} {out : List (K × Bytes)} :
    decodeDistinct duplicate field seen l = .ok out ↔
      ((l.map Prod.fst).Nodup ∧ ∀ k ∈ l.map Prod.fst, k ∉ seen) ∧
        (∀ e ∈ l, WrappedKey e.2) ∧ out = l.map fun e => (e.1, decoded e.2) := by
  induction l generalizing seen out with
  | nil =>
    rw [decodeDistinct]
    simp [eq_comm]
  | cons e l ih =>
    obtain ⟨k, value⟩ := e
    simp only [decodeDistinct, bind_eq_ok, decode_eq_ok_wrapped, require_eq_ok, ih, pure,
      Except.pure, Except.ok.injEq, List.map_cons, List.nodup_cons, List.mem_cons, not_or,
      forall_eq_or_imp]
    constructor
    · rintro ⟨_, hseen, _, ⟨hvalue, rfl⟩, _, ⟨⟨hnodup, hfresh⟩, hl, rfl⟩, rfl⟩
      exact ⟨⟨⟨fun hk => (hfresh k hk).1 rfl, hnodup⟩, hseen, fun k' hk' => (hfresh k' hk').2⟩,
        ⟨hvalue, hl⟩, rfl⟩
    · rintro ⟨⟨⟨hk, hnodup⟩, hseen, hfresh⟩, ⟨hvalue, hl⟩, rfl⟩
      refine ⟨(), hseen, _, ⟨hvalue, rfl⟩, _, ⟨⟨hnodup, ?_⟩, hl, rfl⟩, rfl⟩
      exact fun k' hk' => ⟨fun h => hk (h ▸ hk'), hfresh k' hk'⟩

theorem decodeRotation_eq_ok_iff {userId : Ident} {req : RotateRequest} {rotation : Rotation} :
    decodeRotation userId req = .ok rotation ↔
      WellFormedRotation userId req ∧ rotation = opened req := by
  simp only [decodeRotation, bind_eq_ok, require_eq_ok, decodeEntries_eq_ok_iff,
    decodeDistinct_eq_ok_iff, pure, Except.pure, Except.ok.injEq, List.forall_mem_map, List.map_map,
    List.not_mem_nil, not_false_eq_true, implies_true, and_true]
  constructor
  · rintro ⟨_, hgrants, _, ⟨hgrantKeys, rfl⟩, _, ⟨hdataKeys, rfl⟩, _, ⟨htokens, htokenKeys, rfl⟩, _,
      ⟨hhistory, hhistoryKeys, rfl⟩, _, hown, rfl⟩
    refine ⟨⟨hgrants, hgrantKeys, hdataKeys, htokens, htokenKeys, hhistory, hhistoryKeys, ?_⟩, rfl⟩
    simpa using hown
  · rintro ⟨h, rfl⟩
    refine ⟨(), h.grants, _, ⟨h.grantKeys, rfl⟩, _, ⟨h.dataKeys, rfl⟩, _,
      ⟨h.tokens, h.tokenKeys, rfl⟩, _, ⟨h.history, h.historyKeys, rfl⟩, (), ?_, rfl⟩
    simpa using h.own

/-! ### One rotation -/

section Direct

variable {α : Type} {db : Db}

theorem run_query_bind {stmt : Stmt} (h : ∀ db, (stmt.exec db).2 = db)
    (f : stmt.Reply → Direct α) :
    (Database.perform stmt >>= f : Direct α).run.run db = match (stmt.exec db).1 with
      | .ok a => (f a).run.run db
      | .error e => (.error e, db) := by
  have hexec : stmt.exec db = ((stmt.exec db).1, db) := Prod.ext rfl (h db)
  have hrun : (Database.perform stmt : Direct stmt.Reply).run.run db = ((stmt.exec db).1, db) :=
    hexec
  rw [ExceptT.run_bind, StateT.run_bind, hrun]
  cases (stmt.exec db).1 <;> rfl

theorem run_check_bind {β : Type} (r : Except Error β) (f : β → Direct α) :
    (check r >>= f : Direct α).run.run db = match r with
      | .ok a => (f a).run.run db
      | .error e => (.error e, db) := by
  cases r <;> rfl

end Direct

variable {userId envId : Ident} {req : RotateRequest} {db : Db}

theorem valid_iff {orgId : Ident} (horg : db.orgOf envId = some orgId) :
    (WriteCall.rotate userId envId req).Valid db ↔
      WellFormedRotation userId req ∧ RotationAdmissible envId orgId (opened req) db := by
  simp only [WriteCall.Valid, horg, Option.some.injEq, decodeRotation_eq_ok_iff]
  constructor
  · rintro ⟨_, _, rfl, ⟨hform, rfl⟩, hadmits⟩
    exact ⟨hform, hadmits⟩
  · rintro ⟨hform, hadmits⟩
    exact ⟨orgId, _, rfl, ⟨hform, rfl⟩, hadmits⟩

/-- What comes after the checks of a rotation: its transaction. -/
theorem run_transaction (stmt : Stmt) : ((Database.perform stmt : Direct stmt.Reply).run).run db =
    stmt.exec db :=
  rfl

theorem rotated_cases (userId envId : Ident) (req : RotateRequest) (db : Db) :
    (Committable userId envId req db ∧ rotated userId envId req db =
      (.ok (req.baseRevision + 1),
        (db.rekeyed envId (opened req)).withRevision envId (req.baseRevision + 1))) ∨
    (¬ Committable userId envId req db ∧ ∃ e, rotated userId envId req db = (.error e, db)) := by
  unfold rotated rotate
  rw [run_query_bind (fun _ => rfl)]
  cases haccess : envAccess envId userId db with
  | error e =>
    refine Or.inr ⟨?_, e, ?_⟩
    · rintro ⟨⟨⟨access, haccess', -⟩, -⟩, -⟩
      rw [haccess] at haccess'
      cases haccess'
    · simp only [Stmt.exec, query, haccess]
  | ok access =>
    have hreply : ((Stmt.envAccess envId userId).exec db).1 = .ok access := haccess
    rw [hreply]
    simp only
    rw [run_check_bind]
    cases hmanage : access.2.requireManageStructure
        "must be an admin or owner to rotate an environment" with
    | error e =>
      refine Or.inr ⟨?_, e, rfl⟩
      rintro ⟨⟨⟨access', haccess', hmanage'⟩, -⟩, -⟩
      obtain rfl := Except.ok.inj (haccess.symm.trans haccess')
      cases hmanage.symm.trans hmanage'
    | ok =>
      simp only
      rw [run_query_bind (fun _ => rfl)]
      cases horg : ((Stmt.selectOrgId envId).exec db).1 with
      | error e =>
        refine Or.inr ⟨?_, e, rfl⟩
        rintro ⟨⟨-, ⟨orgId, horg'⟩, -⟩, -⟩
        cases (selectOrgId_eq_error horg).symm.trans horg'
      | ok orgId =>
        have horg := selectOrgId_eq_ok horg
        cases orgId with
        | none =>
          refine Or.inr ⟨?_, _, rfl⟩
          rintro ⟨⟨-, ⟨orgId, horg'⟩, -⟩, -⟩
          cases horg.symm.trans horg'
        | some orgId =>
          simp only
          rw [run_check_bind]
          cases hdecode : decodeRotation userId req with
          | error e =>
            refine Or.inr ⟨?_, e, rfl⟩
            rintro ⟨⟨-, -, rotation, hdecode'⟩, -⟩
            cases hdecode.symm.trans hdecode'
          | ok rotation =>
            simp only
            rw [run_transaction]
            obtain ⟨hform, rfl⟩ := decodeRotation_eq_ok_iff.1 hdecode
            have hpermitted : (WriteCall.rotate userId envId req).Permitted db :=
              ⟨⟨access, haccess, hmanage⟩, ⟨orgId, horg⟩, _, hdecode⟩
            have hmay := mayManage_of_envAccess haccess hmanage (.refl db)
            cases htx : (rotateTx access.2 envId orgId (opened req)).run db with
            | error e =>
              refine Or.inr ⟨?_, e, ?_⟩
              · rintro ⟨-, hrevision, hvalid⟩
                have hok := rotateTx_eq_ok_iff.2
                  ⟨⟨hmay, hrevision, ((valid_iff horg).1 hvalid).2⟩, rfl, rfl⟩
                cases htx.symm.trans hok
              · simp only [Stmt.exec, commit, htx]
            | ok result =>
              obtain ⟨v, db'⟩ := result
              obtain ⟨⟨-, hrevision, hadmits⟩, rfl, rfl⟩ := rotateTx_eq_ok_iff.1 htx
              refine Or.inl ⟨⟨hpermitted, hrevision, (valid_iff horg).2 ⟨hform, hadmits⟩⟩, ?_⟩
              simp only [Stmt.exec, commit, htx]
              rfl

theorem rotated_eq_ok {v : Int} {db' : Db} (h : rotated userId envId req db = (.ok v, db')) :
    Committable userId envId req db ∧ v = req.baseRevision + 1 ∧
      db' = (db.rekeyed envId (opened req)).withRevision envId (req.baseRevision + 1) := by
  rcases rotated_cases userId envId req db with ⟨hcommit, heq⟩ | ⟨-, e, heq⟩
  · obtain ⟨hv, hdb⟩ := Prod.mk.inj (heq.symm.trans h)
    exact ⟨hcommit, (Except.ok.inj hv).symm, hdb.symm⟩
  · cases (Prod.mk.inj (heq.symm.trans h)).1

/-! ### The keys that are stored -/

theorem sameKeys_iff {K : Type} [DecidableEq K] {provided existing : List K} :
    sameKeys provided existing = true ↔ ∀ k, k ∈ provided ↔ k ∈ existing := by
  simp only [sameKeys, Bool.and_eq_true, List.all_eq_true, decide_eq_true_eq]
  exact ⟨fun h k => ⟨h.1 k, h.2 k⟩, fun h => ⟨fun k => (h k).1, fun k => (h k).2⟩⟩

/-- What the checks of a committable rotation say. -/
theorem Committable.admitted (h : Committable userId envId req db) :
    WellFormedRotation userId req ∧ ∃ orgId, db.orgOf envId = some orgId ∧
      RotationAdmissible envId orgId (opened req) db := by
  obtain ⟨⟨-, ⟨orgId, horg⟩, -⟩, -, hvalid⟩ := h
  obtain ⟨hform, hadmits⟩ := (valid_iff horg).1 hvalid
  exact ⟨hform, orgId, horg, hadmits⟩

/-- The code checks all that the lists must satisfy, but repetitions of secrets. -/
theorem Committable.exact (h : Committable userId envId req db)
    (hnodup : (req.dataKeys.map DataKeyEntry.secretId).Nodup) : Exact userId envId req db := by
  obtain ⟨hform, orgId, horg, hadmits⟩ := h.admitted
  have hsecrets := sameKeys_iff.1 hadmits.secrets
  have hhistory := sameKeys_iff.1 hadmits.history
  have htokens := sameKeys_iff.1 hadmits.tokens
  simp only [opened, List.map_map] at hsecrets hhistory htokens
  refine ⟨hform.grants, ?_, ?_, ⟨hnodup, hsecrets⟩, ⟨hform.history, hhistory⟩,
    ⟨hform.tokens, htokens⟩⟩
  · intro orgId' horg' g hg
    obtain rfl := Option.some.inj (horg.symm.trans horg')
    exact List.all_eq_true.1 hadmits.members _ (List.mem_map_of_mem hg)
  · obtain ⟨g, hg, rfl⟩ := hform.own
    exact List.mem_map_of_mem hg

/-- The entry of a key that is named once is what the entries carry for it. -/
theorem carries_of_mem {E K : Type} {entries : List E} {key : E → K} {blob : E → Base64}
    (hnodup : (entries.map key).Nodup) (hwrapped : ∀ e ∈ entries, WrappedKey (blob e)) {e : E}
    (he : e ∈ entries) : Carries entries key blob (key e) (decoded (blob e)) := by
  refine ⟨⟨e, he, rfl⟩, fun e' he' hkey => ?_⟩
  obtain rfl := List.inj_on_of_nodup_map hnodup he' he hkey
  obtain ⟨b, hb, -⟩ := hwrapped e' he'
  rw [hb]
  rfl

theorem rewrapped {E K V : Type} [DecidableEq K] {entries : List E} {key : E → K}
    {blob : E → Base64} {wrap : V → Bytes → V} (f : V → Bytes → V) {rows : List (K × V)}
    {old : Table K V}
    (honce : NamesOnce entries key (rows.map Prod.fst))
    (hwrapped : ∀ e ∈ entries, WrappedKey (blob e))
    (hrows : ∀ k v, (k, v) ∈ rows → old.lookup k = some v ∧ ∀ b, f v b = wrap v b) :
    Rewrapped entries key blob wrap rows old
      ((entries.map fun e => (key e, decoded (blob e))).foldl
        (fun t e => t.modify e.1 fun v => f v e.2) old) := by
  have hkeys : (entries.map fun e => (key e, decoded (blob e))).map Prod.fst = entries.map key := by
    rw [List.map_map]
    rfl
  constructor
  · intro k v hv
    obtain ⟨e, he, rfl⟩ := List.mem_map.1 ((honce.2 k).2 (List.mem_map.2 ⟨_, hv, rfl⟩))
    obtain ⟨hold, hf⟩ := hrows _ v hv
    refine ⟨_, carries_of_mem honce.1 hwrapped he, ?_⟩
    rw [Table.lookup_foldl_modify f (hkeys ▸ honce.1) (List.mem_map.2 ⟨e, he, rfl⟩), hold,
      Option.map_some, hf]
  · intro k hk
    refine Table.lookup_foldl_modify_of_notMem f ?_ old
    rw [hkeys]
    exact fun hmem => hk ((honce.2 k).1 hmem)

theorem nodup_pairs {grants : List GrantEntry} (hnodup : (grants.map GrantEntry.userId).Nodup) :
    ((grants.map fun g => (g.userId, decoded g.encVaultKey)).map fun g => (envId, g.1)).Nodup := by
  have hmap := hnodup.map (f := fun u => (envId, u)) fun u u' h => (Prod.mk.inj h).2
  rw [List.map_map] at hmap ⊢
  exact hmap

theorem lookup_replaceGrants_iff {grants : List GrantEntry}
    (hnodup : (grants.map GrantEntry.userId).Nodup)
    (hwrapped : ∀ g ∈ grants, WrappedKey g.encVaultKey) (table : Table (Ident × Ident) Bytes)
    (userId : Ident) (b : Bytes) :
    (replaceGrants envId (grants.map fun g => (g.userId, decoded g.encVaultKey)) table).lookup
        (envId, userId) = some b ↔
      Carries grants GrantEntry.userId GrantEntry.encVaultKey userId b := by
  constructor
  · intro h
    rcases Table.lookup_foldl_insert_eq_some (fun g : Ident × Bytes => (envId, g.1)) Prod.snd h with
      h | ⟨g, hg, hkey, rfl⟩
    · rw [Table.lookup_filterRows] at h
      simp at h
    · obtain ⟨entry, hentry, rfl⟩ := List.mem_map.1 hg
      obtain rfl := (Prod.mk.inj hkey).2
      exact carries_of_mem hnodup hwrapped hentry
  · rintro ⟨⟨g, hg, rfl⟩, hblob⟩
    have hb : decoded g.encVaultKey = b := by rw [hblob g hg rfl]; rfl
    rw [← hb]
    exact Table.lookup_foldl_insert (fun g : Ident × Bytes => (envId, g.1)) Prod.snd
      (nodup_pairs hnodup) (List.mem_map.2 ⟨g, hg, rfl⟩) _

theorem lookup_replaceGrants_of_ne {envId' : Ident} (h : envId' ≠ envId)
    (grants : List (Ident × Bytes)) (table : Table (Ident × Ident) Bytes) (userId : Ident) :
    (replaceGrants envId grants table).lookup (envId', userId) = table.lookup (envId', userId) := by
  rw [replaceGrants, Table.lookup_foldl_insert_of_notMem (fun g : Ident × Bytes => (envId, g.1))
    Prod.snd (fun g _ hkey => h (Prod.mk.inj hkey).1.symm), Table.lookup_filterRows]
  cases table.lookup (envId', userId) <;> simp [h]

theorem Committable.rekeyed (h : Committable userId envId req db)
    (hexact : Exact userId envId req db) : Rekeyed envId req db
      ((db.rekeyed envId (opened req)).withRevision envId (req.baseRevision + 1)) := by
  obtain ⟨hform, -⟩ := h.admitted
  have hkeys : SameAccess db (db.rekeyed envId (opened req)) := ⟨rfl, rfl, rfl, rfl, fun _ => rfl⟩
  have hrevision : (db.rekeyed envId (opened req)).revisionOf envId ≠ none := by
    change db.revisionOf envId ≠ none
    rw [h.2.1]
    simp
  refine ⟨fun userId b => lookup_replaceGrants_iff hform.grants hform.grantKeys db.grants userId b,
    fun envId' userId hne => lookup_replaceGrants_of_ne hne _ db.grants userId, ?_, ?_, ?_,
    hkeys.trans (.withRevision ..), revisionOf_withRevision hrevision _⟩
  · refine rewrapped (fun s b => if s.envId = envId then { s with encDataKey := b } else s)
      hexact.secrets hform.dataKeys fun id s hs => ?_
    obtain ⟨hrow, henv⟩ := List.mem_filter.1 hs
    exact ⟨Table.mem_rows.1 hrow, fun b => if_pos (of_decide_eq_true henv)⟩
  · refine rewrapped (fun v b => { v with encDataKey := b }) hexact.history hform.historyKeys
      fun k v hv => ?_
    exact ⟨Table.mem_rows.1 (List.mem_filter.1 hv).1, fun b => rfl⟩
  · refine rewrapped (fun t b => if t.envId = envId then { t with encVaultKey := b } else t)
      hexact.tokens hform.tokenKeys fun id t ht => ?_
    obtain ⟨hrow, henv⟩ := List.mem_filter.1 ht
    exact ⟨Table.mem_rows.1 hrow, fun b => if_pos (of_decide_eq_true henv).1⟩

/-! ### The order of the lists -/

variable {req' : RotateRequest}

theorem Reordered.wellFormed (h : Reordered req req') (hform : WellFormedRotation userId req) :
    WellFormedRotation userId req' where
  grants := (h.grants.map _).nodup_iff.1 hform.grants
  grantKeys g hg := hform.grantKeys g (h.grants.mem_iff.2 hg)
  dataKeys d hd := hform.dataKeys d (h.dataKeys.mem_iff.2 hd)
  tokens := (h.machineGrants.map _).nodup_iff.1 hform.tokens
  tokenKeys m hm := hform.tokenKeys m (h.machineGrants.mem_iff.2 hm)
  history := (h.historyKeys.map _).nodup_iff.1 hform.history
  historyKeys k hk := hform.historyKeys k (h.historyKeys.mem_iff.2 hk)
  own := by
    obtain ⟨g, hg, huser⟩ := hform.own
    exact ⟨g, h.grants.mem_iff.1 hg, huser⟩

theorem sameKeys_perm {K : Type} [DecidableEq K] {provided provided' existing : List K}
    (hperm : provided.Perm provided') (h : sameKeys provided existing = true) :
    sameKeys provided' existing = true :=
  sameKeys_iff.2 fun k => hperm.mem_iff.symm.trans (sameKeys_iff.1 h k)

theorem Reordered.admissible (h : Reordered req req') {orgId : Ident}
    (hadmits : RotationAdmissible envId orgId (opened req) db) :
    RotationAdmissible envId orgId (opened req') db where
  members := by
    have hall := List.all_eq_true.1 hadmits.members
    exact List.all_eq_true.2 fun g hg => hall g ((h.grants.map _).mem_iff.2 hg)
  users := by
    have hall := List.all_eq_true.1 hadmits.users
    exact List.all_eq_true.2 fun g hg => hall g ((h.grants.map _).mem_iff.2 hg)
  secrets := sameKeys_perm ((h.dataKeys.map _).map _) hadmits.secrets
  history := sameKeys_perm ((h.historyKeys.map _).map _) hadmits.history
  tokens := sameKeys_perm ((h.machineGrants.map _).map _) hadmits.tokens

theorem Reordered.committable (h : Reordered req req') (hcommit : Committable userId envId req db) :
    Committable userId envId req' db := by
  obtain ⟨hform, orgId, horg, hadmits⟩ := hcommit.admitted
  obtain ⟨⟨haccess, horg', -⟩, hrevision, -⟩ := hcommit
  refine ⟨⟨haccess, horg', _, decodeRotation_eq_ok_iff.2 ⟨h.wellFormed hform, rfl⟩⟩, ?_,
    (valid_iff horg).2 ⟨h.wellFormed hform, h.admissible hadmits⟩⟩
  rw [h.baseRevision]
  exact hrevision

/-- The lists of a request in another order leave the same rows. -/
theorem Reordered.sameRows (h : Reordered req req') (hexact : Exact userId envId req db) :
    SameRows ((db.rekeyed envId (opened req)).withRevision envId (req.baseRevision + 1))
      ((db.rekeyed envId (opened req')).withRevision envId (req'.baseRevision + 1)) := by
  refine ⟨⟨rfl, rfl, rfl, rfl, fun _ => ?_⟩, ?_, ?_, ?_, ?_, ?_⟩
  · rw [h.baseRevision]
    rfl
  · rw [h.baseRevision]
    rfl
  · exact Table.lookup_foldl_insert_perm (fun g : Ident × Bytes => (envId, g.1)) Prod.snd
      (h.grants.map _) (nodup_pairs hexact.grants) _
  · refine Table.lookup_foldl_modify_perm
      (fun (s : Secret) b => if s.envId = envId then { s with encDataKey := b } else s)
      (h.dataKeys.map _) ?_ _
    rw [List.map_map]
    exact hexact.secrets.1
  · refine Table.lookup_foldl_modify_perm (fun (v : SecretVersion) b => { v with encDataKey := b })
      (h.historyKeys.map _) ?_ _
    rw [List.map_map]
    exact hexact.history.1
  · refine Table.lookup_foldl_modify_perm
      (fun (t : MachineToken) b => if t.envId = envId then { t with encVaultKey := b } else t)
      (h.machineGrants.map _) ?_ _
    rw [List.map_map]
    exact hexact.tokens.1

/-- A rotation applies each entry once if and only if it names no secret twice or fails a check of
the code. -/
theorem appliesOnce_iff (userId envId : Ident) (req : RotateRequest) (db : Db) :
    AppliesOnce userId envId req db ↔
      (req.dataKeys.map DataKeyEntry.secretId).Nodup ∨ ¬ Committable userId envId req db := by
  constructor
  · intro h
    by_cases hcommit : Committable userId envId req db
    · rcases rotated_cases userId envId req db with ⟨-, heq⟩ | ⟨hno, -⟩
      · exact Or.inl (h.accepted _ _ heq).1.secrets.1
      · exact absurd hcommit hno
    · exact Or.inr hcommit
  · intro h
    have hexact : Committable userId envId req db → Exact userId envId req db := fun hcommit =>
      hcommit.exact (h.resolve_right fun hno => hno hcommit)
    refine ⟨fun v db' hok => ?_, fun hinexact => ?_, fun req' hreorder v db' hok => ?_⟩
    · obtain ⟨hcommit, -, rfl⟩ := rotated_eq_ok hok
      exact ⟨hexact hcommit, hcommit.rekeyed (hexact hcommit)⟩
    · rcases rotated_cases userId envId req db with ⟨hcommit, -⟩ | ⟨-, hrefused⟩
      · exact absurd (hexact hcommit) hinexact
      · exact hrefused
    · obtain ⟨hcommit, rfl, rfl⟩ := rotated_eq_ok hok
      rcases rotated_cases userId envId req' db with ⟨-, heq⟩ | ⟨hno, -⟩
      · rw [heq, hreorder.baseRevision]
        exact ⟨_, rfl, hreorder.baseRevision ▸ hreorder.sameRows (hexact hcommit)⟩
      · exact absurd (hreorder.committable hcommit) hno

/-! ### A repeated secret -/

/-- A team with one secret in its environment. -/
def repeatedDb : Db where
  users := AList.insert (.text "alice") none ∅
  organizations := AList.insert (.text "org") ⟨.raw .empty, .active, .team⟩ ∅
  memberships := AList.insert (.text "org", .text "alice") ⟨.owner, none⟩ ∅
  projects := AList.insert (.text "project") ⟨.text "alice", some (.text "org"), .raw .empty⟩ ∅
  environments := AList.insert (.text "env") ⟨.text "project", .raw .empty, 1⟩ ∅
  grants := ∅
  secrets := AList.insert (.text "secret")
    ⟨.text "env", .raw .empty, .raw .empty, .random ⟨0, 0⟩ 0, 1, false⟩ ∅
  secretVersions := ∅
  machineTokens := ∅

/-- A rotation with two data keys for the one secret. -/
def repeatedReq : RotateRequest where
  baseRevision := 1
  grants := [⟨.text "alice", .valid (.random ⟨0, 1⟩ 0)⟩]
  dataKeys := [⟨.text "secret", .valid (.random ⟨0, 2⟩ 0)⟩,
    ⟨.text "secret", .valid (.random ⟨0, 3⟩ 0)⟩]
  machineGrants := []
  historyKeys := []

theorem rotated_repeated :
    (rotated (.text "alice") (.text "env") repeatedReq repeatedDb).1 = .ok 2 := by
  decide +kernel

/-- A rotation that names a secret twice is accepted. -/
theorem not_appliesOnce_repeated :
    ¬ AppliesOnce (.text "alice") (.text "env") repeatedReq repeatedDb := by
  intro h
  have hexact := (h.accepted 2 _ (Prod.ext rotated_repeated rfl)).1
  exact absurd hexact.secrets.1 (by decide)

end Server

end Sotto
