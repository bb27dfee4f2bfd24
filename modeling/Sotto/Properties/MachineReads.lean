import Sotto.Cli.Entries
import Sotto.Library.Watching
import Sotto.Machine.Client
import Sotto.Properties.Dotenv
import Sotto.Properties.Tokened

/-!
# What a machine is answered

A machine watches the devices: the steps of its requests are answered at the states that they meet.
Its grant seals the vault key of one of these states, and its rows are those of a later one. Under
the key it decrypts the rows as a device does.
-/

namespace Sotto

open Core Cli

namespace Machine

open Relation Prog

/-! ### What is answered -/

/-- What is answered to a step while the devices go on. -/
def answers (tokenOf : String → Option Ident) : (c : Call) → Setup.World → c.Reply → Prop
  | .net, _, r => r = .ok ()
  | .query q, w, r => r = .ok (q.read tokenOf w.shared.db)

/-- What is answered where the network and the statements can fail. -/
def faultyAnswers (tokenOf : String → Option Ident) : (c : Call) → Setup.World → c.Reply → Prop
  | .net, _, r => r = .ok () ∨ ∃ message, r = .error (.network message)
  | .query q, w, r => r = .ok (q.read tokenOf w.shared.db) ∨ r = .error .internal

theorem faulty_of_answers {tokenOf : String → Option Ident} (c : Call) (w : Setup.World)
    (r : c.Reply) (h : answers tokenOf c w r) : faultyAnswers tokenOf c w r := by
  cases c with
  | net => exact .inl h
  | query q => exact .inl h

/-- An active token of the environment, whose private key its holder has. -/
structure Issued (S : Setup) (tokenOf : String → Option Ident) (token : MachineToken)
    (id : Ident) : Prop where
  prefixed : tokenPrefix.toList <+: token.apiToken
  plain : ∀ c ∈ token.apiToken, c.isAlphanum = true ∨ c = '_'
  owner : tokenOf (String.ofList token.apiToken) = some id
  row : ∃ t, S.db.machineTokens.lookup id = some t ∧ t.envId = S.envId ∧
    t.publicKey = token.keypair.public ∧ t.revoked = false

theorem dropWhile_of_forall {p : Char → Bool} {s : List Char} (h : ∀ c ∈ s, p c = false) :
    s.dropWhile p = s := by
  cases s with
  | nil => rfl
  | cons c s => exact List.dropWhile_cons_of_neg (by simp [h c List.mem_cons_self])

theorem tokenFromHeaders_bearer {token : List Char} (hne : token ≠ [])
    (hplain : ∀ c ∈ token, c.isAlphanum = true ∨ c = '_') (cookies : List String) :
    Auth.tokenFromHeaders ⟨some ("Bearer " ++ String.ofList token), cookies⟩ =
      some (String.ofList token) := by
  have hblank : ∀ c ∈ token, c.isWhitespace = false := by
    intro c hc
    by_contra hwhite
    simp only [Char.isWhitespace, Bool.not_eq_false, Bool.or_eq_true, decide_eq_true_eq] at hwhite
    rcases hplain c hc with hword | rfl
    · have hlow := (Dotenv.toNat_of_isAlphanum hword).1
      rcases hwhite with ((rfl | rfl) | rfl) | rfl <;> exact absurd hlow (by decide)
    · exact absurd hwhite (by decide)
  have htrim : Auth.trim token = token := by
    rw [Auth.trim, dropWhile_of_forall hblank, dropWhile_of_forall, List.reverse_reverse]
    exact fun c hc => hblank c (List.mem_reverse.1 hc)
  have hstrip : Auth.stripPrefix "Bearer ".toList ("Bearer " ++ String.ofList token).toList =
      some token := by
    simp [Auth.stripPrefix]
  have hfilter : Option.filter (fun t => decide (t ≠ [])) (some token) = some token := by
    simp [Option.filter, hne]
  unfold Auth.tokenFromHeaders
  simp only [Option.bind_some, hstrip, Option.map_some, htrim, hfilter]

namespace Issued

variable {S : Setup} {tokenOf : String → Option Ident} {token : MachineToken} {id : Ident}
  {s : Shared}

theorem ne_nil (h : Issued S tokenOf token id) : token.apiToken ≠ [] := by
  intro hnil
  have hprefix := h.prefixed
  rw [hnil, List.prefix_nil] at hprefix
  exact absurd hprefix (by decide)

theorem tokenFromHeaders_eq (h : Issued S tokenOf token id) :
    Auth.tokenFromHeaders ⟨some ("Bearer " ++ String.ofList token.apiToken), []⟩ =
      some (String.ofList token.apiToken) :=
  tokenFromHeaders_bearer h.ne_nil h.plain []

/-- The row of the token, which seals the current vault key to it. -/
theorem lookup (h : Issued S tokenOf token id) (ht : s.Tokened S) :
    ∃ t key ephemeral, s.db.machineTokens.lookup id = some t ∧ t.envId = S.envId ∧
      t.revoked = false ∧ s.keys.head? = some key ∧
      t.encVaultKey = .sealedBox token.keypair.public ephemeral key := by
  obtain ⟨t, hrow, henv, hpublic, hactive⟩ := h.row
  have hidentity := ht.tokens id
  rw [hrow] at hidentity
  obtain ⟨t', hrow', heq⟩ := Option.map_eq_some_iff.1 hidentity
  simp only [Server.MachineToken.identity, Prod.mk.injEq] at heq
  obtain ⟨henv', hpublic', hrevoked'⟩ := heq
  rw [henv] at henv'
  rw [hactive] at hrevoked'
  rw [hpublic] at hpublic'
  obtain ⟨key, ephemeral, hhead, hkey⟩ := ht.sealed id t' hrow' henv' hrevoked'
  rw [hpublic'] at hkey
  exact ⟨t', key, ephemeral, hrow', henv', hrevoked', hhead, hkey⟩

/-- The token names its environment as long as the organisation is in force. -/
theorem read_machine (h : Issued S tokenOf token id) (ht : s.Tokened S) :
    (Query.machine (String.ofList token.apiToken)).read tokenOf s.db =
      if inForce S.db S.orgId then some (id, S.envId) else none := by
  obtain ⟨t, _, _, hrow, henv, hactive, -⟩ := h.lookup ht
  obtain ⟨encName, henvironment⟩ := S.environment
  obtain ⟨ownerId, projectName, hproject⟩ := S.project
  have hlookup := ht.access.environments S.envId
  rw [henvironment] at hlookup
  obtain ⟨env, henv', hprojectId⟩ := Option.map_eq_some_iff.1 hlookup
  rw [← henv] at henv'
  rw [← ht.access.projects, ← show env.projectId = S.projectId from hprojectId] at hproject
  have horgs : inForce s.db S.orgId = inForce S.db S.orgId := by
    rw [inForce, inForce, ht.access.organizations]
  simp [Query.read, h.owner, hrow, henv, henv', hproject, hactive, horgs]

theorem read_sealedKey (h : Issued S tokenOf token id) (ht : s.Tokened S) :
    ∃ key ephemeral, s.keys.head? = some key ∧
      (Query.sealedKey id).read tokenOf s.db =
        some (.sealedBox token.keypair.public ephemeral key) := by
  obtain ⟨t, key, ephemeral, hrow, -, hactive, hhead, hkey⟩ := h.lookup ht
  exact ⟨key, ephemeral, hhead, by simp [Query.read, hrow, hactive, hkey]⟩

end Issued

theorem received_eq_ok {α : Type} {answer : Except Rejection α} {a : α} :
    received answer = .ok a ↔ answer = .ok a := by
  cases answer with
  | ok b => simp [received]
  | error e => cases e <;> simp [received]

/-- The answers of a system that stands still. -/
def still (tokenOf : String → Option Ident) (w : Setup.World) : (c : Call) → c.Reply
  | .net => .ok ()
  | .query q => .ok (q.read tokenOf w.shared.db)

theorem answers_still {tokenOf : String → Option Ident} {w : Setup.World} (c : Call) :
    answers tokenOf c w (still tokenOf w c) := by
  cases c <;> rfl

/-- What a program of a machine returns when nothing else happens. -/
def atRest {α : Type} (tokenOf : String → Option Ident) (w : Setup.World) (p : Fetch α) :
    Except Cli.Error α :=
  (p.run.run (fun c (u : Unit) => (still tokenOf w c, u)) ()).1

theorem watches_atRest {tokenOf : String → Option Ident} {w : Setup.World} {α : Type}
    {step : Setup.World → Setup.World → Prop} (p : Fetch α) :
    WatchesE step (answers tokenOf) p w w (atRest tokenOf w p) :=
  watches_run answers_still p.run

/-! ### What the requests answer -/

section Requests

variable {S : Setup} {tokenOf : String → Option Ident} {w w' : Setup.World} {token : MachineToken}
  {id : Ident} {step : Setup.World → Setup.World → Prop} {α : Type}

theorem read_of_watches {q : Query} {a : q.Reply}
    (h : WatchesE step (faultyAnswers tokenOf) (ask q) w w' (.ok a)) :
    ∃ w₁, ReflTransGen step w w₁ ∧ q.read tokenOf w₁.shared.db = a ∧ ReflTransGen step w₁ w' := by
  obtain ⟨w₁, hw₁, ha, hw'⟩ := watches_perform.1 h
  rcases ha with ha | ha
  · exact ⟨w₁, hw₁, (Except.ok.inj ha).symm, hw'⟩
  · cases ha

theorem watchesE_ofExcept {answers : (c : Call) → Setup.World → c.Reply → Prop}
    {x result : Except Cli.Error α} :
    WatchesE step answers (ofExcept x) w w' result ↔ ReflTransGen step w w' ∧ x = result := Iff.rfl

theorem watches_okOr {answers : (c : Call) → Setup.World → c.Reply → Prop} {a : Option α} {b : α}
    {e : Rejection} (h : WatchesE step answers (okOr a e) w w' (.ok b)) :
    a = some b ∧ ReflTransGen step w w' := by
  cases a with
  | none => cases (watchesE_throw.1 h).2
  | some a =>
      obtain ⟨hw, ha⟩ := watchesE_pure.1 h
      rw [Except.ok.inj ha]
      exact ⟨rfl, hw⟩

theorem watches_machineAuth {headers : Auth.Headers} {machine : MachineAuth}
    (h : WatchesE step (faultyAnswers tokenOf) (machineAuth headers) w w' (.ok machine)) :
    ∃ token w₁, Auth.tokenFromHeaders headers = some token ∧ ReflTransGen step w w₁ ∧
      (Query.machine token).read tokenOf w₁.shared.db = some (machine.tokenId, machine.envId) ∧
      ReflTransGen step w₁ w' := by
  obtain ⟨w₁, token, hbearer, h₁⟩ := watchesE_bind_eq_ok.1 h
  obtain ⟨hbearer, hw₁⟩ := watches_okOr hbearer
  split at h₁
  · obtain ⟨_, _, hthrow, -⟩ := watchesE_bind_eq_ok.1 h₁
    cases (watchesE_throw.1 hthrow).2
  · obtain ⟨w₂, row, hrow, h₂⟩ := watchesE_bind_eq_ok.1 h₁
    obtain ⟨w₃, hw₃, hread, hw₂⟩ := read_of_watches hrow
    obtain ⟨w₄, row', hrow', h₄⟩ := watchesE_bind_eq_ok.1 h₂
    obtain ⟨rfl, hw₄⟩ := watches_okOr hrow'
    obtain ⟨hw', heq⟩ := watchesE_pure.1 h₄
    obtain rfl := Except.ok.inj heq
    exact ⟨token, w₃, hbearer, hw₁.trans hw₃, hread, hw₂.trans (hw₄.trans hw')⟩

theorem watches_get {request : Auth.Headers → Handler α} {a : α}
    (h : WatchesE step (faultyAnswers tokenOf) (get request token) w w' (.ok a)) :
    ∃ w₁ w₂, ReflTransGen step w w₁ ∧ WatchesE step (faultyAnswers tokenOf)
      (request ⟨some ("Bearer " ++ String.ofList token.apiToken), []⟩) w₁ w₂ (.ok a) ∧
      ReflTransGen step w₂ w' := by
  obtain ⟨w₁, _, hsend, h₁⟩ := watchesE_bind_eq_ok.1 h
  obtain ⟨w₂, answer, hanswer, h₂⟩ := watchesE_bind_eq_ok.1 h₁
  obtain ⟨w₃, _, hreceive, h₃⟩ := watchesE_bind_eq_ok.1 h₂
  obtain ⟨answer', hrun, heq⟩ := watchesE_lift.1 hanswer
  obtain rfl := Except.ok.inj heq
  obtain ⟨hw', heq⟩ := watchesE_ofExcept.1 h₃
  obtain rfl := received_eq_ok.1 heq
  exact ⟨w₁, w₂, Watches.steps hsend, hrun, (Watches.steps hreceive).trans hw'⟩

end Requests

/-! ### The grant and the rows -/

section Reading

variable {S : Setup} {tokenOf : String → Option Ident} {w w' : Setup.World} {token : MachineToken}
  {id : Ident} {step : Setup.World → Setup.World → Prop} {headers : Auth.Headers}

theorem auth_of_watches (hissued : Issued S tokenOf token id)
    (hinv : ∀ v, ReflTransGen step w v → v.shared.Tokened S)
    (hheaders : Auth.tokenFromHeaders headers = some (String.ofList token.apiToken))
    {machine : MachineAuth}
    (h : WatchesE step (faultyAnswers tokenOf) (machineAuth headers) w w' (.ok machine)) :
    machine = ⟨id, S.envId⟩ := by
  obtain ⟨text, w₁, htext, hw₁, hread, -⟩ := watches_machineAuth h
  obtain rfl := Option.some.inj (hheaders.symm.trans htext)
  rw [hissued.read_machine (hinv w₁ hw₁)] at hread
  split at hread
  · cases machine
    obtain ⟨rfl, rfl⟩ := Prod.mk.inj (Option.some.inj hread)
    rfl
  · cases hread

/-- The grant that a machine gets seals the vault key that is current at some moment of the
request. -/
theorem grant_of_watches (hissued : Issued S tokenOf token id)
    (hinv : ∀ v, ReflTransGen step w v → v.shared.Tokened S)
    (hheaders : Auth.tokenFromHeaders headers = some (String.ofList token.apiToken))
    {grant : MachineGrant}
    (h : WatchesE step (faultyAnswers tokenOf) (machineGrant headers) w w' (.ok grant)) :
    ∃ w₁ key ephemeral, ReflTransGen step w w₁ ∧ ReflTransGen step w₁ w' ∧
      w₁.shared.keys.head? = some key ∧
      grant = ⟨S.envId, Server.encode (.sealedBox token.keypair.public ephemeral key)⟩ := by
  obtain ⟨w₁, machine, hauth, h₁⟩ := watchesE_bind_eq_ok.1 h
  obtain rfl := auth_of_watches hissued hinv hheaders hauth
  obtain ⟨w₂, sealed, hsealed, h₂⟩ := watchesE_bind_eq_ok.1 h₁
  obtain ⟨w₃, hw₃, hread, hw₂⟩ := read_of_watches hsealed
  obtain ⟨w₄, box, hbox, h₄⟩ := watchesE_bind_eq_ok.1 h₂
  obtain ⟨rfl, hw₄⟩ := watches_okOr hbox
  obtain ⟨hw', heq⟩ := watchesE_pure.1 h₄
  obtain rfl := Except.ok.inj heq
  have hw := (Watches.steps hauth).trans hw₃
  obtain ⟨key, ephemeral, hhead, hkey⟩ := hissued.read_sealedKey (hinv w₃ hw)
  obtain rfl := Option.some.inj (hread.symm.trans hkey)
  exact ⟨w₃, key, ephemeral, hw, hw₂.trans (hw₄.trans hw'), hhead, rfl⟩

/-- The secrets that a machine gets are the rows at some moment of the request. -/
theorem rows_of_watches (hissued : Issued S tokenOf token id)
    (hinv : ∀ v, ReflTransGen step w v → v.shared.Tokened S)
    (hheaders : Auth.tokenFromHeaders headers = some (String.ofList token.apiToken))
    {snapshot : Api.Snapshot}
    (h : WatchesE step (faultyAnswers tokenOf) (machineSecrets headers) w w' (.ok snapshot)) :
    ∃ w₁, ReflTransGen step w w₁ ∧ ReflTransGen step w₁ w' ∧
      snapshot.secrets = (w₁.shared.db.secretsOf S.envId).map Server.secretView := by
  obtain ⟨w₁, machine, hauth, h₁⟩ := watchesE_bind_eq_ok.1 h
  obtain rfl := auth_of_watches hissued hinv hheaders hauth
  obtain ⟨w₂, revision, hrevision, h₂⟩ := watchesE_bind_eq_ok.1 h₁
  obtain ⟨w₃, _, hok, h₃⟩ := watchesE_bind_eq_ok.1 h₂
  obtain ⟨w₄, rows, hrows, h₄⟩ := watchesE_bind_eq_ok.1 h₃
  obtain ⟨w₅, hw₅, rfl, hw₄⟩ := read_of_watches hrows
  obtain ⟨hw', heq⟩ := watchesE_pure.1 h₄
  obtain rfl := Except.ok.inj heq
  exact ⟨w₅, (Watches.steps hauth).trans ((Watches.steps hrevision).trans
    ((Watches.steps hok).trans hw₅)), hw₄.trans hw', rfl⟩

end Reading

/-! ### Decryption -/

/-- The live secrets of the environment. -/
def live (S : Setup) (s : Shared) : List (Ident × Server.Secret) :=
  (s.db.secretsOf S.envId).filter fun row => !row.2.deleted

/-- The name and the value that a row seals, under some vault key. -/
def Contains (S : Setup) (row : Ident × Server.Secret) (entry : String × Bytes) : Prop :=
  ∃ key, Core.Vault.Opens key S.envId row.1 row.2.version (Cli.Vault.nameBytes entry.1) entry.2
    row.2.enc

/-- The entries are those of the live secrets, sorted by name. -/
structure Reads (S : Setup) (s : Shared) (entries : List (String × Bytes)) : Prop where
  sorted : entries.Pairwise fun a b => a.1 ≤ b.1
  contents : ∃ contents, List.Forall₂ (Contains S) (live S s) contents ∧ entries.Perm contents

/-- Every live secret is sealed under the key. -/
def LiveUnder (S : Setup) (key : Bytes) (s : Shared) : Prop :=
  ∀ row ∈ live S s, ∃ entry : String × Bytes, Core.Vault.Opens key S.envId row.1 row.2.version
    (Cli.Vault.nameBytes entry.1) entry.2 row.2.enc

/-- A live secret as a device stores it. -/
def stored (S : Setup) (row : Ident × Server.Secret) : Ident × SecretRow :=
  (row.1, localRow S.envId row.2)

/-- The live secrets, decrypted under a vault key. -/
def decrypted (S : Setup) (key : Bytes) (s : Shared) : Except Cli.Error (List (String × Bytes)) :=
  ((live S s).mapM fun row => (⟨S.envId, key⟩ : Cli.Vault).decryptEntry (stored S row).1
    (stored S row).2).map fun entries => entries.mergeSort fun a b => decide (a.1 ≤ b.1)

section Decryption

variable {S : Setup} {s : Shared} {key : Bytes} {row : Ident × Server.Secret}
  {entry : String × Bytes} {entries : List (String × Bytes)} {keypair : Keypair}
  {ephemeral : Seed × Nat} {revision : Int}

/-- A machine decrypts a row as a device does. -/
theorem decryptEntry_secretView (row : Ident × Server.Secret) :
    decryptEntry key S.envId (Server.secretView row) =
      (⟨S.envId, key⟩ : Cli.Vault).decryptEntry (stored S row).1 (stored S row).2 := rfl

theorem decryptEntries_eq (hlen : key.len = keyLen) :
    decryptEntries keypair
        ⟨S.envId, Server.encode (.sealedBox keypair.public ephemeral key)⟩
        ⟨revision, (s.db.secretsOf S.envId).map Server.secretView⟩ =
      decrypted S key s := by
  have hkey : Error.ofCore (Core.Vault.openVaultKey keypair
      (.sealedBox keypair.public ephemeral key)) = .ok key :=
    Error.ofCore_eq_ok.2 (Core.Vault.openVaultKey_grantVaultKey ephemeral keypair hlen)
  have hlive : ((s.db.secretsOf S.envId).map Server.secretView).filter (fun s => !s.deleted) =
      (live S s).map Server.secretView := by
    rw [List.filter_map]
    rfl
  refine (Checked.bind_of_ok rfl).trans ((Checked.bind_of_ok hkey).trans ?_)
  have hdecrypt : decryptEntry key S.envId ∘ Server.secretView = fun row =>
      (⟨S.envId, key⟩ : Cli.Vault).decryptEntry (stored S row).1 (stored S row).2 :=
    funext decryptEntry_secretView
  rw [hlive, List.mapM_map, hdecrypt, decrypted]
  generalize (live S s).mapM (fun row => (⟨S.envId, key⟩ : Cli.Vault).decryptEntry
    (stored S row).1 (stored S row).2) = result
  cases result <;> rfl

/-- A row seals one entry. -/
theorem contains_of_decryptEntry (hsealed : Sealed S s.created row.1 row.2.version row.2.enc)
    (h : (⟨S.envId, key⟩ : Cli.Vault).decryptEntry (stored S row).1 (stored S row).2 = .ok entry) :
    Core.Vault.Opens key S.envId row.1 row.2.version (Cli.Vault.nameBytes entry.1) entry.2
      row.2.enc := by
  obtain ⟨key', name, value, -, hopens⟩ := hsealed
  obtain ⟨⟨nameBytes, value'⟩, hsecret, hrest⟩ := Cli.bind_eq_ok.1 h
  obtain ⟨name', hname, hentry⟩ := Cli.bind_eq_ok.1 hrest
  obtain rfl : (name', value') = entry := Except.ok.inj hentry
  rw [Error.ofCore_eq_ok] at hsecret
  obtain ⟨dataKey, hunwrap, -⟩ := Checked.bind_eq_ok.1 hsecret
  obtain rfl := hopens.unwrapDataKey_eq_ok hunwrap
  obtain ⟨rfl, rfl⟩ := Prod.mk.inj (Except.ok.inj (hopens.decryptSecret_eq.symm.trans hsecret))
  rw [fromUtf8_nameBytes] at hname
  obtain rfl := Except.ok.inj hname
  exact hopens

theorem decryptEntry_of_opens (h : Core.Vault.Opens key S.envId row.1 row.2.version
    (Cli.Vault.nameBytes entry.1) entry.2 row.2.enc) :
    (⟨S.envId, key⟩ : Cli.Vault).decryptEntry (stored S row).1 (stored S row).2 = .ok entry :=
  Cli.bind_eq_ok.2 ⟨_, Error.ofCore_eq_ok.2 h.decryptSecret_eq,
    Cli.bind_eq_ok.2 ⟨entry.1, fromUtf8_nameBytes entry.1, rfl⟩⟩

theorem Contains.unique {entry' : String × Bytes} (h : Contains S row entry)
    (h' : Contains S row entry') : entry = entry' := by
  obtain ⟨key, h⟩ := h
  obtain ⟨key', h'⟩ := h'
  obtain ⟨dataKey, hunwrap, -⟩ := h'.unwrapDataKey_eq
  obtain rfl := h.unwrapDataKey_eq_ok hunwrap
  exact Except.ok.inj ((decryptEntry_of_opens h).symm.trans (decryptEntry_of_opens h'))

theorem mem_live {row : Ident × Server.Secret} (h : row ∈ live S s) :
    s.db.secrets.lookup row.1 = some row.2 :=
  (mem_secretsOf.1 (List.mem_of_mem_filter h)).1

theorem sorted_mergeSort (entries : List (String × Bytes)) :
    (entries.mergeSort fun a b => decide (a.1 ≤ b.1)).Pairwise fun a b => a.1 ≤ b.1 := by
  refine (List.pairwise_mergeSort (fun a b c hab hbc => ?_) (fun a b => ?_) entries).imp
    of_decide_eq_true
  · simpa using le_trans (of_decide_eq_true hab) (of_decide_eq_true hbc)
  · simpa using le_total a.1 b.1

/-- What is decrypted are the entries of the live secrets, all sealed under the key. -/
theorem reads_of_decrypted (hs : s.Sound S) (h : decrypted S key s = .ok entries) :
    Reads S s entries ∧ LiveUnder S key s := by
  unfold decrypted at h
  cases hmap : (live S s).mapM fun row => (⟨S.envId, key⟩ : Cli.Vault).decryptEntry
      (stored S row).1 (stored S row).2 with
  | error e =>
      rw [hmap] at h
      cases h
  | ok contents =>
      rw [hmap] at h
      obtain rfl := Except.ok.inj h
      have hopens : ∀ row ∈ live S s, ∀ entry : String × Bytes,
          (⟨S.envId, key⟩ : Cli.Vault).decryptEntry (stored S row).1 (stored S row).2 =
            .ok entry → Core.Vault.Opens key S.envId row.1 row.2.version
              (Cli.Vault.nameBytes entry.1) entry.2 row.2.enc :=
        fun row hrow entry hentry =>
          contains_of_decryptEntry (hs.rows row.1 row.2 (mem_live hrow)).2 hentry
      refine ⟨⟨sorted_mergeSort contents, contents, ?_, List.mergeSort_perm _ _⟩, ?_⟩
      · have hall := Checked.mapM_eq_ok_iff.1 hmap
        exact ((List.forall₂_and_left _ _).2 ⟨fun row hrow => hrow, hall⟩).imp
          fun row entry h => ⟨key, hopens row h.1 entry h.2⟩
      · intro row hrow
        obtain ⟨entry, -, hentry⟩ := Checked.exists_of_mapM hmap hrow
        exact ⟨entry, hopens row hrow entry hentry⟩

end Decryption

/-! ### Fetching -/

section Fetching

variable {S : Setup} {tokenOf : String → Option Ident} {w w' : Setup.World} {token : MachineToken}
  {id : Ident} {step : Setup.World → Setup.World → Prop}

theorem len_of_head {s : Shared} {key : Bytes} (hs : s.Sound S) (h : s.keys.head? = some key) :
    key.len = keyLen := by
  obtain ⟨seed, rfl⟩ := hs.keys key (List.mem_of_mem_head? h)
  rfl

/-- The two requests of a machine: the grant seals the vault key of one moment, and the rows are
those of a later one. -/
theorem decryptEntries_of_gets (hissued : Issued S tokenOf token id)
    (hinv : ∀ v, ReflTransGen step w v → v.shared.Sound S ∧ v.shared.Tokened S)
    {w₂ : Setup.World} {grant : MachineGrant} {snapshot : Api.Snapshot}
    (hgrant : WatchesE step (faultyAnswers tokenOf) (get machineGrant token) w w₂ (.ok grant))
    (hsnapshot : WatchesE step (faultyAnswers tokenOf) (get machineSecrets token) w₂ w'
      (.ok snapshot)) :
    ∃ w₀ w₁ key, ReflTransGen step w w₀ ∧ ReflTransGen step w₀ w₁ ∧ ReflTransGen step w₁ w' ∧
      w₀.shared.keys.head? = some key ∧
      decryptEntries token.keypair grant snapshot = decrypted S key w₁.shared := by
  obtain ⟨u₁, u₂, hu₁, hgrant, hu₂⟩ := watches_get hgrant
  obtain ⟨v₁, v₂, hv₁, hsnapshot, hv₂⟩ := watches_get hsnapshot
  obtain ⟨w₀, key, ephemeral, hw₀, hw₀', hhead, rfl⟩ := grant_of_watches hissued
    (fun v hv => (hinv v (hu₁.trans hv)).2) hissued.tokenFromHeaders_eq hgrant
  have hgrants : ReflTransGen step w v₁ := hu₁.trans (hw₀.trans (hw₀'.trans (hu₂.trans hv₁)))
  obtain ⟨w₁, hw₁, hw₁', hrows⟩ := rows_of_watches hissued
    (fun v hv => (hinv v (hgrants.trans hv)).2) hissued.tokenFromHeaders_eq hsnapshot
  obtain ⟨revision, secrets⟩ := snapshot
  obtain rfl : secrets = _ := hrows
  exact ⟨w₀, w₁, key, hu₁.trans hw₀, hw₀'.trans (hu₂.trans (hv₁.trans hw₁)), hw₁'.trans hv₂,
    hhead, decryptEntries_eq (len_of_head (hinv w₀ (hu₁.trans hw₀)).1 hhead)⟩

theorem fetched_of_watches (hissued : Issued S tokenOf token id)
    (hinv : ∀ v, ReflTransGen step w v → v.shared.Sound S ∧ v.shared.Tokened S)
    {entries : List (String × Bytes)}
    (h : WatchesE step (faultyAnswers tokenOf) (fetchEntries token) w w' (.ok entries)) :
    ∃ w₀ w₁ key, ReflTransGen step w w₀ ∧ ReflTransGen step w₀ w₁ ∧ ReflTransGen step w₁ w' ∧
      w₀.shared.keys.head? = some key ∧ decrypted S key w₁.shared = .ok entries := by
  obtain ⟨w₂, grant, hgrant, h₂⟩ := watchesE_bind_eq_ok.1 h
  obtain ⟨w₃, snapshot, hsnapshot, h₃⟩ := watchesE_bind_eq_ok.1 h₂
  obtain ⟨hw', hentries⟩ := watchesE_ofExcept.1 h₃
  obtain ⟨w₀, w₁, key, hw₀, hw₁, hw₃, hhead, heq⟩ :=
    decryptEntries_of_gets hissued hinv hgrant hsnapshot
  exact ⟨w₀, w₁, key, hw₀, hw₁, hw₃.trans hw', hhead, heq ▸ hentries⟩

end Fetching

end Machine

end Sotto
