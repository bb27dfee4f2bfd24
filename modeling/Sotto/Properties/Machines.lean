import Sotto.Properties.KeyText
import Sotto.Properties.Keyed
import Sotto.Properties.MachineReads

/-!
# What a machine reads

A machine reads its sealed vault key and the secrets in two requests while the devices go on. If it
gets entries, they are those of the live secrets at the moment at which the rows were read; it
fails if the vault key that it opened is not the one that they are sealed under.
-/

namespace Sotto

open Core Cli

/-! ### A team with a machine -/

namespace Team

/-- The private key of a machine. -/
def machineSecret : List UInt8 := List.replicate 32 7

/-- A token of the team's environment. -/
def machineToken : Machine.MachineToken :=
  ⟨"smt_ci".toList, Machine.keypairFromSecret machineSecret⟩

def tokenId : Ident := .text "ci"

def tokenOf (token : String) : Option Ident :=
  if token = String.ofList machineToken.apiToken then some tokenId else none

/-- The team's environment with a machine token. -/
def automated : Setup :=
  { setup with
    db := { db with
      machineTokens := AList.insert tokenId ⟨envId, machineToken.keypair.public,
        .sealedBox machineToken.keypair.public (⟨0, 3⟩, 1) (.random vaultKey 0), false⟩ ∅ }
    environment := setup.environment
    project := setup.project
    secrets := setup.secrets
    secretVersions := setup.secretVersions
    accounts := setup.accounts
    initialised := setup.initialised
    grants := setup.grants
    granted := setup.granted }

theorem tokensSealed_automated : automated.TokensSealed := by
  intro id t ht _ _
  have ht : (AList.insert tokenId _ (∅ : Table Ident Server.MachineToken)).lookup id = some t := ht
  rw [Table.lookup_insert] at ht
  split at ht
  · obtain rfl := Option.some.inj ht
    exact ⟨_, rfl⟩
  · cases ht

theorem issued_automated : Machine.Issued automated tokenOf machineToken tokenId where
  prefixed := by decide
  plain c hc := by
    have hall : machineToken.apiToken.all (fun c => c.isAlphanum || c == '_') = true := by decide
    simpa using List.all_eq_true.1 hall c hc
  owner := by decide
  row := ⟨_, rfl, rfl, rfl, rfl⟩

/-- A device has set a secret and pushed it. -/
def pushedWorld : Setup.World :=
  automated.run (whole 0 (.set "X" value) ++ whole 0 .push) automated.init

end Team

namespace Machine

open Relation Prog

/-! ### Results -/

section Results

variable {S : Setup} {tokenOf : String → Option Ident} {token : MachineToken} {id : Ident}
  {w w' : Setup.World}

/-- Whatever the devices do, every active token of the environment is sealed to its public key
under the current vault key, as every grant is to its user. -/
theorem active_tokens_seal_current_key (hsealed : S.TokensSealed)
    (hw : S.system.Reaches S.init w) :
    ∀ id t, w.shared.db.machineTokens.lookup id = some t → t.envId = S.envId →
      t.revoked = false → ∃ key, w.shared.keys.head? = some key ∧
        (∀ keypair : Keypair, keypair.public = t.publicKey →
          Core.Vault.openVaultKey keypair t.encVaultKey = .ok key) ∧
        ∀ u grant, w.shared.db.grants.lookup (S.envId, u) = some grant →
          Core.Vault.openVaultKey (S.keypair u) grant = .ok key := by
  intro id t ht henv hactive
  obtain ⟨hs, htokened⟩ := tokened_of_reaches hsealed hw
  obtain ⟨key, ephemeral, hhead, hkey⟩ := htokened.sealed id t ht henv hactive
  have hlen := len_of_head hs hhead
  refine ⟨key, hhead, ?_, ?_⟩
  · intro keypair hpublic
    rw [hkey, ← hpublic]
    exact Core.Vault.openVaultKey_grantVaultKey ephemeral keypair hlen
  · intro u grant hgrant
    obtain ⟨ephemeral', key', rfl, hhead'⟩ := hs.grants u grant hgrant
    obtain rfl := Option.some.inj (hhead.symm.trans hhead')
    exact Core.Vault.openVaultKey_grantVaultKey ephemeral' _ hlen

/-- A device has rotated the key of the team. -/
theorem active_tokens_seal_current_key_rotated : ∃ (w : Setup.World) (key : Bytes),
    Team.automated.system.Reaches Team.automated.init w ∧ w.shared.keys.length = 2 ∧
      w.shared.keys.head? = some key ∧
      ∀ u grant, w.shared.db.grants.lookup (Team.automated.envId, u) = some grant →
        Core.Vault.openVaultKey (Team.automated.keypair u) grant = .ok key := by
  have hrow : ((Team.automated.run (Team.whole 1 .rotate)
      Team.automated.init).shared.db.machineTokens.lookup Team.tokenId).any
        (fun t => decide (t.envId = Team.automated.envId) && !t.revoked) = true := by
    decide +kernel
  obtain ⟨t, ht, hactive⟩ := (Option.any_eq_true _ _).1 hrow
  simp only [Bool.and_eq_true, decide_eq_true_eq, Bool.not_eq_true'] at hactive
  obtain ⟨key, hhead, -, hgrants⟩ := active_tokens_seal_current_key Team.tokensSealed_automated
    Setup.reaches_run Team.tokenId t ht hactive.1 hactive.2
  exact ⟨_, key, Setup.reaches_run, by decide +kernel, hhead, hgrants⟩

end Results

/-! ### The text of a token -/

section Text

variable {apiToken before after : List Char} {secret : List UInt8}

theorem isWhiteSpace_encodeKey : ∀ c ∈ Format.encodeKey keyPrefix keyVersion secret,
    Text.isWhiteSpace c = false := by
  have hhead : ∀ c ∈ Format.head keyPrefix keyVersion, Text.isWhiteSpace c = false :=
    fun c hc => by simpa using List.all_eq_true.1 (by decide : (Format.head keyPrefix
      keyVersion).all fun c => !Text.isWhiteSpace c) c hc
  have halphabet : ∀ c ∈ Format.crockfordAlphabet, Text.isWhiteSpace c = false :=
    fun c hc => by simpa using List.all_eq_true.1 (by decide : Format.crockfordAlphabet.all
      fun c => !Text.isWhiteSpace c) c hc
  intro c hc
  rcases List.mem_append.1 hc with hc | hc
  · exact hhead c hc
  · by_cases hhyphen : c = '-'
    · rw [hhyphen]
      rfl
    · have hfilter : c ∈ (Format.group (Format.encode (Format.checked keyPrefix keyVersion
          secret)) 5).filter (· ≠ '-') := List.mem_filter.2 ⟨hc, decide_eq_true hhyphen⟩
      rw [Format.filter_group (by decide), Format.filter_encode] at hfilter
      obtain ⟨ds, hencode, hds, -⟩ := Format.encode_spec (Format.checked keyPrefix keyVersion
        secret)
      rw [hencode] at hfilter
      obtain ⟨d, hd, rfl⟩ := List.mem_map.1 hfilter
      exact halphabet _ (Format.symbol_spec d (hds d hd)).2.2

/-- The text that a token is assembled to is parsed as that token, whatever blanks are around it. -/
theorem parseToken_assembleToken
    (hplain : ∀ c ∈ apiToken, c.isAlphanum = true ∨ c = '_') (hlen : secret.length = keyLen)
    (hbefore : ∀ c ∈ before, Text.isWhiteSpace c = true)
    (hafter : ∀ c ∈ after, Text.isWhiteSpace c = true) :
    parseToken (before ++ assembleToken apiToken secret ++ after) =
      .ok ⟨apiToken, keypairFromSecret secret⟩ := by
  have hword : ∀ c ∈ assembleToken apiToken secret, Text.isWhiteSpace c = false := by
    intro c hc
    rcases List.mem_append.1 hc with hc | hc
    · exact Dotenv.isWhiteSpace_of_word (hplain c hc)
    · rcases List.mem_cons.1 hc with rfl | hc
      · rfl
      · exact isWhiteSpace_encodeKey c hc
  have hdot : '.' ∉ apiToken := by
    intro hmem
    rcases hplain '.' hmem with hdot | hdot
    · exact absurd hdot (by decide)
    · exact absurd hdot (by decide)
  have hkey : Format.decodeKey keyPrefix keyVersion
      (Format.encodeKey keyPrefix keyVersion secret) = .ok secret := by
    refine Format.decodeKey_of_respells (Format.respells_iff.2 ?_)
    rw [Format.filter_group (by decide), Format.filter_encode]
    exact Format.spells_encode _
  rw [parseToken, Text.trim_between (by simp [assembleToken]) hword hbefore hafter, assembleToken,
    Text.splitOnce_append hdot]
  simp only [hkey, hlen, if_true]

end Text

/-! ### Running a command -/

/-- The environment of a command: the inherited one with the entries written over it. All entries
are texts, and their names are identifiers. -/
structure Overlays (inherited : String → Option String) (entries : List (String × Bytes))
    (environment : String → Option String) : Prop where
  identifiers : ∀ e ∈ entries, Export.isIdentifier e.1.toList = true
  injected : ∀ e ∈ entries, ∃ value, environment e.1 = some value ∧
    (e.1, Cli.Vault.nameBytes value) ∈ entries
  inherited : ∀ name ∉ entries.map Prod.fst, environment name = inherited name

section Running

variable {debug : List Char → String} {command command' : Command}
  {entries : List (String × Bytes)} {texts : List (String × String)} {process : Process}

theorem eq_nameBytes_of_fromUtf8 {bytes : Bytes} {text : String}
    (h : Cli.Vault.fromUtf8 bytes = .ok text) : bytes = Cli.Vault.nameBytes text := by
  cases bytes with
  | raw bytes =>
      simp only [Cli.Vault.fromUtf8] at h
      unfold String.fromUTF8? at h
      split at h
      · next text' htext =>
          split at htext
          · obtain rfl := Option.some.inj htext
            obtain rfl := Except.ok.inj h
            rfl
          · cases htext
      · cases h
  | _ => cases h

theorem textEntry_eq_ok {entry : String × Bytes} {text : String × String}
    (h : textEntry entry = .ok text) : entry = (text.1, Cli.Vault.nameBytes text.2) := by
  unfold textEntry at h
  split at h
  · next value hvalue =>
      obtain rfl := Except.ok.inj h
      exact Prod.ext rfl (eq_nameBytes_of_fromUtf8 hvalue)
  · cases h

theorem entries_of_texts (h : entries.mapM textEntry = .ok texts) :
    entries = texts.map fun text => (text.1, Cli.Vault.nameBytes text.2) := by
  refine List.forall₂_eq_eq_eq ▸ List.forall₂_map_right_iff.2 ?_
  exact (Checked.mapM_eq_ok_iff.1 h).imp fun entry text hentry => textEntry_eq_ok hentry

theorem inject_eq_ok (h : inject debug command texts = .ok command') :
    command'.program = command.program ∧ command'.args = command.args ∧
      (∀ text ∈ texts, Export.isIdentifier text.1.toList = true) ∧
      (∀ text ∈ texts, ∃ value, command'.environment text.1 = some value ∧
        (text.1, value) ∈ texts) ∧
      ∀ name ∉ texts.map Prod.fst, command'.environment name = command.environment name := by
  induction texts generalizing command with
  | nil =>
      obtain rfl := Except.ok.inj h
      simp
  | cons text texts ih =>
      obtain ⟨name, value⟩ := text
      unfold inject at h
      cases hkey : Export.validateEnvKey debug name.toList with
      | error e =>
          rw [hkey] at h
          cases e
          cases h
      | ok u =>
          rw [hkey] at h
          have hrest : inject debug (command.env name value) texts = .ok command' := h
          obtain ⟨hprogram, hargs, hidentifiers, hinjected, hkept⟩ := ih hrest
          refine ⟨hprogram, hargs, ?_, ?_, ?_⟩
          · refine List.forall_mem_cons.2 ⟨?_, hidentifiers⟩
            unfold Export.validateEnvKey at hkey
            split at hkey
            · assumption
            · cases hkey
          · intro text htext
            by_cases hlater : text.1 ∈ texts.map Prod.fst
            · obtain ⟨later, hmem, heq⟩ := List.mem_map.1 hlater
              obtain ⟨value', hvalue, hentry⟩ := hinjected later hmem
              rw [heq] at hvalue hentry
              exact ⟨value', hvalue, List.mem_cons_of_mem _ hentry⟩
            · rcases List.mem_cons.1 htext with rfl | htext
              · refine ⟨value, ?_, List.mem_cons_self⟩
                rw [hkept name hlater]
                exact Function.update_self ..
              · exact absurd (List.mem_map_of_mem htext) hlater
          · intro other hother
            rw [List.map_cons, List.mem_cons, not_or] at hother
            rw [hkept other hother.2]
            exact Function.update_of_ne hother.1 ..

theorem overlays_of_runWithEntries {args : List String} {command : Command}
    (htexts : entries.mapM textEntry = .ok texts)
    (h : runWithEntries process texts args = .ok command) :
    command.program :: command.args = args ∧
      Overlays process.environment entries command.environment := by
  cases args with
  | nil => cases h
  | cons program args =>
      obtain ⟨hprogram, hargs, hidentifiers, hinjected, hkept⟩ := inject_eq_ok h
      rw [hprogram, hargs]
      refine ⟨rfl, ?_, ?_, ?_⟩
      · rw [entries_of_texts htexts]
        exact List.forall_mem_map.2 hidentifiers
      · rw [entries_of_texts htexts]
        refine List.forall_mem_map.2 fun text htext => ?_
        obtain ⟨value, hvalue, hmem⟩ := hinjected text htext
        exact ⟨value, hvalue, List.mem_map.2 ⟨_, hmem, rfl⟩⟩
      · intro name hname
        refine hkept name ?_
        rwa [entries_of_texts htexts, List.map_map] at hname

/-- A command that is run with the text of a token while the devices go on gets the inherited
environment, and over it exactly the live secrets of one moment of the run. -/
theorem run_overlays_live_secrets {S : Setup} {tokenOf : String → Option Ident} {id : Ident}
    {apiToken before after text : List Char} {secret : List UInt8} {w w' : Setup.World}
    {args : List String} (hsealed : S.TokensSealed)
    (hissued : Issued S tokenOf ⟨apiToken, keypairFromSecret secret⟩ id)
    (hlen : secret.length = keyLen)
    (htext : text = before ++ assembleToken apiToken secret ++ after)
    (hbefore : ∀ c ∈ before, Text.isWhiteSpace c = true)
    (hafter : ∀ c ∈ after, Text.isWhiteSpace c = true) (hw : S.system.Reaches S.init w)
    (h : WatchesE S.system.Step (faultyAnswers tokenOf)
      (machineRun process text args) w w' (.ok command)) :
    command.program :: command.args = args ∧ ∃ w₁ entries, S.system.Reaches w w₁ ∧
      S.system.Reaches w₁ w' ∧ Reads S w₁.shared entries ∧
      Overlays process.environment entries command.environment := by
  obtain ⟨w₂, texts, htexts, h₂⟩ := watchesE_bind_eq_ok.1 h
  obtain ⟨hw', hcommand⟩ := watchesE_ofExcept.1 h₂
  obtain ⟨w₃, token, htoken, h₃⟩ := watchesE_bind_eq_ok.1 htexts
  obtain ⟨hw₃, htoken⟩ := watchesE_ofExcept.1 htoken
  rw [htext, parseToken_assembleToken hissued.plain hlen hbefore hafter] at htoken
  obtain rfl := Except.ok.inj htoken
  obtain ⟨w₄, _, hserver, h₄⟩ := watchesE_bind_eq_ok.1 h₃
  obtain ⟨w₅, entries, hentries, h₅⟩ := watchesE_bind_eq_ok.1 h₄
  obtain ⟨hw₂, htexts⟩ := watchesE_ofExcept.1 h₅
  have hw₄ : S.system.Reaches w w₄ := hw₃.trans (Watches.steps hserver)
  have hinv : ∀ v, ReflTransGen S.system.Step w₄ v → v.shared.Sound S ∧ v.shared.Tokened S :=
    fun v hv => tokened_of_reaches hsealed (hw.trans (hw₄.trans hv))
  obtain ⟨w₀, w₁, key, hw₀, hw₁, hw₁', -, hdecrypted⟩ := fetched_of_watches hissued hinv hentries
  obtain ⟨hargs, hoverlays⟩ := overlays_of_runWithEntries htexts hcommand
  exact ⟨hargs, w₁, entries, hw₄.trans (hw₀.trans hw₁), hw₁'.trans (hw₂.trans hw'),
    (reads_of_decrypted (hinv w₁ (hw₀.trans hw₁)).1 hdecrypted).1, hoverlays⟩

/-- A process that names its server. -/
def machineProcess : Process where
  environment name := if name = "SOTTO_SERVER" then some "https://sotto.example/" else none
  configured := .ok none
  debug s := String.ofList s

/-- The text of the team's token, with blanks around it. -/
def tokenText : List Char :=
  [' '] ++ assembleToken "smt_ci".toList Team.machineSecret ++ ['\n']

/-- After a device has pushed a secret, a command is run with it. -/
theorem run_overlays_live_secrets_once :
    ∃ (command : Command) (w₁ : Setup.World) (entries : List (String × Bytes)),
      command.program :: command.args = ["make", "all"] ∧
        Team.automated.system.Reaches Team.pushedWorld w₁ ∧
        Reads Team.automated w₁.shared entries ∧ command.environment "X" = some "1" ∧
        Overlays machineProcess.environment entries command.environment := by
  have henv : (atRest Team.tokenOf Team.pushedWorld (machineRun machineProcess tokenText
      ["make", "all"])).toOption.map (fun command => command.environment "X") =
        some (some "1") := by
    decide +kernel
  generalize htext : tokenText = text at henv
  have hwatch : WatchesE Team.automated.system.Step (faultyAnswers Team.tokenOf)
      (machineRun machineProcess text ["make", "all"]) Team.pushedWorld Team.pushedWorld
      (atRest Team.tokenOf Team.pushedWorld (machineRun machineProcess text ["make", "all"])) :=
    Watches.mono faulty_of_answers (watches_atRest _)
  cases hresult : atRest Team.tokenOf Team.pushedWorld (machineRun machineProcess text
      ["make", "all"]) with
  | error e =>
      rw [hresult] at henv
      cases henv
  | ok command =>
      rw [hresult] at henv hwatch
      obtain ⟨hargs, w₁, entries, hw₁, -, hreads, hoverlays⟩ := run_overlays_live_secrets
        Team.tokensSealed_automated Team.issued_automated (by decide) htext.symm
        (fun c hc => List.mem_singleton.1 hc ▸ rfl) (fun c hc => List.mem_singleton.1 hc ▸ rfl)
        Setup.reaches_run hwatch
      exact ⟨command, w₁, entries, hargs, hw₁, hreads, Option.some.inj henv, hoverlays⟩

end Running

end Machine

end Sotto
