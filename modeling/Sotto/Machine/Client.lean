import Sotto.Cli.Device
import Sotto.Cli.Export
import Sotto.Core.Format
import Sotto.Library.Text
import Sotto.Machine.Requests

/-!
# Machine mode

The text of a machine token joins the token that the server issued with the private key of the
machine. With it a command is run with the secrets of its environment, which are read and decrypted
in memory. Replacing the process by the command is not modelled: a run ends with the command that it
is replaced by.
-/

namespace Sotto

namespace Machine

open Core Api

/-! ### Tokens -/

def keyPrefix : List Char := "MT".toList

def keyVersion : UInt8 := 1

structure MachineToken where
  apiToken : List Char
  keypair : Keypair
deriving DecidableEq

/-- The key pair of the bytes of a private key. -/
def keypairFromSecret (secret : List UInt8) : Keypair :=
  ⟨.raw ⟨secret.toArray⟩⟩

def assembleToken (apiToken : List Char) (machineSecret : List UInt8) : List Char :=
  apiToken ++ '.' :: Format.encodeKey keyPrefix keyVersion machineSecret

def parseToken (token : List Char) : Except Cli.Error MachineToken :=
  match Text.splitOnce '.' (Text.trim token) with
  | none => .error (.input "malformed SOTTO_TOKEN (expected <token>.<MT1-…>)")
  | some (apiToken, keyPart) =>
      match Format.decodeKey keyPrefix keyVersion keyPart with
      | .error _ => .error (.input "invalid machine key in SOTTO_TOKEN")
      | .ok secret =>
          if secret.length = keyLen then .ok ⟨apiToken, keypairFromSecret secret⟩
          else .error (.input "invalid machine key in SOTTO_TOKEN")

/-! ### Reading the environment -/

/-- The program of a command. -/
abbrev Fetch := ExceptT Cli.Error (Prog Call.Reply)

def ofExcept {α : Type} (a : Except Cli.Error α) : Fetch α :=
  ExceptT.mk (pure a)

/-- The status of a rejected request. -/
def Rejection.status : Rejection → String
  | unauthorized => "401 Unauthorized"
  | notFound _ => "404 Not Found"
  | internal => "500 Internal Server Error"

/-- What the client makes of an answer. -/
def received {α : Type} : Except Rejection α → Except Cli.Error α
  | .ok a => .ok a
  | .error .unauthorized => .error (.input "SOTTO_TOKEN was rejected (revoked or invalid)")
  | .error e => .error (.server s!"machine API error: {e.status}")

/-- Send a request with the token as its bearer. -/
def get {α : Type} (request : Auth.Headers → Handler α) (token : MachineToken) : Fetch α := do
  ExceptT.mk (Prog.perform Call.net)
  let answer ← ExceptT.lift (request ⟨some ("Bearer " ++ String.ofList token.apiToken), []⟩).run
  ExceptT.mk (Prog.perform Call.net)
  ofExcept (received answer)

def decryptEntry (vaultKey : Bytes) (envId : Ident) (s : SecretEntry) :
    Except Cli.Error (String × Bytes) := do
  let encName ← Cli.b64decode s.encName
  let encValue ← Cli.b64decode s.encValue
  let encDataKey ← Cli.b64decode s.encDataKey
  let (name, value) ← Cli.Error.ofCore
    (Vault.decryptSecret vaultKey envId s.id s.version encName encValue encDataKey)
  return (← Cli.Vault.fromUtf8 name, value)

/-- Decrypt every live secret, sorted by name. -/
def decryptEntries (keypair : Keypair) (grant : MachineGrant) (snapshot : Snapshot) :
    Except Cli.Error (List (String × Bytes)) := do
  let encVaultKey ← Cli.b64decode grant.encVaultKey
  let vaultKey ← Cli.Error.ofCore (Vault.openVaultKey keypair encVaultKey)
  let entries ← (snapshot.secrets.filter fun s => !s.deleted).mapM
    (decryptEntry vaultKey grant.envId)
  return entries.mergeSort fun a b => decide (a.1 ≤ b.1)

/-- Fetch the grant of the machine and the snapshot of its environment, and decrypt it. -/
def fetchEntries (token : MachineToken) : Fetch (List (String × Bytes)) := do
  let grant ← get machineGrant token
  let snapshot ← get machineSecrets token
  ofExcept (decryptEntries token.keypair grant snapshot)

/-! ### Running a command -/

/-- A value as a text. -/
def textEntry (entry : String × Bytes) : Except Cli.Error (String × String) :=
  match Cli.Vault.fromUtf8 entry.2 with
  | .ok value => .ok (entry.1, value)
  | .error _ =>
      let name := entry.1
      .error (.input s!"secret `{name}` is not valid UTF-8; cannot inject or export it as text")

/-- What the command is given by its caller: the variables, the server of the configuration file,
and how a text is shown in an error. -/
structure Process where
  environment : String → Option String
  configured : Except Cli.Error (Option String)
  debug : List Char → String

/-- The server that machine mode talks to: the one that is named, and no other. -/
def machineServerUrl (process : Process) : Except Cli.Error String :=
  match process.environment "SOTTO_SERVER" with
  | some server => .ok (String.ofList (server.toList.rdropWhile (· = '/')))
  | none => do
      match ← process.configured with
      | some server => .ok server
      | none => .error (.input "set SOTTO_SERVER to your sync server URL")

/-- The entries of the token's environment, as texts. -/
def machineEntries (process : Process) (token : List Char) : Fetch (List (String × String)) := do
  let token ← ofExcept (parseToken token)
  let _ ← ofExcept (machineServerUrl process)
  let entries ← fetchEntries token
  ofExcept (entries.mapM textEntry)

/-- A command with its arguments and its environment. -/
structure Command where
  program : String
  args : List String
  environment : String → Option String

def Command.env (command : Command) (name value : String) : Command :=
  { command with environment := Function.update command.environment name (some value) }

/-- Overlay the entries on the environment of a command. -/
def inject (debug : List Char → String) (command : Command) :
    List (String × String) → Except Cli.Error Command
  | [] => .ok command
  | (name, value) :: entries => do
      match Export.validateEnvKey debug name.toList with
      | .error (.input message) => throw (.input message)
      | .ok () => pure ()
      inject debug (command.env name value) entries

/-- Run the first argument with the entries overlaid on the inherited environment. -/
def runWithEntries (process : Process) (entries : List (String × String)) :
    List String → Except Cli.Error Command
  | [] => .error (.input "no command given; usage: sotto run -- <cmd> [args…]")
  | program :: args => inject process.debug ⟨program, args, process.environment⟩ entries

/-- `sotto run` with a machine token. -/
def machineRun (process : Process) (token : List Char) (args : List String) : Fetch Command := do
  let entries ← machineEntries process token
  ofExcept (runWithEntries process entries args)

end Machine

end Sotto
