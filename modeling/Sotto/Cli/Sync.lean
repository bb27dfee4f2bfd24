import Sotto.Cli.Device

/-!
# The sync engine

Pull, push and rotation of one environment. Secrets are opaque ciphertext bound
to their environment, id and version, so reconciliation moves blobs verbatim.
`pull` applies the server snapshot; `push` fast-forwards from a fresh snapshot,
compares local with server, writes the batch at that base revision and retries on
a conflict.
-/

namespace Sotto

namespace Cli

open Core Api

/-- The project and environment an operation works on. -/
structure Config where
  projectId : Ident
  environment : String
  orgId : Option Ident

/-- Bound on pull-rebase-push retries. -/
def maxSyncAttempts : Nat := 5

/-- Retry budget of a rotation. -/
def rotateAttempts : Nat := 5

def resolveEnv (config : Config) : Action (Ident × Environment) := do
  match ← Action.store (.getEnvironment config.projectId config.environment) with
  | some env => return env
  | none => throw (.notFound s!"environment `{config.environment}`")

/-- Whether a secret of the snapshot replaces the local one: server wins on a newer
version, or on an equal-version tombstone. -/
def remoteWins (remote : SecretEntry) : Option SyncSecret → Bool
  | none => true
  | some l =>
      remote.version > l.version || (remote.version = l.version && remote.deleted && !l.deleted)

/-- Apply a server snapshot to the local store; `force` overrides the version gate. -/
def applySnapshot (envId : Ident) (force : Bool) : List SecretEntry → Action Unit
  | [] => return ()
  | remote :: rest => do
      let found ← Action.store (.findSecret envId remote.id)
      if force || remoteWins remote found then
        let encName ← Action.ofExcept (b64decode remote.encName)
        let encValue ← Action.ofExcept (b64decode remote.encValue)
        let encDataKey ← Action.ofExcept (b64decode remote.encDataKey)
        Action.store (.putRemoteSecret envId
          ⟨remote.id, encName, encValue, encDataKey, remote.version, remote.deleted⟩)
      applySnapshot envId force rest

/-- If our grant changed on the server, store the new grant and return `true`. -/
def adoptRotation (api : HttpClient) (envId : Ident) (localGrant : Bytes) : Action Bool := do
  match ← api.getGrant envId with
  | none => return false
  | some grantB64 => do
      let grant ← Action.ofExcept (b64decode grantB64)
      if grant = localGrant then
        return false
      else do
        Action.store (.updateEnvVaultKey envId grant)
        return true

/-- Whether our grant differs from the local one; a missing grant counts as
changed. -/
def grantChanged (api : HttpClient) (envId : Ident) (localGrant : Bytes) : Action Bool := do
  match ← api.getGrant envId with
  | none => return true
  | some grantB64 => do
      let grant ← Action.ofExcept (b64decode grantB64)
      return grant ≠ localGrant

/-- The adoption step of an organisation's environment. -/
def adoptIfOrg (api : HttpClient) (config : Config) (envId : Ident) (localGrant : Bytes) :
    Action Bool :=
  if config.orgId.isSome then adoptRotation api envId localGrant else return false

/-- The rotation check of an organisation's environment. -/
def changedIfOrg (api : HttpClient) (config : Config) (envId : Ident) (localGrant : Bytes) :
    Action Bool :=
  if config.orgId.isSome then grantChanged api envId localGrant else return false

/-- Pull the active environment; returns the current revision. -/
def pull (api : HttpClient) (config : Config) : Action Int := do
  let (envId, env) ← resolveEnv config
  let base ← Action.store (.syncedRevision envId)
  match ← api.snapshot envId (some base) with
  | none => return base
  | some snapshot => do
      let rotated ← adoptIfOrg api config envId env.encVaultKey
      applySnapshot envId rotated snapshot.secrets
      Action.store (.setSyncedRevision envId snapshot.revision)
      return snapshot.revision

def setChange (l : SyncSecret) : SecretChange :=
  SecretChange.set l.id l.version (b64encode l.encName) (b64encode l.encValue)
    (b64encode l.encDataKey)

/-- The change that a local secret needs, given the server's secret of its id. -/
def changeOf (l : SyncSecret) : Option SecretEntry → Option SecretChange
  | none => if l.deleted then none else some (setChange l)
  | some remote =>
      if !l.deleted && decide (l.version > remote.version) then some (setChange l)
      else if l.deleted && !remote.deleted then some (SecretChange.delete l.id)
      else none

/-- The server's secret of an id; the last entry of an id counts. -/
def serverEntry (secrets : List SecretEntry) (id : Ident) : Option SecretEntry :=
  secrets.reverse.find? fun s => s.id = id

/-- The changes to push. -/
def diff (envId : Ident) (snapshot : Snapshot) : Action (List SecretChange) := do
  let locals ← Action.store (.allSecrets envId)
  return locals.filterMap fun l => changeOf l (serverEntry snapshot.secrets l.id)

/-- Assemble the local account material for upload. -/
def accountMaterial : Action AccountKeys := do
  match ← Action.store .getAccountKeys with
  | some keys => return keys
  | none => throw .noIdentity

/-- Upload account crypto material; a conflict means it is already initialised. -/
def ensureAccount (api : HttpClient) : Action Unit := do
  let material ← accountMaterial
  match ← Action.attempt (api.putAccount
      ⟨b64encode material.publicKey, b64encode material.encPrivateKeys,
        b64encode material.kdfSalt, b64encode material.recoveryBlob⟩) with
  | .ok _ => return ()
  | .error (.conflict _) => return ()
  | .error e => throw e

/-- The caller's copy of an organisation's key, if they hold one. -/
def orgKey (api : HttpClient) (keypair : Keypair) (orgId : Ident) : Action (Option Bytes) := do
  let orgs ← api.listOrgs
  match orgs.find? fun org => org.id = orgId with
  | none => return none
  | some org =>
      match org.encOrgKey with
      | none => return none
      | some enc => do
          let grant ← Action.ofExcept (b64decode enc)
          return some (← Action.ofExcept (Error.ofCore (Core.Vault.openVaultKey keypair grant)))

/-- Recover the account keypair from the store's sealed private keys. -/
def accountKeypair (master : Bytes) : Action Keypair := do
  let keys ← accountMaterial
  Action.ofExcept (Error.ofCore (Core.Vault.openAccountKeypair master keys.encPrivateKeys))

/-- The key display names are encrypted under: the org key when held, else the
master key. -/
def nameKey (api : HttpClient) (master : Bytes) (orgId : Option Ident) : Action Bytes := do
  match orgId with
  | none => return master
  | some orgId =>
      match ← Action.attempt (accountKeypair master) with
      | .error _ => return master
      | .ok keypair =>
          match ← Action.attempt (orgKey api keypair orgId) with
          | .ok (some key) => return key
          | _ => return master

/-- Swallow a 403 from an idempotent structural create of an organisation's
project. -/
def tolerateOrgForbidden (orgId : Option Ident) (create : Action Unit) : Action Unit := do
  match ← Action.attempt create with
  | .error (.forbidden m) => if orgId.isSome then return () else throw (.forbidden m)
  | .error e => throw e
  | .ok _ => return ()

/-- Idempotently create the project and environment on the server. -/
def ensureProjectEnv (api : HttpClient) (key : Bytes) (orgId : Option Ident)
    (projectId : Ident) (projectName : String) (envId : Ident) (env : Environment) :
    Action Unit := do
  let seed ← Action.fresh
  tolerateOrgForbidden orgId (api.createProject
    { id := projectId
      encName := b64encode (Aead.seal (seed, 0) key (Vault.nameBytes projectName)
        (.projectName projectId))
      orgId })
  tolerateOrgForbidden orgId (api.createEnvironment projectId
    { id := envId
      encName := b64encode (Aead.seal (seed, 1) key (Vault.nameBytes env.name) (.envName envId))
      encVaultKey := b64encode env.encVaultKey })

/-- The answer to a snapshot request without a condition. -/
def fullSnapshot (api : HttpClient) (envId : Ident) : Action Snapshot := do
  match ← api.snapshot envId none with
  | some snapshot => return snapshot
  | none => throw (.server "server returned no snapshot")

/-- The refusal of a push whose environment was rotated. -/
def rotatedError : Error :=
  .conflict "environment was rotated; run `sotto pull` and re-apply your changes"

/-- The rounds of a push: fast-forward, compare, upload, retry on a conflict. -/
def pushLoop (api : HttpClient) (config : Config) (envId : Ident) (localGrant : Bytes) :
    Nat → Action Int
  | 0 => throw (.conflict "sync: too many concurrent updates; try again")
  | attempts + 1 => do
      let snapshot ← fullSnapshot api envId
      applySnapshot envId false snapshot.secrets
      Action.store (.setSyncedRevision envId snapshot.revision)
      let changes ← diff envId snapshot
      if changes.isEmpty then do
        let rotated ← adoptIfOrg api config envId localGrant
        if rotated then
          applySnapshot envId true snapshot.secrets
        return snapshot.revision
      else do
        if ← changedIfOrg api config envId localGrant then
          throw rotatedError
        match ← Action.attempt (api.writeSecrets envId ⟨snapshot.revision, changes⟩) with
        | .ok revision => do
            Action.store (.setSyncedRevision envId revision)
            return revision
        -- someone else advanced the revision between our snapshot and write
        | .error (.conflict _) => pushLoop api config envId localGrant attempts
        | .error e => throw e

/-- Push the active environment; returns the resulting revision. -/
def push (api : HttpClient) (master : Bytes) (config : Config) : Action Int := do
  let (envId, env) ← resolveEnv config
  match ← Action.store (.getProject config.projectId) with
  | none => throw (.notFound s!"project `{config.projectId}`")
  | some projectName => do
      ensureAccount api
      let key ← nameKey api master config.orgId
      ensureProjectEnv api key config.orgId config.projectId projectName envId env
      pushLoop api config envId env.encVaultKey maxSyncAttempts

/-! ### Rotation -/

/-- A public key of the right length. -/
def decodePublicKey (b64 : Base64) : Except Error Bytes := do
  let bytes ← b64decode b64
  if bytes.len = keyLen then .ok bytes else .error .crypto

/-- Rewrap a list of data keys, each with a nonce of its own. -/
def rewrapKeys (seed : Seed) (oldVault newVault : Bytes) (envId : Ident) :
    Nat → List (Ident × Int × Base64) → Except Error (List (Ident × Int × Base64))
  | _, [] => .ok []
  | part, (id, version, encDataKey) :: rest => do
      let wrapped ← b64decode encDataKey
      let rewrapped ← Error.ofCore
        (Core.Vault.rewrapDataKey (seed, part) oldVault newVault envId id version wrapped)
      return (id, version, b64encode rewrapped) ::
        (← rewrapKeys seed oldVault newVault envId (part + 1) rest)

/-- The new grants: one for every holder that is still a member, except `revoke`. -/
def regrant (seed : Seed) (newVault : Bytes) (members : List MemberInfo) (revoke : Option Ident) :
    Nat → List Ident → Except Error (List GrantEntry)
  | _, [] => .ok []
  | part, holder :: rest => do
      if some holder = revoke then
        regrant seed newVault members revoke part rest
      else
        match members.find? fun m => m.userId = holder with
        | none => regrant seed newVault members revoke part rest
        | some m =>
            match m.publicKey with
            | none => .error (.input s!"cannot re-grant `{holder}`: no public key on file")
            | some publicKeyB64 => do
                let publicKey ← decodePublicKey publicKeyB64
                let grant := Core.Vault.grantVaultKey (seed, part) publicKey newVault
                return ⟨holder, b64encode grant⟩ ::
                  (← regrant seed newVault members revoke (part + 1) rest)

/-- The new vault key sealed to every active machine token. -/
def regrantTokens (seed : Seed) (newVault : Bytes) :
    Nat → List MachineTokenInfo → Except Error (List MachineGrantEntry)
  | _, [] => .ok []
  | part, token :: rest => do
      let publicKey ← decodePublicKey token.publicKey
      let grant := Core.Vault.grantVaultKey (seed, part) publicKey newVault
      return ⟨token.tokenId, b64encode grant⟩ :: (← regrantTokens seed newVault (part + 1) rest)

/-- The rounds of a rotation. The randomness of a round is drawn up front: the new
vault key and one draw each for what is sealed to secrets, history, members and
tokens. -/
def rotateLoop (api : HttpClient) (keypair : Keypair) (envId : Ident) (revoke : Option Ident)
    (members : List MemberInfo) : Nat → Action (Option Int)
  | 0 => throw (.conflict "rotation kept racing concurrent writes; try again")
  | attempts + 1 => do
      match ← api.getGrant envId with
      | none => return none
      | some oldGrantB64 => do
          let oldGrant ← Action.ofExcept (b64decode oldGrantB64)
          let oldVault ← Action.ofExcept (Error.ofCore (Core.Vault.openVaultKey keypair oldGrant))
          let keySeed ← Action.fresh
          let newVault := Core.Vault.generateVaultKey keySeed
          let secretSeed ← Action.fresh
          let historySeed ← Action.fresh
          let grantSeed ← Action.fresh
          let tokenSeed ← Action.fresh
          let snapshot ← fullSnapshot api envId
          let dataKeys ← Action.ofExcept (rewrapKeys secretSeed oldVault newVault envId 0
            (snapshot.secrets.map fun s => (s.id, s.version, s.encDataKey)))
          let history ← api.listHistory envId
          let historyKeys ← Action.ofExcept (rewrapKeys historySeed oldVault newVault envId 0
            (history.map fun h => (h.secretId, h.version, h.encDataKey)))
          let holders ← api.listGrantHolders envId
          let grants ← Action.ofExcept (regrant grantSeed newVault members revoke 0 holders)
          let tokens ← api.listMachineTokens envId
          let machineGrants ← Action.ofExcept (regrantTokens tokenSeed newVault 0 tokens)
          match ← Action.attempt (api.rotate envId
              { baseRevision := snapshot.revision
                grants
                dataKeys := dataKeys.map fun d => ⟨d.1, d.2.2⟩
                machineGrants
                historyKeys := historyKeys.map fun h => ⟨h.1, h.2.1, h.2.2⟩ }) with
          | .ok revision => return some revision
          | .error (.conflict _) => rotateLoop api keypair envId revoke members attempts
          | .error e => throw e

/-- Rotate an environment's vault key: rewrap every data key and re-grant the
current holders, minus `revoke`. -/
def rotateEnv (api : HttpClient) (keypair : Keypair) (orgId envId : Ident)
    (revoke : Option Ident) : Action (Option Int) := do
  let members ← api.listMembers orgId
  rotateLoop api keypair envId revoke members rotateAttempts

/-- Rotate the active environment and adopt the new key into the local store. -/
def rotateActive (api : HttpClient) (keypair : Keypair) (config : Config) : Action Unit := do
  match config.orgId with
  | none => throw (.input "rotation only applies to environments in an organisation")
  | some orgId => do
      let (envId, _) ← resolveEnv config
      match ← rotateEnv api keypair orgId envId none with
      | some _ => do
          let _ ← pull api config
          return ()
      | none => throw (.input "you don't have a grant to this environment, so you can't rotate it")

end Cli

end Sotto
