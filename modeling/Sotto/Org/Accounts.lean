import Sotto.Org.Resources

/-!
# Accounts

Signing in, initialising an account, and resetting it. A reset reaches into every organisation that
its user is a member of when it starts.
-/

namespace Sotto

namespace Org

open Core (Ident Bytes keyLen)
open Api (AccountBundle)
open Server (Account Error LifecycleState decode maxBlob)
open Sessions (check require statement transaction commit)

/-- Insert the user on first login, and refresh the email when the provider supplies one. -/
def upsertUser (userId : Ident) (email : Option String) : Session Unit := do
  transaction do
    writeLocking (fun _ => [.user userId]) fun db => .ok <|
      (if (db.users.lookup userId).isSome then [] else [.users (.put userId none)]) ++
        (email.map fun email => Change.emails (.put userId email)).toList
    commit

/-- The decoded fields of an account bundle. -/
def decodeBundle (bundle : AccountBundle) : Except Error Account := do
  let publicKey ← decode bundle.publicKey "public_key" maxBlob
  Server.require (publicKey.len = keyLen)
    (.badRequest s!"public_key must decode to {keyLen} bytes")
  let encPrivateKeys ← decode bundle.encPrivateKeys "enc_private_keys" maxBlob
  let kdfParams ← decode bundle.kdfParams "kdf_params" maxBlob
  let recoveryBlob ← decode bundle.recoveryBlob "recovery_blob" maxBlob
  return ⟨publicKey, encPrivateKeys, kdfParams, recoveryBlob⟩

/-- `UPDATE users`: replace the account of a user, initialised or not; returns whether there was
such a user. -/
def updateUser (userId : Ident) (initialised : Bool) (account : Account) : Session Bool :=
  statement (fun db => if (db.users.lookup userId).isSome then [.user userId] else []) fun db =>
    match db.users.lookup userId with
    | some existing =>
        if existing.isSome = initialised then .ok (true, [.users (.put userId (some account))])
        else .ok (false, [])
    | none => .ok (false, [])

/-- `PUT /account` -/
def putAccount (userId : Ident) (bundle : AccountBundle) : Session Status := do
  let account ← check (decodeBundle bundle)
  transaction do
    let initialized ← updateUser userId false account
    require initialized (.conflict "account already initialised")
    commit
    return .created

/-- The organisations of a user. -/
def Db.orgsOf (db : Db) (userId : Ident) : List Ident :=
  (db.memberships.rows.filter fun m => m.1.2 = userId).map fun m => m.1.1

/-- Lock organisations one after another, and read their lifecycle. -/
def lockOrganizations : List Ident → Session (List (Ident × LifecycleState))
  | [] => return []
  | orgId :: orgIds => do
      let row ← lockOrganization orgId
      let rows ← lockOrganizations orgIds
      return (row.map fun lifecycle => (orgId, lifecycle)).toList ++ rows

/-- The grants of a user. -/
def Db.grantsOfUser (db : Db) (userId : Ident) : List (Ident × Ident) :=
  (db.grants.rows.map Prod.fst).filter fun k => k.2 = userId

/-- The memberships of a user. -/
def Db.membershipsOf (db : Db) (userId : Ident) : List (Ident × Ident) :=
  (db.memberships.rows.map Prod.fst).filter fun k => k.2 = userId

/-- `POST /account/reset` -/
def resetAccount (userId : Ident) (bundle : AccountBundle) : Session Status := do
  let account ← check (decodeBundle bundle)
  transaction do
    -- the memberships are those at the start of the statement that locks the organisations
    let orgIds ← read fun db => db.orgsOf userId
    let orgRows ← lockOrganizations orgIds
    orgRows.forM fun row => check row.2.requireWrite
    let reset ← updateUser userId true account
    require reset (.notFound "account is not initialised; use PUT /account")
    write fun db => .ok ((db.grantsOfUser userId).map fun k => .grants (.delete k))
    write fun db => .ok ((db.membershipsOf userId).map fun k =>
      .memberships (.update k fun m => { m with encOrgKey := none }))
    orgRows.forM fun row =>
      record ⟨row.1, userId, "account.reset", some userId, none, none⟩
    commit
    return .ok

end Org

end Sotto
