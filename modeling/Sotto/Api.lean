import Sotto.Core.Bytes

/-!
# The wire format of the sync API

Requests and responses as they travel between the CLI and the server. Both sides
declare these shapes; they are given once here. Opaque ciphertext travels as
base64, which is kept as the bytes it decodes to, or as a text that does not
decode. Versions and revisions are 64-bit integers.
-/

namespace Sotto

open Core

/-- A base64 text: one that decodes, given by its bytes, or a malformed one. -/
inductive Base64
  | valid (bytes : Bytes)
  | malformed (text : String)
deriving DecidableEq

/-- Largest value of a signed 64-bit integer. -/
def i64Max : Int := 0x7fffffffffffffff

/-- Add one to a signed 64-bit integer, wrapping as release builds do. -/
def i64Succ (n : Int) : Int := if n = i64Max then -i64Max - 1 else n + 1

theorem i64Succ_of_lt {n : Int} (h : n < i64Max) : i64Succ n = n + 1 := by
  rw [i64Succ, if_neg (by omega)]

namespace Api

structure AccountBundle where
  publicKey : Base64
  encPrivateKeys : Base64
  kdfParams : Base64
  recoveryBlob : Base64

structure NewProject where
  id : Ident
  encName : Base64
  orgId : Option Ident

structure NewEnvironment where
  id : Ident
  encName : Base64
  encVaultKey : Base64

/-- An environment as its project lists it, with the caller's grant if they hold one. -/
structure EnvironmentInfo where
  id : Ident
  encName : Base64
  encVaultKey : Option Base64
  revision : Int

/-- A grant to store for a member. -/
structure CreateGrant where
  userId : Ident
  encVaultKey : Base64

/-- An organisation the caller belongs to, with their sealed org key if granted. -/
structure OrgInfo where
  id : Ident
  encName : Base64
  encOrgKey : Option Base64

structure MemberInfo where
  userId : Ident
  publicKey : Option Base64

structure GrantEntry where
  userId : Ident
  encVaultKey : Base64

structure DataKeyEntry where
  secretId : Ident
  encDataKey : Base64

structure MachineGrantEntry where
  tokenId : Ident
  encVaultKey : Base64

structure HistoryKeyEntry where
  secretId : Ident
  version : Int
  encDataKey : Base64

/-- A rotation: rewrapped data keys, current and history, and the replacement
grants of users and machines, at a base revision. -/
structure RotateRequest where
  baseRevision : Int
  grants : List GrantEntry
  dataKeys : List DataKeyEntry
  machineGrants : List MachineGrantEntry
  historyKeys : List HistoryKeyEntry

/-- One retained version of one secret. -/
structure HistoryRow where
  secretId : Ident
  version : Int
  encName : Base64
  encValue : Base64
  encDataKey : Base64

structure MachineTokenInfo where
  tokenId : Ident
  publicKey : Base64

inductive ChangeOp
  | set
  | delete
deriving DecidableEq

/-- A single change in a batch write. The ciphertext fields are present only for
`set`. -/
structure SecretChange where
  id : Ident
  op : ChangeOp
  version : Int
  encName : Option Base64
  encValue : Option Base64
  encDataKey : Option Base64

namespace SecretChange

/-- The change that writes a version of a secret. -/
protected def set (id : Ident) (version : Int) (encName encValue encDataKey : Base64) :
    SecretChange :=
  ⟨id, .set, version, some encName, some encValue, some encDataKey⟩

/-- The change that deletes a secret. -/
protected def delete (id : Ident) : SecretChange :=
  ⟨id, .delete, 0, none, none, none⟩

end SecretChange

structure BatchRequest where
  baseRevision : Int
  changes : List SecretChange

structure SecretEntry where
  id : Ident
  encName : Base64
  encValue : Base64
  encDataKey : Base64
  version : Int
  deleted : Bool

structure Snapshot where
  revision : Int
  secrets : List SecretEntry

end Api

end Sotto
