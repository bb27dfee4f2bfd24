import Sotto.Library.Radix64
import Sotto.Library.Text
import Sotto.Auth.Db
import Sotto.Server.Db

/-!
# Share links

The rows of the share links, and the requests that create, fetch and revoke them. A request runs one
statement, which is a transaction of its own. A statement can fail without effect, and its answer
can be lost after it was committed. Times are in seconds, and texts are lists of characters.
-/

namespace Sotto

namespace Share

open Core (Ident)
open Server (Error)

abbrev Bytes := List UInt8

/-! ### Base64 fields -/

/-- The standard alphabet. -/
def standard : Radix64.Alphabet where
  symbols := "ABCDEFGHIJKLMNOPQRSTUVWXYZabcdefghijklmnopqrstuvwxyz0123456789+/".toList
  length := by decide +kernel
  nodup := by decide +kernel
  unpadded := by decide +kernel

/-- Encode bytes as standard (padded) base64. -/
def encode (bytes : Bytes) : List Char := Radix64.encode standard true bytes

/-- Decode a base64 field, rejecting malformed input or anything that would exceed `max` bytes. -/
def decode (value : List Char) (field : String) (max : ℕ) : Except Error Bytes :=
  if (max + 2) / 3 * 4 < Text.byteLength value then
    .error (.badRequest s!"{field} exceeds {max} bytes")
  else match Radix64.decode standard value with
    | none => .error (.badRequest s!"{field} is not valid base64")
    | some bytes =>
      if max < bytes.length then .error (.badRequest s!"{field} exceeds {max} bytes")
      else .ok bytes

/-- A field that is decoded encodes to itself. -/
theorem encode_of_decode {value : List Char} {field : String} {max : ℕ} {bytes : Bytes}
    (h : decode value field max = .ok bytes) : encode bytes = value := by
  rw [decode] at h
  split at h
  · cases h
  · split at h
    · cases h
    · next hdecode =>
      split at h
      · cases h
      · cases h
        exact (Radix64.eq_encode_of_decode hdecode).symm

/-! ### Requests -/

/-- Cap on the shared ciphertext blob. -/
def maxBlob : ℕ := 64 * 1024

/-- Cap on the optional passphrase salt. -/
def maxSalt : ℕ := 64

/-- Cap on the views of a single link. -/
def maxViews : ℤ := 100

/-- Cap on a link's lifetime: 30 days. -/
def maxTtlSeconds : ℤ := 30 * 24 * 60 * 60

/-- The body of a request that creates a link. -/
structure CreateShare where
  encBlob : List Char
  maxViews : ℤ
  ttlSeconds : Option ℤ
  passphraseSalt : Option (List Char)
deriving DecidableEq

/-- What a link is created with. -/
structure Content where
  encBlob : Bytes
  passphraseSalt : Option Bytes
  createdBy : Ident
  maxViews : ℤ
  ttlSeconds : Option ℤ
deriving DecidableEq

/-- A row of `share_links`. -/
structure ShareLink where
  content : Content
  viewCount : ℕ
  expiresAt : Option ℤ
  revokedAt : Option ℤ
deriving DecidableEq

/-- The rows, by their tokens, which are unique. -/
abbrev Db := Table (List Char) ShareLink

/-- What a request is answered when it succeeds. -/
inductive Response
  | created (token : List Char) (expiresAt : Option ℤ)
  | fetched (encBlob : List Char) (passphraseSalt : Option (List Char))
  | noContent
deriving DecidableEq

/-- The draw of a token, the statements, and the answer. -/
inductive Cmd
  | random
  | insertShare (token : List Char) (content : Content)
  | claimView (token : List Char)
  | revokeShare (token : List Char) (createdBy : Ident)
  | respond (r : Except Error Response)

/-- What a command returns. -/
abbrev Cmd.Answer : Cmd → Type
  | random => Bytes
  | insertShare _ _ => List Char × Option ℤ
  | claimView _ => Option (Bytes × Option Bytes)
  | revokeShare _ _ => Option Unit
  | respond _ => Unit

abbrev Cmd.Reply (c : Cmd) : Type := Except Error c.Answer

/-- Whether a command is a statement, which can fail. -/
def Cmd.isStatement : Cmd → Bool
  | random | respond _ => false
  | _ => true

/-- Whether a link is not revoked, expired or used up. -/
def ShareLink.Open (link : ShareLink) (now : ℤ) : Prop :=
  link.revokedAt = none ∧ (∀ t ∈ link.expiresAt, now < t) ∧
    (link.viewCount : ℤ) < link.content.maxViews

instance (link : ShareLink) (now : ℤ) : Decidable (link.Open now) :=
  inferInstanceAs (Decidable (_ ∧ _ ∧ _))

/-- Whether a user can revoke a link. -/
def ShareLink.Revocable (link : ShareLink) (createdBy : Ident) : Prop :=
  link.content.createdBy = createdBy ∧ link.revokedAt = none

instance (link : ShareLink) (createdBy : Ident) : Decidable (link.Revocable createdBy) :=
  inferInstanceAs (Decidable (_ ∧ _))

/-- The view of a link is claimed. -/
def ShareLink.claimed (link : ShareLink) : ShareLink :=
  { link with viewCount := link.viewCount + 1 }

/-- A link is revoked. -/
def ShareLink.revoked (now : ℤ) (link : ShareLink) : ShareLink :=
  { link with revokedAt := some now }

/-- A new link. -/
def Content.link (content : Content) (now : ℤ) : ShareLink :=
  ⟨content, 0, content.ttlSeconds.map (now + ·), none⟩

/-- The row of a token that meets a condition. -/
def Db.matching (db : Db) (token : List Char) (p : ShareLink → Prop) [DecidablePred p] :
    Option ShareLink :=
  (db.lookup token).filter fun link => decide (p link)

/-- What a command does at a time, where it does not fail. -/
def Cmd.Does (c : Cmd) (now : ℤ) (db : Db) (r : c.Reply) (db' : Db) : Prop :=
  match c with
  | .random => (∃ raw : Bytes, r = .ok raw ∧ raw.length = 16) ∧ db' = db
  | .insertShare token content => db.lookup token = none ∧
      r = .ok (token, content.ttlSeconds.map (now + ·)) ∧
      db' = AList.insert token (content.link now) db
  | .claimView token =>
      r = .ok ((db.matching token fun link => link.Open now).map fun link =>
        (link.content.encBlob, link.content.passphraseSalt)) ∧
      db' = if (db.matching token fun link => link.Open now).isSome then
        Table.modify token ShareLink.claimed db else db
  | .revokeShare token createdBy =>
      r = .ok ((db.matching token fun link => link.Revocable createdBy).map fun _ => ()) ∧
      db' = if (db.matching token fun link => link.Revocable createdBy).isSome then
        Table.modify token (ShareLink.revoked now) db else db
  | .respond _ => r = .ok () ∧ db' = db

/-- What a command does at a time: a statement can fail, or its answer can be lost. -/
def Cmd.Executes (c : Cmd) (now : ℤ) (db : Db) (r : c.Reply) (db' : Db) : Prop :=
  c.Does now db r db' ∨
    c.isStatement = true ∧ r = .error .internal ∧ (db' = db ∨ ∃ r', c.Does now db r' db')

/-! ### Handlers -/

/-- The programs of the handlers. -/
abbrev Handler := ExceptT Error (Prog Cmd.Reply)

/-- Issue a command. -/
def ask (c : Cmd) : Handler c.Answer := Prog.ask c

/-- A 128-bit random, hex-encoded public link token. -/
def randomToken (raw : Bytes) : List Char := (Auth.toHex raw).toList

def validate (maxViews : ℤ) (ttlSeconds : Option ℤ) : Except Error Unit :=
  if ¬ (1 ≤ maxViews ∧ maxViews ≤ Share.maxViews) then
    .error (.badRequest s!"max_views must be between 1 and {Share.maxViews}")
  else match ttlSeconds with
    | none => .ok ()
    | some ttl =>
      if ¬ (1 ≤ ttl ∧ ttl ≤ maxTtlSeconds) then
        .error (.badRequest s!"ttl_seconds must be between 1 and {maxTtlSeconds}")
      else .ok ()

/-- What a body asks for, if it is valid. -/
def CreateShare.content (body : CreateShare) (userId : Ident) : Except Error Content := do
  let encBlob ← decode body.encBlob "enc_blob" maxBlob
  let passphraseSalt ← body.passphraseSalt.mapM fun s => decode s "passphrase_salt" maxSalt
  validate body.maxViews body.ttlSeconds
  return ⟨encBlob, passphraseSalt, userId, body.maxViews, body.ttlSeconds⟩

/-- `POST /shares`: create a share link (session required). Returns the public token. -/
def createShare (userId : Ident) (body : CreateShare) : Handler Response := do
  let content ← ExceptT.mk (pure (body.content userId))
  let raw ← ask .random
  let row ← ask (.insertShare (randomToken raw) content)
  pure (.created row.1 row.2)

/-- What a fetch answers with. -/
def found (row : Option (Bytes × Option Bytes)) : Except Error Response :=
  match row with
  | some row => .ok (.fetched (encode row.1) (row.2.map encode))
  | none => .error (.notFound "share not found")

/-- `GET /shares/:token`: fetch the ciphertext (public), and claim a view. -/
def fetchShare (token : List Char) : Handler Response := do
  let row ← ask (.claimView token)
  ExceptT.mk (pure (found row))

/-- `DELETE /shares/:token`: revoke a link (owner only). -/
def revokeShare (userId : Ident) (token : List Char) : Handler Response := do
  let revoked ← ask (.revokeShare token userId)
  if revoked.isSome then pure .noContent else throw (.notFound "share not found")

/-- The requests, with the user of those that need a session. -/
inductive Op
  | create (userId : Ident) (body : CreateShare)
  | fetch (token : List Char)
  | revoke (userId : Ident) (token : List Char)
deriving DecidableEq

/-- The handler of a request. -/
def Op.handler : Op → Handler Response
  | create userId body => createShare userId body
  | fetch token => fetchShare token
  | revoke userId token => revokeShare userId token

/-- The endpoints: a request is handled and answered. -/
def service : Service Cmd.Reply Db Op (Except Error Unit) where
  prog op := op.handler.run >>= fun r => Prog.perform (Cmd.respond r)
  does _ c := c.Executes

end Share

end Sotto
