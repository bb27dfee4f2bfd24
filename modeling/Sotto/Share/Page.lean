import Sotto.Library.WebText
import Sotto.Core.Places
import Sotto.Cli.Store
import Sotto.Share.Links

/-!
# The two ends of a share link

A client seals a secret under a fresh key, posts it and writes the key after the link's `#`. The
page of the link fetches the ciphertext and opens it. The primitives of the cryptography, the
browser's parser of addresses and the answers of the server are parameters.
-/

namespace Sotto

namespace Share

open Places (Key Nonce Cipher keyLen)

/-! ### Keys and envelopes -/

/-- Argon2id salt length, in bytes. -/
def saltLen : ℕ := 16

abbrev Salt := { bytes : Bytes // bytes.length = saltLen }

/-- The primitives: the cipher, the hash of passwords and the keyed hash. -/
structure Crypto where
  cipher : Cipher
  pwhash (password : Bytes) (salt : Salt) : Except Places.Error Key
  genericHash (message : Bytes) (key : Key) : Except Places.Error Bytes

section Keys

variable (crypto : Crypto)

/-- Derive the master key from the master password, the high-entropy secret key, and a salt. -/
def deriveMasterKey (password secretKey : Bytes) (salt : Salt) : Except Places.Error Key := do
  let a ← crypto.pwhash password salt
  let out ← crypto.genericHash secretKey a
  if h : out.length = keyLen then .ok ⟨out, h⟩ else .error .crypto

/-- What a share envelope is bound to. -/
def shareAad : Bytes := Text.utf8 "sotto/v1/share".toList

/-- Seal `plaintext` under the share AEAD key. -/
def «seal» (nonce : Nonce) (aeadKey : Key) (plaintext : Bytes) : Bytes :=
  Places.«seal» crypto.cipher nonce aeadKey plaintext shareAad

/-- Open a share envelope under the share AEAD key. -/
def «open» (aeadKey : Key) (envelope : Bytes) : Except Places.Error Bytes :=
  Places.«open» crypto.cipher aeadKey envelope shareAad

/-- Derive the AEAD key for a passphrase-protected share. -/
def passphraseKey (fragmentKey : Key) (passphrase : Bytes) (salt : Salt) :
    Except Places.Error Key :=
  deriveMasterKey crypto passphrase fragmentKey.1 salt

end Keys

/-! ### The sender -/

/-- The URL-safe alphabet. -/
def urlSafe : Radix64.Alphabet where
  symbols := "ABCDEFGHIJKLMNOPQRSTUVWXYZabcdefghijklmnopqrstuvwxyz0123456789-_".toList
  length := by decide +kernel
  nodup := by decide +kernel
  unpadded := by decide +kernel

/-- Options for a new share link. -/
structure ShareOptions where
  maxViews : ℤ
  ttlSeconds : Option ℤ
  passphrase : Option Bytes

/-- What is drawn for a link. -/
structure Draws where
  fragmentKey : Key
  salt : Salt
  nonce : Nonce

/-- `<web>/s/<token>#<url-safe base64 fragment key>`. -/
def buildLink (webBase token : List Char) (fragmentKey : Bytes) : List Char :=
  webBase.rdropWhile (· = '/') ++ ("/s/".toList ++ token) ++
    '#' :: Radix64.encode urlSafe false fragmentKey

def checkOptions (opts : ShareOptions) : Except Cli.Error Unit :=
  if ¬ (1 ≤ opts.maxViews ∧ opts.maxViews ≤ maxViews) then
    .error (.input s!"views must be between 1 and {maxViews}")
  else match opts.ttlSeconds with
    | none => .ok ()
    | some ttl =>
      if ¬ (1 ≤ ttl ∧ ttl ≤ maxTtlSeconds) then
        .error (.input s!"expire must be between 1 and {maxTtlSeconds} seconds")
      else .ok ()

section Sender

variable (crypto : Crypto)

/-- The key that a secret is sealed under. -/
def aeadKey (draws : Draws) (passphrase : Option Bytes) : Except Cli.Error Key :=
  match passphrase with
  | some passphrase =>
    (passphraseKey crypto draws.fragmentKey passphrase draws.salt).mapError fun _ => .crypto
  | none => .ok draws.fragmentKey

/-- What is posted for a link. -/
def newShare (draws : Draws) (key : Key) (value : Bytes) (opts : ShareOptions) : CreateShare where
  encBlob := encode («seal» crypto draws.nonce key value)
  maxViews := opts.maxViews
  ttlSeconds := opts.ttlSeconds
  passphraseSalt := opts.passphrase.map fun _ => encode draws.salt.1

/-- Seal `value`, upload it, and return the shareable link (`<web>/s/<token>#<fragment-key>`). -/
def create (api : CreateShare → Except Cli.Error (List Char × Option ℤ)) (draws : Draws)
    (webBase : List Char) (value : Bytes) (opts : ShareOptions) : Except Cli.Error (List Char) := do
  checkOptions opts
  let key ← aeadKey crypto draws opts.passphrase
  let created ← api (newShare crypto draws key value opts)
  return buildLink webBase created.1 draws.fragmentKey.1

end Sender

/-! ### The page -/

/-- The parts of an address that the page reads. -/
structure Location where
  pathname : List Char
  hash : List Char

/-- The browser: its parser of addresses, and its complaint about text that is not base64. -/
structure Browser where
  location (link : List Char) : Option Location
  notBase64 : List Char

/-- The pages; `other` is a guide or the landing page. -/
inductive Route
  | vault
  | recipient (token : List Char)
  | invalidShare
  | callback
  | other
deriving DecidableEq

/-- The group of `^/s/([^/]+)$`. -/
def shareSegment (path : List Char) : Option (List Char) :=
  (Text.stripPrefix "/s/".toList path).filter fun segment => segment ≠ [] && '/' ∉ segment

def route (path : List Char) : Route :=
  if path = "/app".toList ∨ path = "/app/".toList then .vault
  else match shareSegment path with
    | some segment =>
      match Text.decodeURIComponent segment with
      | some token => .recipient token
      | none => .invalidShare
    | none => if path = "/auth/callback".toList then .callback else .other

/-- The path that the page requests. -/
def fetchPath (token : List Char) : List Char :=
  "/shares/".toList ++ Text.encodeURIComponent token

/-- The request that `GET` of a path under `/shares/` is. -/
def requestOf (path : List Char) : Option Op := do
  let segment ← (Text.stripPrefix "/shares/".toList path).filter fun segment =>
    segment ≠ [] && '/' ∉ segment
  let token ← Text.fromUtf8 (Text.unescape segment)
  return .fetch token

/-- What is thrown while a secret is revealed. -/
inductive Thrown
  | shareUnavailable
  | error (message : List Char)
deriving DecidableEq

def standardB64ToBytes (browser : Browser) (b64 : List Char) : Except Thrown Bytes :=
  match Radix64.decodeForgiving standard b64 with
  | some bytes => .ok bytes
  | none => .error (.error browser.notBase64)

/-- A symbol of the standard alphabet for one of the URL-safe one. -/
def fromUrlSafe (c : Char) : Char :=
  if c = '-' then '+' else if c = '_' then '/' else c

/-- A text that is filled to a multiple of four. -/
def padToFour (s : List Char) : List Char :=
  s ++ List.replicate ((4 - s.length % 4) % 4) Radix64.padding

def urlSafeB64ToBytes (browser : Browser) (b64url : List Char) : Except Thrown Bytes :=
  standardB64ToBytes browser (padToFour (b64url.map fromUrlSafe))

/-- What a request of the page comes back with. -/
inductive Answer
  | failed (message : List Char)
  | status (code : ℕ)
  | ok (encBlob : List Char) (passphraseSalt : Option (List Char))

/-- The ciphertext and the salt of a link; an empty salt is none. -/
def Answer.share (browser : Browser) : Answer → Except Thrown (Bytes × Option Bytes)
  | failed message => .error (.error message)
  | status code =>
    if code = 404 then .error .shareUnavailable
    else .error (.error s!"server error ({code})".toList)
  | ok encBlob passphraseSalt => do
    let encBlob ← standardB64ToBytes browser encBlob
    let salt ← (passphraseSalt.filter (· ≠ [])).mapM (standardB64ToBytes browser)
    return (encBlob, salt)

/-- The text of an error. -/
def errorText : Places.Error → String
  | .malformed message => s!"malformed data: {message}"
  | .unsupportedScheme scheme alg => s!"unsupported scheme {scheme} / alg {alg}"
  | .crypto => "cryptographic operation failed"

def thrownOf {α : Type} (r : Except Places.Error α) : Except Thrown α :=
  r.mapError fun e => .error (errorText e).toList

def key32 (key : Bytes) : Except Thrown Key :=
  if h : key.length = keyLen then .ok ⟨key, h⟩ else .error (.error "key must be 32 bytes".toList)

def salt16 (salt : Bytes) : Except Thrown Salt :=
  if h : salt.length = saltLen then .ok ⟨salt, h⟩
  else .error (.error "salt must be 16 bytes".toList)

/-- What the page shows. -/
inductive State
  | idle
  | revealing
  | revealed (secret : List Char)
  | error (message : List Char)
deriving DecidableEq

def Thrown.message : Thrown → List Char
  | shareUnavailable => "This link is invalid, expired, revoked, or has already been viewed.".toList
  | error message => "Couldn't reveal the secret: ".toList ++ message

section Page

variable (crypto : Crypto) (browser : Browser)

def shareOpen (key envelope : Bytes) : Except Thrown Bytes := do
  let key ← key32 key
  thrownOf («open» crypto key envelope)

def sharePassphraseKey (fragmentKey passphrase salt : Bytes) : Except Thrown Bytes := do
  let salt ← salt16 salt
  let key ← key32 fragmentKey
  let derived ← thrownOf (passphraseKey crypto key passphrase salt)
  return derived.1

/-- The key that the page opens a link with. -/
def revealKey (fragmentKey : Bytes) (passphrase : List Char) (salt : Option Bytes) :
    Except Thrown Bytes :=
  match salt with
  | some salt =>
    if passphrase = [] then .error (.error "this link requires a passphrase".toList)
    else sharePassphraseKey crypto fragmentKey (Text.utf8 passphrase) salt
  | none => .ok fragmentKey

/-- The secret of a link, where the wasm module has loaded or not and the fetch has come back. -/
def secretOf (hash passphrase : List Char) (wasm : Except Thrown Unit) (answer : Answer) :
    Except Thrown (List Char) := do
  let fragment := hash.drop 1
  if fragment = [] then throw (.error "this link is missing its decryption key".toList)
  let fragmentKey ← urlSafeB64ToBytes browser fragment
  wasm
  let (encBlob, salt) ← answer.share browser
  let key ← revealKey crypto fragmentKey passphrase salt
  let plaintext ← shareOpen crypto key encBlob
  return Text.textDecode plaintext

/-- What the page shows after a click. -/
def reveal (hash passphrase : List Char) (wasm : Except Thrown Unit) (answer : Answer) : State :=
  match secretOf crypto browser hash passphrase wasm answer with
  | .ok secret => .revealed secret
  | .error thrown => .error thrown.message

end Page

end Share

end Sotto
