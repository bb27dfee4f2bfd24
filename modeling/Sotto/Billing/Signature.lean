import Sotto.Library.Numbers

/-!
# The signature of a webhook

The signature header has a timestamp and candidates for the authentication code of the timestamp
and the payload. The code is a parameter. An operation on 64 bits that overflows has no value.
-/

namespace Sotto

namespace Billing

open Text Numbers

def signatureToleranceSecs : ℤ := 300

/-- Read pairs of hexadecimal digits. -/
def decodeHex (s : List Char) : Option (List UInt8) :=
  if byteLength s % 2 ≠ 0 then none
  else (List.range (byteLength s / 2)).mapM fun i =>
    (getBytes s (2 * i) (2 * i + 2)).bind (parseU8 16)

/-- What has been read of a signature header. -/
structure SignatureFields where
  timestamp : Option ℤ
  candidates : List (List UInt8)

def readField (fields : SignatureFields) (part : List Char) : SignatureFields :=
  match splitOnce '=' (trim part) with
  | some (key, value) =>
    if key = "t".toList then { fields with timestamp := parseI64 value }
    else if key = "v1".toList then
      { fields with candidates := fields.candidates ++ (decodeHex value).toList }
    else fields
  | none => fields

/-- What the authentication code is of. -/
def signedBytes (t : ℤ) (payload : String) : List UInt8 :=
  utf8 (toString t).toList ++ utf8 ['.'] ++ utf8 payload.toList

/-- Verify a signature header, unless an operation overflows. -/
def verifySignature (hmac : List UInt8 → List UInt8 → List UInt8)
    (secret header payload : String) (now : ℤ) : Option Bool := do
  let fields := (header.toList.splitOn ',').foldl readField ⟨none, []⟩
  match fields.timestamp with
  | none => return false
  | some t =>
    let age ← absI64 (← subI64 now t)
    if signatureToleranceSecs < age ∨ fields.candidates = [] then
      return false
    let mac := hmac (utf8 secret.toList) (signedBytes t payload)
    return fields.candidates.any fun candidate => candidate = mac

end Billing

end Sotto
