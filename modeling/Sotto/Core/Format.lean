import Mathlib.Algebra.Order.Ring.Nat

/-!
# Key text

The human-facing encoding of keys: Crockford base32, with a version and a Fletcher-16 checksum.
The bit buffers are 16 bits wide, so a shift to the left drops what goes beyond them. Text is a
list of characters, and the decoder reads its UTF-8 bytes.
-/

namespace Sotto

namespace Core

namespace Format

/-- Crockford base32 alphabet, without the ambiguous letters I, L, O and U. -/
def crockfordAlphabet : List Char :=
  ['0', '1', '2', '3', '4', '5', '6', '7', '8', '9', 'A', 'B', 'C', 'D', 'E', 'F',
    'G', 'H', 'J', 'K', 'M', 'N', 'P', 'Q', 'R', 'S', 'T', 'V', 'W', 'X', 'Y', 'Z']

inductive Error
  | malformed (message : String)
  | keyPrefix
  | checksum
deriving DecidableEq

/-- `a << k` on 16 bits. -/
def shl16 (a k : ℕ) : ℕ :=
  (a <<< k) % 2 ^ 16

/-- `(1 << bits) - 1`. -/
def mask (bits : ℕ) : ℕ :=
  1 <<< bits - 1

/-- The symbol of an index, which is below 32. -/
def symbol (idx : ℕ) : Char :=
  crockfordAlphabet.getD idx '0'

/-- What a loop over the input has in its buffer, and what it has put out. -/
structure Buffer (α : Type) where
  out : List α
  acc : ℕ
  bits : ℕ

/-- `while bits >= 5`: put out symbols. -/
def drain (acc : ℕ) : ℕ → List Char → List Char × ℕ
  | bits + 5, out => drain acc bits (out ++ [symbol ((acc >>> bits) &&& 0x1f)])
  | bits, out => (out, bits)

def encodeByte (s : Buffer Char) (b : UInt8) : Buffer Char :=
  let acc := shl16 s.acc 8 ||| b.toNat
  let drained := drain acc (s.bits + 8) s.out
  ⟨drained.1, acc &&& mask drained.2, drained.2⟩

/-- Encode bytes as Crockford base32. -/
def encode (data : List UInt8) : List Char :=
  let s := data.foldl encodeByte ⟨[], 0, 0⟩
  if 0 < s.bits then s.out ++ [symbol (shl16 s.acc (5 - s.bits) &&& 0x1f)] else s.out

/-- `'low'..='high'`. -/
def inRange (low high c : Char) : Bool :=
  low.toNat ≤ c.toNat && c.toNat ≤ high.toNat

def decodeSymbol (c : Char) : Option ℕ :=
  let u := c.toUpper
  if u = 'O' then some 0
  else if u = 'I' ∨ u = 'L' then some 1
  else if inRange '0' '9' u then some (u.toNat - '0'.toNat)
  else if inRange 'A' 'H' u then some (u.toNat - 'A'.toNat + 10)
  else if inRange 'J' 'K' u then some (u.toNat - 'J'.toNat + 18)
  else if inRange 'M' 'N' u then some (u.toNat - 'M'.toNat + 20)
  else if inRange 'P' 'T' u then some (u.toNat - 'P'.toNat + 22)
  else if inRange 'V' 'Z' u then some (u.toNat - 'V'.toNat + 27)
  else none

/-- The UTF-8 bytes of a text. -/
def utf8 (s : List Char) : List UInt8 :=
  s.flatMap String.utf8EncodeChar

/-- Take one symbol into the buffer. -/
def decodeValue (s : Buffer UInt8) (v : ℕ) : Buffer UInt8 :=
  let acc := shl16 s.acc 5 ||| v
  let bits := s.bits + 5
  if 8 ≤ bits then
    ⟨s.out ++ [UInt8.ofNat (acc >>> (bits - 8))], acc &&& mask (bits - 8), bits - 8⟩
  else ⟨s.out, acc, bits⟩

def decodeByte (s : Buffer UInt8) (byte : UInt8) : Except Error (Buffer UInt8) :=
  let c := Char.ofNat byte.toNat
  if c = '-' then .ok s
  else match decodeSymbol c with
    | none => .error (.malformed "invalid base32 symbol")
    | some v => .ok (decodeValue s v)

/-- Decode a Crockford base32 text; hyphens are ignored. -/
def decode (s : List Char) : Except Error (List UInt8) :=
  ((utf8 s).foldlM decodeByte ⟨[], 0, 0⟩).map Buffer.out

/-- One step of a Fletcher-16 checksum. -/
def fletcherStep (sums : ℕ × ℕ) (x : UInt8) : ℕ × ℕ :=
  let a := (sums.1 + x.toNat) % 255
  (a, (sums.2 + a) % 255)

/-- Fletcher-16 checksum. -/
def fletcher16 (data : List UInt8) : List UInt8 :=
  let sums := data.foldl fletcherStep (0, 0)
  [UInt8.ofNat sums.1, UInt8.ofNat sums.2]

def tagged (pre : List Char) (version : UInt8) (payload : List UInt8) : List UInt8 :=
  utf8 pre ++ [version] ++ payload

/-- The first pieces of `n` characters of a text, at most `count` of them. -/
def chunksUpTo (n : ℕ) : (count : ℕ) → List Char → List (List Char)
  | 0, _ => []
  | _ + 1, [] => []
  | count + 1, c :: s => (c :: s).take n :: chunksUpTo n count ((c :: s).drop n)

/-- The text in pieces of `n` characters, for a positive `n`. -/
def chunks (n : ℕ) (s : List Char) : List (List Char) :=
  chunksUpTo n s.length s

/-- The text in pieces of `n` characters, joined with hyphens. -/
def group (s : List Char) (n : ℕ) : List Char :=
  ['-'].intercalate (chunks n s)

/-- What a key text begins with. -/
def head (pre : List Char) (version : UInt8) : List Char :=
  pre ++ (toString version.toNat).toList ++ ['-']

/-- The payload with its checksum. -/
def checked (pre : List Char) (version : UInt8) (payload : List UInt8) : List UInt8 :=
  payload ++ fletcher16 (tagged pre version payload)

/-- Encode a versioned key text with a checksum. -/
def encodeKey (pre : List Char) (version : UInt8) (payload : List UInt8) : List Char :=
  head pre version ++ group (encode (checked pre version payload)) 5

def stripPrefix (pre s : List Char) : Option (List Char) :=
  if pre.isPrefixOf s then some (s.drop pre.length) else none

/-- The payload of a body whose checksum is right. -/
def verify (pre : List Char) (version : UInt8) (body : List UInt8) :
    Except Error (List UInt8) :=
  if body.length < 2 then .error (.malformed "key too short")
  else if fletcher16 (tagged pre version (body.take (body.length - 2))) =
      body.drop (body.length - 2) then .ok (body.take (body.length - 2))
  else .error .checksum

/-- Decode and verify a key text. -/
def decodeKey (pre : List Char) (version : UInt8) (s : List Char) :
    Except Error (List UInt8) :=
  match stripPrefix (head pre version) s with
  | none => .error .keyPrefix
  | some rest => decode rest >>= verify pre version

end Format

end Core

end Sotto
