import Sotto.Library.Text

/-!
# The timestamps of operators

An operator gives a timestamp as text, which is checked byte by byte before the database reads it.
An index out of bounds has no value.
-/

namespace Sotto

namespace Org

open Text

/-- There is no fraction before the time zone, or one of digits. -/
def fractionIsDigits (bytes : List UInt8) (timezoneStart : ℕ) : Option Bool := do
  if timezoneStart ≤ 19 then
    return true
  if (← bytes[19]?) ≠ ascii '.' then
    return false
  if timezoneStart = 20 then
    return false
  return (← slice bytes 20 timezoneStart).all isAsciiDigit

/-- The time zone is a sign, hours and minutes. -/
def zoneIsOffset (bytes : List UInt8) (timezoneStart : ℕ) : Option Bool := do
  if bytes.length < timezoneStart + 6 then
    return false
  let sign ← bytes[timezoneStart]?
  if ¬ (sign = ascii '+' ∨ sign = ascii '-') then
    return false
  if (← bytes[timezoneStart + 3]?) ≠ ascii ':' then
    return false
  if ¬ (← slice bytes (timezoneStart + 1) (timezoneStart + 3)).all isAsciiDigit then
    return false
  return (← slice bytes (timezoneStart + 4) (timezoneStart + 6)).all isAsciiDigit

def bytesLookLikeRfc3339 (bytes : List UInt8) : Option Bool := do
  if bytes.length < 20 then
    return false
  if (← bytes[4]?) ≠ ascii '-' then
    return false
  if (← bytes[7]?) ≠ ascii '-' then
    return false
  if (← bytes[10]?) ≠ ascii 'T' then
    return false
  if (← bytes[13]?) ≠ ascii ':' then
    return false
  if (← bytes[16]?) ≠ ascii ':' then
    return false
  if bytes.getLast? ≠ some (ascii 'Z') ∧ bytes.length < 25 then
    return false
  let timezoneStart ←
    checkedSub bytes.length (if bytes.getLast? = some (ascii 'Z') then 1 else 6)
  if ¬ (← slice bytes 0 4).all isAsciiDigit then
    return false
  if ¬ (← slice bytes 5 7).all isAsciiDigit then
    return false
  if ¬ (← slice bytes 8 10).all isAsciiDigit then
    return false
  if ¬ (← slice bytes 11 13).all isAsciiDigit then
    return false
  if ¬ (← slice bytes 14 16).all isAsciiDigit then
    return false
  if ¬ (← slice bytes 17 19).all isAsciiDigit then
    return false
  if ¬ (← fractionIsDigits bytes timezoneStart) then
    return false
  if bytes.getLast? = some (ascii 'Z') then
    return true
  zoneIsOffset bytes timezoneStart

/-- Whether the text looks like a timestamp, unless an index is out of bounds. -/
def looksLikeRfc3339 (value : String) : Option Bool :=
  bytesLookLikeRfc3339 (utf8 value.toList)

end Org

end Sotto
