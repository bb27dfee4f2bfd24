import Mathlib.Algebra.Order.Ring.Int

/-!
# JSON values

JSON values whose numbers are integers. The fields of an object are kept in the order of their
keys, as a sorted map keeps them, so that equal values are equal objects.
-/

namespace Sotto

inductive Json
  | null
  | num (n : Int)
  | str (s : String)
  | arr (elements : List Json)
  | obj (fields : List (String × Json))

namespace Json

mutual

/-- Equality of values is decided by recursion over both. -/
def decEq : (a b : Json) → Decidable (a = b)
  | null, null => .isTrue rfl
  | num m, num n =>
    if h : m = n then .isTrue (h ▸ rfl) else .isFalse fun hab => h (by injection hab)
  | str s, str t =>
    if h : s = t then .isTrue (h ▸ rfl) else .isFalse fun hab => h (by injection hab)
  | arr l, arr k =>
    match decEqList l k with
    | .isTrue h => .isTrue (h ▸ rfl)
    | .isFalse h => .isFalse fun hab => h (by injection hab)
  | obj l, obj k =>
    match decEqFields l k with
    | .isTrue h => .isTrue (h ▸ rfl)
    | .isFalse h => .isFalse fun hab => h (by injection hab)
  | null, num _ | null, str _ | null, arr _ | null, obj _ => .isFalse fun hab => by cases hab
  | num _, null | num _, str _ | num _, arr _ | num _, obj _ => .isFalse fun hab => by cases hab
  | str _, null | str _, num _ | str _, arr _ | str _, obj _ => .isFalse fun hab => by cases hab
  | arr _, null | arr _, num _ | arr _, str _ | arr _, obj _ => .isFalse fun hab => by cases hab
  | obj _, null | obj _, num _ | obj _, str _ | obj _, arr _ => .isFalse fun hab => by cases hab

def decEqList : (l k : List Json) → Decidable (l = k)
  | [], [] => .isTrue rfl
  | [], _ :: _ | _ :: _, [] => .isFalse fun hab => by cases hab
  | a :: l, b :: k =>
    match decEq a b, decEqList l k with
    | .isTrue h, .isTrue h' => .isTrue (h ▸ h' ▸ rfl)
    | .isFalse h, _ => .isFalse fun hab => h (by injection hab)
    | _, .isFalse h => .isFalse fun hab => h (by injection hab)

def decEqFields : (l k : List (String × Json)) → Decidable (l = k)
  | [], [] => .isTrue rfl
  | [], _ :: _ | _ :: _, [] => .isFalse fun hab => by cases hab
  | (s, a) :: l, (t, b) :: k =>
    if hst : s = t then
      match decEq a b, decEqFields l k with
      | .isTrue h, .isTrue h' => .isTrue (hst ▸ h ▸ h' ▸ rfl)
      | .isFalse h, _ => .isFalse fun hab => h (by injection hab with hab; injection hab)
      | _, .isFalse h => .isFalse fun hab => h (by injection hab)
    else .isFalse fun hab => hst (by injection hab with hab; injection hab)

end

instance : DecidableEq Json := decEq

/-- The field of an object. -/
def get : Json → String → Option Json
  | obj fields, field => fields.lookup field
  | _, _ => none

def asStr : Json → Option String
  | str s => some s
  | _ => none

/-- The number is one of 64 bits. -/
def IsI64 (n : Int) : Prop :=
  -2 ^ 63 ≤ n ∧ n < 2 ^ 63

instance (n : Int) : Decidable (IsI64 n) := inferInstanceAs (Decidable (_ ∧ _))

def asI64 : Json → Option Int
  | num n => if IsI64 n then some n else none
  | _ => none

def asArray : Json → Option (List Json)
  | arr elements => some elements
  | _ => none

def asObject : Json → Option (List (String × Json))
  | obj fields => some fields
  | _ => none

end Json

end Sotto
