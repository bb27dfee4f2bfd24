import Mathlib.Data.Set.Basic

/-!
# What can be derived

An observer who knows some messages derives others by rules, each from the messages that it takes.
A property that the known messages have and that every rule keeps is a property of all that the
observer can derive.
-/

universe u

namespace Knowledge

variable {M : Type u} {rules : List M → M → Prop} {K K' : Set M} {P : M → Prop} {m : M}

/-- The messages that are derived from known ones. -/
inductive Derives (rules : List M → M → Prop) (K : Set M) : M → Prop
  | known {m : M} : m ∈ K → Derives rules K m
  | rule {premises : List M} {m : M} : rules premises m → (∀ a ∈ premises, Derives rules K a) →
      Derives rules K m

/-- Every rule keeps a property. -/
def Closed (rules : List M → M → Prop) (P : M → Prop) : Prop :=
  ∀ premises m, rules premises m → (∀ a ∈ premises, P a) → P m

theorem Derives.of_closed (hP : Closed rules P) (hK : ∀ m ∈ K, P m) (h : Derives rules K m) :
    P m := by
  induction h with
  | known hm => exact hK _ hm
  | rule hrule _ ih => exact hP _ _ hrule ih

/-- Knowing what can be derived adds nothing. -/
theorem Derives.cut (hK : ∀ m ∈ K', Derives rules K m) (h : Derives rules K' m) :
    Derives rules K m :=
  h.of_closed (fun _ _ => .rule) hK

theorem Derives.mono (hK : K ⊆ K') (h : Derives rules K m) : Derives rules K' m :=
  h.cut fun _ hm => .known (hK hm)

end Knowledge
