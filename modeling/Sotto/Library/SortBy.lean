import Mathlib.Data.List.Sort

/-!
# Sorting by a key

A list in the order of a key, and the lists that are in strict order of it: such a list is
determined by its members.
-/

namespace Sotto

variable {α κ : Type*} [LinearOrder κ] {key : α → κ} {l l₁ l₂ : List α}

/-- The list in the order of the key; entries with one key keep their order. -/
def sortBy (key : α → κ) (l : List α) : List α :=
  l.insertionSort fun a b => key a ≤ key b

/-- The list is in the order of the key, with no key twice. -/
def Ascends (key : α → κ) (l : List α) : Prop :=
  l.Pairwise fun a b => key a < key b

instance keyTotal (key : α → κ) : Std.Total fun a b => key a ≤ key b :=
  ⟨fun a b => le_total (key a) (key b)⟩

instance keyTrans (key : α → κ) : IsTrans α fun a b => key a ≤ key b :=
  ⟨fun _ _ _ => le_trans⟩

instance keyIrrefl (key : α → κ) : Std.Irrefl fun a b => key a < key b :=
  ⟨fun a => lt_irrefl (key a)⟩

instance keyAntisymm (key : α → κ) : Std.Antisymm fun a b => key a < key b :=
  ⟨fun _ _ hab hba => absurd hba hab.not_gt⟩

theorem perm_sortBy (key : α → κ) (l : List α) : (sortBy key l).Perm l :=
  List.perm_insertionSort _ l

@[simp]
theorem mem_sortBy {a : α} : a ∈ sortBy key l ↔ a ∈ l :=
  (perm_sortBy key l).mem_iff

theorem pairwise_sortBy (key : α → κ) (l : List α) :
    (sortBy key l).Pairwise fun a b => key a ≤ key b :=
  List.pairwise_insertionSort _ l

theorem ascends_sortBy (hkey : (l.map key).Nodup) : Ascends key (sortBy key l) := by
  have hne : ((sortBy key l).map key).Nodup := ((perm_sortBy key l).map key).nodup_iff.mpr hkey
  have hdiff : (sortBy key l).Pairwise fun a b => key a ≠ key b := List.pairwise_map.mp hne
  exact ((pairwise_sortBy key l).and hdiff).imp fun h => lt_of_le_of_ne h.1 h.2

/-- Lists in strict order are equal if they have the same members. -/
theorem Ascends.eq_of_mem_iff (h₁ : Ascends key l₁) (h₂ : Ascends key l₂)
    (h : ∀ a, a ∈ l₁ ↔ a ∈ l₂) : l₁ = l₂ :=
  List.Pairwise.eq_of_mem_iff h₁ h₂ h

theorem Ascends.sortBy_eq (h : Ascends key l) : sortBy key l = l :=
  List.Pairwise.insertionSort_eq (h.imp le_of_lt)

theorem Ascends.nodup (h : Ascends key l) : (l.map key).Nodup :=
  List.pairwise_map.mpr (h.imp ne_of_lt)

end Sotto
