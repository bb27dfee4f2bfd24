import Sotto.Library.SortBy

/-!
# Overriding entries

Entries in strict order of their names stand for a finite map. One list of entries overrides
another: its own entries come first, and those of the other remain under the names it lacks.
-/

namespace Sotto

variable {κ ν : Type*} [LinearOrder κ] {src dst : List (κ × ν)} {e : κ × ν}

/-- The entries of `dst` with those of `src` written over them, in the order of the names. -/
def overriding (src dst : List (κ × ν)) : List (κ × ν) :=
  sortBy Prod.fst (src ++ dst.filter fun e => e.1 ∉ src.map Prod.fst)

theorem mem_overriding : e ∈ overriding src dst ↔ e ∈ src ∨ e ∈ dst ∧ e.1 ∉ src.map Prod.fst := by
  rw [overriding, mem_sortBy, List.mem_append, List.mem_filter, decide_eq_true_eq]

theorem ascends_overriding (hsrc : (src.map Prod.fst).Nodup) (hdst : Ascends Prod.fst dst) :
    Ascends Prod.fst (overriding src dst) := by
  refine ascends_sortBy ?_
  rw [List.map_append, List.nodup_append']
  refine ⟨hsrc, hdst.nodup.sublist (List.filter_sublist.map _), ?_⟩
  intro name hname hother
  obtain ⟨e, he, rfl⟩ := List.mem_map.mp hother
  exact of_decide_eq_true (List.mem_filter.mp he).2 hname

/-- A name has one entry. -/
theorem Ascends.entry_unique {l : List (κ × ν)} (h : Ascends Prod.fst l) {name : κ} {v w : ν}
    (hv : (name, v) ∈ l) (hw : (name, w) ∈ l) : v = w :=
  congrArg Prod.snd (List.inj_on_of_nodup_map h.nodup hv hw rfl)

/-- Entries that are there change nothing. -/
theorem overriding_of_subset (hsrc : (src.map Prod.fst).Nodup) (hdst : Ascends Prod.fst dst)
    (h : src ⊆ dst) : overriding src dst = dst := by
  refine (ascends_overriding hsrc hdst).eq_of_mem_iff hdst fun e => ?_
  rw [mem_overriding]
  constructor
  · rintro (he | ⟨he, -⟩)
    · exact h he
    · exact he
  · intro he
    by_cases hname : e.1 ∈ src.map Prod.fst
    · obtain ⟨e', he', hname'⟩ := List.mem_map.mp hname
      have heq : e' = e := List.inj_on_of_nodup_map hdst.nodup (h he') he hname'
      exact .inl (heq ▸ he')
    · exact .inr ⟨he, hname⟩

/-- Entries are written over others one after the other. -/
theorem overriding_cons (hsrc : ((e :: src).map Prod.fst).Nodup) (hdst : Ascends Prod.fst dst) :
    overriding src (overriding [e] dst) = overriding (e :: src) dst := by
  rw [List.map_cons, List.nodup_cons] at hsrc
  have hone : Ascends Prod.fst (overriding [e] dst) := ascends_overriding (by simp) hdst
  refine (ascends_overriding hsrc.2 hone).eq_of_mem_iff
    (ascends_overriding (by simpa using hsrc) hdst) fun a => ?_
  simp only [mem_overriding, List.map_cons, List.map_nil, List.mem_cons, List.not_mem_nil, or_false,
    not_or]
  constructor
  · rintro (ha | ⟨rfl | ⟨ha, hne⟩, hsrc'⟩)
    · exact .inl (.inr ha)
    · exact .inl (.inl rfl)
    · exact .inr ⟨ha, hne, hsrc'⟩
  · rintro ((rfl | ha) | ⟨ha, hne, hsrc'⟩)
    · exact .inr ⟨.inl rfl, hsrc.1⟩
    · exact .inl ha
    · exact .inr ⟨.inr ⟨ha, hne⟩, hsrc'⟩

section Missing

variable [DecidableEq ν]

/-- The entries of `src` that `dst` does not have. -/
def missing (src dst : List (κ × ν)) : List (κ × ν) :=
  src.filter (· ∉ dst)

theorem mem_missing : e ∈ missing src dst ↔ e ∈ src ∧ e ∉ dst := by
  rw [missing, List.mem_filter, decide_eq_true_eq]

theorem missing_cons_of_mem (h : e ∈ dst) : missing (e :: src) dst = missing src dst := by
  simp [missing, h]

theorem missing_cons_of_not_mem (h : e ∉ dst) :
    missing (e :: src) dst = e :: missing src dst := by
  simp [missing, h]

theorem nodup_missing (h : (src.map Prod.fst).Nodup) : ((missing src dst).map Prod.fst).Nodup :=
  h.sublist (List.filter_sublist.map _)

/-- Only the missing entries need to be written. -/
theorem overriding_missing (hsrc : (src.map Prod.fst).Nodup) (hdst : Ascends Prod.fst dst) :
    overriding (missing src dst) dst = overriding src dst := by
  refine (ascends_overriding (nodup_missing hsrc) hdst).eq_of_mem_iff
    (ascends_overriding hsrc hdst) fun e => ?_
  rw [mem_overriding, mem_overriding, mem_missing]
  constructor
  · rintro (⟨he, -⟩ | ⟨he, hname⟩)
    · exact .inl he
    · by_cases hsrc' : e.1 ∈ src.map Prod.fst
      · obtain ⟨e', he', heq⟩ := List.mem_map.mp hsrc'
        by_cases hmem : e' ∈ dst
        · exact .inl (List.inj_on_of_nodup_map hdst.nodup hmem he heq ▸ he')
        · exact absurd (heq ▸ List.mem_map_of_mem (mem_missing.mpr ⟨he', hmem⟩)) hname
      · exact .inr ⟨he, hsrc'⟩
  · rintro (he | ⟨he, hname⟩)
    · by_cases hmem : e ∈ dst
      · refine .inr ⟨hmem, fun hname => ?_⟩
        obtain ⟨e', he', heq⟩ := List.mem_map.mp hname
        rw [mem_missing] at he'
        exact he'.2 (List.inj_on_of_nodup_map hsrc he'.1 he heq ▸ hmem)
      · exact .inl ⟨he, hmem⟩
    · exact .inr ⟨he, fun hmissing => hname ((List.filter_sublist.map Prod.fst).subset hmissing)⟩

end Missing

end Sotto
