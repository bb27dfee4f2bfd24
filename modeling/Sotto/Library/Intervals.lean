import Mathlib.Data.List.Pairwise
import Mathlib.Logic.Relation
import Mathlib.Order.Bounds.Basic
import Mathlib.Order.MinMax

/-!
# Half-open intervals and their union

Half-open intervals over a linear order. Two intervals meet if they overlap or touch, and the
component of an interval in a set of them is what chains of meeting intervals reach from it.
A sweep over a list in the order of its starts computes one interval for each component.
-/

namespace Sotto

/-- A half-open interval. -/
structure Span (α : Type*) where
  starts : α
  ends : α
deriving DecidableEq

namespace Span

variable {α : Type*} [LinearOrder α]

def Holds (s : Span α) (x : α) : Prop :=
  s.starts ≤ x ∧ x < s.ends

instance (s : Span α) (x : α) : Decidable (s.Holds x) :=
  inferInstanceAs (Decidable (_ ∧ _))

/-- The spans overlap or touch. -/
def Meets (s t : Span α) : Prop :=
  s.starts ≤ t.ends ∧ t.starts ≤ s.ends

/-- `t` is in the component of `s`. -/
def Joined (S : Set (Span α)) : Span α → Span α → Prop :=
  Relation.ReflTransGen fun s t => t ∈ S ∧ s.Meets t

def Component (S : Set (Span α)) (s : Span α) : Set (Span α) :=
  {t | Joined S s t}

/-- The end of the component of `s`. -/
def IsEnd (S : Set (Span α)) (s : Span α) (e : α) : Prop :=
  IsGreatest (ends '' Component S s) e

/-- The ends of the components of `S` that have ended at `x`. -/
def Ended (S : Set (Span α)) (x : α) : Set α :=
  {e | e ≤ x ∧ ∃ s ∈ S, IsEnd S s e}

variable {S T : Set (Span α)} {s t e : Span α} {x y : α}

theorem Meets.symm (h : s.Meets t) : t.Meets s :=
  ⟨h.2, h.1⟩

theorem Meets.of_holds (hs : s.Holds x) (ht : t.Holds x) : s.Meets t :=
  ⟨hs.1.trans ht.2.le, ht.1.trans hs.2.le⟩

theorem Joined.mono (hST : S ⊆ T) (h : Joined S s t) : Joined T s t :=
  Relation.ReflTransGen.mono (fun _ _ hst => ⟨hST hst.1, hst.2⟩) _ _ h

theorem Joined.mem (hs : s ∈ S) (h : Joined S s t) : t ∈ S := by
  cases h with
  | refl => exact hs
  | tail _ hst => exact hst.1

theorem Joined.symm (hs : s ∈ S) (h : Joined S s t) : Joined S t s := by
  induction h with
  | refl => exact .refl
  | tail hst htu ih => exact .head ⟨Joined.mem hs hst, htu.2.symm⟩ ih

theorem component_mono (hST : S ⊆ T) : Component S s ⊆ Component T s :=
  fun _ h => Joined.mono hST h

/-- More spans move no end of a component forward in time. -/
theorem IsEnd.mono (hST : S ⊆ T) (hx : IsEnd S s x) (hy : IsEnd T s y) : x ≤ y :=
  IsGreatest.mono hx hy (Set.image_mono (component_mono hST))

/-- Two spans that hold one point are in one component. -/
theorem IsEnd.eq_of_holds (hs : s ∈ S) (ht : t ∈ S) (hsx : s.Holds x) (htx : t.Holds x) {y z : α}
    (hy : IsEnd S s y) (hz : IsEnd S t z) : y = z := by
  have hst : Component S t = Component S s := by
    ext u
    constructor
    · exact fun hu => Relation.ReflTransGen.head ⟨ht, .of_holds hsx htx⟩ hu
    · exact fun hu => Relation.ReflTransGen.head ⟨hs, .of_holds htx hsx⟩ hu
  unfold IsEnd at hz
  rw [hst] at hz
  exact hy.unique hz

/-- A chain of spans that leaves a point out stays on its side. -/
theorem Joined.ends_le (h : Joined S s t) (hx : ∀ u ∈ S, ¬ u.Holds x) (hs : s.ends ≤ x) :
    t.ends ≤ x := by
  induction h with
  | refl => exact hs
  | tail _ htu ih =>
    refine not_lt.mp fun hlt => hx _ htu.1 ⟨?_, hlt⟩
    exact htu.2.2.trans ih

/-- With no span at `x`, what has ended at `x` in `S` ends no later in a larger set. -/
theorem Ended.mono (hST : S ⊆ T) (hx : ∀ u ∈ T, ¬ u.Holds x) (hends : ∀ s ∈ T, ∃ e, IsEnd T s e)
    (hy : y ∈ Ended S x) : ∃ z ∈ Ended T x, y ≤ z := by
  obtain ⟨hyx, s, hs, hsy⟩ := hy
  obtain ⟨z, hz⟩ := hends s (hST hs)
  refine ⟨z, ⟨?_, s, hST hs, hz⟩, hsy.mono hST hz⟩
  obtain ⟨t, ht, rfl⟩ := hz.1
  refine Joined.ends_le ht hx ?_
  exact (hsy.2 ⟨s, .refl, rfl⟩).trans hyx

/-- The sweep, from the component that `e` begins. -/
def sweepFrom (e : Span α) : List (Span α) → List (Span α)
  | [] => [e]
  | s :: l => if s.starts ≤ e.ends then sweepFrom ⟨e.starts, max e.ends s.ends⟩ l
    else e :: sweepFrom s l

/-- One span for each component of a list in the order of its starts. -/
def sweep : List (Span α) → List (Span α)
  | [] => []
  | s :: l => sweepFrom s l

/-- `e` is the union of the spans of `g`, which are joined to each other. -/
structure Cluster (g : List (Span α)) (e : Span α) : Prop where
  within : ∀ s ∈ g, e.starts ≤ s.starts ∧ s.ends ≤ e.ends
  last : ∃ s ∈ g, s.ends = e.ends
  joined : ∀ s ∈ g, ∀ t ∈ g, Joined {u | u ∈ g} s t
  covers : ∀ x, e.Holds x → ∃ s ∈ g, s.Holds x

theorem Cluster.single (s : Span α) : Cluster [s] s where
  within t ht := by
    obtain rfl := List.mem_singleton.mp ht
    exact ⟨le_rfl, le_rfl⟩
  last := ⟨s, by simp, rfl⟩
  joined t ht u hu := by
    obtain rfl := List.mem_singleton.mp ht
    obtain rfl := List.mem_singleton.mp hu
    exact .refl
  covers x hx := ⟨s, by simp, hx⟩

/-- The next span in the order of the starts extends a cluster that it meets. -/
theorem Cluster.cons {g : List (Span α)} (h : Cluster g e) (hg : ∀ t ∈ g, t.starts ≤ s.starts)
    (hs : s.starts ≤ s.ends) (hse : s.starts ≤ e.ends) :
    Cluster (s :: g) ⟨e.starts, max e.ends s.ends⟩ := by
  obtain ⟨t, htg, hte⟩ := h.last
  have hmeets : s.Meets t := ⟨hse.trans hte.ge, (hg t htg).trans hs⟩
  have hold : ∀ u ∈ g, ∀ v ∈ g, Joined {w | w ∈ s :: g} u v := fun u hu v hv =>
    (h.joined u hu v hv).mono fun w hw => List.mem_cons_of_mem s hw
  have hto : ∀ u ∈ g, Joined {w | w ∈ s :: g} u s := fun u hu =>
    (hold u hu t htg).tail ⟨List.mem_cons_self, hmeets.symm⟩
  have hmem : s ∈ {w | w ∈ s :: g} := List.mem_cons_self
  constructor
  · intro u hu
    rcases List.mem_cons.mp hu with rfl | hu
    · exact ⟨((h.within t htg).1).trans (hg t htg), le_max_right _ _⟩
    · exact ⟨(h.within u hu).1, (h.within u hu).2.trans (le_max_left _ _)⟩
  · rcases le_total e.ends s.ends with hle | hle
    · exact ⟨s, List.mem_cons_self, (max_eq_right hle).symm⟩
    · exact ⟨t, List.mem_cons_of_mem s htg, hte.trans (max_eq_left hle).symm⟩
  · intro u hu v hv
    rcases List.mem_cons.mp hu with rfl | hu
    · rcases List.mem_cons.mp hv with rfl | hv
      · exact .refl
      · exact (hto v hv).symm (List.mem_cons_of_mem _ hv)
    · rcases List.mem_cons.mp hv with hvs | hv
      · exact hvs ▸ hto u hu
      · exact hold u hu v hv
  · intro x hx
    rcases lt_or_ge x e.ends with hlt | hge
    · obtain ⟨u, hu, hux⟩ := h.covers x ⟨hx.1, hlt⟩
      exact ⟨u, List.mem_cons_of_mem s hu, hux⟩
    · have hlt : x < s.ends := (lt_max_iff.mp hx.2).resolve_left hge.not_gt
      exact ⟨s, List.mem_cons_self, hse.trans hge, hlt⟩

/-- What the sweep computes: clusters of the list, each span in one, all apart. -/
structure Swept (l : List (Span α)) (es : List (Span α)) : Prop where
  cluster : ∀ e ∈ es, ∃ g, (∀ s ∈ g, s ∈ l) ∧ Cluster g e
  within : ∀ s ∈ l, ∃ e ∈ es, e.starts ≤ s.starts ∧ s.ends ≤ e.ends
  apart : es.Pairwise fun e f => e.ends < f.starts

theorem starts_le_of_mem_sweepFrom {l : List (Span α)} (hl : l.Pairwise fun s t => s.starts ≤ t.starts)
    (he : ∀ s ∈ l, e.starts ≤ s.starts) {f : Span α} (hf : f ∈ sweepFrom e l) :
    e.starts ≤ f.starts := by
  induction l generalizing e with
  | nil =>
    obtain rfl := List.mem_singleton.mp hf
    exact le_rfl
  | cons s l ih =>
    obtain ⟨hsl, hl⟩ := List.pairwise_cons.mp hl
    have hes := he s List.mem_cons_self
    unfold sweepFrom at hf
    split at hf
    · have hle : ∀ t ∈ l, (⟨e.starts, max e.ends s.ends⟩ : Span α).starts ≤ t.starts :=
        fun t ht => he t (List.mem_cons_of_mem s ht)
      exact ih (e := ⟨e.starts, max e.ends s.ends⟩) hl hle hf
    · rcases List.mem_cons.mp hf with rfl | hf
      · exact le_rfl
      · exact hes.trans (ih hl hsl hf)

theorem swept_sweepFrom {g l : List (Span α)} (hg : Cluster g e)
    (hgl : ∀ t ∈ g, ∀ s ∈ l, t.starts ≤ s.starts)
    (hl : l.Pairwise fun s t => s.starts ≤ t.starts) (hle : ∀ s ∈ l, s.starts ≤ s.ends) :
    Swept (g ++ l) (sweepFrom e l) := by
  induction l generalizing e g with
  | nil =>
    refine ⟨fun f hf => ?_, fun s hs => ?_, List.pairwise_singleton _ _⟩
    · obtain rfl := List.mem_singleton.mp hf
      exact ⟨g, fun s hs => List.mem_append_left _ hs, hg⟩
    · exact ⟨e, List.mem_singleton_self e, hg.within s (by simpa using hs)⟩
  | cons s l ih =>
    obtain ⟨hsl, hl⟩ := List.pairwise_cons.mp hl
    have hs := hle s List.mem_cons_self
    have hlel : ∀ t ∈ l, t.starts ≤ t.ends := fun t ht => hle t (List.mem_cons_of_mem s ht)
    unfold sweepFrom
    split
    case isTrue hse =>
      have hnext := ih (hg.cons (fun t ht => hgl t ht s List.mem_cons_self) hs hse)
        (fun t ht u hu => by
          rcases List.mem_cons.mp ht with rfl | ht
          · exact hsl u hu
          · exact hgl t ht u (List.mem_cons_of_mem s hu)) hl hlel
      have hmem : ∀ t, t ∈ s :: g ++ l ↔ t ∈ g ++ s :: l := fun t => by
        simp only [List.cons_append, List.mem_cons, List.mem_append]
        tauto
      refine ⟨fun f hf => ?_, fun t ht => hnext.within t ((hmem t).mpr ht), hnext.apart⟩
      obtain ⟨g', hg', hf⟩ := hnext.cluster f hf
      exact ⟨g', fun t ht => (hmem t).mp (hg' t ht), hf⟩
    case isFalse hse =>
      have hnext := ih (.single s) (fun t ht u hu => by
        obtain rfl := List.mem_singleton.mp ht
        exact hsl u hu) hl hlel
      refine ⟨fun f hf => ?_, fun t ht => ?_, List.pairwise_cons.mpr ⟨fun f hf => ?_, hnext.apart⟩⟩
      · rcases List.mem_cons.mp hf with rfl | hf
        · exact ⟨g, fun t ht => List.mem_append_left _ ht, hg⟩
        · obtain ⟨g', hg', hf⟩ := hnext.cluster f hf
          exact ⟨g', fun t ht => List.mem_append_right g (hg' t ht), hf⟩
      · rcases List.mem_append.mp ht with ht | ht
        · exact ⟨e, List.mem_cons_self, hg.within t ht⟩
        · obtain ⟨f, hf, htf⟩ := hnext.within t ht
          exact ⟨f, List.mem_cons_of_mem e hf, htf⟩
      · exact (not_le.mp hse).trans_le (starts_le_of_mem_sweepFrom hl hsl hf)

theorem swept_sweep {l : List (Span α)} (hl : l.Pairwise fun s t => s.starts ≤ t.starts)
    (hle : ∀ s ∈ l, s.starts ≤ s.ends) : Swept l (sweep l) := by
  cases l with
  | nil => exact ⟨by simp [sweep], by simp, List.Pairwise.nil⟩
  | cons s l =>
    obtain ⟨hsl, hl⟩ := List.pairwise_cons.mp hl
    exact swept_sweepFrom (.single s) (fun t ht u hu => by
      obtain rfl := List.mem_singleton.mp ht
      exact hsl u hu) hl fun t ht => hle t (List.mem_cons_of_mem s ht)

namespace Swept

variable {l es : List (Span α)}

theorem holds_iff (h : Swept l es) : (∃ e ∈ es, e.Holds x) ↔ ∃ s ∈ l, s.Holds x := by
  constructor
  · rintro ⟨e, he, hex⟩
    obtain ⟨g, hg, hge⟩ := h.cluster e he
    obtain ⟨s, hs, hsx⟩ := hge.covers x hex
    exact ⟨s, hg s hs, hsx⟩
  · rintro ⟨s, hs, hsx⟩
    obtain ⟨e, he, hse⟩ := h.within s hs
    exact ⟨e, he, hse.1.trans hsx.1, hsx.2.trans_le hse.2⟩

theorem eq_or_apart (h : Swept l es) {f : Span α} (he : e ∈ es) (hf : f ∈ es) :
    e = f ∨ e.ends < f.starts ∨ f.ends < e.starts := by
  refine List.Pairwise.forall_of_forall_of_flip
    (R := fun e f : Span α => e = f ∨ e.ends < f.starts ∨ f.ends < e.starts) ?_ ?_ ?_ he hf
  · exact fun _ _ => Or.inl rfl
  · exact h.apart.imp fun hef => Or.inr (Or.inl hef)
  · exact h.apart.imp fun hef => Or.inr (Or.inr hef)

theorem within_of_joined (h : Swept l es) (he : e ∈ es) (hs : e.starts ≤ s.starts ∧ s.ends ≤ e.ends)
    (hst : Joined {u | u ∈ l} s t) : e.starts ≤ t.starts ∧ t.ends ≤ e.ends := by
  induction hst with
  | refl => exact hs
  | tail _ hut ih =>
    obtain ⟨hmem, hleft, hright⟩ := hut
    obtain ⟨f, hf, htf⟩ := h.within _ hmem
    rcases h.eq_or_apart he hf with rfl | hlt | hlt
    · exact htf
    · exact absurd ((htf.1.trans hright).trans ih.2) hlt.not_ge
    · exact absurd ((ih.1.trans hleft).trans htf.2) hlt.not_ge

/-- The sweep computes the end of the component of each span. -/
theorem isEnd (h : Swept l es) (he : e ∈ es) (hlt : s.starts < s.ends)
    (hse : e.starts ≤ s.starts ∧ s.ends ≤ e.ends) : IsEnd {u | u ∈ l} s e.ends := by
  obtain ⟨g, hgl, hg⟩ := h.cluster e he
  obtain ⟨t, htg, hte⟩ := hg.last
  obtain ⟨u, hug, hu⟩ := hg.covers s.starts ⟨hse.1, hlt.trans_le hse.2⟩
  refine ⟨⟨t, ?_, hte⟩, ?_⟩
  · have hsu : s.Meets u := .of_holds ⟨le_rfl, hlt⟩ hu
    exact .head ⟨hgl u hug, hsu⟩ ((hg.joined u hug t htg).mono hgl)
  · rintro _ ⟨v, hv, rfl⟩
    exact (h.within_of_joined he hse hv).2

theorem exists_isEnd (h : Swept l es) (hl : ∀ s ∈ l, s.starts < s.ends) (hs : s ∈ l) :
    ∃ y, IsEnd {u | u ∈ l} s y := by
  obtain ⟨e, he, hse⟩ := h.within s hs
  exact ⟨e.ends, h.isEnd he (hl s hs) hse⟩

theorem isEnd_of_holds (h : Swept l es) (hl : ∀ s ∈ l, s.starts < s.ends) (he : e ∈ es)
    (hex : e.Holds x) : ∃ s ∈ l, s.Holds x ∧ IsEnd {u | u ∈ l} s e.ends := by
  obtain ⟨g, hgl, hg⟩ := h.cluster e he
  obtain ⟨s, hs, hsx⟩ := hg.covers x hex
  exact ⟨s, hgl s hs, hsx, h.isEnd he (hl s (hgl s hs)) (hg.within s hs)⟩

theorem mem_ended (h : Swept l es) (hl : ∀ s ∈ l, s.starts < s.ends) :
    y ∈ Ended {u | u ∈ l} x ↔ y ≤ x ∧ ∃ e ∈ es, e.ends = y := by
  refine and_congr_right fun _ => ⟨?_, ?_⟩
  · rintro ⟨s, hs, hsy⟩
    obtain ⟨e, he, hse⟩ := h.within s hs
    exact ⟨e, he, (h.isEnd he (hl s hs) hse).unique hsy⟩
  · rintro ⟨e, he, rfl⟩
    obtain ⟨g, hgl, hg⟩ := h.cluster e he
    obtain ⟨s, hs, -⟩ := hg.last
    exact ⟨s, hgl s hs, h.isEnd he (hl s (hgl s hs)) (hg.within s hs)⟩

end Swept

end Span

end Sotto
