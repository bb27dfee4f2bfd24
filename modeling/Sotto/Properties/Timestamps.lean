import Sotto.Org.Timestamp

/-!
# The check of a timestamp is exact

The check accepts the texts of one form and no others, and no index in it is out of bounds. The
form is that of a date and a time, a fraction that may be missing, and a time zone; it is the same
for the characters of a text and for its bytes.
-/

namespace Sotto

namespace Org

open Text

section Form

variable {α β : Type} (digit : α → Prop) (code : Char → α)

/-- The text has the characters of a pattern, where `d` is any digit. -/
def Matches (pattern : List Char) (l : List α) : Prop :=
  List.Forall₂ (fun p a => if p = 'd' then digit a else a = code p) pattern l

/-- A dot and digits, or nothing. -/
def Fraction (l : List α) : Prop :=
  l = [] ∨ ∃ ds, ds ≠ [] ∧ (∀ d ∈ ds, digit d) ∧ l = code '.' :: ds

/-- `Z`, or a sign, hours and minutes. -/
def Zone (l : List α) : Prop :=
  l = [code 'Z'] ∨ ∃ sign time, (sign = code '+' ∨ sign = code '-') ∧
    Matches digit code "dd:dd".toList time ∧ l = sign :: time

/-- A date and a time, a fraction and a time zone. -/
def Rfc3339 (l : List α) : Prop :=
  ∃ time fraction zone, l = time ++ (fraction ++ zone) ∧
    Matches digit code "dddd-dd-ddTdd:dd:dd".toList time ∧ Fraction digit code fraction ∧
    Zone digit code zone

end Form

/-- The form of the characters of a text. -/
def HasRfc3339Form (s : List Char) : Prop :=
  Rfc3339 (fun c => c.isDigit) id s

/-- The form of the bytes of a text. -/
def BytesForm (l : List UInt8) : Prop :=
  Rfc3339 (fun b => isAsciiDigit b) ascii l

/-- The computation gives whether `p` holds. -/
def Decides (x : Option Bool) (p : Prop) : Prop :=
  ∃ b, x = some b ∧ (b = true ↔ p)

theorem decides_pure {b : Bool} {p : Prop} (h : b = true ↔ p) : Decides (pure b) p :=
  ⟨b, rfl, h⟩

/-- A check that refuses only what does not satisfy `p`. -/
theorem decides_refuse {c p : Prop} [Decidable c] {x : Option Bool} (hrefuse : p → ¬ c)
    (h : ¬ c → Decides x p) : Decides (if c then pure false else x) p := by
  split
  · next hc => exact ⟨false, rfl, by simpa using fun hp => hrefuse hp hc⟩
  · next hc => exact h hc

/-! ### The fraction -/

variable {time fraction zone : List UInt8}

theorem fractionIsDigits_spec (htime : time.length = 19) :
    Decides (fractionIsDigits (time ++ (fraction ++ zone))
      (19 + fraction.length)) (Fraction (fun b => isAsciiDigit b) ascii fraction) := by
  cases fraction with
  | nil => exact ⟨true, rfl, by simp [Fraction]⟩
  | cons dot ds =>
    have hdot : (time ++ (dot :: ds ++ zone))[19]? = some dot := by
      rw [List.getElem?_append_right (by omega), htime]
      rfl
    have hds : slice (time ++ (dot :: ds ++ zone)) 20 (19 + (dot :: ds).length) = some ds := by
      have h := slice_append (time ++ [dot]) ds zone
      rwa [List.append_assoc, List.singleton_append, List.length_append, htime,
        List.length_singleton, show 19 + 1 + ds.length = 19 + (dot :: ds).length by
          simp only [List.length_cons]; omega] at h
    have hlong : ¬ 19 + (dot :: ds).length ≤ 19 := by simp
    have hform : Fraction (fun b => isAsciiDigit b) ascii (dot :: ds) ↔
        dot = ascii '.' ∧ ds ≠ [] ∧ ∀ d ∈ ds, isAsciiDigit d := by
      simp only [Fraction, reduceCtorEq, false_or, List.cons.injEq]
      constructor
      · rintro ⟨ds', hne, hdigits, rfl, rfl⟩
        exact ⟨rfl, hne, hdigits⟩
      · rintro ⟨rfl, hne, hdigits⟩
        exact ⟨ds, hne, hdigits, rfl, rfl⟩
    simp only [fractionIsDigits, if_neg hlong, hdot, hds, Option.bind_eq_bind,
      Option.bind_some, hform]
    refine decides_refuse (fun h => not_not.mpr h.1) fun hc => ?_
    refine decides_refuse (fun h hlen => h.2.1 ?_) fun hlen => decides_pure ?_
    · rw [List.length_cons] at hlen
      exact List.eq_nil_of_length_eq_zero (by omega)
    · have hne : ds ≠ [] := by
        rintro rfl
        exact hlen rfl
      simp [not_not.mp hc, hne]

/-! ### The time zone -/

theorem zone_offset_iff {a b c d e f : UInt8} :
    Zone (fun b => isAsciiDigit b) ascii [a, b, c, d, e, f] ↔ (a = ascii '+' ∨ a = ascii '-') ∧
      d = ascii ':' ∧ (isAsciiDigit b ∧ isAsciiDigit c) ∧ isAsciiDigit e ∧ isAsciiDigit f := by
  have hmatches : Matches (fun b => isAsciiDigit b) ascii "dd:dd".toList [b, c, d, e, f] ↔
      d = ascii ':' ∧ (isAsciiDigit b ∧ isAsciiDigit c) ∧ isAsciiDigit e ∧ isAsciiDigit f := by
    simp [Matches]
    tauto
  rw [← hmatches]
  constructor
  · rintro (hz | ⟨sign, time, hsign, htime, hl⟩)
    · simp at hz
    · obtain ⟨rfl, rfl⟩ := List.cons.inj hl
      exact ⟨hsign, htime⟩
  · exact fun h => Or.inr ⟨a, _, h.1, h.2, rfl⟩

theorem zoneIsOffset_spec (l : List UInt8) (hzone : zone.length = 6) :
    Decides (zoneIsOffset (l ++ zone) l.length) (Zone (fun b => isAsciiDigit b) ascii zone) := by
  match zone, hzone with
  | [a, b, c, d, e, f], _ =>
    have hslice (n m : ℕ) (h : n ≤ m ∧ m ≤ 6) :
        slice (l ++ [a, b, c, d, e, f]) (l.length + n) (l.length + m) =
          some (([a, b, c, d, e, f].drop n).take (m - n)) := by
      rw [slice, if_pos ⟨by omega, by simpa using h.2⟩, ← List.drop_drop, List.drop_left,
        Nat.add_sub_add_left]
    have hlong : ¬ (l ++ [a, b, c, d, e, f]).length < l.length + 6 := by simp
    have hsign : (l ++ [a, b, c, d, e, f])[l.length]? = some a := by simp
    have hcolon : (l ++ [a, b, c, d, e, f])[l.length + 3]? = some d := by
      rw [List.getElem?_append_right (by omega), Nat.add_sub_cancel_left]
      rfl
    simp only [zoneIsOffset, if_neg hlong, hsign, hcolon, hslice 1 3 (by omega),
      hslice 4 6 (by omega), Option.bind_eq_bind, Option.bind_some, zone_offset_iff]
    refine decides_refuse (fun h => not_not.mpr h.1) fun hs => ?_
    refine decides_refuse (fun h => not_not.mpr h.2.1) fun hc => ?_
    refine decides_refuse (fun h => not_not.mpr ?_) fun hd => decides_pure ?_
    · simpa using h.2.2.1
    · have hminutes : isAsciiDigit b ∧ isAsciiDigit c := by simpa using hd
      simp [not_not.mp hs, not_not.mp hc, hminutes]

/-! ### The whole text -/

/-- The last byte of an offset is a digit, and there are six bytes. -/
theorem zone_cases (h : Zone (fun b => isAsciiDigit b) ascii zone) :
    zone = [ascii 'Z'] ∨ zone.length = 6 ∧ zone.getLast? ≠ some (ascii 'Z') := by
  have hform := h
  rcases h with hz | ⟨sign, time, -, htime, rfl⟩
  · exact Or.inl hz
  · have hlength : (sign :: time).length = 6 := by simpa [Matches] using htime.length_eq.symm
    refine Or.inr ⟨hlength, fun hlast => ?_⟩
    match time, hlength with
    | [b, c, d, e, f], _ =>
      obtain rfl : f = ascii 'Z' := by simpa using hlast
      have hdigit := (zone_offset_iff.mp hform).2.2.2.2
      exact absurd hdigit (by decide)

theorem zone_ne_nil (h : zone = [ascii 'Z'] ∨ zone.length = 6 ∧ zone.getLast? ≠ some (ascii 'Z')) :
    zone ≠ [] := by
  rcases h with rfl | ⟨hlength, -⟩
  · exact List.cons_ne_nil _ _
  · exact List.ne_nil_of_length_pos (by omega)

theorem matches_length {pattern : List Char} {l : List UInt8}
    (h : Matches (fun b => isAsciiDigit b) ascii pattern l) : l.length = pattern.length :=
  h.length_eq.symm

/-- The parts of a text of the form are where the check looks for them. -/
theorem rfc3339_append_iff (htime : time.length = 19)
    (hzone : zone = [ascii 'Z'] ∨ zone.length = 6 ∧ zone.getLast? ≠ some (ascii 'Z')) :
    BytesForm (time ++ (fraction ++ zone)) ↔
      Matches (fun b => isAsciiDigit b) ascii "dddd-dd-ddTdd:dd:dd".toList time ∧
        Fraction (fun b => isAsciiDigit b) ascii fraction ∧
        Zone (fun b => isAsciiDigit b) ascii zone := by
  constructor
  · rintro ⟨time', fraction', zone', hl, hmatches, hfraction, hform⟩
    obtain ⟨rfl, hrest⟩ := List.append_inj hl (by rw [htime, matches_length hmatches]; rfl)
    have hlast : zone.getLast? = zone'.getLast? := by
      have h := congrArg List.getLast? hrest
      rwa [List.getLast?_append_of_ne_nil _ (zone_ne_nil hzone),
        List.getLast?_append_of_ne_nil _ (zone_ne_nil (zone_cases hform))] at h
    have hlength : zone.length = zone'.length := by
      rcases hzone with rfl | ⟨hzone, hne⟩ <;> rcases zone_cases hform with rfl | ⟨hzone', hne'⟩
      · rfl
      · exact absurd hlast.symm hne'
      · exact absurd hlast hne
      · rw [hzone, hzone']
    obtain ⟨rfl, rfl⟩ := List.append_inj' hrest hlength
    exact ⟨hmatches, hfraction, hform⟩
  · exact fun h => ⟨time, fraction, zone, rfl, h⟩

theorem bytesLookLikeRfc3339_append (htime : time.length = 19)
    (hzone : zone = [ascii 'Z'] ∨ zone.length = 6 ∧ zone.getLast? ≠ some (ascii 'Z')) :
    Decides (bytesLookLikeRfc3339 (time ++ (fraction ++ zone)))
      (BytesForm (time ++ (fraction ++ zone))) := by
  rw [rfc3339_append_iff htime hzone]
  have hne := zone_ne_nil hzone
  have hfraction : Decides (fractionIsDigits (time ++ (fraction ++ zone))
      (19 + fraction.length)) (Fraction (fun b => isAsciiDigit b) ascii fraction) :=
    fractionIsDigits_spec htime
  have hoffset := @zoneIsOffset_spec zone (time ++ fraction)
  have hlast : (time ++ (fraction ++ zone)).getLast? = zone.getLast? := by
    rw [← List.append_assoc, List.getLast?_append_of_ne_nil _ hne]
  have hlength : (time ++ (fraction ++ zone)).length = 19 + fraction.length + zone.length := by
    rw [List.length_append, List.length_append, htime]
    omega
  have hstart : checkedSub (19 + fraction.length + zone.length)
      (if zone.getLast? = some (ascii 'Z') then 1 else 6) = some (19 + fraction.length) := by
    rcases hzone with rfl | ⟨hsix, hnot⟩
    · simp [checkedSub]
    · simp [checkedSub, hnot, hsix]
  have hpos := List.length_pos_of_ne_nil hne
  have hslice (a b : ℕ) (h : a ≤ b ∧ b ≤ 19) :
      slice (time ++ (fraction ++ zone)) a b = some ((time.drop a).take (b - a)) :=
    slice_append_left ⟨h.1, htime ▸ h.2⟩
  have hget (i : ℕ) (h : i < 19) : (time ++ (fraction ++ zone))[i]? = time[i]? :=
    List.getElem?_append_left (htime ▸ h)
  match time, htime with
  | [y₁, y₂, y₃, y₄, d₁, m₁, m₂, d₂, a₁, a₂, t, h₁, h₂, c₁, i₁, i₂, c₂, s₁, s₂], _ =>
    have hmatches : Matches (fun b => isAsciiDigit b) ascii "dddd-dd-ddTdd:dd:dd".toList
        [y₁, y₂, y₃, y₄, d₁, m₁, m₂, d₂, a₁, a₂, t, h₁, h₂, c₁, i₁, i₂, c₂, s₁, s₂] ↔
        d₁ = ascii '-' ∧ d₂ = ascii '-' ∧ t = ascii 'T' ∧ c₁ = ascii ':' ∧ c₂ = ascii ':' ∧
        [y₁, y₂, y₃, y₄].all isAsciiDigit ∧ [m₁, m₂].all isAsciiDigit ∧
        [a₁, a₂].all isAsciiDigit ∧ [h₁, h₂].all isAsciiDigit ∧ [i₁, i₂].all isAsciiDigit ∧
        [s₁, s₂].all isAsciiDigit := by
      simp [Matches]
      tauto
    have hshort : ¬ 19 + fraction.length + zone.length < 20 := by omega
    have hnarrow : ¬ (zone.getLast? ≠ some (ascii 'Z') ∧
        19 + fraction.length + zone.length < 25) := by
      rintro ⟨hnot, hlt⟩
      rcases hzone with rfl | ⟨hsix, -⟩
      · exact hnot rfl
      · omega
    have hyear := hslice 0 4 (by omega)
    have hmonth := hslice 5 7 (by omega)
    have hday := hslice 8 10 (by omega)
    have hhour := hslice 11 13 (by omega)
    have hminute := hslice 14 16 (by omega)
    have hsecond := hslice 17 19 (by omega)
    simp only [List.drop_zero, List.drop_succ_cons, List.take_succ_cons, List.take_zero,
      Nat.reduceSub] at hyear hmonth hday hhour hminute hsecond
    simp only [bytesLookLikeRfc3339, hlength, hlast, if_neg hshort, if_neg hnarrow, hstart, hyear,
      hmonth, hday, hhour, hminute, hsecond, hget 4 (by omega), hget 7 (by omega),
      hget 10 (by omega), hget 13 (by omega), hget 16 (by omega), hmatches, Option.bind_eq_bind,
      List.getElem?_cons_succ, List.getElem?_cons_zero, Option.bind_some]
    refine decides_refuse (fun h => not_not.mpr h.1.1) fun h₁ => ?_
    refine decides_refuse (fun h => not_not.mpr h.1.2.1) fun h₂ => ?_
    refine decides_refuse (fun h => not_not.mpr h.1.2.2.1) fun h₃ => ?_
    refine decides_refuse (fun h => not_not.mpr h.1.2.2.2.1) fun h₄ => ?_
    refine decides_refuse (fun h => not_not.mpr h.1.2.2.2.2.1) fun h₅ => ?_
    refine decides_refuse (fun h => not_not.mpr h.1.2.2.2.2.2.1) fun h₆ => ?_
    refine decides_refuse (fun h => not_not.mpr h.1.2.2.2.2.2.2.1) fun h₇ => ?_
    refine decides_refuse (fun h => not_not.mpr h.1.2.2.2.2.2.2.2.1) fun h₈ => ?_
    refine decides_refuse (fun h => not_not.mpr h.1.2.2.2.2.2.2.2.2.1) fun h₉ => ?_
    refine decides_refuse (fun h => not_not.mpr h.1.2.2.2.2.2.2.2.2.2.1) fun h₁₀ => ?_
    refine decides_refuse (fun h => not_not.mpr h.1.2.2.2.2.2.2.2.2.2.2) fun h₁₁ => ?_
    simp only [not_not] at h₁ h₂ h₃ h₄ h₅ h₆ h₇ h₈ h₉ h₁₀ h₁₁
    obtain ⟨isFraction, hisFraction, hfraction⟩ := hfraction
    rw [hisFraction, Option.bind_some]
    refine decides_refuse (fun h => not_not.mpr (hfraction.mpr h.2.1)) fun hdigits => ?_
    have hform := hfraction.mp (not_not.mp hdigits)
    split
    · next hz =>
      have hzone : zone = [ascii 'Z'] := hzone.resolve_right fun h => h.2 hz
      exact decides_pure (iff_of_true rfl
        ⟨⟨h₁, h₂, h₃, h₄, h₅, h₆, h₇, h₈, h₉, h₁₀, h₁₁⟩, hform, Or.inl hzone⟩)
    · next hz =>
      have hsix : zone.length = 6 := by
        rcases hzone with rfl | h
        · exact absurd rfl hz
        · exact h.1
      obtain ⟨isOffset, hisOffset, hoffset⟩ := hoffset hsix
      rw [List.append_assoc, List.length_append] at hisOffset
      refine ⟨isOffset, hisOffset, hoffset.trans ⟨fun h => ?_, fun h => h.2.2⟩⟩
      exact ⟨⟨h₁, h₂, h₃, h₄, h₅, h₆, h₇, h₈, h₉, h₁₀, h₁₁⟩, hform, h⟩

theorem bytesLookLikeRfc3339_spec (bytes : List UInt8) :
    Decides (bytesLookLikeRfc3339 bytes) (BytesForm bytes) := by
  by_cases h : ∃ time fraction zone, bytes = time ++ (fraction ++ zone) ∧ time.length = 19 ∧
      (zone = [ascii 'Z'] ∨ zone.length = 6 ∧ zone.getLast? ≠ some (ascii 'Z'))
  · obtain ⟨time, fraction, zone, rfl, htime, hzone⟩ := h
    exact bytesLookLikeRfc3339_append htime hzone
  · have hform : ¬ BytesForm bytes := by
      rintro ⟨time, fraction, zone, rfl, htime, -, hzone⟩
      exact h ⟨time, fraction, zone, rfl, matches_length htime, zone_cases hzone⟩
    have hrefuse {c : Prop} (hp : BytesForm bytes) : ¬ c := absurd hp hform
    refine decides_refuse hrefuse fun hlong => ?_
    have hnarrow : bytes.getLast? ≠ some (ascii 'Z') ∧ bytes.length < 25 := by
      by_contra hwide
      have hsplit (n : ℕ) (hn : 19 + n ≤ bytes.length) : bytes = bytes.take 19 ++
          ((bytes.drop 19).take (bytes.length - 19 - n) ++ bytes.drop (bytes.length - n)) := by
        have hdrop : bytes.drop (bytes.length - n) =
            (bytes.drop 19).drop (bytes.length - 19 - n) := by
          rw [List.drop_drop]
          congr 1
          omega
        rw [hdrop, List.take_append_drop, List.take_append_drop]
      have htime : (bytes.take 19).length = 19 := by
        rw [List.length_take]
        omega
      by_cases hz : bytes.getLast? = some (ascii 'Z')
      · refine h ⟨_, _, _, hsplit 1 (by omega), htime, Or.inl ?_⟩
        obtain ⟨init, rfl⟩ := List.getLast?_eq_some_iff.mp hz
        simp
      · have hwide : 25 ≤ bytes.length := by
          by_contra hlt
          exact hwide ⟨hz, by omega⟩
        refine h ⟨_, _, _, hsplit 6 (by omega), htime, Or.inr ⟨?_, ?_⟩⟩
        · rw [List.length_drop]
          omega
        · rwa [List.getLast?_drop, if_neg (by omega)]
    have hget (i : ℕ) (hi : i < 20) : ∃ b, bytes[i]? = some b :=
      ⟨bytes[i], List.getElem?_eq_getElem (by omega)⟩
    obtain ⟨b₁, h₁⟩ := hget 4 (by omega)
    obtain ⟨b₂, h₂⟩ := hget 7 (by omega)
    obtain ⟨b₃, h₃⟩ := hget 10 (by omega)
    obtain ⟨b₄, h₄⟩ := hget 13 (by omega)
    obtain ⟨b₅, h₅⟩ := hget 16 (by omega)
    simp only [h₁, h₂, h₃, h₄, h₅, Option.bind_eq_bind, Option.bind_some, if_pos hnarrow]
    refine decides_refuse hrefuse fun _ => decides_refuse hrefuse fun _ => ?_
    refine decides_refuse hrefuse fun _ => decides_refuse hrefuse fun _ => ?_
    exact decides_refuse hrefuse fun _ => decides_pure (iff_of_false Bool.false_ne_true hform)

/-! ### Characters and bytes -/

section Form

variable {α : Type} {digit : α → Prop} {code : Char → α} {Q : α → Prop}

theorem Matches.forall_mem {pattern : List Char} {l : List α} (h : Matches digit code pattern l)
    (hdigit : ∀ a, digit a → Q a) (hcode : ∀ p ∈ pattern, Q (code p)) : ∀ a ∈ l, Q a := by
  induction h with
  | nil => exact fun a ha => absurd ha List.not_mem_nil
  | @cons p a pattern l hp _ ih =>
    simp only [List.mem_cons, forall_eq_or_imp] at hcode ⊢
    refine ⟨?_, ih hcode.2⟩
    split at hp
    · exact hdigit a hp
    · exact hp ▸ hcode.1

/-- A text of the form has the characters of the form only. -/
theorem Rfc3339.forall_mem {l : List α} (h : Rfc3339 digit code l)
    (hdigit : ∀ a, digit a → Q a) (hcode : ∀ p ∈ "d-T:.Z+".toList, Q (code p)) :
    ∀ a ∈ l, Q a := by
  obtain ⟨time, fraction, zone, rfl, htime, hfraction, hzone⟩ := h
  simp only [List.mem_append, or_imp, forall_and]
  refine ⟨htime.forall_mem hdigit fun p hp => hcode p ?_, ?_, ?_⟩
  · exact forall_mem_of_all (by decide) p hp
  · rcases hfraction with rfl | ⟨ds, -, hds, rfl⟩
    · exact fun a ha => absurd ha List.not_mem_nil
    · simp only [List.mem_cons, forall_eq_or_imp]
      exact ⟨hcode '.' (by decide), fun d hd => hdigit d (hds d hd)⟩
  · rcases hzone with rfl | ⟨sign, time, hsign, htime, rfl⟩
    · simp only [List.mem_singleton, forall_eq]
      exact hcode 'Z' (by decide)
    · simp only [List.mem_cons, forall_eq_or_imp]
      refine ⟨?_, htime.forall_mem hdigit fun p hp => hcode p ?_⟩
      · rcases hsign with rfl | rfl
        · exact hcode '+' (by decide)
        · exact hcode '-' (by decide)
      · exact forall_mem_of_all (by decide) p hp

end Form

theorem isAsciiDigit_ascii {c : Char} (h : c.toNat < 128) :
    isAsciiDigit (ascii c) = c.isDigit := by
  rw [isAsciiDigit, toNat_ascii h, Char.isDigit, Bool.eq_iff_iff]
  simp only [Bool.and_eq_true, decide_eq_true_eq, ge_iff_le, UInt32.le_iff_toNat_le]
  rfl

theorem lt_of_isDigit {c : Char} (h : c.isDigit) : c.toNat < 128 := by
  simp only [Char.isDigit, Bool.and_eq_true, decide_eq_true_eq, UInt32.le_iff_toNat_le] at h
  have hle : c.toNat ≤ 57 := h.2
  omega

theorem lt_of_isAsciiDigit {b : UInt8} (h : isAsciiDigit b) : b.toNat < 128 := by
  simp only [isAsciiDigit, Bool.and_eq_true, decide_eq_true_eq] at h
  omega

theorem matches_map_iff {pattern s : List Char} (hpattern : ∀ p ∈ pattern, p.toNat < 128)
    (hs : ∀ c ∈ s, c.toNat < 128) :
    Matches (fun b => isAsciiDigit b) ascii pattern (s.map ascii) ↔
      Matches (fun c => c.isDigit) id pattern s := by
  induction pattern generalizing s with
  | nil => simp [Matches]
  | cons p pattern ih =>
    cases s with
    | nil => simp [Matches]
    | cons c s =>
      simp only [List.mem_cons, forall_eq_or_imp] at hpattern hs
      have htail := ih hpattern.2 hs.2
      simp only [Matches] at htail
      simp only [Matches, List.map_cons, List.forall₂_cons, htail, isAsciiDigit_ascii hs.1,
        ascii_inj hs.1 hpattern.1, id_eq]

theorem fraction_map_iff {s : List Char} (hs : ∀ c ∈ s, c.toNat < 128) :
    Fraction (fun b => isAsciiDigit b) ascii (s.map ascii) ↔
      Fraction (fun c => c.isDigit) id s := by
  have hdigits (ds : List Char) (hds : ∀ d ∈ ds, d.toNat < 128) :
      (∀ b ∈ ds.map ascii, isAsciiDigit b) ↔ ∀ d ∈ ds, d.isDigit := by
    rw [List.forall_mem_map]
    exact forall₂_congr fun d hd => by rw [isAsciiDigit_ascii (hds d hd)]
  cases s with
  | nil => simp [Fraction]
  | cons c ds =>
    simp only [List.mem_cons, forall_eq_or_imp] at hs
    have hdot : ascii c = ascii '.' ↔ c = '.' := ascii_inj hs.1 (by decide)
    simp only [Fraction, List.map_cons, reduceCtorEq, false_or, List.cons.injEq, id_eq]
    constructor
    · rintro ⟨ds', hne, hform, hc, rfl⟩
      exact ⟨ds, by simpa using hne, (hdigits ds hs.2).mp hform, hdot.mp hc, rfl⟩
    · rintro ⟨ds', hne, hform, hc, rfl⟩
      exact ⟨_, by simpa using hne, (hdigits ds hs.2).mpr hform, hdot.mpr hc, rfl⟩

theorem zone_map_iff {s : List Char} (hs : ∀ c ∈ s, c.toNat < 128) :
    Zone (fun b => isAsciiDigit b) ascii (s.map ascii) ↔ Zone (fun c => c.isDigit) id s := by
  cases s with
  | nil => simp [Zone]
  | cons c time =>
    simp only [List.mem_cons, forall_eq_or_imp] at hs
    have hsign (d : Char) (hd : d.toNat < 128) : ascii c = ascii d ↔ c = d := ascii_inj hs.1 hd
    have htime : Matches (fun b => isAsciiDigit b) ascii "dd:dd".toList (time.map ascii) ↔
        Matches (fun c => c.isDigit) id "dd:dd".toList time :=
      matches_map_iff (forall_mem_of_all (by decide)) hs.2
    simp only [Zone, List.map_cons, List.cons.injEq, List.map_eq_nil_iff, id_eq,
      hsign 'Z' (by decide)]
    refine or_congr_right ?_
    constructor
    · rintro ⟨sign, time', h, hform, rfl, rfl⟩
      rw [hsign '+' (by decide), hsign '-' (by decide)] at h
      exact ⟨c, time, h, htime.mp hform, rfl, rfl⟩
    · rintro ⟨sign, time', h, hform, rfl, rfl⟩
      rw [← hsign '+' (by decide), ← hsign '-' (by decide)] at h
      exact ⟨_, _, h, htime.mpr hform, rfl, rfl⟩

theorem rfc3339_map_iff {s : List Char} (hs : ∀ c ∈ s, c.toNat < 128) :
    BytesForm (s.map ascii) ↔ HasRfc3339Form s := by
  have hparts (time fraction zone : List Char)
      (hs : ∀ c ∈ time ++ (fraction ++ zone), c.toNat < 128) :
      Matches (fun b => isAsciiDigit b) ascii "dddd-dd-ddTdd:dd:dd".toList (time.map ascii) ∧
        Fraction (fun b => isAsciiDigit b) ascii (fraction.map ascii) ∧
        Zone (fun b => isAsciiDigit b) ascii (zone.map ascii) ↔
      Matches (fun c => c.isDigit) id "dddd-dd-ddTdd:dd:dd".toList time ∧
        Fraction (fun c => c.isDigit) id fraction ∧ Zone (fun c => c.isDigit) id zone := by
    simp only [List.mem_append, or_imp, forall_and] at hs
    rw [matches_map_iff (forall_mem_of_all (by decide)) hs.1, fraction_map_iff hs.2.1, zone_map_iff hs.2.2]
  constructor
  · rintro ⟨_, _, _, hl, hform⟩
    obtain ⟨time, rest, rfl, rfl, hrest⟩ := List.map_eq_append_iff.mp hl
    obtain ⟨fraction, zone, rfl, rfl, rfl⟩ := List.map_eq_append_iff.mp hrest
    exact ⟨time, fraction, zone, rfl, (hparts time fraction zone hs).mp hform⟩
  · rintro ⟨time, fraction, zone, rfl, hform⟩
    refine ⟨_, _, _, ?_, (hparts time fraction zone hs).mpr hform⟩
    rw [List.map_append, List.map_append]

/-- The form of the characters is that of the bytes. -/
theorem bytesForm_utf8_iff (s : List Char) : BytesForm (utf8 s) ↔ HasRfc3339Form s := by
  constructor
  · intro h
    have hs := lt_of_utf8 (Rfc3339.forall_mem h (fun _ => lt_of_isAsciiDigit)
      (forall_mem_of_all (by decide)))
    rw [utf8_of_lt hs] at h
    exact (rfc3339_map_iff hs).mp h
  · intro h
    have hs : ∀ c ∈ s, c.toNat < 128 :=
      Rfc3339.forall_mem h (fun _ => lt_of_isDigit) (forall_mem_of_all (by decide))
    rw [utf8_of_lt hs]
    exact (rfc3339_map_iff hs).mpr h

/-- The check decides the form of every text, and no index in it is out of bounds. -/
theorem looksLikeRfc3339_exact (value : String) :
    ∃ b, looksLikeRfc3339 value = some b ∧ (b = true ↔ HasRfc3339Form value.toList) := by
  obtain ⟨b, hb, hform⟩ := bytesLookLikeRfc3339_spec (utf8 value.toList)
  exact ⟨b, hb, hform.trans (bytesForm_utf8_iff value.toList)⟩

end Org

end Sotto
