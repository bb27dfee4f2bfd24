import Sotto.Billing.Signature

/-!
# The verification of a signature

The verification gives an answer unless the difference of the times overflows, and it accepts a
header with a candidate that reads as the authentication code. A candidate reads as bytes if it
consists of pairs of hexadecimal digits; a plus sign is also read as the first digit of a pair, as
the digit zero.
-/

namespace Sotto

namespace Billing

open Text Numbers

/-- The text is the bytes in pairs of hexadecimal digits. -/
inductive HexText : List Char → List UInt8 → Prop
  | nil : HexText [] []
  | pair {c d : Char} {high low : ℕ} {s : List Char} {bytes : List UInt8}
      (hc : digitValue 16 c = some high) (hd : digitValue 16 d = some low) (h : HexText s bytes) :
      HexText (c :: d :: s) (UInt8.ofNat (16 * high + low) :: bytes)

/-- The text is the bytes in pairs of a digit, or a plus sign, and a digit. -/
inductive LaxHexText : List Char → List UInt8 → Prop
  | nil : LaxHexText [] []
  | pair {c d : Char} {high low : ℕ} {s : List Char} {bytes : List UInt8}
      (hc : digitValue 16 c = some high ∨ c = '+' ∧ high = 0) (hd : digitValue 16 d = some low)
      (h : LaxHexText s bytes) :
      LaxHexText (c :: d :: s) (UInt8.ofNat (16 * high + low) :: bytes)

/-! ### The decoder -/

theorem getBytes_wide {c : Char} (h : 128 ≤ c.toNat) (s : List Char) :
    (getBytes (c :: s) 0 2).bind (parseU8 16) = none := by
  have hlt := one_lt_utf8Size h
  rcases Nat.lt_or_ge 2 c.utf8Size with hlong | hshort
  · rw [getBytes_zero_inside hlong]
    rfl
  · have hsize : c.utf8Size = 2 := by omega
    simp only [getBytes, splitAtByte_zero, Option.bind_eq_bind, Option.bind_some, Nat.sub_zero,
      splitAtByte, hsize, le_refl, if_true, Nat.sub_self, Option.map_some]
    exact parseU8_wide h

/-- The decoder refuses a text whose first pair it cannot read. -/
theorem decodeHex_eq_none {s : List Char} (hpos : 1 < byteLength s)
    (h : (getBytes s 0 2).bind (parseU8 16) = none) : decodeHex s = none := by
  unfold decodeHex
  split
  · rfl
  · obtain ⟨n, hn⟩ : ∃ n, byteLength s / 2 = n + 1 := ⟨byteLength s / 2 - 1, by omega⟩
    rw [hn, List.range_succ_eq_map, List.mapM_cons, h]
    rfl

theorem decodeHex_wide {c : Char} (h : 128 ≤ c.toNat) (s : List Char) :
    decodeHex (c :: s) = none := by
  have hlt := one_lt_utf8Size h
  refine decodeHex_eq_none ?_ (getBytes_wide h s)
  rw [byteLength_cons]
  omega

theorem decodeHex_half {c d : Char} (hc : c.toNat < 128) (hd : 128 ≤ d.toNat) (s : List Char) :
    decodeHex (c :: d :: s) = none := by
  have hlt := one_lt_utf8Size hd
  refine decodeHex_eq_none ?_ ?_
  · rw [byteLength_cons, byteLength_cons]
    omega
  · rw [getBytes_zero_ascii hc, getBytes_zero_inside hlt]
    rfl

theorem decodeHex_one {c : Char} (hc : c.toNat < 128) : decodeHex [c] = none := by
  rw [decodeHex, byteLength_cons, utf8Size_eq_one.mpr hc]
  rfl

theorem decodeHex_pair {c d : Char} (hc : c.toNat < 128) (hd : d.toNat < 128) (s : List Char) :
    decodeHex (c :: d :: s) = (parseU8 16 [c, d]).bind fun b => (decodeHex s).map (b :: ·) := by
  have hlength : byteLength (c :: d :: s) = byteLength s + 2 := by
    rw [byteLength_cons, byteLength_cons, utf8Size_eq_one.mpr hc, utf8Size_eq_one.mpr hd]
    omega
  have hfirst : getBytes (c :: d :: s) 0 2 = some [c, d] := by
    rw [getBytes_zero_ascii hc, getBytes_zero_ascii hd, getBytes_zero]
    rfl
  have hrest (i : ℕ) : getBytes (c :: d :: s) (2 * (i + 1)) (2 * (i + 1) + 2) =
      getBytes s (2 * i) (2 * i + 2) := by
    rw [show 2 * (i + 1) = 2 * i + 1 + 1 by omega, show 2 * i + 1 + 1 + 2 = 2 * i + 2 + 1 + 1 by
      omega, getBytes_ascii hc, getBytes_ascii hd]
  unfold decodeHex
  rw [hlength, Nat.add_mod_right, show (byteLength s + 2) / 2 = byteLength s / 2 + 1 by omega]
  split
  · cases parseU8 16 [c, d] <;> rfl
  · rw [List.range_succ_eq_map, List.mapM_cons, List.mapM_map, Nat.mul_zero, Nat.zero_add, hfirst]
    simp only [Function.comp_def, hrest, Nat.succ_eq_add_one, Option.bind_some]
    cases parseU8 16 [c, d] with
    | none => rfl
    | some b =>
      cases (List.range (byteLength s / 2)).mapM fun i =>
        (getBytes s (2 * i) (2 * i + 2)).bind (parseU8 16) <;> rfl

/-- What the decoder accepts. -/
theorem decodeHex_eq_some (s : List Char) (bytes : List UInt8) :
    decodeHex s = some bytes ↔ LaxHexText s bytes := by
  induction s using List.twoStepInduction generalizing bytes with
  | nil =>
    constructor
    · intro h
      obtain rfl := Option.some.inj h
      exact .nil
    · rintro ⟨⟩
      rfl
  | singleton c =>
    have hnone : decodeHex [c] = none := by
      rcases Nat.lt_or_ge c.toNat 128 with hc | hc
      · exact decodeHex_one hc
      · exact decodeHex_wide hc []
    rw [hnone]
    constructor
    · exact fun h => by cases h
    · exact fun h => by cases h
  | cons_cons c d s ih _ =>
    have hwide (hnone : decodeHex (c :: d :: s) = none)
        (hvalue : ∀ high low, digitValue 16 c = some high ∨ c = '+' ∧ high = 0 →
          digitValue 16 d ≠ some low) :
        decodeHex (c :: d :: s) = some bytes ↔ LaxHexText (c :: d :: s) bytes := by
      rw [hnone]
      constructor
      · exact fun h => by cases h
      · rintro ⟨⟩
        exact absurd ‹digitValue 16 d = some _› (hvalue _ _ ‹_›)
    rcases Nat.lt_or_ge c.toNat 128 with hc | hc
    · rcases Nat.lt_or_ge d.toNat 128 with hd | hd
      · rw [decodeHex_pair hc hd, Option.bind_eq_some_iff]
        simp only [Option.map_eq_some_iff, ih, parseU8_pair]
        constructor
        · rintro ⟨_, ⟨high, low, hhigh, hlow, rfl⟩, rest, hrest, rfl⟩
          exact .pair hhigh hlow hrest
        · rintro (_ | ⟨hhigh, hlow, hrest⟩)
          exact ⟨_, ⟨_, _, hhigh, hlow, rfl⟩, _, hrest, rfl⟩
      · refine hwide (decodeHex_half hc hd s) fun high low _ => ?_
        rw [digitValue_wide hd]
        exact Option.some_ne_none low |>.symm
    · refine hwide (decodeHex_wide hc (d :: s)) fun high low h => ?_
      rcases h with h | ⟨rfl, -⟩
      · rw [digitValue_wide hc] at h
        cases h
      · exact absurd hc (by decide)

theorem HexText.lax {s : List Char} {bytes : List UInt8} (h : HexText s bytes) :
    LaxHexText s bytes := by
  induction h with
  | nil => exact .nil
  | pair hc hd _ ih => exact .pair (Or.inl hc) hd ih

/-- Without a plus sign, a text that is accepted consists of digits. -/
theorem LaxHexText.hexText {s : List Char} {bytes : List UInt8} (h : LaxHexText s bytes)
    (hplus : '+' ∉ s) : HexText s bytes := by
  induction h with
  | nil => exact .nil
  | pair hc hd _ ih =>
    simp only [List.mem_cons, not_or] at hplus
    refine .pair (hc.resolve_right fun hc => hplus.1 hc.1.symm) hd (ih hplus.2.2)

/-! ### The header -/

/-- The fields of a header, each with its name and its value. -/
def fieldsOf (header : String) : List (List Char × List Char) :=
  (header.toList.splitOn ',').filterMap fun part => splitOnce '=' (trim part)

def valuesOf (header : String) (name : String) : List (List Char) :=
  ((fieldsOf header).filter fun field => field.1 = name.toList).map Prod.snd

/-- The number that the last timestamp of a header is. -/
def lastTimestamp (header : String) : Option ℤ :=
  (valuesOf header "t").getLast?.bind parseI64

/-- What a verification has read of the parts of a header. -/
theorem foldl_readField (parts : List (List Char)) :
    let fields := parts.filterMap fun part => splitOnce '=' (trim part)
    parts.foldl readField ⟨none, []⟩ =
      ⟨((fields.filter fun field => field.1 = "t".toList).map Prod.snd).getLast?.bind parseI64,
        ((fields.filter fun field => field.1 = "v1".toList).map Prod.snd).filterMap decodeHex⟩ := by
  induction parts using List.reverseRecOn with
  | nil => rfl
  | append_singleton parts part ih =>
    simp only [List.foldl_append, List.foldl_cons, List.foldl_nil, ih, List.filterMap_append,
      List.filter_append, List.map_append, readField]
    cases hfield : splitOnce '=' (trim part) with
    | none => simp [hfield]
    | some field =>
      obtain ⟨key, value⟩ := field
      by_cases ht : key = ['t']
      · subst ht
        simp [hfield]
      · by_cases hv : key = ['v', '1']
        · subst hv
          cases hvalue : decodeHex value <;> simp [hfield, hvalue]
        · simp [hfield, ht, hv]

/-! ### The verification -/

variable {hmac : List UInt8 → List UInt8 → List UInt8} {secret header payload : String} {now : ℤ}

/-- The code of a timestamp and a payload. -/
def macOf (hmac : List UInt8 → List UInt8 → List UInt8) (secret payload : String) (t : ℤ) :
    List UInt8 :=
  hmac (utf8 secret.toList) (signedBytes t payload)

/-- The header is of the time `now`, and an entry is the code in hexadecimal digits. -/
def Genuine (hmac : List UInt8 → List UInt8 → List UInt8) (secret header payload : String)
    (now : ℤ) : Prop :=
  ∃ t, lastTimestamp header = some t ∧ |now - t| ≤ signatureToleranceSecs ∧
    ∃ value ∈ valuesOf header "v1", HexText value (macOf hmac secret payload t)

/-- The verification overflows nowhere and accepts exactly the genuine headers. -/
def Exact (hmac : List UInt8 → List UInt8 → List UInt8) (secret header payload : String)
    (now : ℤ) : Prop :=
  ∃ b, verifySignature hmac secret header payload now = some b ∧
    (b = true ↔ Genuine hmac secret header payload now)

theorem verifySignature_of_none (h : lastTimestamp header = none) :
    verifySignature hmac secret header payload now = some false := by
  have htimestamp : ((header.toList.splitOn ',').foldl readField ⟨none, []⟩).timestamp = none := by
    rw [foldl_readField]
    exact h
  simp only [verifySignature, htimestamp]
  rfl

/-- The verification of a header with a timestamp. -/
theorem verifySignature_of_some {t : ℤ} (h : lastTimestamp header = some t) :
    verifySignature hmac secret header payload now =
      if InI64 (now - t) ∧ InI64 |now - t| then
        some (decide (|now - t| ≤ signatureToleranceSecs ∧
          macOf hmac secret payload t ∈ (valuesOf header "v1").filterMap decodeHex))
      else none := by
  have hfields : (header.toList.splitOn ',').foldl readField ⟨none, []⟩ =
      ⟨some t, (valuesOf header "v1").filterMap decodeHex⟩ := by
    rw [foldl_readField, ← h]
    rfl
  simp only [verifySignature, hfields, subI64, absI64]
  by_cases hsub : InI64 (now - t)
  · by_cases habs : InI64 |now - t|
    · simp only [hsub, habs, if_true, and_self, Option.bind_eq_bind, Option.bind_some]
      split
      · next hrefuse =>
        refine congrArg some (decide_eq_false ?_).symm
        rintro ⟨hage, hmem⟩
        rcases hrefuse with hold | hempty
        · exact absurd hage hold.not_ge
        · rw [hempty] at hmem
          exact List.not_mem_nil hmem
      · next hrefuse =>
        refine congrArg some ?_
        rw [not_or, not_lt] at hrefuse
        rw [Bool.eq_iff_iff]
        simp only [List.any_eq_true, decide_eq_true_eq, exists_eq_right, hrefuse.1, true_and]
        rfl
    · simp [hsub, habs]
  · simp [hsub]

/-- A difference and its absolute value are numbers of 64 bits. -/
theorem inI64_difference (d : ℤ) : InI64 d ∧ InI64 |d| ↔ |d| < 2 ^ 63 := by
  unfold InI64
  have hnonneg := abs_nonneg d
  have hle := neg_abs_le d
  have hle' := le_abs_self d
  omega

theorem not_exact_of_overflow {t : ℤ} (h : lastTimestamp header = some t)
    (hage : ¬ |now - t| < 2 ^ 63) : ¬ Exact hmac secret header payload now := by
  rintro ⟨b, hb, -⟩
  rw [verifySignature_of_some h, if_neg (mt (inI64_difference _).1 hage)] at hb
  cases hb

/-- The verification is exact if the times differ by less than 64 bits, and a candidate with a
plus sign reads as the code only where a candidate of digits does. -/
theorem exact_iff : Exact hmac secret header payload now ↔
    ∀ t, lastTimestamp header = some t → |now - t| < 2 ^ 63 ∧
      (|now - t| ≤ signatureToleranceSecs → ∀ value ∈ valuesOf header "v1", '+' ∈ value →
        LaxHexText value (macOf hmac secret payload t) →
        ∃ value' ∈ valuesOf header "v1", HexText value' (macOf hmac secret payload t)) := by
  cases htimestamp : lastTimestamp header with
  | none =>
    have hfalse : ¬ Genuine hmac secret header payload now := by
      rintro ⟨t, ht, -⟩
      rw [htimestamp] at ht
      cases ht
    refine iff_of_true ⟨false, verifySignature_of_none htimestamp, ?_⟩ fun t ht => by cases ht
    exact iff_of_false Bool.false_ne_true hfalse
  | some t =>
    have hgenuine : Genuine hmac secret header payload now ↔
        |now - t| ≤ signatureToleranceSecs ∧
          ∃ value ∈ valuesOf header "v1", HexText value (macOf hmac secret payload t) := by
      simp only [Genuine, htimestamp, Option.some.injEq, exists_eq_left']
    have hcandidates : macOf hmac secret payload t ∈ (valuesOf header "v1").filterMap decodeHex ↔
        ∃ value ∈ valuesOf header "v1", LaxHexText value (macOf hmac secret payload t) := by
      simp only [List.mem_filterMap, decodeHex_eq_some]
    have hverify := @verifySignature_of_some hmac secret header payload now t htimestamp
    by_cases hage : |now - t| < 2 ^ 63
    · rw [if_pos ((inI64_difference (now - t)).2 hage)] at hverify
      simp only [Exact, hverify, Option.some.injEq, exists_eq_left', decide_eq_true_eq,
        hcandidates, hgenuine, forall_eq', hage, true_and]
      constructor
      · rintro hexact hfresh value hvalue - hlax
        exact (hexact.1 ⟨hfresh, value, hvalue, hlax⟩).2
      · intro hplus
        refine and_congr_right fun hfresh => ⟨?_, ?_⟩
        · rintro ⟨value, hvalue, hlax⟩
          by_cases hmem : '+' ∈ value
          · exact hplus hfresh value hvalue hmem hlax
          · exact ⟨value, hvalue, hlax.hexText hmem⟩
        · rintro ⟨value, hvalue, hhex⟩
          exact ⟨value, hvalue, hhex.lax⟩
    · exact iff_of_false (not_exact_of_overflow htimestamp hage) fun h => hage (h t rfl).1

/-- A timestamp that is less than the time by the smallest number that 64 bits do not hold. -/
theorem not_exact_far :
    ¬ Exact (fun _ _ => []) "secret" "t=-9223372035154775808,v1=00" "payload" 1700000000 := by
  have htimestamp : lastTimestamp "t=-9223372035154775808,v1=00" = some (-9223372035154775808) := by
    decide
  exact not_exact_of_overflow htimestamp (by decide)

end Billing

end Sotto
