import Ecma51.Proofs.Truncation
import Ecma51.Proofs.WholeText

/-!
# One key for one name

A property is reached by a text, by a number of the language, by a position that an array function computed,
and by a natural number. All of them come to the key of the text that the number is shown as, so that no
property is stored under two keys.

* `Key.ofText_eq_index_iff`: which texts are indices.
* `Key.ofNat_eq`, `Key.ofDouble_eq`, `Key.ofPosition_eq`: the short ways give the keys of the texts.
* `Heap.ArrayOfLength.defineElement`: the length after an element that an array accepts.
-/

namespace Ecma51

/-! ## 1. Texts -/

namespace Key

/-- A digit after a number is read as its last one. -/
theorem decimalValue?_concat {us : List CodeUnit} {n d : Nat} (h : decimalValue? us = some n) (hd : d < 10) :
    decimalValue? (us ++ [(Nat.digitChar d).toNat.toUInt16]) = some (n * 10 + d) := by
  have hall : ∀ d < 10, CodeUnit.isDecimalDigit (Nat.digitChar d).toNat.toUInt16 = true ∧
      ((Nat.digitChar d).toNat.toUInt16 : CodeUnit).toNat - 0x30 = d := by decide
  obtain ⟨hdigit, hvalue⟩ := hall d hd
  unfold decimalValue? at h ⊢
  rw [List.foldlM_append, h, Option.bind_eq_bind, Option.bind_some, List.foldlM_cons, if_pos hdigit, hvalue]
  rfl

/-- The decimal text of a number is read as the number. -/
theorem decimalValue?_ofNat (n : Nat) : decimalValue? (Text.ofNat n).toList = some n := by
  rw [toList_ofNat]
  induction n using Nat.strongRecOn with
  | ind n ih =>
    have hlast := Nat.mod_lt n (show 10 > 0 by decide)
    by_cases hsmall : n < 10
    · rw [Nat.toDigits_of_lt_base hsmall]
      have hnone : decimalValue? [] = some 0 := rfl
      exact (decimalValue?_concat hnone hsmall).trans (congrArg some (by omega))
    · have hdigits := Nat.toDigits_append_toDigits (b := 10) (by decide) (show 0 < n / 10 by omega) hlast
      rw [Nat.div_add_mod, Nat.toDigits_of_lt_base hlast] at hdigits
      rw [← hdigits, Text.asUnits, List.map_append]
      exact (decimalValue?_concat (ih (n / 10) (by omega)) hlast).trans (congrArg some (by omega))

/-- The decimal text of an array index has at most ten digits and no needless zero. -/
theorem arrayIndex?_ofNat (n : Nat) : arrayIndex? (Text.ofNat n) = ArrayIndex.ofNat? n := by
  have hlength : (Text.ofNat n).length = (Nat.toDigits 10 n).length :=
    (congrArg List.length (toList_ofNat n)).trans (List.length_map _)
  unfold arrayIndex?
  by_cases hlong : 10 < (Text.ofNat n).length
  · -- eleven digits are past the range of the indices
    have hlarge : ¬ n < indexLimit := by
      intro hlt
      have hten := (Nat.length_toDigits_le_iff (b := 10) (k := 10) (by decide) (by decide)).mpr
        (Nat.lt_trans hlt (by decide))
      omega
    rw [if_pos (.inr (.inl hlong))]
    unfold ArrayIndex.ofNat?
    rw [dif_neg hlarge]
  · have hzero : ¬ (1 < (Text.ofNat n).length ∧ (Text.ofNat n).get? 0 = some 0x30) := by
      rintro ⟨hmore, hfirst⟩
      have hpos : 0 < n := by
        refine Nat.pos_of_ne_zero fun hn => ?_
        rw [hlength, hn] at hmore
        exact absurd hmore (by decide)
      have hhead : (Text.ofNat n).toList.head? = some 0x30 := by
        rw [List.head?_eq_getElem?]
        exact (Array.getElem?_toList).trans hfirst
      rw [toList_ofNat, Text.asUnits, List.head?_map] at hhead
      obtain ⟨c, hc, hunit⟩ := Option.map_eq_some_iff.mp hhead
      have hdigit := Nat.isDigit_of_mem_toDigits (by decide) (by decide) (List.mem_of_head? hc)
      have hnat : c.toNat = 48 := (toNat_toUInt16 hdigit).symm.trans (congrArg UInt16.toNat hunit)
      exact Decimal.head?_toDigits hpos (hc.trans (congrArg some (Char.toNat_inj.mp hnat)))
    have hne : (Text.ofNat n).length ≠ 0 := by
      rw [hlength]
      exact Nat.length_toDigits_pos.ne'
    rw [if_neg fun h => h.elim hne fun h => h.elim hlong hzero, decimalValue?_ofNat]
    rfl

/-- **The key of a natural number is that of its decimal text.** -/
theorem ofNat_eq (n : Nat) : ofNat n = ofText (Text.ofNat n) := by
  unfold ofNat ofText
  rw [arrayIndex?_ofNat]

/-- A text is an index only if it is the decimal text of the index. -/
theorem ofText_eq_index_iff (t : Text) (i : ArrayIndex) : ofText t = index i ↔ t = Text.ofNat i := by
  constructor
  · intro h
    rw [← toText_ofText t, h]
    rfl
  · rintro rfl
    rw [← ofNat_eq]
    exact ofNat_val i

/-! ## 2. Numbers -/

/-- **The key of a number of the language is that of its text.** -/
theorem ofDouble_eq (x : Double) : ofDouble x = ofText x.toText := by
  unfold ofDouble
  cases hx : ofDouble? x with
  | none => rfl
  | some k =>
    unfold ofDouble? at hx
    split at hx
    · rename_i m
      split at hx
      · rename_i hwhole
        obtain ⟨i, hi, rfl⟩ := Option.map_eq_some_iff.mp hx
        unfold ArrayIndex.ofNat? at hi
        split at hi
        · rename_i hlt
          cases hi
          rw [Double.eq_ofNat_of_isWhole hwhole, Double.toText_ofNat (Nat.lt_trans hlt (by decide)), ← ofNat_eq]
          exact (ofNat_val ⟨m.whole, hlt⟩).symm
        · cases hi
      · cases hx
    · cases hx

/-- A position is within the index range. -/
def InIndexRange (x : Double) : Prop := Double.le .zero x = true ∧ Double.lt x (.ofNat indexLimit) = true

/-- A magnitude below the limit has its whole part below it. -/
theorem whole_lt_indexLimit {m : Magnitude} (h : Double.lt (.finite false m) (.ofNat indexLimit) = true) :
    m.whole < indexLimit := by
  have hlimit : Double.ofNat indexLimit = .finite false ⟨indexLimit * 2 ^ 21, -21, by decide⟩ := by decide +kernel
  have hcompare : m.exponent < -21 ∨ m.exponent = -21 ∧ m.mantissa < indexLimit * 2 ^ 21 := by
    rw [hlimit, Double.lt_finite] at h
    split at h
    · cases h
    · have hless := beq_iff_eq.mp h
      unfold Magnitude.compare at hless
      rwa [Ordering.then_eq_lt, compare_lt_iff_lt, compare_eq_iff_eq, compare_lt_iff_lt] at hless
  unfold Magnitude.whole
  rw [if_neg (by omega), Nat.shiftRight_eq_div_pow]
  rcases hcompare with hless | ⟨hsame, hless⟩
  · -- less than 31 bits are left of the point
    have hpow : 2 ^ 22 ≤ 2 ^ (-m.exponent).toNat := Nat.pow_le_pow_right (by decide) (by omega)
    calc m.mantissa / 2 ^ (-m.exponent).toNat ≤ m.mantissa / 2 ^ 22 := Nat.div_le_div_left hpow (by decide)
      _ < 2 ^ 31 := Nat.div_lt_of_lt_mul m.canonical.1
      _ ≤ indexLimit := by decide
  · rw [hsame]
    exact Nat.div_lt_of_lt_mul (Nat.mul_comm indexLimit _ ▸ hless)

/-- What a position within the range is: a magnitude below the limit, or negative zero. -/
theorem InIndexRange.cases {x : Double} (h : InIndexRange x) :
    x = .negZero ∨ ∃ m, x = .finite false m ∧ m.whole < indexLimit := by
  obtain ⟨hlow, hhigh⟩ := h
  cases x with
  | nan => cases hlow
  | infinite s =>
    cases s with
    | false => cases hhigh
    | true => cases hlow
  | finite s m =>
    cases s with
    | false => exact .inr ⟨m, rfl, whole_lt_indexLimit hhigh⟩
    | true =>
      have hzero : m.isZero = true := by
        cases hzero : m.isZero with
        | true => rfl
        | false =>
          unfold Double.le Double.lt Double.eq Double.order? Double.zero at hlow
          dsimp only at hlow
          rw [hzero, Bool.and_false, if_neg Bool.false_ne_true] at hlow
          cases hlow
      rw [Magnitude.eq_zero_of_isZero hzero]
      exact .inl rfl

/-- **A position within the index range is an index**, whether it is whole or not. -/
theorem InIndexRange.index {x : Double} (h : InIndexRange x) :
    ∃ i : ArrayIndex, ofPosition x = index i ∧ (i : Int) = x.truncInt := by
  have htrunc : ∃ i : ArrayIndex, (i : Int) = x.truncInt := by
    rcases h.cases with rfl | ⟨m, rfl, hm⟩
    · exact ⟨⟨0, by decide⟩, rfl⟩
    · exact ⟨⟨m.whole, hm⟩, rfl⟩
  obtain ⟨i, hi⟩ := htrunc
  refine ⟨i, ?_, hi⟩
  unfold ofPosition
  rw [if_pos (Bool.and_eq_true_iff.mpr h), ← hi, Int.toNat_natCast]
  unfold ArrayIndex.ofNat?
  rw [dif_pos i.isLt]
  rfl

/-- **The key of a whole position is that of its text.** -/
theorem ofPosition_eq {x : Double} (h : x.isWhole = true) : ofPosition x = ofText x.toText := by
  by_cases hrange : InIndexRange x
  · obtain ⟨i, hi, hvalue⟩ := hrange.index
    have htext : x.toText = Text.ofNat i := by
      rcases hrange.cases with rfl | ⟨m, rfl, hm⟩
      · rw [show (i : Nat) = 0 from Int.natCast_eq_zero.mp hvalue]
        decide +kernel
      · have hwhole : m.whole = i := (Int.natCast_inj.mp hvalue).symm
        rw [Double.eq_ofNat_of_isWhole h, hwhole]
        exact Double.toText_ofNat (Nat.lt_trans i.isLt (by decide))
    rw [hi, htext]
    exact ((ofText_eq_index_iff _ i).mpr rfl).symm
  · unfold ofPosition
    exact if_neg fun hboth => hrange (Bool.and_eq_true_iff.mp hboth)

end Key

/-! ## 3. Values and arrays -/

/-- An element that an array accepts leaves it with a length above the element. -/
theorem Heap.ArrayOfLength.defineElement {h : Heap} {o : ObjectId} {n : Nat} {w : Bool}
    (ha : h.ArrayOfLength o n w) {i : ArrayIndex} {d : Descriptor}
    (hdone : (h.defineElement o i d n w).refusal = none) :
    (h.defineElement o i d n w).heap.ArrayOfLength o (max n (i.val + 1)) w := by
  obtain ⟨hfull, hroom⟩ := defineElement_exact ha i d
  have hmay : i.val < n ∨ w = true := by
    cases w with
    | true => exact .inr rfl
    | false =>
      refine .inl (Nat.lt_of_not_le fun hle => ?_)
      rw [hfull hle rfl] at hdone
      cases hdone
  obtain ⟨hnone, hsome⟩ := hroom hmay
  by_cases hadmits : ∃ q, h.Admits o (.index i) d q
  · obtain ⟨q, hq⟩ := hadmits
    exact (hsome q hq).2.array
  · rw [hnone fun q hq => hadmits ⟨q, hq⟩] at hdone
    cases hdone

end Ecma51
