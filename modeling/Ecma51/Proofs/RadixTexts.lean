import Mathlib.Data.Nat.Digits.Lemmas
import Ecma51.Number.Radix
import Ecma51.Proofs.NumericTexts
import Ecma51.Proofs.WholeText

/-!
# Whole numbers in every base

The digits of a number are found by dividing, and read by multiplying and adding. Below the precision neither rounds, so
the digits are those of the number, and the number is read from them, in every base from two to thirty-six.

* `baseNumber`, `DigitsOf`: the number that digits are in a base, and the digits of a number.
* **`Double.wholeDigits_ofNat`**, **`Double.valueOfDigits_eq`**: digits found by division, and their value by
  multiplication.
* `Double.toRadix_of_denotes`, `Double.toText_of_denotes`: the texts.
* `DigitUnits`, **`Double.parseInt_eq`**: the reader on digits with a sign.
* **`radix_roundTrip`**: the number is read from its digits.
-/

namespace Ecma51

/-! ## 1. Digits -/

/-- The number that digits are in a base. -/
def baseNumber (r : Nat) (ds : List Nat) : Nat := ds.foldl (fun acc d => acc * r + d) 0

theorem baseNumber_concat (r : Nat) (ds : List Nat) (d : Nat) : baseNumber r (ds ++ [d]) = baseNumber r ds * r + d :=
  List.foldl_append

theorem baseNumber_reverse (r : Nat) (ds : List Nat) : baseNumber r ds.reverse = Nat.ofDigits r ds := by
  induction ds with
  | nil => rfl
  | cons d ds ih =>
    rw [List.reverse_cons, baseNumber_concat, ih, Nat.ofDigits_cons, Nat.mul_comm, Nat.add_comm]

/-- The digits of a number in a base, the first one not zero unless it is the only one. -/
structure DigitsOf (r n : Nat) (ds : List Nat) : Prop where
  ne_nil : ds ≠ []
  lt : ∀ d ∈ ds, d < r
  head : ds.head? = some 0 → ds = [0]
  number : baseNumber r ds = n

theorem digitsOf_zero {r : Nat} (hr : 1 < r) : DigitsOf r 0 [0] where
  ne_nil := List.cons_ne_nil _ _
  lt := List.forall_mem_singleton.mpr (Nat.zero_lt_of_lt hr)
  head _ := rfl
  number := Nat.zero_mul r

theorem digitsOf_digits {r n : Nat} (hr : 1 < r) (hn : n ≠ 0) : DigitsOf r n (Nat.digits r n).reverse where
  ne_nil h := Nat.digits_ne_nil_iff_ne_zero.mpr hn (List.reverse_eq_nil_iff.mp h)
  lt d hd := Nat.digits_lt_base hr (List.mem_reverse.mp hd)
  head h := by
    rw [List.head?_reverse, List.getLast?_eq_some_getLast (Nat.digits_ne_nil_iff_ne_zero.mpr hn)] at h
    exact absurd (Option.some.inj h) (Nat.getLast_digit_ne_zero r hn)
  number := (baseNumber_reverse _ _).trans (Nat.ofDigits_digits _ _)

theorem digitsOf_decimal (n : Nat) : DigitsOf 10 n (Decimal.digitsOf n) := by
  by_cases hzero : n = 0
  · subst hzero
    exact digitsOf_zero (by decide)
  · obtain ⟨hne, hlt, hhead⟩ := Decimal.significant_digitsOf (Nat.pos_of_ne_zero hzero)
    exact ⟨hne, hlt, fun h => absurd h hhead, Decimal.valueOf_digitsOf n⟩

namespace Double

/-! ## 2. Division and multiplication without rounding -/

variable {a b n r : Nat}

theorem mul_ofNat (ha : a < 2 ^ 53) (hb : b < 2 ^ 53) (hpos : 0 < b) (hproduct : a * b ≤ 2 ^ 53) :
    ofNat a * ofNat b = ofNat (a * b) := by
  have hint := ofInt_mul (i := a) (j := b) (by omega) (by omega) (by omega)
    (by rwa [← Int.natCast_mul, Int.natAbs_natCast])
  rwa [← Int.natCast_mul, ofInt_natCast, ofInt_natCast, ofInt_natCast] at hint

theorem rem_ofNat (ha : a < 2 ^ 53) (hb : b < 2 ^ 53) (hpos : 0 < b) : ofNat a % ofNat b = ofNat (a % b) := by
  have hint := ofInt_rem (i := a) (j := b) (by omega) (by omega) (by omega)
  rw [ofInt_natCast, ofInt_natCast] at hint
  rw [hint]
  split
  · rename_i hzero
    rw [← Int.natCast_mod, Int.natCast_eq_zero] at hzero
    rw [hzero, decide_eq_false (Int.not_lt.mpr (Int.natCast_nonneg a))]
    rfl
  · exact ofInt_natCast _

/-- The whole part of a quotient. -/
theorem trunc_div_ofNat (ha : a < 2 ^ 53) (hb : b < 2 ^ 53) (hpos : 0 < b) :
    (ofNat a / ofNat b).trunc = ofNat (a / b) := by
  have hint := ofInt_div (i := a) (j := b) (by omega) (by omega) (by omega)
  rw [ofInt_natCast, ofInt_natCast, Int.natAbs_natCast, Int.natAbs_natCast,
    decide_eq_false (Int.not_lt.mpr (Int.natCast_nonneg a))] at hint
  obtain ⟨m, hm, hwhole, -⟩ := Magnitude.exists_round?_quotient ha hpos hb
  rw [hint]
  unfold ofQuotient
  rw [hm]
  show ofQuotient false m.whole 1 0 = _
  rw [hwhole]
  rfl

/-- **The digits found by division are those of the number.** -/
theorem wholeDigits_ofNat (hr : 1 < r) (hbase : r < 2 ^ 53) (hn : n < 2 ^ 53) {k : Nat} (hk : n < 2 ^ k) :
    wholeDigits (ofNat r) k (ofNat n) = Nat.digits r n := by
  induction k generalizing n with
  | zero =>
    obtain rfl : n = 0 := by omega
    rw [Nat.digits_zero]
    rfl
  | succ k ih =>
    have hpos : 0 < r := Nat.zero_lt_of_lt hr
    have hless : (ofNat n).lt 1 = decide (n < 1) := by
      refine ((denotes_ofNat n).lt (denotes_ofNat 1) (by omega) (by decide)).trans ?_
      exact decide_eq_decide.mpr (by omega)
    unfold wholeDigits
    rw [hless]
    by_cases hzero : n = 0
    · rw [decide_eq_true (by omega), if_pos rfl, hzero, Nat.digits_zero]
    · have hdigit := Nat.mod_lt n hpos
      -- a division at least halves the number, so the steps suffice
      have hquotient : n / r < 2 ^ k := by
        have hhalf : n / r ≤ n / 2 := Nat.div_le_div_left hr (by decide)
        rw [Nat.pow_succ] at hk
        omega
      have hvalue : (ofNat (n % r)).truncInt.toNat = n % r := by
        rw [truncInt_ofNat (Nat.lt_trans hdigit hbase), Int.toNat_natCast]
      have hrest : (n - n % r) / r = n / r := Nat.div_eq_sub_mod_div.symm
      rw [decide_eq_false (by omega), if_neg Bool.false_ne_true]
      dsimp only
      rw [rem_ofNat hn hbase hpos, hvalue, sub_ofNat hn (Nat.mod_le n r),
        trunc_div_ofNat (Nat.lt_of_le_of_lt (Nat.sub_le _ _) hn) hbase hpos, hrest,
        ih (Nat.lt_of_le_of_lt (Nat.div_le_self n r) hn) hquotient, Nat.digits_def' hr (Nat.pos_of_ne_zero hzero)]

/-- **The value of digits is their number.** -/
theorem valueOfDigits_eq (hr : 0 < r) (hbase : r < 2 ^ 53) {ds : List Nat} (hds : ∀ d ∈ ds, d < r)
    (hsmall : baseNumber r ds < 2 ^ 53) : valueOfDigits r ds = ofNat (baseNumber r ds) := by
  induction ds using List.reverseRecOn with
  | nil => rfl
  | append_singleton ds d ih =>
    obtain ⟨hds, hd⟩ := List.forall_mem_append.mp hds
    have hd : d < r := hd d List.mem_cons_self
    have hstep : valueOfDigits r (ds ++ [d]) = valueOfDigits r ds * ofNat r + ofNat d := List.foldl_append
    rw [baseNumber_concat] at hsmall ⊢
    have hproduct : baseNumber r ds * r < 2 ^ 53 := Nat.lt_of_le_of_lt (Nat.le_add_right _ _) hsmall
    have hbefore : baseNumber r ds < 2 ^ 53 := Nat.lt_of_le_of_lt (Nat.le_mul_of_pos_right _ hr) hproduct
    rw [hstep, ih hds hbefore, mul_ofNat hbefore hbase hr (Nat.le_of_lt hproduct),
      add_ofNat hproduct (Nat.lt_trans hd hbase) (Nat.le_of_lt hsmall)]

/-! ## 3. Writing -/

theorem trunc_ofNat (hn : n < 2 ^ 53) : (ofNat n).trunc = ofNat n := by
  have hinteger := toInteger_ofNat (Nat.le_of_lt hn)
  obtain ⟨m, hm, -⟩ := ofNat_eq_finite hn
  rw [hm] at hinteger ⊢
  exact hinteger

variable {x : Double} {i : Int}

/-- An integer is zero, or its sign is that of the number and its size that of the magnitude. -/
theorem zero_or_of_denotes (hx : Denotes x i) (hi : i.natAbs < 2 ^ 53) :
    i = 0 ∧ (∃ s, x = finite s .zero) ∨
      i ≠ 0 ∧ ∃ m, x = finite (decide (i < 0)) m ∧ ofNat i.natAbs = finite false m ∧ m.isZero = false := by
  by_cases hzero : i = 0
  · subst hzero
    rcases hx with rfl | ⟨-, rfl⟩
    · exact .inl ⟨rfl, false, rfl⟩
    · exact .inl ⟨rfl, true, rfl⟩
  · obtain ⟨m, hm, hhas⟩ := finite_ofInt hi
    have habs := (hx.eq hzero ▸ hx.abs).symm
    rw [hm] at habs
    exact .inr ⟨hzero, m, (hx.eq hzero).trans hm, habs, (isZero_of_has hhas).trans (decide_eq_false (by omega))⟩

/-- **An integer is written with its digits in the base**, after a sign if it is negative. -/
theorem toRadix_of_denotes (hx : Denotes x i) (hi : i.natAbs < 2 ^ 53) (hr : 1 < r) (hbase : r < 2 ^ 53) :
    ∃ ds, DigitsOf r i.natAbs ds ∧ x.toRadix r = Text.ofChars (signChars (decide (i < 0)) ++ ds.map radixChar) := by
  rcases zero_or_of_denotes hx hi with ⟨rfl, s, rfl⟩ | ⟨hzero, m, rfl, habs, hm⟩
  · exact ⟨[0], digitsOf_zero hr, rfl⟩
  · have hn : i.natAbs ≠ 0 := Int.natAbs_ne_zero.mpr hzero
    refine ⟨_, digitsOf_digits hr hn, ?_⟩
    have hsteps {k : Nat} (hk : 53 ≤ k) : i.natAbs < 2 ^ k :=
      Nat.lt_of_lt_of_le hi (Nat.pow_le_pow_right (by decide) hk)
    have hdigits := wholeDigits_ofNat hr hbase hi (@hsteps 1100 (by decide))
    obtain ⟨d, ds, hne⟩ := List.exists_cons_of_ne_nil (Nat.digits_ne_nil_iff_ne_zero.mpr hn)
    have hfraction : lt zero (ofNat i.natAbs - ofNat i.natAbs) = false := by
      rw [sub_ofNat hi (Nat.le_refl _), Nat.sub_self]
      rfl
    have hsize : (finite (decide (i < 0)) m).abs = ofNat i.natAbs := habs.symm
    unfold toRadix
    dsimp only
    rw [hm, if_neg Bool.false_ne_true, hsize, trunc_ofNat hi, hfraction, if_neg Bool.false_ne_true, List.append_nil,
      hdigits, hne, List.map_reverse]

theorem radixChar_of_lt_ten {d : Nat} (hd : d < 10) : radixChar d = Char.ofNat (48 + d) := if_pos hd

theorem toText_of_denotes (hx : Denotes x i) (hi : i.natAbs < 2 ^ 53) :
    ∃ ds, DigitsOf 10 i.natAbs ds ∧ x.toText = Text.ofChars (signChars (decide (i < 0)) ++ ds.map radixChar) := by
  rcases zero_or_of_denotes hx hi with ⟨rfl, s, rfl⟩ | ⟨hzero, m, rfl, habs, hm⟩
  · exact ⟨[0], digitsOf_zero (by decide), rfl⟩
  · have hdigits := digitsOf_decimal i.natAbs
    refine ⟨_, hdigits, congrArg Text.ofChars ?_⟩
    have hpositive := toChars_ofNat hi
    rw [habs] at hpositive
    unfold toChars at hpositive ⊢
    dsimp only at hpositive ⊢
    rw [hm, if_neg Bool.false_ne_true] at hpositive ⊢
    have hpositive : layout (Decimal.shortest m) = Nat.toDigits 10 i.natAbs := hpositive
    rw [hpositive, ← Decimal.digitChars_digitsOf]
    exact congrArg _ (List.map_congr_left fun d hd => (radixChar_of_lt_ten (hdigits.lt d hd)).symm)

/-! ## 4. Reading -/

/-- Units that are digits below the base. -/
def DigitUnits (r : Nat) (us : List CodeUnit) (ds : List Nat) : Prop :=
  List.Forall₂ (fun u d => u.digitValue? = some d ∧ d < r) us ds

variable {us : List CodeUnit} {ds : List Nat}

theorem leadingDigits_eq (h : DigitUnits r us ds) : leadingDigits r us = ds := by
  induction h with
  | nil => rfl
  | cons hu _ ih =>
    unfold leadingDigits
    rw [hu.1, ih]
    exact if_pos hu.2

/-- Digits do not start with white space or a sign, nor below sixteen with the mark of hexadecimal literals. -/
theorem start_digits (h : DigitUnits r us ds) (hne : ds ≠ []) :
    ∃ u us', us = u :: us' ∧ u.isTrimmable = false ∧ u ≠ 0x2D ∧ u ≠ 0x2B ∧ (r ≤ 16 → splitHexMark us = none) := by
  cases h with
  | nil => exact absurd rfl hne
  | @cons u d us' ds' hu hrest =>
    refine ⟨u, us', rfl, isTrimmable_of_digitValue? hu.1, ?_, ?_, fun hr => ?_⟩
    · rintro rfl
      cases hu.1
    · rintro rfl
      cases hu.1
    · refine Option.eq_none_iff_forall_ne_some.mpr fun rest hmark => ?_
      obtain ⟨x, heq, hx⟩ := splitHexMark_eq_some.mp hmark
      obtain ⟨-, rfl⟩ := List.cons.inj heq
      cases hrest with
      | @cons _ e _ _ hletter _ =>
        have hlarge : e = 33 := by
          rcases hx with rfl | rfl
          · exact (Option.some.inj hletter.1).symm
          · exact (Option.some.inj hletter.1).symm
        have hsmall := hletter.2
        omega

/-- **The reader on digits**: their value, with the sign before them. -/
theorem parseInt_eq {t : Text} {negative : Bool} (hr : 2 ≤ r) (hmost : r ≤ 36)
    (ht : t.toList = (if negative then [0x2D] else []) ++ us) (h : DigitUnits r us ds) (hne : ds ≠ []) :
    parseInt t r =
      let value := if r = 10 then ofDecimal false (Decimal.valueOf ds) 0 else valueOfDigits r ds
      if negative then value.neg else value := by
  obtain ⟨u, us', hus, hblank, hminus, hplus, hmark⟩ := start_digits h hne
  have hskip : t.toList.dropWhile CodeUnit.isTrimmable = t.toList := by
    rw [ht, hus]
    cases negative with
    | true => rfl
    | false => exact List.dropWhile_cons_of_neg (Bool.eq_false_iff.mp hblank)
  have hsign : splitSign t.toList = (negative, us) := by
    rw [ht, hus]
    cases negative with
    | true => rfl
    | false =>
      show (if u == 0x2D then _ else if u == 0x2B then _ else (false, u :: us')) = _
      rw [beq_false_of_ne hminus, beq_false_of_ne hplus, if_neg Bool.false_ne_true, if_neg Bool.false_ne_true]
  have hnone : (if (r : Int) = 0 ∨ (r : Int) = 16 then splitHexMark us else none) = none := by
    split
    · exact hmark (by omega)
    · rfl
  unfold parseInt
  rw [if_neg (by omega), hskip, hsign]
  dsimp only
  rw [hnone, if_neg (by omega : ¬ (r : Int) = 0), Int.toNat_natCast]
  dsimp only
  rw [leadingDigits_eq h]
  obtain ⟨d, ds', rfl⟩ := List.exists_cons_of_ne_nil hne
  rfl

/-- What is written for digits is read as the digits. -/
theorem digitUnits_radixChar (hmost : r ≤ 36) (hds : ∀ d ∈ ds, d < r) :
    DigitUnits r (Text.asUnits (ds.map radixChar)) ds := by
  have hall : ∀ d < 36, CodeUnit.digitValue? (radixChar d).toNat.toUInt16 = some d := by decide
  induction ds with
  | nil => exact .nil
  | cons d ds ih =>
    obtain ⟨hd, hds⟩ := List.forall_mem_cons.mp hds
    exact .cons ⟨hall d (Nat.lt_of_lt_of_le hd hmost), hd⟩ (ih hds)

theorem toList_written (hmost : r ≤ 36) (hds : ∀ d ∈ ds, d < r) (negative : Bool) :
    (Text.ofChars (signChars negative ++ ds.map radixChar)).toList =
      (if negative then [0x2D] else []) ++ Text.asUnits (ds.map radixChar) := by
  have hall : ∀ d < 36, (radixChar d).toNat < 0x10000 := by decide
  have hdigits : ∀ c ∈ ds.map radixChar, c.toNat < 0x10000 := by
    rintro c hc
    obtain ⟨d, hd, rfl⟩ := List.mem_map.mp hc
    exact hall d (Nat.lt_of_lt_of_le (hds d hd) hmost)
  have hsign : ∀ c ∈ signChars negative, c.toNat < 0x10000 := by
    cases negative with
    | true => exact List.forall_mem_singleton.mpr (by decide)
    | false => exact List.forall_mem_nil _
  rw [Text.toList_ofChars (List.forall_mem_append.mpr ⟨hsign, hdigits⟩)]
  cases negative <;> rfl

theorem ofDecimal_zero (n : Nat) : ofDecimal false n 0 = ofNat n := by
  have hdecimal := ofDecimal_rounds false n 0
  rw [zpow_zero, mul_one] at hdecimal
  exact hdecimal.unique (ofNat_rounds n)

theorem signed_ofNat (i : Int) : (if decide (i < 0) then (ofNat i.natAbs).neg else ofNat i.natAbs) = ofInt i := by
  unfold ofInt ofNat ofQuotient
  cases decide (i < 0) <;> cases Magnitude.round? i.natAbs 1 0 <;> rfl

end Double

/-! ## 5. Both -/

open Double

/-- **Whole numbers in every base.** An integer below the precision is written with its digits in the base, after a
sign if it is negative, and what is written is read as the integer, in every base from two to thirty-six. -/
theorem radix_roundTrip {x : Double} {i : Int} (hx : Denotes x i) (hi : i.natAbs < 2 ^ 53) {r : Nat} (hr : 2 ≤ r)
    (hmost : r ≤ 36) :
    let t := if r = 10 then x.toText else x.toRadix r
    (∃ ds, DigitsOf r i.natAbs ds ∧ t = Text.ofChars (signChars (decide (i < 0)) ++ ds.map radixChar)) ∧
      parseInt t r = ofInt i := by
  intro t
  have hbase : r < 2 ^ 53 := Nat.lt_of_le_of_lt hmost (by decide)
  obtain ⟨ds, hds, ht⟩ : ∃ ds, DigitsOf r i.natAbs ds ∧
      t = Text.ofChars (signChars (decide (i < 0)) ++ ds.map radixChar) := by
    by_cases hten : r = 10
    · obtain ⟨ds, hds, hchars⟩ := toText_of_denotes hx hi
      rw [← hten] at hds
      exact ⟨ds, hds, (if_pos hten).trans hchars⟩
    · obtain ⟨ds, hds, hchars⟩ := toRadix_of_denotes hx hi hr hbase
      exact ⟨ds, hds, (if_neg hten).trans hchars⟩
  refine ⟨⟨ds, hds, ht⟩, ?_⟩
  have hread := parseInt_eq hr hmost ((congrArg Text.toList ht).trans (toList_written hmost hds.lt _))
    (digitUnits_radixChar hmost hds.lt) hds.ne_nil
  have hvalue : (if r = 10 then ofDecimal false (Decimal.valueOf ds) 0 else valueOfDigits r ds) = ofNat i.natAbs := by
    split
    · rename_i hten
      have hnumber := hds.number
      rw [hten] at hnumber
      exact (congrArg (ofDecimal false · 0) hnumber).trans (ofDecimal_zero _)
    · rw [valueOfDigits_eq (by omega) hbase hds.lt (hds.number.symm ▸ hi), hds.number]
  rw [hread, hvalue]
  exact signed_ofNat i

/-- The least of these numbers in the largest base. -/
theorem radix_roundTrip_least :
    (ofInt (-(2 ^ 53 - 1))).toRadix 36 = "-2gosa7pa2gv" ∧
      parseInt ((ofInt (-(2 ^ 53 - 1))).toRadix 36) 36 = ofInt (-(2 ^ 53 - 1)) := by
  have hboth := radix_roundTrip (denotes_ofInt (-(2 ^ 53 - 1))) (by decide) (r := 36) (by decide) (by decide)
  exact ⟨by decide +kernel, hboth.2⟩

end Ecma51
