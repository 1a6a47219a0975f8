import Ecma51.Proofs.NumberText
import Ecma51.Proofs.WholeArithmetic

/-!
# The text of a whole number

Below the precision the shortest digits of a whole number are its own: no other whole number lies in its
rounding interval, so the first grid that has a point there is one that holds the number itself.

* `Decimal.layout_ofScaled`: digits without the zeros at their end are laid out with these zeros.
* **`Double.toText_ofNat`**: the text of a natural number is its decimal digits.
-/

namespace Ecma51

/-! ## 1. Shortest digits -/

namespace Decimal

variable {m : Magnitude} {n : Nat}

/-- The value of a whole number and the ends of its interval, on the scale of its denominator: each end is at
most half a unit of the whole numbers away. -/
theorem intervalOf_of_has (hm : m.Has n) (hn : n ≠ 0) : ∃ d, 4 ≤ d ∧ (∃ k, d = 2 ^ k) ∧
    (intervalOf m).denominator = d ∧ (intervalOf m).value = n * d ∧ (intervalOf m).upper = n * d + 2 ∧
    n * d ≤ (intervalOf m).lower + 2 ∧ (intervalOf m).lower < n * d := by
  obtain ⟨hexponent, hmantissa⟩ := hm
  have hd : 1 <<< (-(m.exponent - 2)).toNat = 2 ^ ((-m.exponent).toNat + 2) := by
    rw [Nat.shiftLeft_eq, Nat.one_mul]
    congr 1
    omega
  have hfour : 4 ≤ 2 ^ ((-m.exponent).toNat + 2) :=
    Nat.pow_le_pow_right (show 0 < 2 by decide) (Nat.le_add_left 2 _)
  have hvalue : 4 * m.mantissa = n * 2 ^ ((-m.exponent).toNat + 2) := by
    rw [hmantissa, Nat.mul_comm 4, Nat.mul_assoc, Nat.pow_add]
  have hpos : 0 < n * 2 ^ ((-m.exponent).toNat + 2) := Nat.mul_pos (Nat.pos_of_ne_zero hn) (Nat.two_pow_pos _)
  refine ⟨_, hfour, ⟨_, rfl⟩, hd, ?_⟩
  unfold intervalOf
  dsimp only
  rw [show (m.exponent - 2).toNat = 0 by omega, Nat.shiftLeft_zero, Nat.shiftLeft_zero, Nat.shiftLeft_zero, hvalue]
  refine ⟨rfl, rfl, ?_, ?_⟩ <;> split <;> omega

/-- **The only whole number in the rounding interval of a whole number is this number.** -/
theorem holds_iff (hm : m.Has n) (hn : n ≠ 0) (q s : Nat) :
    (intervalOf m).holds q s = true ↔ q * 10 ^ s = n := by
  obtain ⟨d, hd, _, hdenominator, _, hupper, hlow, hlower⟩ := intervalOf_of_has hm hn
  unfold Interval.holds
  dsimp only
  rw [hdenominator, hupper, Int.toNat_natCast, show (-(s : Int)).toNat = 0 by omega, Nat.pow_zero, Nat.mul_one,
    Nat.mul_one]
  generalize q * 10 ^ s = p
  -- a unit of the whole numbers is at least four units of this scale
  have hunit (a b : Nat) (hlt : a < b) : a * d + 4 ≤ b * d :=
    calc a * d + 4 ≤ a * d + d := Nat.add_le_add_left hd _
      _ = (a + 1) * d := (Nat.succ_mul a d).symm
      _ ≤ b * d := Nat.mul_le_mul_right d hlt
  constructor
  · intro hholds
    have hnear : n * d ≤ p * d + 2 ∧ p * d ≤ n * d + 2 := by
      split at hholds <;>
      · rw [Bool.and_eq_true, decide_eq_true_iff, decide_eq_true_iff] at hholds
        omega
    rcases Nat.lt_trichotomy p n with hlt | heq | hgt
    · have := hunit p n hlt
      omega
    · exact heq
    · have := hunit n p hgt
      omega
  · rintro rfl
    split <;>
    · rw [Bool.and_eq_true, decide_eq_true_iff, decide_eq_true_iff]
      omega

/-- A grid that is no finer than the whole numbers has a point for a whole number if it has the number. -/
theorem onGrid?_eq_some_iff (hm : m.Has n) (hn : n ≠ 0) (q s : Nat) :
    (intervalOf m).onGrid? s = some q ↔ q * 10 ^ s = n := by
  obtain ⟨d, hd, _, hdenominator, hvalue, _⟩ := intervalOf_of_has hm hn
  have hpow : 0 < 10 ^ s := Nat.pow_pos (by decide)
  have hquotient : (intervalOf m).value * 10 ^ (-(s : Int)).toNat /
      (10 ^ (s : Int).toNat * (intervalOf m).denominator) = n / 10 ^ s := by
    rw [hdenominator, hvalue, Int.toNat_natCast, show (-(s : Int)).toNat = 0 by omega, Nat.pow_zero, Nat.mul_one]
    exact Nat.mul_div_mul_right n (10 ^ s) (by omega)
  have hnext : (intervalOf m).holds (n / 10 ^ s + 1) s = false := by
    refine Bool.eq_false_iff.mpr fun hholds => ?_
    have hover : n < (n / 10 ^ s + 1) * 10 ^ s := Nat.lt_mul_of_div_lt (Nat.lt_succ_self _) hpow
    exact Nat.ne_of_gt hover ((holds_iff hm hn _ s).mp hholds)
  unfold Interval.onGrid?
  dsimp only
  rw [hquotient, hnext]
  cases hholds : (intervalOf m).holds (n / 10 ^ s) s with
  | true =>
    have hn' := (holds_iff hm hn _ s).mp hholds
    dsimp only
    rw [Option.some.injEq]
    constructor
    · rintro rfl
      exact hn'
    · intro hq
      exact Nat.eq_of_mul_eq_mul_right hpow (hn'.trans hq.symm)
  | false =>
    dsimp only
    refine ⟨nofun, fun hq => ?_⟩
    rw [← hq, Nat.mul_div_cancel q hpow, (holds_iff hm hn q s).mpr hq] at hholds
    cases hholds

/-- The decimal order of a whole number below the precision. -/
theorem order_bounds (hm : m.Has n) (hn : n ≠ 0) (hlt : n < 2 ^ 53) :
    0 ≤ order (intervalOf m).value (intervalOf m).denominator ∧
      order (intervalOf m).value (intervalOf m).denominator ≤ 16 := by
  obtain ⟨d, hd, ⟨k, hk⟩, hdenominator, hvalue, _⟩ := intervalOf_of_has hm hn
  have hlog : n.log2 < 53 := (Nat.log2_lt hn).mpr hlt
  have hbinary : Magnitude.binaryOrder (n * d) d = n.log2 := by
    have hle : d * 2 ^ n.log2 ≤ n * d := by
      rw [Nat.mul_comm d]
      exact Nat.mul_le_mul_right d (Nat.log2_self_le hn)
    unfold Magnitude.binaryOrder
    dsimp only
    rw [hk, Magnitude.log2_mul_pow hn, Nat.log2_two_pow, ← hk]
    rw [show (-((n.log2 + k : Nat) - (k : Nat) : Int)).toNat = 0 by omega,
      show (((n.log2 + k : Nat) : Int) - (k : Nat)).toNat = n.log2 by omega, Nat.shiftLeft_zero, Nat.shiftLeft_eq,
      if_neg (Nat.not_lt.mpr hle)]
    omega
  have hone : powLe 0 (n * d) d = true := by
    unfold powLe
    rw [decide_eq_true_iff]
    show 1 * d ≤ n * d * 1
    rw [Nat.mul_one]
    exact Nat.mul_le_mul_right d (Nat.pos_of_ne_zero hn)
  rw [hvalue, hdenominator]
  unfold order
  dsimp only
  rw [hbinary]
  generalize hguess : (n.log2 : Int) * 1233 / 4096 = guess
  by_cases hzero : guess = 0
  · rw [hzero, hone, if_pos rfl]
    split <;> omega
  · split
    · omega
    · split <;> omega

/-- **The shortest digits of a whole number below the precision** are those of the number without some of the
zeros at its end. -/
theorem shortest_of_has (hm : m.Has n) (hn : n ≠ 0) (hlt : n < 2 ^ 53) :
    ∃ q s : Nat, q * 10 ^ s = n ∧ shortest m = ofScaled q s := by
  obtain ⟨hlow, hhigh⟩ := order_bounds hm hn hlt
  unfold shortest
  dsimp only
  generalize order (intervalOf m).value (intervalOf m).denominator = top at hlow hhigh
  obtain ⟨t, rfl⟩ := Int.eq_ofNat_of_zero_le hlow
  -- the grids down to that of the whole numbers, which has the number
  have hsplit : List.range 17 = List.range (t + 1) ++ (List.range (16 - t)).map (t + 1 + ·) := by
    rw [← List.range_add]
    congr 1
    omega
  have hlast : ((intervalOf m).onGrid? ((t : Int) - t)).isSome = true := by
    rw [Int.sub_self]
    exact Option.isSome_iff_exists.mpr ⟨n, (onGrid?_eq_some_iff hm hn n 0).mpr (Nat.mul_one n)⟩
  rw [hsplit, List.findSome?_append]
  cases hhit : (List.range (t + 1)).findSome? fun (i : Nat) =>
      ((intervalOf m).onGrid? (t - i)).map fun q => ofScaled q (t - i) with
  | none =>
    have hnone := List.findSome?_eq_none_iff.mp hhit t (List.mem_range.mpr (Nat.lt_succ_self t))
    rw [Option.map_eq_none_iff] at hnone
    rw [hnone] at hlast
    cases hlast
  | some decimal =>
    obtain ⟨i, hi, hfound⟩ := List.exists_of_findSome?_eq_some hhit
    obtain ⟨q, hq, rfl⟩ := Option.map_eq_some_iff.mp hfound
    have hle : i ≤ t := Nat.le_of_lt_succ (List.mem_range.mp hi)
    rw [show (t : Int) - i = (t - i : Nat) by omega] at hq ⊢
    exact ⟨q, t - i, (onGrid?_eq_some_iff hm hn q (t - i)).mp hq, rfl⟩

/-! ## 2. Layout -/

/-- The decimal digits of a number, and those of the number with zeros after it. -/
theorem toDigits_mul_pow {q : Nat} (hq : 0 < q) (s : Nat) :
    Nat.toDigits 10 (q * 10 ^ s) = Nat.toDigits 10 q ++ Double.zeros s := by
  induction s with
  | zero => exact (congrArg _ (Nat.mul_one q)).trans (List.append_nil _).symm
  | succ s ih =>
    have hpos : 0 < q * 10 ^ s := Nat.mul_pos hq (Nat.pow_pos (by decide))
    have hlast := Nat.toDigits_append_toDigits (b := 10) (by decide) hpos (show 0 < 10 by decide)
    rw [Nat.pow_succ, ← Nat.mul_assoc, Nat.mul_comm _ 10, ← Nat.add_zero (10 * _), ← hlast, ih,
      Nat.toDigits_zero, List.append_assoc]
    exact congrArg _ List.replicate_succ'.symm

/-- **Digits without the zeros at their end are laid out with these zeros**, as long as they are not too many. -/
theorem layout_ofScaled {q s : Nat} (hq : 0 < q) (hfew : q * 10 ^ s < 10 ^ 21) :
    Double.layout (ofScaled q s) = Nat.toDigits 10 (q * 10 ^ s) := by
  obtain ⟨z, hz⟩ := exists_stripZeros_append (digitsOf q)
  have hlength : (digitsOf q).length = (stripZeros (digitsOf q)).length + z := by
    have := congrArg List.length hz
    rwa [List.length_append, List.length_replicate] at this
  have hdigits : (digitsOf q).length = (Nat.toDigits 10 q).length := List.length_map _
  have hpos : 0 < (digitsOf q).length := hdigits ▸ Nat.length_toDigits_pos
  have htwentyone : (digitsOf q).length + s ≤ 21 := by
    have hall := (Nat.length_toDigits_le_iff (by decide) (by decide)).mpr hfew
    rwa [toDigits_mul_pow hq, List.length_append, ← hdigits, Double.zeros, List.length_replicate] at hall
  have hk : (Double.digitChars (stripZeros (digitsOf q))).length = (stripZeros (digitsOf q)).length :=
    List.length_map _
  have hzeros : Double.zeros (z + s) = Double.digitChars (List.replicate z 0) ++ Double.zeros s := by
    unfold Double.zeros Double.digitChars
    rw [List.map_replicate, List.replicate_append_replicate]
  unfold Double.layout ofScaled
  dsimp only
  have hmissing :
      ((s : Int) + ((digitsOf q).length - 1 : Nat) + 1 - (stripZeros (digitsOf q)).length).toNat = z + s := by
    omega
  rw [hk, if_pos (by omega), hmissing, hzeros, ← List.append_assoc, toDigits_mul_pow hq]
  congr 1
  rw [← digitChars_digitsOf]
  conv_rhs => rw [hz]
  exact (List.map_append).symm

end Decimal

theorem Double.toChars_ofNat {n : Nat} (hn : n < 2 ^ 53) : (Double.ofNat n).toChars = Nat.toDigits 10 n := by
  obtain ⟨m, hm, hhas, _⟩ := Double.ofNat_eq_finite hn
  rw [hm]
  unfold Double.toChars
  dsimp only
  by_cases hzero : n = 0
  · have hmantissa : m.isZero = true := by
      unfold Magnitude.isZero
      rw [hhas.2, hzero, Nat.zero_mul]
      rfl
    rw [if_pos hmantissa, hzero, Nat.toDigits_zero]
  · have hmantissa : m.isZero = false := by
      unfold Magnitude.isZero
      rw [hhas.2]
      exact beq_false_of_ne (Nat.mul_ne_zero hzero (Nat.two_pow_pos _).ne')
    obtain ⟨q, s, hq, hshortest⟩ := Decimal.shortest_of_has hhas hzero hn
    have hpos : 0 < q := by
      refine Nat.pos_of_ne_zero fun hq' => hzero ?_
      rw [← hq, hq', Nat.zero_mul]
    rw [hmantissa, if_neg Bool.false_ne_true, hshortest,
      Decimal.layout_ofScaled hpos (hq ▸ Nat.lt_trans hn (by decide)), hq]
    rfl

/-- **The text of a natural number below the precision is its decimal digits.** -/
theorem Double.toText_ofNat {n : Nat} (hn : n < 2 ^ 53) : (Double.ofNat n).toText = Text.ofNat n := by
  unfold Double.toText Text.ofNat Text.ofString
  rw [Double.toChars_ofNat hn, Nat.toString_eq_repr, Nat.toList_repr]

end Ecma51
