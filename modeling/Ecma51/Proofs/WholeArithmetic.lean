import Mathlib.Algebra.Order.Ring.Int
import Ecma51.Proofs.WholeNumber

/-!
# Arithmetic on whole numbers

Sums, differences and products of whole numbers below the precision are exact. Only the sign of a zero is not known
from the numbers alone.

* `Magnitude.round?_whole_self`: a magnitude that is whole is its own rounding.
* `Double.Denotes`: a number that is a given integer, with either sign if it is zero.
* **`Double.Denotes.add`**, `Double.Denotes.sub`, **`Double.Denotes.mul`**: the operations.
* `Double.ofInt_add`, `Double.ofInt_sub`, `Double.ofInt_mul`: what is not negative zero does not become it.
* `Double.Denotes.toInteger`, `Double.Denotes.toInt?`: whole parts; `Double.denotes_of_toInt?`: the converse.
-/

namespace Ecma51

/-! ## 1. Whole magnitudes -/

/-- There is one zero. -/
theorem Magnitude.eq_zero_of_isZero {m : Magnitude} (h : m.isZero = true) : m = .zero := by
  obtain ⟨mantissa, exponent, hcanonical⟩ := m
  have hmantissa : mantissa = 0 := beq_iff_eq.mp h
  subst hmantissa
  obtain ⟨_, _, _, hfull | hleast⟩ := hcanonical
  · exact absurd hfull (by decide)
  · subst hleast
    rfl

/-- **A whole magnitude is its own rounding**, however large it is. -/
theorem Magnitude.round?_whole_self {m : Magnitude} (h : m.isWhole = true) : round? m.whole 1 0 = some m := by
  obtain ⟨_, _, _, hfull⟩ := m.canonical
  by_cases hexponent : 0 ≤ m.exponent
  · have hfull : 2 ^ 52 ≤ m.mantissa := hfull.resolve_right (by omega)
    refine round?_of_value hfull ?_
    unfold whole
    rw [if_pos hexponent, Nat.shiftLeft_eq, show (0 - m.exponent).toNat = 0 by omega, Int.sub_zero, Nat.pow_zero,
      Nat.mul_one]
  · have hdivides : 2 ^ (-m.exponent).toNat ∣ m.mantissa := by
      unfold isWhole at h
      rw [decide_eq_false hexponent, Bool.false_or, beq_iff_eq] at h
      exact Nat.dvd_of_mod_eq_zero h
    have hvalue : m.whole * 2 ^ (-m.exponent).toNat = m.mantissa := by
      unfold whole
      rw [if_neg hexponent, Nat.shiftRight_eq_div_pow]
      exact Nat.div_mul_cancel hdivides
    rcases hfull with hfull | hleast
    · refine round?_of_value hfull ?_
      rw [show (m.exponent - 0).toNat = 0 by omega, Nat.pow_zero, Nat.mul_one, Int.zero_sub]
      exact hvalue
    · -- a mantissa of 53 bits is no multiple of so large a power, unless it is zero
      have hmantissa : m.mantissa = 0 := by
        refine Nat.eq_zero_of_dvd_of_lt hdivides (Nat.lt_trans m.canonical.1 ?_)
        rw [hleast]
        exact Nat.pow_lt_pow_right (by decide) (by decide)
      rw [eq_zero_of_isZero (beq_iff_eq.mpr hmantissa)]
      rfl

namespace Double

/-! ## 2. Numbers that are integers -/

/-- The number is an integer; if it is zero it may have either sign. -/
def Denotes (x : Double) (i : Int) : Prop := x = ofInt i ∨ i = 0 ∧ x = negZero

theorem denotes_ofInt (i : Int) : Denotes (ofInt i) i := .inl rfl

theorem ofInt_natCast (n : Nat) : ofInt n = ofNat n := by
  unfold ofInt ofNat
  rw [decide_eq_false (Int.not_lt.mpr (Int.natCast_nonneg n)), Int.natAbs_natCast]

theorem denotes_ofNat (n : Nat) : Denotes (ofNat n) n := .inl (ofInt_natCast n).symm

theorem Denotes.eq {x : Double} {i : Int} (h : Denotes x i) (hi : i ≠ 0) : x = ofInt i :=
  h.resolve_right fun hzero => hi hzero.1

/-- A sign that goes with an integer: that of the integer, or either one at zero. -/
def IsSign (s : Bool) (i : Int) : Prop := i ≠ 0 → s = decide (i < 0)

theorem signed_natAbs {s : Bool} {i : Int} (h : IsSign s i) : signed s i.natAbs = i := by
  by_cases hzero : i = 0
  · subst hzero
    cases s <;> rfl
  · rw [h hzero]
    unfold signed
    by_cases hneg : i < 0
    · rw [decide_eq_true hneg, if_pos rfl]
      omega
    · rw [decide_eq_false hneg, if_neg Bool.false_ne_true]
      omega

theorem signed_mul (s : Bool) (n k : Nat) : signed s (n * k) = signed s n * k := by
  cases s with
  | false => exact Int.natCast_mul n k
  | true =>
    show -((n * k : Nat) : Int) = -(n : Int) * k
    rw [Int.natCast_mul, Int.neg_mul]

variable {x y : Double} {i j : Int}

/-- Below the precision there is a magnitude of which this is known. -/
theorem Denotes.finite (h : Denotes x i) (hi : i.natAbs < 2 ^ 53) :
    ∃ s m, x = finite s m ∧ m.Has i.natAbs ∧ IsSign s i := by
  rcases h with rfl | ⟨rfl, rfl⟩
  · obtain ⟨m, hm, hhas, _⟩ := Magnitude.exists_round? hi
    refine ⟨decide (i < 0), m, ?_, hhas, fun _ => rfl⟩
    have hround := hm 0
    rw [Nat.pow_zero, Nat.mul_one, Int.natCast_zero, Int.neg_zero] at hround
    unfold ofInt ofQuotient
    rw [hround]
  · refine ⟨true, .zero, rfl, ?_, fun h => absurd rfl h⟩
    show Magnitude.zero.Has 0
    exact ⟨by decide, (Nat.zero_mul _).symm⟩

/-- What is rounded to an integer below the precision, on whatever scale it is given. -/
theorem denotes_scaled {s : Bool} (hs : IsSign s i) (hi : i.natAbs ≤ 2 ^ 53) (k : Nat) :
    Denotes (ofQuotient s (i.natAbs * 2 ^ k) 1 (-(k : Int))) i := by
  by_cases hzero : i = 0
  · subst hzero
    rw [Int.natAbs_zero, Nat.zero_mul]
    cases s
    · exact .inl rfl
    · exact .inr ⟨rfl, rfl⟩
  · refine .inl ?_
    obtain ⟨m, hm, _, _⟩ := exists_round?_le hi (Int.natAbs_ne_zero.mpr hzero)
    have hround := hm 0
    rw [Nat.pow_zero, Nat.mul_one, Int.natCast_zero, Int.neg_zero] at hround
    unfold ofInt ofQuotient
    rw [hm k, hround, hs hzero]

/-! ## 3. The operations -/

theorem Denotes.neg (h : Denotes x i) : Denotes (-x) (-i) := by
  show Denotes (Double.neg x) (-i)
  rcases h with rfl | ⟨rfl, rfl⟩
  · by_cases hzero : i = 0
    · subst hzero
      exact .inr ⟨rfl, rfl⟩
    · refine .inl ?_
      have hsign : decide (-i < 0) = !decide (i < 0) := by
        rw [← decide_not]
        exact decide_eq_decide.mpr (by omega)
      unfold ofInt ofQuotient
      rw [Int.natAbs_neg, hsign]
      cases Magnitude.round? i.natAbs 1 0 <;> rfl
  · exact .inl rfl

/-- The sum on the finer of the two scales, and the sign of a sum that is zero. -/
theorem Denotes.add_cases (hx : Denotes x i) (hy : Denotes y j) (hi : i.natAbs < 2 ^ 53) (hj : j.natAbs < 2 ^ 53)
    (hsum : (i + j).natAbs ≤ 2 ^ 53) :
    (x + y = ofInt (i + j)) ∨ (i + j = 0 ∧ x.isNegative = true ∧ y.isNegative = true ∧ x + y = negZero) := by
  obtain ⟨s, m, rfl, hm, hs⟩ := hx.finite hi
  obtain ⟨t, m', rfl, hm', ht⟩ := hy.finite hj
  have hscale : min m.exponent m'.exponent = -((-min m.exponent m'.exponent).toNat : Int) := by
    have := hm.1
    omega
  have hleft := shiftLeft_of_has hm (Int.min_le_left m.exponent m'.exponent)
  have hright := shiftLeft_of_has hm' (Int.min_le_right m.exponent m'.exponent)
  show ((Double.finite s m).add (Double.finite t m') = _) ∨ _ ∧ _ ∧ _ ∧ (Double.finite s m).add (Double.finite t m') = _
  unfold add
  dsimp only
  rw [hleft, hright, signed_mul, signed_mul, signed_natAbs hs, signed_natAbs ht]
  generalize (-min m.exponent m'.exponent).toNat = k at hscale ⊢
  rw [hscale, ← Int.add_mul]
  by_cases hzero : i + j = 0
  · rw [hzero, Int.zero_mul, if_pos rfl]
    cases s with
    | false => exact .inl rfl
    | true =>
      cases t with
      | false => exact .inl rfl
      | true => exact .inr ⟨rfl, rfl, rfl, rfl⟩
  · have hpow : ((2 ^ k : Nat) : Int) ≠ 0 := Int.natCast_ne_zero.mpr (Nat.two_pow_pos k).ne'
    have hsign : IsSign (decide ((i + j) * (2 ^ k : Nat) < 0)) (i + j) := by
      intro _
      refine decide_eq_decide.mpr ⟨fun h => Int.not_le.mp fun hle => ?_, fun h => ?_⟩
      · exact Int.not_lt.mpr (Int.mul_nonneg hle (Int.natCast_nonneg _)) h
      · exact Int.mul_neg_of_neg_of_pos h (Int.natCast_pos.mpr (Nat.two_pow_pos k))
    rw [if_neg (Int.mul_ne_zero hzero hpow), Int.natAbs_mul, Int.natAbs_natCast]
    exact .inl ((denotes_scaled hsign hsum k).eq hzero)

/-- **The sum of two integers.** -/
theorem Denotes.add (hx : Denotes x i) (hy : Denotes y j) (hi : i.natAbs < 2 ^ 53) (hj : j.natAbs < 2 ^ 53)
    (hsum : (i + j).natAbs ≤ 2 ^ 53) : Denotes (x + y) (i + j) := by
  rcases hx.add_cases hy hi hj hsum with h | ⟨hzero, _, _, h⟩
  · exact .inl h
  · exact .inr ⟨hzero, h⟩

theorem isNegative_ofInt (hi : 0 ≤ i) : (ofInt i).isNegative = false := by
  unfold ofInt ofQuotient
  rw [decide_eq_false (Int.not_lt.mpr hi)]
  cases Magnitude.round? i.natAbs 1 0 <;> rfl

/-- A sum of which one part is not negative zero is not negative zero. -/
theorem ofInt_add (hy : Denotes y j) (hi : i.natAbs < 2 ^ 53) (hj : j.natAbs < 2 ^ 53)
    (hsum : (i + j).natAbs ≤ 2 ^ 53) : ofInt i + y = ofInt (i + j) := by
  rcases (denotes_ofInt i).add_cases hy hi hj hsum with h | ⟨hzero, hnegative, hnegative', _⟩
  · exact h
  · rcases hy with rfl | ⟨rfl, rfl⟩
    · rcases Int.le_total 0 i with hle | hle
      · rw [isNegative_ofInt hle] at hnegative
        cases hnegative
      · rw [isNegative_ofInt (by omega)] at hnegative'
        cases hnegative'
    · rw [isNegative_ofInt (by omega)] at hnegative
      cases hnegative

theorem Denotes.sub (hx : Denotes x i) (hy : Denotes y j) (hi : i.natAbs < 2 ^ 53) (hj : j.natAbs < 2 ^ 53)
    (hdifference : (i - j).natAbs ≤ 2 ^ 53) : Denotes (x - y) (i - j) :=
  hx.add hy.neg hi (by rwa [Int.natAbs_neg]) hdifference

theorem ofInt_sub (hy : Denotes y j) (hi : i.natAbs < 2 ^ 53) (hj : j.natAbs < 2 ^ 53)
    (hdifference : (i - j).natAbs ≤ 2 ^ 53) : ofInt i - y = ofInt (i - j) :=
  ofInt_add hy.neg hi (by rwa [Int.natAbs_neg]) hdifference

/-- **The product of two integers.** -/
theorem Denotes.mul (hx : Denotes x i) (hy : Denotes y j) (hi : i.natAbs < 2 ^ 53) (hj : j.natAbs < 2 ^ 53)
    (hproduct : (i * j).natAbs ≤ 2 ^ 53) : Denotes (x * y) (i * j) := by
  obtain ⟨s, m, rfl, ⟨hm, hmantissa⟩, hs⟩ := hx.finite hi
  obtain ⟨t, m', rfl, ⟨hm', hmantissa'⟩, ht⟩ := hy.finite hj
  have hsign : IsSign (s != t) (i * j) := by
    intro hne
    obtain ⟨hi, hj⟩ := mul_ne_zero_iff.mp hne
    rw [hs hi, ht hj]
    rcases Int.lt_or_gt_of_ne hi with hi | hi <;> rcases Int.lt_or_gt_of_ne hj with hj | hj
    · have hpos := Int.mul_pos_of_neg_of_neg hi hj
      simp [hi, hj, Int.not_lt.mpr (Int.le_of_lt hpos)]
    · have hneg := Int.mul_neg_of_neg_of_pos hi hj
      simp [hi, Int.not_lt.mpr (Int.le_of_lt hj), hneg]
    · have hneg := Int.mul_neg_of_pos_of_neg hi hj
      simp [Int.not_lt.mpr (Int.le_of_lt hi), hj, hneg]
    · have hpos := Int.mul_pos hi hj
      simp [Int.not_lt.mpr (Int.le_of_lt hi), Int.not_lt.mpr (Int.le_of_lt hj), Int.not_lt.mpr (Int.le_of_lt hpos)]
  have hscale : m.exponent + m'.exponent = -(((-m.exponent).toNat + (-m'.exponent).toNat : Nat) : Int) := by omega
  have hvalue : m.mantissa * m'.mantissa =
      (i * j).natAbs * 2 ^ ((-m.exponent).toNat + (-m'.exponent).toNat) := by
    rw [hmantissa, hmantissa', Int.natAbs_mul, Nat.pow_add, Nat.mul_mul_mul_comm]
  show Denotes (ofQuotient (s != t) (m.mantissa * m'.mantissa) 1 (m.exponent + m'.exponent)) _
  rw [hvalue, hscale]
  exact denotes_scaled hsign hproduct _

/-- A product with a positive factor is negative zero only if the other factor is. -/
theorem ofInt_mul (hj : 0 < j) (hi : i.natAbs < 2 ^ 53) (hjbound : j.natAbs < 2 ^ 53)
    (hproduct : (i * j).natAbs ≤ 2 ^ 53) : ofInt i * ofInt j = ofInt (i * j) := by
  by_cases hzero : i = 0
  · subst hzero
    obtain ⟨s, m, hm, _, hs⟩ := (denotes_ofInt j).finite hjbound
    have hs : s = false := (hs (by omega)).trans (decide_eq_false (by omega))
    rw [Int.zero_mul, hm, hs]
    show ofQuotient (false != false) (0 * m.mantissa) 1 (-1074 + m.exponent) = ofInt 0
    rw [Nat.zero_mul]
    rfl
  · exact ((denotes_ofInt i).mul (denotes_ofInt j) hi hjbound hproduct).eq (Int.mul_ne_zero hzero (by omega))

/-! ## 4. Whole parts -/

theorem Denotes.isFinite (h : Denotes x i) (hi : i.natAbs < 2 ^ 53) : x.isFinite = true := by
  obtain ⟨s, m, rfl, _⟩ := h.finite hi
  rfl

theorem Denotes.isNaN (h : Denotes x i) (hi : i.natAbs < 2 ^ 53) : x.isNaN = false := by
  obtain ⟨s, m, rfl, _⟩ := h.finite hi
  rfl

/-- A magnitude that is an integer is its own whole part. -/
theorem whole_of_has {m : Magnitude} {n : Nat} (h : m.Has n) : m.isWhole = true ∧ m.whole = n := by
  obtain ⟨hexponent, hmantissa⟩ := h
  unfold Magnitude.isWhole Magnitude.whole
  rcases Int.lt_or_eq_of_le hexponent with hneg | hzero
  · rw [if_neg (Int.not_le.mpr hneg), Nat.shiftRight_eq_div_pow, hmantissa, Nat.mul_mod_left,
      Nat.mul_div_cancel _ (Nat.two_pow_pos _), beq_self_eq_true, Bool.or_true]
    exact ⟨rfl, rfl⟩
  · rw [hzero] at hmantissa
    rw [hzero, if_pos (Int.le_refl 0), hmantissa]
    exact ⟨rfl, by simp⟩

theorem Denotes.toInt? (h : Denotes x i) (hi : i.natAbs < 2 ^ 53) : x.toInt? = some i := by
  obtain ⟨s, m, rfl, hm, hs⟩ := h.finite hi
  obtain ⟨hwhole, hvalue⟩ := whole_of_has hm
  unfold Double.toInt?
  dsimp only
  rw [hwhole, if_pos rfl, hvalue, signed_natAbs hs]

theorem Denotes.truncInt (h : Denotes x i) (hi : i.natAbs < 2 ^ 53) : x.truncInt = i := by
  obtain ⟨s, m, rfl, hm, hs⟩ := h.finite hi
  show signed s m.whole = i
  rw [(whole_of_has hm).2, signed_natAbs hs]

/-- **An integer is its own whole part.** -/
theorem Denotes.toInteger (h : Denotes x i) (hi : i.natAbs < 2 ^ 53) : Denotes x.toInteger i := by
  obtain ⟨s, m, rfl, hm, hs⟩ := h.finite hi
  show Denotes (ofQuotient s m.whole 1 0) i
  rw [(whole_of_has hm).2]
  have hscaled := denotes_scaled hs (Nat.le_of_lt hi) 0
  rwa [Nat.pow_zero, Nat.mul_one, Int.natCast_zero, Int.neg_zero] at hscaled

theorem Denotes.abs (h : Denotes x i) : x.abs = ofNat i.natAbs := by
  rcases h with rfl | ⟨rfl, rfl⟩
  · unfold ofInt ofNat ofQuotient
    cases Magnitude.round? i.natAbs 1 0 <;> rfl
  · rfl

theorem eq_ofNat_of_isWhole {m : Magnitude} (h : m.isWhole = true) : finite false m = ofNat m.whole := by
  unfold ofNat ofQuotient
  rw [Magnitude.round?_whole_self h]

/-- **A double that is an integer is what this integer is rounded to**, up to the sign of zero. -/
theorem denotes_of_toInt? {x : Double} {i : Int} (h : x.toInt? = some i) : Denotes x i := by
  cases x with
  | nan => cases h
  | infinite s => cases h
  | finite s m =>
    unfold toInt? at h
    dsimp only at h
    split at h
    · rename_i hwhole
      cases h
      have hround := Magnitude.round?_whole_self hwhole
      by_cases hzero : m.whole = 0
      · rw [hzero] at hround ⊢
        cases hround
        cases s
        · exact .inl rfl
        · exact .inr ⟨rfl, rfl⟩
      · refine .inl ?_
        unfold ofInt ofQuotient
        cases s with
        | false =>
          show finite false m = _
          rw [show signed false m.whole = (m.whole : Int) from rfl, Int.natAbs_natCast, hround,
            decide_eq_false (Int.not_lt.mpr (Int.natCast_nonneg _))]
        | true =>
          rw [show signed true m.whole = -(m.whole : Int) from rfl, Int.natAbs_neg, Int.natAbs_natCast, hround,
            decide_eq_true (by omega)]
    · cases h

end Double

end Ecma51
