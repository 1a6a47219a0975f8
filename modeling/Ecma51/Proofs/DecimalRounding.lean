import Mathlib.Algebra.Order.Floor.Semifield
import Mathlib.Data.Int.Log
import Mathlib.Data.List.GetD
import Mathlib.Data.Rat.Floor
import Mathlib.Tactic.FieldSimp
import Mathlib.Tactic.Linarith
import Mathlib.Tactic.Ring
import Ecma51.Proofs.DigitValues
import Ecma51.Proofs.WholeText

/-!
# Decimals rounded to some of their digits

What digits in scientific form are worth as a rational number, that the exact form of a magnitude is worth the
magnitude, and that cutting it to some digits rounds its value, halves going up.

* `Magnitude.toRat`, `Decimal.toRat`: the values.
* `Decimal.exact_spec`: the exact form.
* `Decimal.increment_spec`: one more in the last place.
* **`Decimal.round_spec`**: the digits that are kept spell the value on their grid, rounded; only a power of ten
  has one digit more, which is made up for by the exponent.
-/

namespace Ecma51

-- powers mean the same whether or not there are other instances in scope
attribute [local instance (high)] instPowNat

/-! ## 1. Values -/

/-- The value of a magnitude. -/
def Magnitude.toRat (m : Magnitude) : ℚ := m.mantissa * 2 ^ m.exponent

theorem Magnitude.toRat_nonneg (m : Magnitude) : 0 ≤ m.toRat :=
  mul_nonneg (Nat.cast_nonneg _) (zpow_nonneg (by norm_num) _)

theorem Magnitude.toRat_eq_zero {m : Magnitude} : m.toRat = 0 ↔ m.isZero = true := by
  have hpow : (2 : ℚ) ^ m.exponent ≠ 0 := zpow_ne_zero _ (by norm_num)
  unfold toRat isZero
  rw [mul_eq_zero_iff_right hpow, Nat.cast_eq_zero, beq_iff_eq]

namespace Decimal

/-- The value of a decimal in scientific form. -/
def toRat (d : Decimal) : ℚ := valueOf d.digits * 10 ^ (d.exponent - (d.digits.length - 1 : Nat))

/-- Rounded to a natural number, a half going up. -/
def halfUp (q : ℚ) : ℕ := ⌊q + 1 / 2⌋₊

variable {ds : List Nat} {d : Decimal}

theorem halfUp_natCast (n : ℕ) : halfUp n = n := by
  have hnonneg : (0 : ℚ) ≤ n := Nat.cast_nonneg n
  unfold halfUp
  rw [Nat.floor_eq_iff (by linarith)]
  constructor <;> linarith

theorem halfUp_quotient (n : ℕ) {u : ℕ} (hu : 0 < u) :
    halfUp ((n : ℚ) / u) = n / u + if u ≤ 2 * (n % u) then 1 else 0 := by
  have hsum : (n : ℚ) / u + 1 / 2 = ((2 * n + u : ℕ) : ℚ) / (2 * u : ℕ) := by
    have : (u : ℚ) ≠ 0 := by exact_mod_cast hu.ne'
    push_cast
    field_simp
  have hparts : 2 * n + u = 2 * u * (n / u) + (2 * (n % u) + u) := by
    have := Nat.div_add_mod n u
    rw [Nat.mul_assoc]
    omega
  have hrest := Nat.mod_lt n hu
  unfold halfUp
  rw [hsum, Nat.floor_div_eq_div, hparts, Nat.mul_add_div (by omega)]
  congr 1
  split
  · exact Nat.div_eq_of_lt_le (by omega) (by omega)
  · exact Nat.div_eq_of_lt (by omega)

/-- A decimal that does not start with zero lies between the powers of ten of its exponent. -/
theorem toRat_bounds (h : Significant d.digits) :
    (10 : ℚ) ^ d.exponent ≤ d.toRat ∧ d.toRat < 10 ^ (d.exponent + 1) := by
  have hlow : ((10 ^ (d.digits.length - 1) : ℕ) : ℚ) ≤ valueOf d.digits := by exact_mod_cast le_valueOf h
  have hhigh : ((valueOf d.digits : ℕ) : ℚ) < (10 ^ d.digits.length : ℕ) := by exact_mod_cast valueOf_lt h.lt
  have hlength : 0 < d.digits.length := List.length_pos_iff.mpr h.ne_nil
  unfold toRat
  generalize hscale : d.exponent - (d.digits.length - 1 : Nat) = scale
  have hpos : (0 : ℚ) < 10 ^ scale := zpow_pos (by norm_num) _
  constructor
  · calc (10 : ℚ) ^ d.exponent = ((10 ^ (d.digits.length - 1) : ℕ) : ℚ) * 10 ^ scale := by
          rw [Nat.cast_pow, Nat.cast_ofNat, ← zpow_natCast, ← zpow_add₀ (by norm_num)]
          congr 1
          omega
      _ ≤ valueOf d.digits * 10 ^ scale := mul_le_mul_of_nonneg_right hlow hpos.le
  · calc valueOf d.digits * 10 ^ scale < ((10 ^ d.digits.length : ℕ) : ℚ) * 10 ^ scale :=
          mul_lt_mul_of_pos_right hhigh hpos
      _ = 10 ^ (d.exponent + 1) := by
          rw [Nat.cast_pow, Nat.cast_ofNat, ← zpow_natCast, ← zpow_add₀ (by norm_num)]
          congr 1
          omega

theorem toRat_pos (h : Significant d.digits) : 0 < d.toRat :=
  lt_of_lt_of_le (zpow_pos (by norm_num) _) (toRat_bounds h).1

/-- **The exponent of a decimal is the floor of its decimal logarithm.** -/
theorem log_toRat (h : Significant d.digits) : Int.log 10 d.toRat = d.exponent := by
  obtain ⟨hlow, hhigh⟩ := toRat_bounds h
  have hpos := toRat_pos h
  refine le_antisymm ?_ ?_
  · exact Int.lt_add_one_iff.mp ((Int.lt_zpow_iff_log_lt (by decide) hpos).mp (by exact_mod_cast hhigh))
  · exact (Int.zpow_le_iff_le_log (by decide) hpos).mp (by exact_mod_cast hlow)

/-! ## 2. The exact form -/

theorem significant_ofScaled {n : Nat} (hn : 0 < n) (scale : Int) : Significant (ofScaled n scale).digits :=
  (significant_digitsOf hn).stripZeros

theorem toRat_ofScaled {n : Nat} (hn : 0 < n) (scale : Int) : (ofScaled n scale).toRat = n * 10 ^ scale := by
  obtain ⟨z, hz⟩ := exists_stripZeros_append (digitsOf n)
  have hstrip := (significant_digitsOf hn).stripZeros
  have hpos : 0 < (stripZeros (digitsOf n)).length := List.length_pos_iff.mpr hstrip.ne_nil
  have hlength := congrArg List.length hz
  rw [List.length_append, List.length_replicate] at hlength
  have hvalue : n = valueOf (stripZeros (digitsOf n)) * 10 ^ z := by
    conv_lhs => rw [← valueOf_digitsOf n, hz, valueOf_append, valueOf_zeros, List.length_replicate, Nat.add_zero]
  unfold toRat ofScaled
  dsimp only
  conv_rhs => rw [hvalue]
  rw [Nat.cast_mul, Nat.cast_pow, mul_assoc, ← zpow_natCast, Nat.cast_ofNat, ← zpow_add₀ (by norm_num)]
  congr 2
  omega

/-- **The exact form of a magnitude is worth the magnitude.** -/
theorem exact_spec {m : Magnitude} (hm : m.isZero = false) :
    Significant (exact m).digits ∧ (exact m).toRat = m.toRat := by
  have hmantissa : 0 < m.mantissa := by
    unfold Magnitude.isZero at hm
    exact Nat.pos_of_ne_zero (beq_eq_false_iff_ne.mp hm)
  unfold exact Magnitude.toRat
  split
  · rename_i hexponent
    have hn : 0 < m.mantissa <<< m.exponent.toNat := by
      rw [Nat.shiftLeft_eq]
      exact Nat.mul_pos hmantissa (Nat.two_pow_pos _)
    refine ⟨significant_ofScaled hn 0, ?_⟩
    rw [toRat_ofScaled hn, Nat.shiftLeft_eq, zpow_zero, mul_one, Nat.cast_mul, Nat.cast_pow, ← zpow_natCast,
      Int.toNat_of_nonneg hexponent]
    rfl
  · rename_i hexponent
    have hn : 0 < m.mantissa * 5 ^ (-m.exponent).toNat := Nat.mul_pos hmantissa (Nat.pow_pos (by decide))
    refine ⟨significant_ofScaled hn _, ?_⟩
    have hsplit : (5 : ℚ) ^ (-m.exponent) * 10 ^ m.exponent = 2 ^ m.exponent := by
      rw [show (10 : ℚ) = 5 * 2 by norm_num, mul_zpow, ← mul_assoc, ← zpow_add₀ (by norm_num), neg_add_cancel,
        zpow_zero, one_mul]
    rw [toRat_ofScaled hn, Nat.cast_mul, Nat.cast_pow, ← zpow_natCast, Int.toNat_of_nonneg (by omega), mul_assoc]
    exact congrArg _ hsplit

/-- The least magnitude is above a power of ten. -/
theorem zpow_least_le : (10 : ℚ) ^ (-324 : ℤ) ≤ 2 ^ (-1074 : ℤ) := by
  have hparts : ((2 : ℚ) ^ 179) ^ 6 ≤ (10 ^ 54) ^ 6 := pow_le_pow_left₀ (by norm_num) (by norm_num) 6
  rw [← pow_mul, ← pow_mul, ← zpow_natCast, ← zpow_natCast] at hparts
  rw [zpow_neg, zpow_neg]
  exact inv_anti₀ (zpow_pos (by norm_num) _) hparts

/-- No magnitude reaches this power of ten. -/
theorem le_zpow_most : (2 : ℚ) ^ 53 * 2 ^ (971 : ℤ) ≤ 10 ^ (309 : ℤ) := by
  have hparts : ((2 : ℚ) ^ 93) ^ 11 ≤ (10 ^ 28) ^ 11 := pow_le_pow_left₀ (by norm_num) (by norm_num) 11
  rw [← pow_mul, ← pow_mul] at hparts
  calc (2 : ℚ) ^ 53 * 2 ^ (971 : ℤ) = 2 ^ (93 * 11) * 2 := by
        rw [← zpow_natCast, ← zpow_natCast, ← zpow_add₀ (by norm_num), ← zpow_add_one₀ (by norm_num)]
        rfl
    _ ≤ 10 ^ (28 * 11) * 10 := mul_le_mul hparts (by norm_num) (by norm_num) (pow_nonneg (by norm_num) _)
    _ = 10 ^ (309 : ℤ) := by
      rw [← zpow_natCast, ← zpow_add_one₀ (by norm_num)]
      rfl

/-- The decimal exponents of the magnitudes. -/
theorem log_range {m : Magnitude} (hm : m.isZero = false) :
    -324 ≤ Int.log 10 m.toRat ∧ Int.log 10 m.toRat ≤ 308 := by
  obtain ⟨hmantissa, hlow, hhigh, -⟩ := m.canonical
  have hpos : 1 ≤ m.mantissa := Nat.pos_of_ne_zero (beq_eq_false_iff_ne.mp hm)
  have hvalue : 0 < m.toRat := lt_of_le_of_ne m.toRat_nonneg fun h =>
    Bool.false_ne_true (hm.symm.trans (Magnitude.toRat_eq_zero.mp h.symm))
  have hone : (1 : ℚ) ≤ m.mantissa := by exact_mod_cast hpos
  have hlt : (m.mantissa : ℚ) < 2 ^ 53 := by exact_mod_cast hmantissa
  have hscale : (0 : ℚ) < 2 ^ m.exponent := zpow_pos (by norm_num) _
  constructor
  · refine (Int.zpow_le_iff_le_log (by decide) hvalue).mp ?_
    calc (((10 : ℕ) : ℚ)) ^ (-324 : ℤ) ≤ 2 ^ (-1074 : ℤ) := zpow_least_le
      _ ≤ 2 ^ m.exponent := zpow_le_zpow_right₀ (by norm_num) hlow
      _ ≤ m.toRat := le_mul_of_one_le_left hscale.le hone
  · refine Int.lt_add_one_iff.mp ((Int.lt_zpow_iff_log_lt (by decide) hvalue).mp ?_)
    calc m.toRat < 2 ^ 53 * 2 ^ m.exponent := mul_lt_mul_of_pos_right hlt hscale
      _ ≤ 2 ^ 53 * 2 ^ (971 : ℤ) :=
        mul_le_mul_of_nonneg_left (zpow_le_zpow_right₀ (by norm_num) hhigh) (by norm_num)
      _ ≤ (((10 : ℕ) : ℚ)) ^ (308 + 1 : ℤ) := le_zpow_most

/-! ## 3. Rounding -/

theorem valueOf_cons (a : Nat) (ds : List Nat) : valueOf (a :: ds) = a * 10 ^ ds.length + valueOf ds := by
  have hparts := valueOf_append [a] ds
  rwa [show valueOf [a] = a from Nat.zero_add a] at hparts

/-- **One more in the last place**: as many digits, which spell one more; a carry out of the first one counts for
as many powers of ten. -/
theorem increment_spec (h : AllDigits ds) :
    (increment ds).1.length = ds.length ∧ AllDigits (increment ds).1 ∧
      valueOf (increment ds).1 + (if (increment ds).2 then 10 ^ ds.length else 0) = valueOf ds + 1 := by
  induction ds with
  | nil => exact ⟨rfl, h, rfl⟩
  | cons a ds ih =>
    obtain ⟨ha, hds⟩ := List.forall_mem_cons.mp h
    obtain ⟨hlength, hdigits, hvalue⟩ := ih hds
    unfold increment
    generalize increment ds = r at hlength hdigits hvalue
    obtain ⟨rest, carry⟩ := r
    dsimp only at hlength hdigits hvalue ⊢
    cases carry with
    | false =>
      simp only [Bool.false_eq_true, ↓reduceIte, Nat.add_zero] at hvalue ⊢
      refine ⟨congrArg (· + 1) hlength, List.forall_mem_cons.mpr ⟨ha, hdigits⟩, ?_⟩
      rw [valueOf_cons, valueOf_cons, hlength, Nat.add_assoc, hvalue]
    | true =>
      simp only [↓reduceIte] at hvalue ⊢
      by_cases hnine : a = 9
      · simp only [hnine, ↓reduceIte]
        refine ⟨congrArg (· + 1) hlength, List.forall_mem_cons.mpr ⟨by decide, hdigits⟩, ?_⟩
        rw [valueOf_cons, valueOf_cons, List.length_cons, Nat.pow_succ]
        omega
      · simp only [hnine, Bool.false_eq_true, ↓reduceIte]
        refine ⟨congrArg (· + 1) hlength, List.forall_mem_cons.mpr ⟨by omega, hdigits⟩, ?_⟩
        rw [valueOf_cons, valueOf_cons, hlength, Nat.add_mul, Nat.one_mul]
        omega

theorem allDigits_fit (h : AllDigits ds) (keep : Nat) : AllDigits (fit keep ds) :=
  List.forall_mem_append.mpr ⟨h.take keep, allDigits_zeros _⟩

theorem length_fit (keep : Nat) (ds : List Nat) : (fit keep ds).length = keep := by
  unfold fit
  rw [List.length_append, List.length_take, List.length_replicate]
  omega

/-- The digits that are kept, and one more if the next one is at least five, spell the number on their grid,
rounded half up. -/
theorem halfUp_eq (h : AllDigits ds) (keep : Nat) :
    halfUp (valueOf ds * 10 ^ ((keep : Int) - ds.length)) =
      valueOf (fit keep ds) + if 5 ≤ ds.getD keep 0 then 1 else 0 := by
  unfold fit
  rw [valueOf_append, valueOf_zeros, List.length_replicate, Nat.add_zero]
  by_cases hkeep : ds.length ≤ keep
  · -- all digits are kept
    have hscaled : (valueOf ds : ℚ) * 10 ^ ((keep : Int) - ds.length) =
        ((valueOf ds * 10 ^ (keep - ds.length) : ℕ) : ℚ) := by
      rw [Nat.cast_mul, Nat.cast_pow, ← zpow_natCast, Nat.cast_sub hkeep]
      rfl
    rw [hscaled, halfUp_natCast, List.take_of_length_le hkeep, List.getD_eq_default _ _ hkeep]
    rfl
  · -- the first of the digits that are left out decides
    have hlt : keep < ds.length := Nat.lt_of_not_le hkeep
    obtain ⟨k, hk⟩ : ∃ k, ds.length - keep = k + 1 := ⟨ds.length - keep - 1, by omega⟩
    have hscaled : (valueOf ds : ℚ) * 10 ^ ((keep : Int) - ds.length) = (valueOf ds : ℚ) / (10 ^ (k + 1) : ℕ) := by
      rw [Nat.cast_pow, div_eq_mul_inv, ← zpow_natCast, ← zpow_neg]
      congr 2
      omega
    have hnext : ds.drop keep = ds.getD keep 0 :: ds.drop (keep + 1) := by
      rw [List.drop_eq_getElem_cons hlt, List.getD_eq_getElem _ _ hlt]
    have hrest := valueOf_lt (h.drop (keep + 1))
    have hlength : (ds.drop (keep + 1)).length = k := by
      rw [List.length_drop]
      omega
    have hmod := valueOf_drop h keep
    rw [hnext, valueOf_cons, hlength, hk] at hmod
    rw [hlength] at hrest
    rw [hscaled, halfUp_quotient _ (Nat.pow_pos (by decide)), valueOf_take h, hk, ← hmod, Nat.pow_succ,
      show keep - ds.length = 0 by omega, Nat.pow_zero, Nat.mul_one]
    congr 1
    generalize ds.getD keep 0 = c
    generalize valueOf (ds.drop (keep + 1)) = v at hrest ⊢
    generalize 10 ^ k = u at hrest ⊢
    have hhalf : u * 10 ≤ 2 * (c * u + v) ↔ 5 ≤ c := by
      constructor
      · intro hle
        by_contra hless
        have := Nat.mul_le_mul_right u (show c ≤ 4 by omega)
        omega
      · intro hfive
        have := Nat.mul_le_mul_right u hfive
        omega
    exact if_congr hhalf rfl rfl

/-- **Rounding to some digits** keeps as many of them, and they spell the number on their grid; a power of ten
that has one digit more is cut by its last zero and counted in the exponent. -/
theorem round_spec (h : AllDigits d.digits) {keep : Nat} (hkeep : 0 < keep) {n : Nat}
    (hn : halfUp (valueOf d.digits * 10 ^ ((keep : Int) - d.digits.length)) = n) :
    n ≤ 10 ^ keep ∧ (d.round keep).digits.length = keep ∧ AllDigits (d.round keep).digits ∧
      valueOf (d.round keep).digits = (if n = 10 ^ keep then 10 ^ (keep - 1) else n) ∧
      (d.round keep).exponent = if n = 10 ^ keep then d.exponent + 1 else d.exponent := by
  have hlength := length_fit keep d.digits
  have hdigits := allDigits_fit h keep
  have hlt := valueOf_lt hdigits
  rw [hlength] at hlt
  rw [halfUp_eq h keep] at hn
  unfold round
  dsimp only
  by_cases hup : 5 ≤ d.digits.getD keep 0
  · rw [if_pos hup] at hn ⊢
    obtain ⟨hlength', hdigits', hvalue⟩ := increment_spec hdigits
    have hlt' := valueOf_lt hdigits'
    rw [hlength'] at hlt'
    rw [hn] at hvalue
    rw [hlength] at hlength' hvalue hlt'
    split
    · rename_i ds hrun
      rw [hrun] at hlength' hdigits' hvalue hlt'
      simp only [Bool.false_eq_true, ↓reduceIte, Nat.add_zero] at hvalue hlt'
      have hne : n ≠ 10 ^ keep := Nat.ne_of_lt (hvalue ▸ hlt')
      rw [if_neg hne, if_neg hne]
      exact ⟨by omega, hlength', hdigits', hvalue, rfl⟩
    · rename_i ds hrun
      rw [hrun] at hlength' hdigits' hvalue hlt'
      simp only [↓reduceIte] at hvalue hlength' hdigits'
      have heq : n = 10 ^ keep := by omega
      have hzero : valueOf ds = 0 := by omega
      obtain ⟨j, rfl⟩ : ∃ j, keep = j + 1 := ⟨keep - 1, by omega⟩
      have htake : valueOf (ds.take j) = 0 := by
        rw [valueOf_take hdigits', hzero, Nat.zero_div]
      have hkept : (ds.take j).length = j := by
        rw [List.length_take]
        omega
      rw [if_pos heq, if_pos heq, Nat.max_eq_left (by omega), List.take_succ_cons]
      refine ⟨heq.le, congrArg (· + 1) hkept, List.forall_mem_cons.mpr ⟨by decide, hdigits'.take j⟩, ?_, rfl⟩
      rw [valueOf_cons, htake, hkept, Nat.one_mul]
      rfl
  · rw [if_neg hup] at hn ⊢
    have hne : n ≠ 10 ^ keep := by omega
    rw [if_neg hne, if_neg hne]
    exact ⟨by omega, hlength, hdigits, hn, rfl⟩

/-! ## 4. Significant digits -/

/-- The value on the grid of some of its digits. -/
theorem toRat_div (h : d.digits ≠ []) (keep : Nat) :
    d.toRat / 10 ^ (d.exponent - keep + 1) = valueOf d.digits * 10 ^ ((keep : Int) - d.digits.length) := by
  have hlength : 0 < d.digits.length := List.length_pos_iff.mpr h
  unfold toRat
  rw [mul_div_assoc, ← zpow_sub₀ (by norm_num)]
  congr 2
  omega

/-- Digits that spell as much as their number allows do not start with zero. -/
theorem significant_of_le (h : AllDigits ds) (hne : ds ≠ []) (hvalue : 10 ^ (ds.length - 1) ≤ valueOf ds) :
    Significant ds := by
  refine ⟨hne, h, fun hhead => ?_⟩
  cases ds with
  | nil => exact hne rfl
  | cons a ds =>
    have ha : a = 0 := Option.some.inj hhead
    have hlt := valueOf_lt (List.forall_mem_cons.mp h).2
    rw [valueOf_cons, ha, Nat.zero_mul, Nat.zero_add, List.length_cons, Nat.add_sub_cancel] at hvalue
    omega

/-- The number that `p` significant digits of a positive number spell, halves rounded up, and the exponent of the
first of them. -/
def shown (v : ℚ) (p : ℕ) : ℕ × ℤ :=
  let e := Int.log 10 v
  let n := halfUp (v / 10 ^ (e - p + 1))
  if n = 10 ^ p then (10 ^ (p - 1), e + 1) else (n, e)

/-- **Rounding to significant digits shows the number that is nearest on their grid.** -/
theorem round_eq_shown (h : Significant d.digits) {p : Nat} (hp : 0 < p) :
    Significant (d.round p).digits ∧ (d.round p).digits.length = p ∧
      valueOf (d.round p).digits = (shown d.toRat p).1 ∧ (d.round p).exponent = (shown d.toRat p).2 := by
  have hgrid := toRat_div h.ne_nil p
  have hlow : 10 ^ (p - 1) ≤ halfUp (d.toRat / 10 ^ (d.exponent - p + 1)) := by
    have hscaled : ((10 ^ (p - 1) : ℕ) : ℚ) ≤ d.toRat / 10 ^ (d.exponent - p + 1) := by
      rw [le_div_iff₀ (zpow_pos (by norm_num) _), Nat.cast_pow, Nat.cast_ofNat, ← zpow_natCast,
        ← zpow_add₀ (by norm_num), show ((p - 1 : ℕ) : ℤ) + (d.exponent - p + 1) = d.exponent by omega]
      exact (toRat_bounds h).1
    exact Nat.le_floor (by linarith)
  obtain ⟨hle, hlength, hdigits, hvalue, hexponent⟩ := round_spec h.lt hp (congrArg halfUp hgrid.symm)
  unfold shown
  dsimp only
  rw [log_toRat h]
  have hne : (d.round p).digits ≠ [] := List.length_pos_iff.mp (Nat.lt_of_lt_of_eq hp hlength.symm)
  refine ⟨significant_of_le hdigits hne ?_, hlength, ?_⟩
  · rw [hlength, hvalue]
    split
    · exact Nat.le_refl _
    · exact hlow
  · rw [hvalue, hexponent]
    split
    · exact ⟨rfl, rfl⟩
    · exact ⟨rfl, rfl⟩

end Decimal

end Ecma51
