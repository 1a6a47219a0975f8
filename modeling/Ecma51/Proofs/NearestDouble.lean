import Mathlib.Algebra.Order.Group.Unbundled.Abs
import Ecma51.Proofs.DecimalRounding
import Ecma51.Proofs.WholeQuotients

/-!
# Rounding to the nearest number

Every quotient, and with it every decimal, is rounded to the magnitude that is nearest to its exact value, and to the
even one of two that are equally near; the first power of two beyond the magnitudes takes part as an even one, and
stands for infinity.

* `Magnitude.IsNearest`, `Magnitude.IsNearest.unique`: the nearest of the magnitudes and this power.
* `Magnitude.divRound_spec`: rounding to an integer.
* **`Magnitude.round?_nearest`**: rounding a quotient.
* **`Double.ofDecimal_rounds`**: rounding a decimal, however large or small.
* `Double.mul_rounds`, `Double.add_rounds`: products and sums.
-/

namespace Ecma51

-- powers mean the same whether or not there are other instances in scope
attribute [local instance (high)] instPowNat

namespace Magnitude

/-! ## 1. What there is to choose from -/

/-- The value of a magnitude, or of the first power of two beyond all of them. -/
def choiceRat : Option Magnitude → ℚ
  | some m => m.toRat
  | none => 2 ^ (1024 : Int)

/-- A magnitude with an even mantissa, or the power of two beyond them. -/
def IsEven : Option Magnitude → Prop
  | some m => m.mantissa % 2 = 0
  | none => True

/-- A choice is nearest to a value: no other one is nearer, and only if it is even may another one be as near. -/
structure IsNearest (q : ℚ) (c : Option Magnitude) : Prop where
  nearest : ∀ c', |q - choiceRat c| ≤ |q - choiceRat c'|
  even : ∀ c', |q - choiceRat c'| = |q - choiceRat c| → c' = c ∨ IsEven c

variable {m m' : Magnitude} {k : Int}

theorem zpow_two_pos (k : Int) : (0 : ℚ) < 2 ^ k := zpow_pos (by norm_num) k

/-- A magnitude on a grid that is at least as fine as its own. -/
theorem toRat_eq_mul (h : k ≤ m.exponent) :
    m.toRat = ((m.mantissa * 2 ^ (m.exponent - k).toNat : ℕ) : ℚ) * 2 ^ k := by
  unfold toRat
  rw [Nat.cast_mul, Nat.cast_pow, mul_assoc, ← zpow_natCast, Nat.cast_ofNat, ← zpow_add₀ (by norm_num)]
  congr 2
  omega

theorem toRat_lt (h : m.exponent < k) : m.toRat < 2 ^ (k + 52) := by
  have hmantissa : (m.mantissa : ℚ) < 2 ^ (53 : Int) := by exact_mod_cast m.canonical.1
  calc m.toRat < 2 ^ (53 : Int) * 2 ^ m.exponent := mul_lt_mul_of_pos_right hmantissa (zpow_two_pos _)
    _ = (2 : ℚ) ^ (53 + m.exponent) := (zpow_add₀ (by norm_num) _ _).symm
    _ ≤ 2 ^ (k + 52) := zpow_le_zpow_right₀ (by norm_num) (by omega)

theorem toRat_lt_choiceRat_none (m : Magnitude) : m.toRat < choiceRat none :=
  toRat_lt (k := 972) (Int.lt_of_le_of_lt m.canonical.2.2.1 (by decide))

theorem choiceRat_le (c : Option Magnitude) : choiceRat c ≤ choiceRat none := by
  cases c with
  | none => exact le_refl _
  | some m => exact (toRat_lt_choiceRat_none m).le

/-- A magnitude with the larger exponent is the larger one. -/
theorem toRat_lt_toRat (h : m.exponent < m'.exponent) : m.toRat < m'.toRat := by
  obtain ⟨-, hlow, -, hnormal⟩ := m'.canonical
  have hmantissa : (2 : ℚ) ^ (52 : Int) ≤ m'.mantissa := by
    have hlarge : 2 ^ 52 ≤ m'.mantissa := hnormal.resolve_right fun hleast => by
      have := m.canonical.2.1
      omega
    exact_mod_cast hlarge
  calc m.toRat < 2 ^ (m'.exponent + 52) := toRat_lt h
    _ = 2 ^ (52 : Int) * 2 ^ m'.exponent := by rw [add_comm, zpow_add₀ (by norm_num)]
    _ ≤ m'.toRat := mul_le_mul_of_nonneg_right hmantissa (zpow_two_pos _).le

/-- **Magnitudes are determined by their value.** -/
theorem eq_of_toRat_eq (h : m.toRat = m'.toRat) : m = m' := by
  have hexponent : m.exponent = m'.exponent := by
    rcases lt_trichotomy m.exponent m'.exponent with hlt | heq | hgt
    · exact absurd h (toRat_lt_toRat hlt).ne
    · exact heq
    · exact absurd h (toRat_lt_toRat hgt).ne'
  have hmantissa : m.mantissa = m'.mantissa := by
    unfold toRat at h
    rw [hexponent] at h
    exact_mod_cast mul_right_cancel₀ (zpow_two_pos m'.exponent).ne' h
  cases m
  cases m'
  cases hexponent
  cases hmantissa
  rfl

theorem eq_of_choiceRat_eq {c c' : Option Magnitude} (h : choiceRat c = choiceRat c') : c = c' := by
  cases c with
  | none =>
    cases c' with
    | none => rfl
    | some m' => exact absurd h (toRat_lt_choiceRat_none m').ne'
  | some m =>
    cases c' with
    | none => exact absurd h (toRat_lt_choiceRat_none m).ne
    | some m' => exact congrArg some (eq_of_toRat_eq h)

/-- On a grid, every choice is a point of it, or lies below all numbers with as many digits as a mantissa has. -/
theorem choice_cases (hk : k ≤ 971) (c : Option Magnitude) :
    (∃ n : ℕ, choiceRat c = n * 2 ^ k) ∨ -1074 < k ∧ choiceRat c < 2 ^ (k + 52) := by
  cases c with
  | none =>
    refine .inl ⟨2 ^ (1024 - k).toNat, ?_⟩
    show (2 : ℚ) ^ (1024 : Int) = _
    rw [Nat.cast_pow, ← zpow_natCast, Nat.cast_ofNat, ← zpow_add₀ (by norm_num)]
    congr 1
    omega
  | some m =>
    by_cases hexponent : k ≤ m.exponent
    · exact .inl ⟨_, toRat_eq_mul hexponent⟩
    · have hleast := m.canonical.2.1
      exact .inr ⟨by omega, toRat_lt (Int.not_le.mp hexponent)⟩

/-- Between two even choices there is another one: the one that follows the smaller of them, which is odd. -/
theorem exists_between {c c' : Option Magnitude} (hlt : choiceRat c < choiceRat c') (heven : IsEven c)
    (heven' : IsEven c') : ∃ c'', choiceRat c < choiceRat c'' ∧ choiceRat c'' < choiceRat c' := by
  cases c with
  | none => exact absurd hlt (not_lt.mpr (choiceRat_le c'))
  | some m =>
    have heven : m.mantissa % 2 = 0 := heven
    obtain ⟨hmantissa, hlow, hhigh, hnormal⟩ := m.canonical
    have hcanonical : Canonical (m.mantissa + 1) m.exponent :=
      ⟨by omega, hlow, hhigh, hnormal.imp (fun h => Nat.le_succ_of_le h) id⟩
    have hunit := zpow_two_pos m.exponent
    have hnext : choiceRat (some ⟨m.mantissa + 1, m.exponent, hcanonical⟩) =
        ((m.mantissa + 1 : ℕ) : ℚ) * 2 ^ m.exponent := rfl
    refine ⟨some ⟨m.mantissa + 1, m.exponent, hcanonical⟩, ?_, lt_of_le_of_ne ?_ fun heq => ?_⟩
    · rw [hnext]
      exact mul_lt_mul_of_pos_right (by exact_mod_cast Nat.lt_succ_self _) hunit
    · -- the larger one is a point of the same grid
      have hgrid : ∃ n : ℕ, choiceRat c' = n * 2 ^ m.exponent := by
        cases c' with
        | none =>
          rcases choice_cases hhigh none with hpoint | ⟨-, hless⟩
          · exact hpoint
          · refine absurd hless (not_lt.mpr (zpow_le_zpow_right₀ (by norm_num) ?_))
            omega
        | some m' =>
          exact ⟨_, toRat_eq_mul (Int.not_lt.mp fun h => lt_asymm hlt (toRat_lt_toRat h))⟩
      obtain ⟨n, hn⟩ := hgrid
      have hmore : m.mantissa < n := by
        rw [hn] at hlt
        exact_mod_cast lt_of_mul_lt_mul_right hlt hunit.le
      rw [hnext, hn]
      exact mul_le_mul_of_nonneg_right (by exact_mod_cast hmore) hunit.le
    · rw [← eq_of_choiceRat_eq heq] at heven'
      have heven' : (m.mantissa + 1) % 2 = 0 := heven'
      omega

/-- **At most one choice is nearest to a value.** -/
theorem IsNearest.unique {q : ℚ} {c c' : Option Magnitude} (h : IsNearest q c) (h' : IsNearest q c') : c = c' := by
  by_contra hne
  have htie : |q - choiceRat c'| = |q - choiceRat c| := le_antisymm (h'.nearest c) (h.nearest c')
  have heven := (h'.even c htie.symm).resolve_left hne
  have heven' := (h.even c' htie).resolve_left (Ne.symm hne)
  -- the value lies in the middle, and what lies between is nearer
  have hmiddle : q - choiceRat c' = -(q - choiceRat c) :=
    (abs_eq_abs.mp htie).resolve_left fun heq => hne (eq_of_choiceRat_eq (sub_right_injective heq).symm)
  rcases lt_or_gt_of_ne fun heq => hne (eq_of_choiceRat_eq heq) with hlt | hgt
  · obtain ⟨c'', hlow, hhigh⟩ := exists_between hlt heven' heven
    have hnear := h.nearest c''
    rw [abs_of_pos (a := q - choiceRat c) (by linarith)] at hnear
    exact absurd hnear (not_le.mpr (abs_lt.mpr ⟨by linarith, by linarith⟩))
  · obtain ⟨c'', hlow, hhigh⟩ := exists_between hgt heven heven'
    have hnear := h.nearest c''
    rw [abs_of_neg (a := q - choiceRat c) (by linarith)] at hnear
    exact absurd hnear (not_le.mpr (abs_lt.mpr ⟨by linarith, by linarith⟩))

/-! ## 2. Rounding to an integer -/

theorem two_mul_lt_iff {a d : ℕ} (hd : 0 < d) : 2 * a < d ↔ (a : ℚ) / d < 1 / 2 := by
  have hpos : (0 : ℚ) < d := by exact_mod_cast hd
  rw [div_lt_div_iff₀ hpos two_pos, one_mul, Nat.mul_comm]
  norm_cast

theorem lt_two_mul_iff {a d : ℕ} (hd : 0 < d) : d < 2 * a ↔ 1 / 2 < (a : ℚ) / d := by
  have hpos : (0 : ℚ) < d := by exact_mod_cast hd
  rw [div_lt_div_iff₀ two_pos hpos, one_mul, Nat.mul_comm]
  norm_cast

/-- **A quotient is rounded to an integer** that is at most a half away, and to an even one if it is a half. -/
theorem divRound_spec (n : ℕ) {d : ℕ} (hd : 0 < d) :
    |(n : ℚ) / d - divRound n d| ≤ 1 / 2 ∧
      (|(n : ℚ) / d - divRound n d| = 1 / 2 → divRound n d % 2 = 0) := by
  have hpos : (0 : ℚ) < d := by exact_mod_cast hd
  have hparts : (n : ℚ) / d = (n / d : ℕ) + ((n % d : ℕ) : ℚ) / d := by
    rw [eq_comm, add_div' _ _ _ hpos.ne', div_left_inj' hpos.ne']
    exact_mod_cast Nat.div_add_mod' n d
  have hrest : ((n % d : ℕ) : ℚ) / d < 1 := (div_lt_one hpos).mpr (by exact_mod_cast Nat.mod_lt n hd)
  have hnonneg : 0 ≤ ((n % d : ℕ) : ℚ) / d := by positivity
  -- the rest decides
  have hless := two_mul_lt_iff (a := n % d) hd
  have hmore := lt_two_mul_iff (a := n % d) hd
  unfold divRound
  dsimp only
  generalize n / d = w at hparts
  rw [hparts]
  generalize ((n % d : ℕ) : ℚ) / d = f at hrest hnonneg hless hmore
  split
  · rename_i hup
    rw [Bool.or_eq_true_iff, decide_eq_true_iff, Bool.and_eq_true_iff, beq_iff_eq, beq_iff_eq] at hup
    have hhalf : 1 / 2 ≤ f := by
      by_contra hno
      have := hless.mpr (not_le.mp hno)
      omega
    have hdistance : |(w : ℚ) + f - ((w + 1 : ℕ) : ℚ)| = 1 - f := by
      rw [Nat.cast_add, Nat.cast_one, add_sub_add_left_eq_sub, abs_sub_comm, abs_of_pos (by linarith)]
    rw [hdistance]
    refine ⟨by linarith, fun htie => ?_⟩
    rcases hup with hlarge | ⟨-, hodd⟩
    · have := hmore.mp hlarge
      linarith
    · omega
  · rename_i hdown
    rw [Bool.or_eq_true_iff, decide_eq_true_iff, Bool.and_eq_true_iff, beq_iff_eq, beq_iff_eq, not_or] at hdown
    have hhalf : f ≤ 1 / 2 := not_lt.mp fun h => hdown.1 (hmore.mpr h)
    have hdistance : |(w : ℚ) + f - w| = f := by rw [add_sub_cancel_left, abs_of_nonneg hnonneg]
    rw [hdistance]
    refine ⟨hhalf, fun htie => ?_⟩
    have hequal : 2 * (n % d) = d := by
      have hnotless : ¬ 2 * (n % d) < d := fun h => (hless.mp h).ne htie
      have hnotmore : ¬ d < 2 * (n % d) := fun h => (hmore.mp h).ne' htie
      omega
    have hnotodd : ¬ w % 2 = 1 := fun hodd => hdown.2 ⟨hequal, hodd⟩
    omega

/-- No integer is nearer than one that is at most a half away, and as near only if it is exactly a half. -/
theorem abs_sub_le_of_half {x : ℚ} {n : ℕ} (h : |x - n| ≤ 1 / 2) (n' : ℕ) :
    |x - n| ≤ |x - n'| ∧ (|x - n'| = |x - n| → n' = n ∨ |x - n| = 1 / 2) := by
  by_cases heq : n' = n
  · rw [heq]
    exact ⟨le_refl _, fun _ => .inl rfl⟩
  · have hone : (1 : ℚ) ≤ |(n' : ℚ) - n| := by
      have hint : 1 ≤ |(n' : ℤ) - n| := Int.one_le_abs (by omega)
      exact_mod_cast hint
    have htriangle : |(n' : ℚ) - n| ≤ |x - n'| + |x - n| := by
      have := abs_sub_le (n' : ℚ) x n
      rwa [abs_sub_comm (n' : ℚ) x] at this
    exact ⟨by linarith, fun htie => .inr (by linarith)⟩

/-! ## 3. Rounding a quotient -/

/-- On the grid that is rounded on, the nearest point is the nearest choice: the others are points of the grid too, or
lie on the other side of one. -/
theorem isNearest_of_grid (hk : k ≤ 971) {x : ℚ} {n : ℕ} (hn : |x - n| ≤ 1 / 2) {c : Option Magnitude}
    (hc : choiceRat c = n * 2 ^ k) (heven : |x - n| = 1 / 2 → IsEven c) (hlow : -1074 < k → 2 ^ (52 : Int) ≤ x) :
    IsNearest (x * 2 ^ k) c := by
  have hunit := zpow_two_pos k
  have hscale (y : ℚ) : |x * 2 ^ k - y * 2 ^ k| = |x - y| * 2 ^ k := by rw [← sub_mul, abs_mul, abs_of_pos hunit]
  have hsmall {c' : Option Magnitude} (hleast : -1074 < k) (hc' : choiceRat c' < 2 ^ (k + 52)) :
      |x * 2 ^ k - choiceRat c| < |x * 2 ^ k - choiceRat c'| := by
    have hfirst : (2 : ℚ) ^ (k + 52) = ((2 ^ 52 : ℕ) : ℚ) * 2 ^ k := by
      rw [Nat.cast_pow, Nat.cast_ofNat, ← zpow_natCast, ← zpow_add₀ (by norm_num), add_comm]
      rfl
    have hfar : ((2 ^ 52 : ℕ) : ℚ) ≤ x := by
      have := hlow hleast
      rwa [Nat.cast_pow, Nat.cast_ofNat, ← zpow_natCast]
    have hnear := mul_le_mul_of_nonneg_right (abs_sub_le_of_half hn (2 ^ 52)).1 hunit.le
    rw [← hscale, ← hscale, abs_of_nonneg (a := x * 2 ^ k - ((2 ^ 52 : ℕ) : ℚ) * 2 ^ k)
      (sub_nonneg.mpr (mul_le_mul_of_nonneg_right hfar hunit.le))] at hnear
    rw [hc]
    refine lt_of_le_of_lt hnear (lt_of_lt_of_le ?_ (le_abs_self _))
    rw [hfirst] at hc'
    linarith
  constructor
  · intro c'
    rcases choice_cases hk c' with ⟨n', hc'⟩ | ⟨hleast, hc'⟩
    · rw [hc, hc', hscale, hscale]
      exact mul_le_mul_of_nonneg_right (abs_sub_le_of_half hn n').1 hunit.le
    · exact (hsmall hleast hc').le
  · intro c' htie
    rcases choice_cases hk c' with ⟨n', hc'⟩ | ⟨hleast, hc'⟩
    · rw [hc, hc', hscale, hscale] at htie
      rcases (abs_sub_le_of_half hn n').2 (mul_right_cancel₀ hunit.ne' htie) with heq | hhalf
      · exact .inl (eq_of_choiceRat_eq (by rw [hc, hc', heq]))
      · exact .inr (heven hhalf)
    · exact absurd htie (hsmall hleast hc').ne'

/-- Beyond all magnitudes, infinity is nearest. -/
theorem isNearest_none {q : ℚ} (h : 2 ^ (1024 : Int) ≤ q) : IsNearest q none := by
  constructor
  · intro c
    have hle := choiceRat_le c
    have hfar : choiceRat none ≤ q := h
    rw [abs_of_nonneg (sub_nonneg.mpr hfar), abs_of_nonneg (sub_nonneg.mpr (hle.trans hfar))]
    linarith
  · exact fun _ _ => .inr trivial

/-- Below half of the least magnitude, zero is nearest. -/
theorem isNearest_zero {q : ℚ} (hq : 0 ≤ q) (h : 2 * q < 2 ^ (-1074 : Int)) : IsNearest q (some zero) := by
  have hzero : choiceRat (some zero) = 0 := toRat_eq_zero.mpr rfl
  constructor
  · intro c
    rw [hzero, sub_zero, abs_of_nonneg hq]
    rcases choice_cases (k := -1074) (by decide) c with ⟨n, hc⟩ | ⟨hleast, -⟩
    · cases n with
      | zero => rw [hc, Nat.cast_zero, zero_mul, sub_zero, abs_of_nonneg hq]
      | succ n =>
        have hmore : (2 : ℚ) ^ (-1074 : Int) ≤ choiceRat c := by
          rw [hc]
          refine le_mul_of_one_le_left (zpow_two_pos _).le ?_
          rw [Nat.cast_succ]
          have : (0 : ℚ) ≤ n := Nat.cast_nonneg n
          linarith
        rw [abs_sub_comm]
        refine le_trans ?_ (le_abs_self _)
        linarith
    · exact absurd hleast (lt_irrefl _)
  · exact fun _ _ => .inr rfl

theorem toNat_zpow (e : Int) : (2 : ℚ) ^ e = ((2 ^ e.toNat : ℕ) : ℚ) / ((2 ^ (-e).toNat : ℕ) : ℚ) := by
  rw [Nat.cast_pow, Nat.cast_pow, Nat.cast_ofNat, ← zpow_natCast, ← zpow_natCast, ← zpow_sub₀ (by norm_num)]
  congr 1
  omega

/-- The order of magnitude of a quotient. -/
theorem binaryOrder_bounds {n d : ℕ} (hn : n ≠ 0) (hd : d ≠ 0) :
    (2 : ℚ) ^ binaryOrder n d ≤ (n : ℚ) / d ∧ (n : ℚ) / d < 2 ^ (binaryOrder n d + 1) := by
  obtain ⟨hlow, hhigh⟩ := binaryOrder_spec hn hd
  have hpos : (0 : ℚ) < d := by exact_mod_cast Nat.pos_of_ne_zero hd
  have hpow : (0 : ℚ) < ((2 ^ (-binaryOrder n d).toNat : ℕ) : ℚ) := by exact_mod_cast Nat.two_pow_pos _
  rw [zpow_add_one₀ (by norm_num), toNat_zpow]
  constructor
  · rw [div_le_div_iff₀ hpow hpos, mul_comm _ (d : ℚ)]
    exact_mod_cast hlow
  · rw [div_mul_eq_mul_div, div_lt_div_iff₀ hpos hpow]
    have hcast : ((n * 2 ^ (-binaryOrder n d).toNat : ℕ) : ℚ) < ((2 * (d * 2 ^ (binaryOrder n d).toNat) : ℕ) : ℚ) := by
      exact_mod_cast hhigh
    rw [Nat.cast_mul] at hcast
    refine lt_of_lt_of_eq hcast ?_
    push_cast
    ring

/-- What is chosen for a point of the grid. -/
theorem choice_of_point {n : ℕ} (hk : -1074 ≤ k) (hn : n ≤ 2 ^ 53) (hlow : -1074 < k → 2 ^ 52 ≤ n) :
    let c := if n = 2 ^ 53 then ofParts? (2 ^ 52) (k + 1) else ofParts? n k
    (k ≤ 971 → choiceRat c = n * 2 ^ k ∧ (n % 2 = 0 → IsEven c)) ∧ (971 < k → c = none) := by
  have hparts {a : ℕ} {e : Int} (h : Canonical a e) : ofParts? a e = some ⟨a, e, h⟩ := dif_pos h
  have hnone {a : ℕ} {e : Int} (h : 971 < e) : ofParts? a e = none := dif_neg fun hc => by
    have := hc.2.2.1
    omega
  dsimp only
  split
  · rename_i htop
    refine ⟨fun hle => ?_, fun hgt => hnone (by omega)⟩
    by_cases hlast : k = 971
    · rw [hnone (by omega), hlast, htop]
      refine ⟨?_, fun _ => trivial⟩
      show (2 : ℚ) ^ (1024 : Int) = _
      rw [Nat.cast_pow, Nat.cast_ofNat, ← zpow_natCast, ← zpow_add₀ (by norm_num)]
      rfl
    · have hcanonical : Canonical (2 ^ 52) (k + 1) := ⟨by decide, by omega, by omega, .inl (Nat.le_refl _)⟩
      rw [hparts hcanonical]
      refine ⟨?_, fun _ => show 2 ^ 52 % 2 = 0 by decide⟩
      show ((2 ^ 52 : ℕ) : ℚ) * 2 ^ (k + 1) = _
      rw [htop, Nat.cast_pow, Nat.cast_pow, Nat.cast_ofNat, ← zpow_natCast, ← zpow_natCast, ← zpow_add₀ (by norm_num),
        ← zpow_add₀ (by norm_num)]
      congr 1
      omega
  · rename_i htop
    refine ⟨fun hle => ?_, fun hgt => hnone hgt⟩
    have hcanonical : Canonical n k := by
      refine ⟨by omega, hk, hle, ?_⟩
      by_cases hleast : k = -1074
      · exact .inr hleast
      · exact .inl (hlow (by omega))
    rw [hparts hcanonical]
    exact ⟨rfl, id⟩

section Scaled

variable {q x : ℚ} {o e k : Int} (hvalue : q * 2 ^ e = x * 2 ^ k)
include hvalue

/-- A value in units of a power of two is below the mantissas' bound if the unit is not too small. -/
theorem mantissa_lt (hhigh : q < 2 ^ (o + 1)) (hk : o + e - 52 ≤ k) : x < ((2 ^ 53 : ℕ) : ℚ) := by
  refine lt_of_mul_lt_mul_right ?_ (zpow_two_pos k).le
  rw [← hvalue]
  calc q * 2 ^ e < 2 ^ (o + 1) * 2 ^ e := mul_lt_mul_of_pos_right hhigh (zpow_two_pos e)
    _ = (2 : ℚ) ^ (o + 1 + e) := (zpow_add₀ (by norm_num) _ _).symm
    _ ≤ 2 ^ (53 + k) := zpow_le_zpow_right₀ (by norm_num) (by omega)
    _ = ((2 ^ 53 : ℕ) : ℚ) * 2 ^ k := by
      rw [zpow_add₀ (by norm_num), Nat.cast_pow, Nat.cast_ofNat, ← zpow_natCast]
      rfl

/-- It has as many digits as a mantissa if the unit is not too large. -/
theorem le_mantissa (hlow : 2 ^ o ≤ q) (hk : k ≤ o + e - 52) : ((2 ^ 52 : ℕ) : ℚ) ≤ x := by
  refine le_of_mul_le_mul_right ?_ (zpow_two_pos k)
  rw [← hvalue]
  calc ((2 ^ 52 : ℕ) : ℚ) * 2 ^ k = (2 : ℚ) ^ (52 + k) := by
        rw [Nat.cast_pow, Nat.cast_ofNat, ← zpow_natCast, ← zpow_add₀ (by norm_num)]
        rfl
    _ ≤ 2 ^ (o + e) := zpow_le_zpow_right₀ (by norm_num) (by omega)
    _ = 2 ^ o * 2 ^ e := zpow_add₀ (by norm_num) _ _
    _ ≤ q * 2 ^ e := mul_le_mul_of_nonneg_right hlow (zpow_two_pos e).le

end Scaled

/-- **A quotient is rounded to the nearest magnitude**, or to infinity. -/
theorem round?_nearest (n : ℕ) {d : ℕ} (hd : 0 < d) (e : Int) : IsNearest ((n : ℚ) / d * 2 ^ e) (round? n d e) := by
  by_cases hn : n = 0
  · rw [hn, show round? 0 d e = some zero from if_pos rfl, Nat.cast_zero, zero_div, zero_mul]
    exact isNearest_zero (le_refl 0) (by rw [mul_zero]; exact zpow_two_pos _)
  obtain ⟨hlow, hhigh⟩ := binaryOrder_bounds hn hd.ne'
  unfold round?
  dsimp only
  rw [if_neg hn, Nat.shiftLeft_eq, Nat.shiftLeft_eq]
  generalize binaryOrder n d = o at hlow hhigh
  obtain ⟨k, hk⟩ : ∃ k, max (o + e - 52) (-1074) = k := ⟨_, rfl⟩
  rw [hk]
  have hd' : 0 < d * 2 ^ (-(e - k)).toNat := Nat.mul_pos hd (Nat.two_pow_pos _)
  have hvalue : (n : ℚ) / d * 2 ^ e =
      ((n * 2 ^ (e - k).toNat : ℕ) : ℚ) / ((d * 2 ^ (-(e - k)).toNat : ℕ) : ℚ) * 2 ^ k := by
    rw [Nat.cast_mul, Nat.cast_mul, mul_div_mul_comm, ← toNat_zpow, mul_assoc, ← zpow_add₀ (by norm_num),
      sub_add_cancel]
  obtain ⟨hhalf, heven⟩ := divRound_spec (n * 2 ^ (e - k).toNat) hd'
  generalize divRound (n * 2 ^ (e - k).toNat) (d * 2 ^ (-(e - k)).toNat) = r at hhalf heven
  generalize ((n * 2 ^ (e - k).toNat : ℕ) : ℚ) / ((d * 2 ^ (-(e - k)).toNat : ℕ) : ℚ) = x at hvalue hhalf heven
  have hunit := zpow_two_pos k
  -- between the powers of two of the mantissas
  have hmost : x < ((2 ^ 53 : ℕ) : ℚ) := mantissa_lt hvalue hhigh (by omega)
  have hleast (hk' : -1074 < k) : ((2 ^ 52 : ℕ) : ℚ) ≤ x := le_mantissa hvalue hlow (by omega)
  obtain ⟨hleft, hright⟩ := abs_le.mp hhalf
  have hrmost : r ≤ 2 ^ 53 := by
    have hcast : (r : ℚ) < ((2 ^ 53 + 1 : ℕ) : ℚ) := by
      rw [Nat.cast_add, Nat.cast_one]
      linarith
    exact Nat.lt_succ_iff.mp (by exact_mod_cast hcast)
  have hrleast (hk' : -1074 < k) : 2 ^ 52 ≤ r := by
    have hcast : ((2 ^ 52 : ℕ) : ℚ) < ((r + 1 : ℕ) : ℚ) := by
      rw [Nat.cast_add, Nat.cast_one]
      have := hleast hk'
      linarith
    exact Nat.lt_succ_iff.mp (by exact_mod_cast hcast)
  obtain ⟨hpoint, hbeyond⟩ := choice_of_point (by omega) hrmost hrleast
  rw [hvalue]
  by_cases hlarge : k ≤ 971
  · obtain ⟨hc, hc'⟩ := hpoint hlarge
    refine isNearest_of_grid hlarge hhalf hc (fun htie => hc' (heven htie)) fun hk' => ?_
    have := hleast hk'
    rwa [Nat.cast_pow, Nat.cast_ofNat, ← zpow_natCast] at this
  · rw [hbeyond (Int.not_le.mp hlarge)]
    refine isNearest_none ?_
    calc (2 : ℚ) ^ (1024 : Int) ≤ 2 ^ (52 + k) := zpow_le_zpow_right₀ (by norm_num) (by omega)
      _ = ((2 ^ 52 : ℕ) : ℚ) * 2 ^ k := by
        rw [zpow_add₀ (by norm_num), Nat.cast_pow, Nat.cast_ofNat, ← zpow_natCast]
        rfl
      _ ≤ x * 2 ^ k := mul_le_mul_of_nonneg_right (hleast (by omega)) hunit.le

end Magnitude

/-! ## 4. Numbers -/

namespace Double

open Magnitude

/-- A number has a sign and the size that is nearest to a value. -/
def Rounds (negative : Bool) (q : ℚ) (x : Double) : Prop :=
  ∃ c, IsNearest q c ∧ x = c.elim (infinite negative) (finite negative)

theorem Rounds.unique {s : Bool} {q : ℚ} {x y : Double} (hx : Rounds s q x) (hy : Rounds s q y) : x = y := by
  obtain ⟨c, hc, rfl⟩ := hx
  obtain ⟨c', hc', rfl⟩ := hy
  rw [hc.unique hc']

theorem ofQuotient_rounds (s : Bool) (n : ℕ) {d : ℕ} (hd : 0 < d) (e : Int) :
    Rounds s ((n : ℚ) / d * 2 ^ e) (ofQuotient s n d e) := by
  refine ⟨round? n d e, round?_nearest n hd e, ?_⟩
  unfold ofQuotient
  cases round? n d e with
  | none => rfl
  | some m => rfl

/-- A natural number is at least a power of ten. -/
theorem pow_log2_le {n : ℕ} (hn : n ≠ 0) : 10 ^ (n.log2 / 4) ≤ n := by
  calc 10 ^ (n.log2 / 4) ≤ 16 ^ (n.log2 / 4) := Nat.pow_le_pow_left (by decide) _
    _ = 2 ^ (4 * (n.log2 / 4)) := (Nat.pow_mul 2 4 _).symm
    _ ≤ 2 ^ n.log2 := Nat.pow_le_pow_right (by decide) (by omega)
    _ ≤ n := Nat.log2_self_le hn

theorem lt_pow_log2 (n : ℕ) : n < 10 ^ (n.log2 / 3 + 1) := by
  calc n < 2 ^ (n.log2 + 1) := Nat.lt_log2_self
    _ ≤ 2 ^ (3 * (n.log2 / 3 + 1)) := Nat.pow_le_pow_right (by decide) (by omega)
    _ = 8 ^ (n.log2 / 3 + 1) := Nat.pow_mul 2 3 _
    _ ≤ 10 ^ (n.log2 / 3 + 1) := Nat.pow_le_pow_left (by decide) _

/-- **A decimal is rounded to the nearest number**, however large or small it is. -/
theorem ofDecimal_rounds (s : Bool) (n : ℕ) (k : Int) : Rounds s (n * 10 ^ k) (ofDecimal s n k) := by
  unfold ofDecimal
  split
  · rename_i hn
    refine ⟨some .zero, isNearest_zero ?_ ?_, rfl⟩
    · rw [hn, Nat.cast_zero, zero_mul]
    · rw [hn, Nat.cast_zero, zero_mul, mul_zero]
      exact zpow_two_pos _
  rename_i hn
  split
  · -- above all powers of two
    rename_i hlarge
    refine ⟨none, isNearest_none ?_, rfl⟩
    have hbound : ((10 ^ (n.log2 / 4) : ℕ) : ℚ) ≤ n := by exact_mod_cast pow_log2_le hn
    calc (2 : ℚ) ^ (1024 : Int) = 2 ^ 53 * 2 ^ (971 : Int) := by
          rw [← zpow_natCast, ← zpow_add₀ (by norm_num)]
          rfl
      _ ≤ 10 ^ (309 : Int) := Decimal.le_zpow_most
      _ ≤ (10 : ℚ) ^ ((n.log2 / 4 : ℕ) + k) := zpow_le_zpow_right₀ (by norm_num) (by omega)
      _ = ((10 ^ (n.log2 / 4) : ℕ) : ℚ) * 10 ^ k := by
        rw [zpow_add₀ (by norm_num), Nat.cast_pow, Nat.cast_ofNat, zpow_natCast]
      _ ≤ n * 10 ^ k := mul_le_mul_of_nonneg_right hbound (zpow_pos (by norm_num) k).le
  split
  · -- below all powers of two
    rename_i hsmall
    refine ⟨some .zero, isNearest_zero (mul_nonneg (Nat.cast_nonneg n) (zpow_pos (by norm_num) k).le) ?_, rfl⟩
    have hbound : (n : ℚ) < ((10 ^ (n.log2 / 3 + 1) : ℕ) : ℚ) := by exact_mod_cast lt_pow_log2 n
    calc 2 * ((n : ℚ) * 10 ^ k) < 2 * (((10 ^ (n.log2 / 3 + 1) : ℕ) : ℚ) * 10 ^ k) :=
          mul_lt_mul_of_pos_left (mul_lt_mul_of_pos_right hbound (zpow_pos (by norm_num) k)) (by norm_num)
      _ = 2 * 10 ^ ((n.log2 / 3 + 1 : ℕ) + k) := by
        rw [zpow_add₀ (by norm_num), Nat.cast_pow, Nat.cast_ofNat, zpow_natCast]
      _ ≤ 10 * (10 : ℚ) ^ ((n.log2 / 3 + 1 : ℕ) + k) :=
        mul_le_mul_of_nonneg_right (by norm_num) (zpow_pos (by norm_num) _).le
      _ = (10 : ℚ) ^ (1 + ((n.log2 / 3 + 1 : ℕ) + k)) := by rw [zpow_one_add₀ (by norm_num)]
      _ ≤ 10 ^ (-324 : Int) := zpow_le_zpow_right₀ (by norm_num) (by omega)
      _ ≤ 2 ^ (-1074 : Int) := Decimal.zpow_least_le
  · have hrounds := ofQuotient_rounds s (n * 10 ^ k.toNat) (d := 10 ^ (-k).toNat) (Nat.pow_pos (by decide)) 0
    have hvalue : ((n * 10 ^ k.toNat : ℕ) : ℚ) / ((10 ^ (-k).toNat : ℕ) : ℚ) * 2 ^ (0 : Int) = n * 10 ^ k := by
      rw [zpow_zero, mul_one, Nat.cast_mul, Nat.cast_pow, Nat.cast_pow, Nat.cast_ofNat, mul_div_assoc, ← zpow_natCast,
        ← zpow_natCast, ← zpow_sub₀ (by norm_num)]
      congr 2
      omega
    rwa [hvalue] at hrounds

/-- A value that a number has is not rounded. -/
theorem rounds_toRat (s : Bool) (m : Magnitude) : Rounds s m.toRat (finite s m) := by
  refine ⟨some m, ⟨fun c => ?_, fun c htie => .inl ?_⟩, rfl⟩
  · show |m.toRat - m.toRat| ≤ _
    rw [sub_self, abs_zero]
    exact abs_nonneg _
  · have hzero : |m.toRat - choiceRat c| = |m.toRat - m.toRat| := htie
    rw [sub_self, abs_zero] at hzero
    exact eq_of_choiceRat_eq (sub_eq_zero.mp (abs_eq_zero.mp hzero)).symm

/-- Beyond all numbers, a value is rounded to infinity. -/
theorem rounds_infinite (s : Bool) {q : ℚ} (h : 2 ^ (1024 : Int) ≤ q) : Rounds s q (infinite s) :=
  ⟨none, isNearest_none h, rfl⟩

theorem mul_rounds (s t : Bool) (a b : Magnitude) :
    Rounds (s != t) (a.toRat * b.toRat) (mul (finite s a) (finite t b)) := by
  have hrounds := ofQuotient_rounds (s != t) (a.mantissa * b.mantissa) Nat.one_pos (a.exponent + b.exponent)
  have hvalue : ((a.mantissa * b.mantissa : ℕ) : ℚ) / (1 : ℕ) * 2 ^ (a.exponent + b.exponent) = a.toRat * b.toRat := by
    unfold toRat
    rw [Nat.cast_one, div_one, Nat.cast_mul, zpow_add₀ (by norm_num), mul_mul_mul_comm]
  rwa [hvalue] at hrounds

theorem add_rounds (a b : Magnitude) : Rounds false (a.toRat + b.toRat) (add (finite false a) (finite false b)) := by
  obtain ⟨e, he⟩ : ∃ e, min a.exponent b.exponent = e := ⟨_, rfl⟩
  obtain ⟨n, hn⟩ : ∃ n, a.mantissa * 2 ^ (a.exponent - e).toNat + b.mantissa * 2 ^ (b.exponent - e).toNat = n :=
    ⟨_, rfl⟩
  have hvalue : a.toRat + b.toRat = (n : ℚ) * 2 ^ e := by
    rw [toRat_eq_mul (m := a) (k := e) (by omega), toRat_eq_mul (m := b) (k := e) (by omega), ← add_mul, ← hn,
      Nat.cast_add]
  have hsum : signed false (a.mantissa <<< (a.exponent - e).toNat) +
      signed false (b.mantissa <<< (b.exponent - e).toNat) = (n : Int) := by
    rw [← hn, Nat.shiftLeft_eq, Nat.shiftLeft_eq]
    rfl
  have hadd : add (finite false a) (finite false b) =
      if n = 0 then finite false .zero else ofQuotient false n 1 e := by
    unfold add
    dsimp only
    rw [he, hsum]
    by_cases hzero : n = 0
    · rw [if_pos (by omega), if_pos hzero]
      rfl
    · rw [if_neg (by omega), if_neg hzero, decide_eq_false (by omega)]
      rfl
  rw [hadd, hvalue]
  split
  · rename_i hzero
    rw [hzero, Nat.cast_zero, zero_mul, ← toRat_eq_zero.mpr (show Magnitude.zero.isZero = true from rfl)]
    exact rounds_toRat false .zero
  · have hrounds := ofQuotient_rounds false n Nat.one_pos e
    rwa [Nat.cast_one, div_one] at hrounds

/-- The natural numbers below the precision are numbers. -/
theorem exists_toRat_natCast {n : ℕ} (hn : n < 2 ^ 53) : ∃ m, ofNat n = finite false m ∧ m.toRat = n := by
  obtain ⟨m, hm, ⟨hexponent, hmantissa⟩, -⟩ := ofNat_eq_finite hn
  refine ⟨m, hm, ?_⟩
  unfold toRat
  rw [hmantissa, Nat.cast_mul, Nat.cast_pow, Nat.cast_ofNat, mul_assoc, ← zpow_natCast, Int.toNat_of_nonneg (by omega),
    ← zpow_add₀ (by norm_num), neg_add_cancel, zpow_zero, mul_one]

end Double

end Ecma51
