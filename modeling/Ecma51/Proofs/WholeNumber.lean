import Mathlib.Algebra.Order.Ring.Nat
import Ecma51.Number.Integral

/-!
# Whole numbers without rounding

Natural numbers below the precision are represented exactly, so that the number of elements of an array can
be read back from its length.

* **`Double.truncInt_ofNat`**: such a number is its own whole part.
* `Double.toUint32_ofNat`: what fits in 32 bits is read back from them.
* `Double.sub_ofNat`, `Double.zero_lt_sub_ofNat`: differences, and which of them are positive.
* **`Double.add_ofNat`**, **`Double.ofNat_lt_ofNat`**: sums and order, up to the precision.
-/

namespace Ecma51

/-! ## 1. Numbers that need no rounding -/

namespace Magnitude

theorem binaryOrder_one {n : Nat} (hn : n ≠ 0) : binaryOrder n 1 = n.log2 := by
  have hle : 2 ^ n.log2 ≤ n := Nat.log2_self_le hn
  have hone : Nat.log2 1 = 0 := by decide
  unfold binaryOrder
  dsimp only
  rw [hone]
  have ht : (-((n.log2 : Int) - (0 : Nat))).toNat = 0 := by omega
  have ht' : ((n.log2 : Int) - (0 : Nat)).toNat = n.log2 := by omega
  rw [ht, ht', Nat.shiftLeft_zero, Nat.shiftLeft_eq, Nat.one_mul, if_neg (Nat.not_lt.mpr hle)]
  omega

theorem divRound_mul (q : Nat) {d : Nat} (hd : 0 < d) : divRound (q * d) d = q := by
  have hne : ¬ 0 = d := Nat.ne_of_lt hd
  unfold divRound
  dsimp only
  rw [Nat.mul_mod_left, Nat.mul_div_cancel q hd]
  simp [hne]

theorem log2_mul_pow {n : Nat} (hn : n ≠ 0) (k : Nat) : (n * 2 ^ k).log2 = n.log2 + k := by
  have hpos : 0 < 2 ^ k := Nat.two_pow_pos k
  rw [Nat.log2_eq_iff (Nat.mul_ne_zero hn hpos.ne'), Nat.pow_add, Nat.add_right_comm, Nat.pow_add]
  exact ⟨Nat.mul_le_mul_right _ (Nat.log2_self_le hn), Nat.mul_lt_mul_of_pos_right Nat.lt_log2_self hpos⟩

/-- **A magnitude with all bits of the precision is its own rounding**, on whatever scale its value is given. -/
theorem round?_of_value {m : Magnitude} (hm : 2 ^ 52 ≤ m.mantissa) {n : Nat} {e : Int}
    (hn : n * 2 ^ (e - m.exponent).toNat = m.mantissa * 2 ^ (m.exponent - e).toNat) : round? n 1 e = some m := by
  obtain ⟨hprecision, hleast, _, _⟩ := m.canonical
  have hmantissa : m.mantissa ≠ 0 := by omega
  have hnonzero : n ≠ 0 := by
    rintro rfl
    rw [Nat.zero_mul] at hn
    exact Nat.mul_ne_zero hmantissa (Nat.two_pow_pos _).ne' hn.symm
  have hbits : m.mantissa.log2 = 52 := (Nat.log2_eq_iff hmantissa).mpr ⟨hm, hprecision⟩
  have hlog := congrArg Nat.log2 hn
  rw [log2_mul_pow hnonzero, log2_mul_pow hmantissa, hbits] at hlog
  have hscale : max ((n.log2 : Int) + e - 52) (-1074) = m.exponent := by omega
  have hshift : (-(e - m.exponent)).toNat = (m.exponent - e).toNat := by omega
  unfold round?
  rw [if_neg hnonzero, binaryOrder_one hnonzero]
  dsimp only
  rw [hscale, hshift, Nat.shiftLeft_eq, Nat.shiftLeft_eq, Nat.one_mul, hn, divRound_mul _ (Nat.two_pow_pos _),
    if_neg (Nat.ne_of_lt hprecision)]
  exact dif_pos m.canonical

theorem canonical_whole {n : Nat} (hn : n < 2 ^ 53) (hzero : n ≠ 0) :
    Canonical (n * 2 ^ (52 - n.log2)) ((n.log2 : Int) - 52) ∧ 2 ^ 52 ≤ n * 2 ^ (52 - n.log2) := by
  have hlog : n.log2 < 53 := (Nat.log2_lt hzero).mpr hn
  have hpow : 2 ^ n.log2 * 2 ^ (52 - n.log2) = 2 ^ 52 := by
    rw [← Nat.pow_add]
    congr 1
    omega
  have hlow : 2 ^ 52 ≤ n * 2 ^ (52 - n.log2) := by
    rw [← hpow]
    exact Nat.mul_le_mul_right _ (Nat.log2_self_le hzero)
  have hhigh : n * 2 ^ (52 - n.log2) < 2 ^ 53 := by
    have := Nat.mul_lt_mul_of_pos_right (Nat.lt_log2_self (n := n))
      (Nat.two_pow_pos (52 - n.log2))
    rw [Nat.pow_succ, Nat.mul_right_comm, hpow] at this
    omega
  exact ⟨⟨hhigh, by omega, by omega, .inl hlow⟩, hlow⟩

/-- A natural number below the precision needs no rounding, on whatever scale it is given. -/
theorem round?_whole {n : Nat} (hn : n < 2 ^ 53) (hzero : n ≠ 0) (k : Nat) :
    round? (n * 2 ^ k) 1 (-(k : Int)) = some ⟨_, _, (canonical_whole hn hzero).1⟩ := by
  have hlog : n.log2 < 53 := (Nat.log2_lt hzero).mpr hn
  refine round?_of_value (canonical_whole hn hzero).2 ?_
  dsimp only
  generalize hx : (-(k : Int) - ((n.log2 : Int) - 52)).toNat = x
  generalize hy : ((n.log2 : Int) - 52 - -(k : Int)).toNat = y
  have hexponent : k + x = 52 - n.log2 + y := by omega
  rw [Nat.mul_assoc, ← Nat.pow_add, hexponent, Nat.pow_add, Nat.mul_assoc]

/-- The magnitude has the value of a whole number, and is no multiple of a power of two. -/
def Has (m : Magnitude) (n : Nat) : Prop := m.exponent ≤ 0 ∧ m.mantissa = n * 2 ^ (-m.exponent).toNat

/-- A natural number below the precision is itself after rounding. -/
theorem exists_round? {n : Nat} (hn : n < 2 ^ 53) :
    ∃ m, (∀ k : Nat, round? (n * 2 ^ k) 1 (-(k : Int)) = some m) ∧ m.Has n ∧ (n ≠ 0 → -1074 < m.exponent) := by
  by_cases hzero : n = 0
  · subst hzero
    exact ⟨zero, fun k => if_pos (Nat.zero_mul _), ⟨by decide, (Nat.zero_mul _).symm⟩, fun h => absurd rfl h⟩
  · have hlog : n.log2 < 53 := (Nat.log2_lt hzero).mpr hn
    have hshift : (-((n.log2 : Int) - 52)).toNat = 52 - n.log2 := by omega
    refine ⟨_, round?_whole hn hzero, ⟨?_, ?_⟩, fun _ => ?_⟩
    · show (n.log2 : Int) - 52 ≤ 0
      omega
    · show n * 2 ^ (52 - n.log2) = n * 2 ^ (-((n.log2 : Int) - 52)).toNat
      rw [hshift]
    · show -1074 < (n.log2 : Int) - 52
      omega

/-- A natural number below the precision needs no rounding. -/
theorem whole_round? {n : Nat} (hn : n < 2 ^ 53) :
    ∃ m, round? n 1 0 = some m ∧ m.whole = n := by
  obtain ⟨m, hm, ⟨hexponent, hmantissa⟩, _⟩ := exists_round? hn
  refine ⟨m, by simpa using hm 0, ?_⟩
  unfold whole
  rcases Int.lt_or_eq_of_le hexponent with hneg | hzero
  · rw [if_neg (Int.not_le.mpr hneg), Nat.shiftRight_eq_div_pow, hmantissa]
    exact Nat.mul_div_cancel _ (Nat.two_pow_pos _)
  · rw [hzero] at hmantissa
    rw [if_pos (Int.le_of_eq hzero.symm), hzero, hmantissa]
    simp

/-- A number beyond the precision keeps at least that much. -/
theorem le_of_round? {n : Nat} (hn : 2 ^ 52 ≤ n) {m : Magnitude} (hm : round? n 1 0 = some m) :
    0 ≤ m.exponent ∧ 2 ^ 52 ≤ m.mantissa := by
  have hzero : n ≠ 0 := by
    rintro rfl
    exact absurd hn (by decide)
  have hlog : 52 ≤ n.log2 := (Nat.le_log2 hzero).mpr hn
  have hexponent : 0 ≤ m.exponent := by
    unfold round? at hm
    rw [if_neg hzero, binaryOrder_one hzero] at hm
    dsimp only at hm
    unfold ofParts? at hm
    split at hm <;> split at hm
    · cases hm
      show (0 : Int) ≤ max ((n.log2 : Int) + 0 - 52) (-1074) + 1
      omega
    · cases hm
    · cases hm
      show (0 : Int) ≤ max ((n.log2 : Int) + 0 - 52) (-1074)
      omega
    · cases hm
  refine ⟨hexponent, ?_⟩
  obtain ⟨_, _, _, hlow | hleast⟩ := m.canonical
  · exact hlow
  · omega

end Magnitude

/-- A natural number below the precision is its own whole part. -/
theorem Double.truncInt_ofNat {n : Nat} (hn : n < 2 ^ 53) : (Double.ofNat n).truncInt = n := by
  obtain ⟨m, hm, hwhole⟩ := Magnitude.whole_round? hn
  unfold Double.ofNat Double.ofQuotient
  rw [hm]
  show Double.signed false m.whole = n
  rw [hwhole]
  rfl

theorem Double.toUint32_lt (x : Double) : x.toUint32 < 2 ^ 32 := by
  unfold toUint32 modulo
  omega

theorem Double.toUint32_ofNat {n : Nat} (hn : n < 2 ^ 32) : (Double.ofNat n).toUint32 = n := by
  unfold toUint32 modulo
  rw [truncInt_ofNat (by omega)]
  omega

/-! ## 2. Differences -/

namespace Double

theorem ofNat_eq_finite {n : Nat} (hn : n < 2 ^ 53) :
    ∃ m, ofNat n = finite false m ∧ m.Has n ∧ (n ≠ 0 → -1074 < m.exponent) ∧
      ∀ k : Nat, ofQuotient false (n * 2 ^ k) 1 (-(k : Int)) = ofNat n := by
  obtain ⟨m, hm, hhas, hleast⟩ := Magnitude.exists_round? hn
  have hfinite : ofNat n = finite false m := by
    have hzero := hm 0
    rw [Nat.pow_zero, Nat.mul_one] at hzero
    unfold ofNat ofQuotient
    rw [show (0 : Int) = -((0 : Nat) : Int) from rfl, hzero]
  refine ⟨m, hfinite, hhas, hleast, fun k => ?_⟩
  unfold ofQuotient
  rw [hm k, hfinite]

/-- A whole number on a finer scale. -/
theorem shiftLeft_of_has {m : Magnitude} {n : Nat} (hm : m.Has n) {e : Int} (he : e ≤ m.exponent) :
    m.mantissa <<< (m.exponent - e).toNat = n * 2 ^ (-e).toNat := by
  have hexponent := hm.1
  rw [Nat.shiftLeft_eq, hm.2, Nat.mul_assoc, ← Nat.pow_add]
  congr 2
  omega

/-- The difference of two magnitudes, on the finer of their scales. -/
theorem sub_finite (m m' : Magnitude) {x y : Nat}
    (hx : m.mantissa <<< (m.exponent - min m.exponent m'.exponent).toNat = x)
    (hy : m'.mantissa <<< (m'.exponent - min m.exponent m'.exponent).toNat = y) :
    (finite false m).sub (finite false m') = if (x : Int) - y = 0 then zero
      else ofQuotient (decide ((x : Int) - y < 0)) ((x : Int) - y).natAbs 1 (min m.exponent m'.exponent) := by
  subst hx hy
  rfl

/-- **The difference of two natural numbers** below the precision, if it is one. -/
theorem sub_ofNat {a b : Nat} (ha : a < 2 ^ 53) (hle : b ≤ a) : ofNat a - ofNat b = ofNat (a - b) := by
  obtain ⟨m, hm, hhas, _⟩ := ofNat_eq_finite ha
  obtain ⟨m', hm', hhas', _⟩ := ofNat_eq_finite (Nat.lt_of_le_of_lt hle ha)
  obtain ⟨_, _, _, _, hscaled⟩ := ofNat_eq_finite (Nat.lt_of_le_of_lt (Nat.sub_le a b) ha)
  have hsub := sub_finite m m' (shiftLeft_of_has hhas (Int.min_le_left _ _))
    (shiftLeft_of_has hhas' (Int.min_le_right _ _))
  have hscale : min m.exponent m'.exponent = -((-min m.exponent m'.exponent).toNat : Int) := by
    have := hhas.1
    omega
  rw [hm, hm']
  show (finite false m).sub (finite false m') = _
  rw [hsub]
  generalize (-min m.exponent m'.exponent).toNat = k at hscale ⊢
  rw [hscale]
  have hdifference : ((a * 2 ^ k : Nat) : Int) - (b * 2 ^ k : Nat) = ((a - b) * 2 ^ k : Nat) := by
    have := Nat.mul_le_mul_right (2 ^ k) hle
    rw [Nat.sub_mul]
    omega
  rw [hdifference]
  split
  · rename_i hzero
    have hnone : a - b = 0 := by
      rcases Nat.mul_eq_zero.mp (Int.natCast_eq_zero.mp hzero) with h | h
      · exact h
      · exact absurd h (Nat.two_pow_pos k).ne'
    rw [hnone]
    rfl
  · rw [decide_eq_false (Int.not_lt.mpr (Int.natCast_nonneg _)), Int.natAbs_natCast]
    exact hscaled k

theorem zero_lt_ofNat {n : Nat} (hn : n < 2 ^ 53) (hzero : n ≠ 0) : zero.lt (ofNat n) = true := by
  obtain ⟨m, hm, hhas, hleast, _⟩ := ofNat_eq_finite hn
  have hmantissa : m.mantissa ≠ 0 := by
    rw [hhas.2]
    exact Nat.mul_ne_zero hzero (Nat.two_pow_pos _).ne'
  have hexponent : compare (-1074) m.exponent = .lt := compare_lt_iff_lt.mpr (hleast hzero)
  rw [hm]
  unfold lt order? zero
  simp [Magnitude.isZero, Magnitude.compare, Magnitude.zero, hmantissa, hexponent]

theorem not_zero_lt_of_negative (n d : Nat) (e : Int) : zero.lt (ofQuotient true n d e) = false := by
  unfold ofQuotient
  split
  · rename_i m _
    unfold lt order? zero
    cases hm : m.isZero <;> simp only [hm] <;> rfl
  · rfl

/-- The difference of magnitudes of which the second is not smaller is not positive. -/
theorem not_zero_lt_sub_finite (m m' : Magnitude) {x y : Nat}
    (hx : m.mantissa <<< (m.exponent - min m.exponent m'.exponent).toNat = x)
    (hy : m'.mantissa <<< (m'.exponent - min m.exponent m'.exponent).toNat = y) (hle : x ≤ y) :
    zero.lt ((finite false m).sub (finite false m')) = false := by
  rw [sub_finite m m' hx hy]
  split
  · rfl
  · have hnegative : (x : Int) - y < 0 := by omega
    rw [decide_eq_true hnegative]
    exact not_zero_lt_of_negative _ _ _

/-- **Which differences of natural numbers are positive**, if the first is below the precision. -/
theorem zero_lt_sub_ofNat {a : Nat} (ha : a < 2 ^ 52) (b : Nat) :
    zero.lt (ofNat a - ofNat b) = decide (b < a) := by
  have ha' : a < 2 ^ 53 := Nat.lt_trans ha (by decide)
  rcases Nat.lt_or_ge b a with hlt | hge
  · rw [sub_ofNat ha' (Nat.le_of_lt hlt), decide_eq_true hlt]
    exact zero_lt_ofNat (Nat.lt_of_le_of_lt (Nat.sub_le a b) ha') (by omega)
  · obtain ⟨m, hm, hhas, _⟩ := ofNat_eq_finite ha'
    have hleft (m' : Magnitude) := shiftLeft_of_has hhas (Int.min_le_left m.exponent m'.exponent)
    rw [decide_eq_false (Nat.not_lt.mpr hge), hm]
    rcases Nat.lt_or_ge b (2 ^ 52) with hb | hb
    · obtain ⟨m', hm', hhas', _⟩ := ofNat_eq_finite (Nat.lt_trans hb (by decide))
      rw [hm']
      exact not_zero_lt_sub_finite m m' (hleft m') (shiftLeft_of_has hhas' (Int.min_le_right _ _))
        (Nat.mul_le_mul_right _ hge)
    · unfold ofNat ofQuotient
      cases hround : Magnitude.round? b 1 0 with
      | none => rfl
      | some m' =>
        obtain ⟨hexponent, hmantissa⟩ := Magnitude.le_of_round? hb hround
        have hmin : min m.exponent m'.exponent = m.exponent := Int.min_eq_left (Int.le_trans hhas.1 hexponent)
        have hshift : (-m.exponent).toNat ≤ (m'.exponent - m.exponent).toNat := by omega
        refine not_zero_lt_sub_finite m m' (hleft m') rfl ?_
        rw [hmin, Nat.shiftLeft_eq]
        exact Nat.mul_le_mul (by omega) (Nat.pow_le_pow_right (by decide) hshift)

/-! ## 3. Sums and order -/

/-- **What rounding gives for a natural number up to the precision**: all its bits, on whatever scale it is given. -/
theorem exists_round?_le {n : Nat} (hn : n ≤ 2 ^ 53) (hzero : n ≠ 0) :
    ∃ m, (∀ k : Nat, Magnitude.round? (n * 2 ^ k) 1 (-(k : Int)) = some m) ∧ m.exponent = (n.log2 : Int) - 52 ∧
      (n < 2 ^ 53 → m.mantissa = n * 2 ^ (52 - n.log2)) := by
  rcases Nat.lt_or_ge n (2 ^ 53) with hlt | hge
  · exact ⟨_, Magnitude.round?_whole hlt hzero, rfl, fun _ => rfl⟩
  · obtain rfl := Nat.le_antisymm hn hge
    refine ⟨⟨2 ^ 52, 1, by decide⟩, fun k => Magnitude.round?_of_value (Nat.le_refl _) ?_, ?_, fun h => absurd h (by decide)⟩
    · dsimp only
      rw [show (-(k : Int) - 1).toNat = 0 by omega, show (1 - -(k : Int)).toNat = 1 + k by omega, Nat.pow_zero,
        Nat.mul_one, ← Nat.pow_add, ← Nat.pow_add, ← Nat.add_assoc]
    · rw [Nat.log2_two_pow]
      rfl

/-- A natural number up to the precision is the same on whatever scale it is given. -/
theorem ofQuotient_scaled {n : Nat} (hn : n ≤ 2 ^ 53) (k : Nat) :
    ofQuotient false (n * 2 ^ k) 1 (-(k : Int)) = ofNat n := by
  by_cases hzero : n = 0
  · subst hzero
    rw [Nat.zero_mul]
    rfl
  · obtain ⟨m, hm, _, _⟩ := exists_round?_le hn hzero
    have hfirst := hm 0
    rw [Nat.pow_zero, Nat.mul_one] at hfirst
    unfold ofNat ofQuotient
    rw [hm k, show (0 : Int) = -((0 : Nat) : Int) from rfl, hfirst]

/-- **The sum of two natural numbers**, up to the precision. -/
theorem add_ofNat {a b : Nat} (ha : a < 2 ^ 53) (hb : b < 2 ^ 53) (hsum : a + b ≤ 2 ^ 53) :
    ofNat a + ofNat b = ofNat (a + b) := by
  obtain ⟨m, hm, hhas, _⟩ := ofNat_eq_finite ha
  obtain ⟨m', hm', hhas', _⟩ := ofNat_eq_finite hb
  have hscale : min m.exponent m'.exponent = -((-min m.exponent m'.exponent).toNat : Int) := by
    have := hhas.1
    omega
  have hx := shiftLeft_of_has hhas (Int.min_le_left m.exponent m'.exponent)
  have hy := shiftLeft_of_has hhas' (Int.min_le_right m.exponent m'.exponent)
  rw [hm, hm']
  show (finite false m).add (finite false m') = _
  unfold add signed
  simp only [hx, hy, Bool.false_eq_true, if_false, Bool.and_self]
  generalize (-min m.exponent m'.exponent).toNat = k at hscale ⊢
  rw [hscale]
  have htotal : ((a * 2 ^ k : Nat) : Int) + (b * 2 ^ k : Nat) = ((a + b) * 2 ^ k : Nat) := by
    rw [Nat.add_mul]
    omega
  rw [htotal]
  split
  · rename_i hzero
    have hnone : a + b = 0 := by
      rcases Nat.mul_eq_zero.mp (Int.natCast_eq_zero.mp hzero) with h | h
      · exact h
      · exact absurd h (Nat.two_pow_pos k).ne'
    rw [hnone]
    rfl
  · rw [decide_eq_false (Int.not_lt.mpr (Int.natCast_nonneg _)), Int.natAbs_natCast]
    exact ofQuotient_scaled hsum k

theorem ofNat_eq_finite_le {n : Nat} (hn : n ≤ 2 ^ 53) (hzero : n ≠ 0) :
    ∃ m, ofNat n = finite false m ∧ m.exponent = (n.log2 : Int) - 52 ∧
      (n < 2 ^ 53 → m.mantissa = n * 2 ^ (52 - n.log2)) := by
  obtain ⟨m, hm, hexponent, hmantissa⟩ := exists_round?_le hn hzero
  have hfirst := hm 0
  rw [Nat.pow_zero, Nat.mul_one] at hfirst
  refine ⟨m, ?_, hexponent, hmantissa⟩
  unfold ofNat ofQuotient
  rw [show (0 : Int) = -((0 : Nat) : Int) from rfl, hfirst]

theorem isZero_of_exponent {m : Magnitude} (hm : -1074 < m.exponent) : m.isZero = false := by
  obtain ⟨_, _, _, hlow | hleast⟩ := m.canonical
  · have hne : m.mantissa ≠ 0 := by omega
    simp [Magnitude.isZero, hne]
  · omega

/-- **The order of natural numbers** is kept, up to the precision. -/
theorem lt_ofNat {a b : Nat} (hb : b ≤ 2 ^ 53) (hab : a < b) : (ofNat a).lt (ofNat b) = true := by
  by_cases hzero : a = 0
  · subst hzero
    rcases Nat.lt_or_ge b (2 ^ 53) with hlt | hge
    · exact zero_lt_ofNat hlt (by omega)
    · obtain rfl := Nat.le_antisymm hb hge
      decide +kernel
  obtain ⟨m, hm, hexponent, hmantissa⟩ := ofNat_eq_finite_le (Nat.le_of_lt (Nat.lt_of_lt_of_le hab hb)) hzero
  obtain ⟨m', hm', hexponent', hmantissa'⟩ := ofNat_eq_finite_le hb (by omega)
  have hlog : a.log2 ≤ b.log2 := by
    rw [Nat.le_log2 (by omega)]
    exact Nat.le_trans (Nat.log2_self_le hzero) (Nat.le_of_lt hab)
  have hcompare : m.compare m' = .lt := by
    unfold Magnitude.compare
    rcases Nat.lt_or_eq_of_le hlog with hless | hsame
    · rw [compare_lt_iff_lt.mpr (by omega : m.exponent < m'.exponent)]
      rfl
    · have hlt : b < 2 ^ 53 := by
        refine Nat.lt_of_le_of_ne hb ?_
        rintro rfl
        rw [Nat.log2_two_pow, Nat.log2_eq_iff hzero] at hsame
        omega
      have hless : m.mantissa < m'.mantissa := by
        rw [hmantissa (by omega), hmantissa' hlt, hsame]
        exact Nat.mul_lt_mul_of_pos_right hab (Nat.two_pow_pos _)
      rw [compare_eq_iff_eq.mpr (by omega : m.exponent = m'.exponent), compare_lt_iff_lt.mpr hless]
      rfl
  rw [hm, hm']
  unfold lt order?
  simp [isZero_of_exponent (m := m) (by omega), hcompare]

theorem not_lt_self (x : Double) : x.lt x = false := by
  unfold lt order?
  cases x with
  | nan => rfl
  | infinite s => simp
  | finite s a => simp [Magnitude.compare]

theorem compare_swap (m m' : Magnitude) : m'.compare m = (m.compare m').swap := by
  unfold Magnitude.compare
  rw [Ordering.swap_then, ← Std.OrientedCmp.eq_swap, ← Std.OrientedCmp.eq_swap]

/-- How numbers without a sign compare. -/
theorem lt_finite (m m' : Magnitude) : (finite false m).lt (finite false m') =
    ((if m.isZero && m'.isZero then Ordering.eq else m.compare m') == .lt) := by
  have horder : order? (finite false m) (finite false m') =
      some (if m.isZero && m'.isZero then .eq else m.compare m') := rfl
  unfold lt
  rw [horder]
  rfl

/-- A number without sign that is less than another one is not greater. -/
theorem not_lt_of_lt {m m' : Magnitude} (h : (finite false m).lt (finite false m') = true) :
    (finite false m').lt (finite false m) = false := by
  rw [lt_finite] at h ⊢
  rw [Bool.and_comm m'.isZero, compare_swap m m']
  cases hzero : m.isZero && m'.isZero with
  | true => rfl
  | false =>
    rw [hzero] at h
    rw [show m.compare m' = .lt from beq_iff_eq.mp h]
    rfl

/-- No natural number is negative. -/
theorem not_ofNat_lt_zero (n : Nat) : (ofNat n).lt zero = false := by
  unfold ofNat ofQuotient
  cases Magnitude.round? n 1 0 with
  | none => rfl
  | some m =>
    show (finite false m).lt (finite false .zero) = false
    obtain ⟨_, hleast, _, _⟩ := m.canonical
    have hcompare : m.compare .zero ≠ .lt := by
      unfold Magnitude.compare
      rw [Ne, Ordering.then_eq_lt, compare_lt_iff_lt, compare_lt_iff_lt]
      rintro (hless | ⟨_, hless⟩)
      · exact absurd hless (Int.not_lt.mpr hleast)
      · exact Nat.not_lt_zero _ hless
    rw [lt_finite]
    split
    · rfl
    · exact beq_eq_false_iff_ne.mpr hcompare

/-- **Which natural numbers are smaller**, up to the precision. -/
theorem ofNat_lt_ofNat {a b : Nat} (ha : a ≤ 2 ^ 53) (hb : b ≤ 2 ^ 53) :
    (ofNat a).lt (ofNat b) = decide (a < b) := by
  have hfinite {n : Nat} (hn : n ≤ 2 ^ 53) : ∃ m, ofNat n = finite false m := by
    by_cases hzero : n = 0
    · exact ⟨.zero, by rw [hzero]; rfl⟩
    · obtain ⟨m, hm, _⟩ := ofNat_eq_finite_le hn hzero
      exact ⟨m, hm⟩
  rcases Nat.lt_trichotomy a b with hlt | rfl | hgt
  · rw [lt_ofNat hb hlt, decide_eq_true hlt]
  · rw [not_lt_self, decide_eq_false (Nat.lt_irrefl a)]
  · have h := lt_ofNat ha hgt
    obtain ⟨m, hm⟩ := hfinite ha
    obtain ⟨m', hm'⟩ := hfinite hb
    rw [hm, hm'] at h ⊢
    rw [not_lt_of_lt h, decide_eq_false (Nat.lt_asymm hgt)]

/-- **A natural number is its own whole part**, up to the precision. -/
theorem truncInt_ofNat_le {n : Nat} (hn : n ≤ 2 ^ 53) : (ofNat n).truncInt = n := by
  rcases Nat.lt_or_eq_of_le hn with hlt | rfl
  · exact truncInt_ofNat hlt
  · decide +kernel

theorem toInteger_ofNat {n : Nat} (hn : n ≤ 2 ^ 53) : (ofNat n).toInteger = ofNat n := by
  rcases Nat.lt_or_eq_of_le hn with hlt | rfl
  · obtain ⟨m, hm, hwhole⟩ := Magnitude.whole_round? hlt
    have hfinite : ofNat n = finite false m := by
      unfold ofNat ofQuotient
      rw [hm]
    rw [hfinite]
    show ofQuotient false m.whole 1 0 = _
    rw [hwhole]
    exact hfinite
  · decide +kernel

end Double

/-- A number that is not not-a-number is equal to itself. -/
theorem Double.eq_self {x : Double} (hx : x ≠ .nan) : x.eq x = true := by
  unfold Double.eq order?
  cases x with
  | nan => exact absurd rfl hx
  | infinite s => simp
  | finite s a => simp [Magnitude.compare]

theorem Double.ofNat_ne_nan (n : Nat) : Double.ofNat n ≠ .nan := by
  unfold Double.ofNat Double.ofQuotient
  split <;> nofun

end Ecma51
