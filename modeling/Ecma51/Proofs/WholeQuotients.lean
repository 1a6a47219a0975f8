import Mathlib.Tactic.Ring
import Ecma51.Proofs.WholeArithmetic

/-!
# Order and quotients of whole numbers

Whole numbers below the precision compare as integers do. Their remainders are exact; their quotients are rounded, but
never as far as to the next integer, so the whole part of a quotient is right, and so is whether it is whole.

* **`Double.Denotes.order?`**, `Double.Denotes.lt`, `Double.Denotes.le`: the order.
* `Magnitude.binaryOrder_spec`, `Magnitude.round?_scaled`: the rounding of a quotient, on whatever scale it is given.
* **`Magnitude.exists_round?_quotient`**: the whole part of a rounded quotient.
* **`Double.floor_div`**, **`Double.remEuclid_ofInt`**: division of integers.
-/

namespace Ecma51

/-! ## 1. Order -/

namespace Double

theorem isZero_of_has {m : Magnitude} {n : Nat} (h : m.Has n) : m.isZero = decide (n = 0) := by
  have hpow : 2 ^ (-m.exponent).toNat ≠ 0 := (Nat.two_pow_pos _).ne'
  rw [Bool.eq_iff_iff, decide_eq_true_iff, Magnitude.isZero, beq_iff_eq, h.2, Nat.mul_eq_zero, or_iff_left hpow]

/-- Magnitudes that are natural numbers compare as these do. -/
theorem compare_of_has {m m' : Magnitude} {n n' : Nat} (h : m.Has n) (h' : m'.Has n') (hn : n < 2 ^ 53)
    (hn' : n' < 2 ^ 53) : m.compare m' = compare n n' := by
  have hfinite : finite false m = ofNat n := by rw [eq_ofNat_of_isWhole (whole_of_has h).1, (whole_of_has h).2]
  have hfinite' : finite false m' = ofNat n' := by rw [eq_ofNat_of_isWhole (whole_of_has h').1, (whole_of_has h').2]
  have hlt := ofNat_lt_ofNat (Nat.le_of_lt hn) (Nat.le_of_lt hn')
  have hgt := ofNat_lt_ofNat (Nat.le_of_lt hn') (Nat.le_of_lt hn)
  rw [← hfinite, ← hfinite', lt_finite] at hlt hgt
  cases hzero : m.isZero && m'.isZero with
  | true =>
    obtain ⟨hm, hm'⟩ := Bool.and_eq_true_iff.mp hzero
    have hnone : n = 0 := of_decide_eq_true ((isZero_of_has h).symm.trans hm)
    have hnone' : n' = 0 := of_decide_eq_true ((isZero_of_has h').symm.trans hm')
    rw [Magnitude.eq_zero_of_isZero hm, Magnitude.eq_zero_of_isZero hm', hnone, hnone']
    rfl
  | false =>
    rw [Bool.and_comm] at hzero
    rw [hzero, if_neg Bool.false_ne_true, compare_swap m m'] at hgt
    rw [Bool.and_comm] at hzero
    rw [hzero, if_neg Bool.false_ne_true] at hlt
    rcases Nat.lt_trichotomy n n' with hless | rfl | hgreater
    · rw [compare_lt_iff_lt.mpr hless]
      exact beq_iff_eq.mp (hlt.trans (decide_eq_true hless))
    · rw [compare_eq_iff_eq.mpr rfl]
      rw [decide_eq_false (Nat.lt_irrefl n)] at hlt hgt
      cases hcompare : m.compare m' with
      | lt =>
        rw [hcompare] at hlt
        cases hlt
      | eq => rfl
      | gt =>
        rw [hcompare] at hgt
        cases hgt
    · rw [compare_gt_iff_gt.mpr hgreater]
      have hswap := beq_iff_eq.mp (hgt.trans (decide_eq_true hgreater))
      rw [← Ordering.swap_swap (o := m.compare m'), hswap]
      rfl

theorem IsSign.bounds {s : Bool} {i : Int} (h : IsSign s i) : (s = true → i ≤ 0) ∧ (s = false → 0 ≤ i) := by
  by_cases hzero : i = 0
  · omega
  · rw [h hzero]
    simp only [decide_eq_true_eq, decide_eq_false_iff_not]
    omega

theorem eq_compare {i j : Int} {o : Ordering} (hlt : i < j → o = .lt) (heq : i = j → o = .eq)
    (hgt : j < i → o = .gt) : o = compare i j := by
  rcases Int.lt_trichotomy i j with h | h | h
  · rw [compare_lt_iff_lt.mpr h, hlt h]
  · rw [compare_eq_iff_eq.mpr h, heq h]
  · rw [compare_gt_iff_gt.mpr h, hgt h]

variable {x y : Double} {i j : Int}

/-- **Numbers that are integers compare as integers do.** -/
theorem Denotes.order? (hx : Denotes x i) (hy : Denotes y j) (hi : i.natAbs < 2 ^ 53) (hj : j.natAbs < 2 ^ 53) :
    order? x y = some (compare i j) := by
  obtain ⟨s, m, rfl, hm, hs⟩ := hx.finite hi
  obtain ⟨t, m', rfl, hm', ht⟩ := hy.finite hj
  obtain ⟨hneg, hpos⟩ := hs.bounds
  obtain ⟨hneg', hpos'⟩ := ht.bounds
  show some (if m.isZero && m'.isZero then Ordering.eq
    else if s != t then if s then .lt else .gt else if s then m'.compare m else m.compare m') = _
  rw [isZero_of_has hm, isZero_of_has hm', compare_of_has hm hm' hi hj, compare_of_has hm' hm hj hi]
  refine congrArg some ?_
  by_cases hzero : i.natAbs = 0 ∧ j.natAbs = 0
  · rw [decide_eq_true hzero.1, decide_eq_true hzero.2]
    exact eq_compare (by omega) (fun _ => rfl) (by omega)
  · rw [← Bool.decide_and, decide_eq_false hzero, if_neg Bool.false_ne_true]
    cases s with
    | false =>
      have hpos := hpos rfl
      cases t with
      | false =>
        have hpos' := hpos' rfl
        exact eq_compare (fun _ => compare_lt_iff_lt.mpr (by omega)) (fun _ => compare_eq_iff_eq.mpr (by omega))
          fun _ => compare_gt_iff_gt.mpr (by omega)
      | true =>
        have hneg' := hneg' rfl
        exact eq_compare (by omega) (by omega) fun _ => rfl
    | true =>
      have hneg := hneg rfl
      cases t with
      | false =>
        have hpos' := hpos' rfl
        exact eq_compare (fun _ => rfl) (by omega) (by omega)
      | true =>
        have hneg' := hneg' rfl
        exact eq_compare (fun _ => compare_lt_iff_lt.mpr (by omega)) (fun _ => compare_eq_iff_eq.mpr (by omega))
          fun _ => compare_gt_iff_gt.mpr (by omega)

theorem Denotes.lt (hx : Denotes x i) (hy : Denotes y j) (hi : i.natAbs < 2 ^ 53) (hj : j.natAbs < 2 ^ 53) :
    x.lt y = decide (i < j) := by
  unfold Double.lt
  rw [hx.order? hy hi hj, Bool.eq_iff_iff, beq_iff_eq, Option.some.injEq, compare_lt_iff_lt, decide_eq_true_iff]

theorem Denotes.le (hx : Denotes x i) (hy : Denotes y j) (hi : i.natAbs < 2 ^ 53) (hj : j.natAbs < 2 ^ 53) :
    x.le y = decide (i ≤ j) := by
  unfold Double.le Double.eq
  rw [hx.lt hy hi hj, hx.order? hy hi hj, Bool.eq_iff_iff, Bool.or_eq_true_iff, beq_iff_eq, Option.some.injEq,
    compare_eq_iff_eq, decide_eq_true_iff, decide_eq_true_iff, Int.le_iff_lt_or_eq]

end Double

/-! ## 2. The scale of a quotient -/

namespace Magnitude

section Order

variable {n d : Nat} (hn : n ≠ 0) (hd : d ≠ 0)
include hn hd

/-- The order of magnitude of a quotient whose dividend is not of fewer digits. -/
theorem binaryOrder_spec_of_le (hle : d.log2 ≤ n.log2) :
    d * 2 ^ (binaryOrder n d).toNat ≤ n * 2 ^ (-binaryOrder n d).toNat ∧
      n * 2 ^ (-binaryOrder n d).toNat < 2 * (d * 2 ^ (binaryOrder n d).toNat) := by
  have hlow := Nat.log2_self_le hn
  have hhigh := Nat.lt_log2_self (n := n)
  have hlow' := Nat.log2_self_le hd
  have hhigh' := Nat.lt_log2_self (n := d)
  unfold binaryOrder
  dsimp only
  rw [Nat.shiftLeft_eq, Nat.shiftLeft_eq]
  generalize d.log2 = v at hle hlow' hhigh' ⊢
  obtain ⟨w, hw⟩ := Nat.exists_eq_add_of_le hle
  rw [hw] at hlow hhigh ⊢
  have hpow : 2 ^ (v + w) = 2 ^ v * 2 ^ w := Nat.pow_add 2 v w
  have hscaled := Nat.mul_le_mul_right (2 ^ w) hlow'
  have hscaled' := Nat.mul_lt_mul_of_pos_right hhigh' (Nat.two_pow_pos w)
  rw [show (-(((v + w : Nat) : Int) - v)).toNat = 0 by omega, show (((v + w : Nat) : Int) - v).toNat = w by omega,
    Nat.pow_zero, Nat.mul_one]
  rw [Nat.pow_succ, Nat.mul_right_comm] at hscaled'
  rw [Nat.pow_succ] at hhigh
  -- the logarithms bound the order from both sides, up to one, and the comparison decides
  split
  · rename_i hless
    cases w with
    | zero =>
      rw [show (((v + 0 : Nat) : Int) - v - 1).toNat = 0 by omega,
        show (-(((v + 0 : Nat) : Int) - v - 1)).toNat = 1 by omega]
      omega
    | succ w =>
      rw [show (((v + (w + 1) : Nat) : Int) - v - 1).toNat = w by omega,
        show (-(((v + (w + 1) : Nat) : Int) - v - 1)).toNat = 0 by omega]
      have htwice : d * 2 ^ (w + 1) = 2 * (d * 2 ^ w) := by rw [Nat.pow_succ, Nat.mul_comm 2, Nat.mul_assoc]
      rw [htwice] at hless hscaled'
      omega
  · rw [show (-(((v + w : Nat) : Int) - v)).toNat = 0 by omega, show (((v + w : Nat) : Int) - v).toNat = w by omega]
    omega

/-- The order of magnitude of a quotient whose dividend is not of more digits. -/
theorem binaryOrder_spec_of_ge (hle : n.log2 ≤ d.log2) :
    d * 2 ^ (binaryOrder n d).toNat ≤ n * 2 ^ (-binaryOrder n d).toNat ∧
      n * 2 ^ (-binaryOrder n d).toNat < 2 * (d * 2 ^ (binaryOrder n d).toNat) := by
  have hlow := Nat.log2_self_le hn
  have hhigh := Nat.lt_log2_self (n := n)
  have hlow' := Nat.log2_self_le hd
  have hhigh' := Nat.lt_log2_self (n := d)
  unfold binaryOrder
  dsimp only
  rw [Nat.shiftLeft_eq, Nat.shiftLeft_eq]
  generalize n.log2 = u at hle hlow hhigh ⊢
  obtain ⟨w, hw⟩ := Nat.exists_eq_add_of_le hle
  rw [hw] at hlow' hhigh' ⊢
  have hpow : 2 ^ (u + w) = 2 ^ u * 2 ^ w := Nat.pow_add 2 u w
  have hscaled := Nat.mul_le_mul_right (2 ^ w) hlow
  have hscaled' := Nat.mul_lt_mul_of_pos_right hhigh (Nat.two_pow_pos w)
  rw [Nat.pow_succ, Nat.mul_right_comm] at hscaled'
  rw [Nat.pow_succ] at hhigh'
  rw [show (-((u : Int) - (u + w : Nat))).toNat = w by omega, show ((u : Int) - (u + w : Nat)).toNat = 0 by omega,
    Nat.pow_zero, Nat.mul_one]
  split
  · rw [show (-((u : Int) - (u + w : Nat) - 1)).toNat = w + 1 by omega,
      show ((u : Int) - (u + w : Nat) - 1).toNat = 0 by omega, Nat.pow_succ, ← Nat.mul_assoc]
    omega
  · rw [show (-((u : Int) - (u + w : Nat))).toNat = w by omega, show ((u : Int) - (u + w : Nat)).toNat = 0 by omega]
    omega

/-- **The order of magnitude of a quotient**: the power of two that is the last not beyond it. -/
theorem binaryOrder_spec :
    d * 2 ^ (binaryOrder n d).toNat ≤ n * 2 ^ (-binaryOrder n d).toNat ∧
      n * 2 ^ (-binaryOrder n d).toNat < 2 * (d * 2 ^ (binaryOrder n d).toNat) :=
  (Nat.le_total d.log2 n.log2).elim (binaryOrder_spec_of_le hn hd) (binaryOrder_spec_of_ge hn hd)

end Order

/-- The rounded quotient, of equal quotients. -/
theorem divRound_eq {n d n' d' : Nat} (hd : 0 < d) (hd' : 0 < d') (h : n * d' = n' * d) :
    divRound n d = divRound n' d' := by
  have hscale {n d c : Nat} (hc : 0 < c) : divRound (n * c) (d * c) = divRound n d := by
    have hlt : d * c < 2 * (n % d) * c ↔ d < 2 * (n % d) := Nat.mul_lt_mul_right hc
    have heq : (2 * (n % d) * c == d * c) = (2 * (n % d) == d) := by
      rw [Bool.eq_iff_iff, beq_iff_eq, beq_iff_eq, Nat.mul_left_inj hc.ne']
    unfold divRound
    dsimp only
    rw [Nat.mul_div_mul_right n d hc, Nat.mul_mod_mul_right, ← Nat.mul_assoc, decide_eq_decide.mpr hlt, heq]
  rw [← hscale hd', h, Nat.mul_comm d d', hscale hd]

theorem lt_scaled {x y u v u' v' : Nat} (h : u + v' = u' + v) : x * 2 ^ u < y * 2 ^ v ↔ x * 2 ^ u' < y * 2 ^ v' := by
  rcases Nat.le_total u u' with hle | hle
  · obtain ⟨c, rfl⟩ := Nat.exists_eq_add_of_le hle
    obtain rfl : v' = v + c := by omega
    rw [Nat.pow_add, Nat.pow_add, ← Nat.mul_assoc, ← Nat.mul_assoc, Nat.mul_lt_mul_right (Nat.two_pow_pos c)]
  · obtain ⟨c, rfl⟩ := Nat.exists_eq_add_of_le hle
    obtain rfl : v = v' + c := by omega
    rw [Nat.pow_add, Nat.pow_add, ← Nat.mul_assoc, ← Nat.mul_assoc, Nat.mul_lt_mul_right (Nat.two_pow_pos c)]

section Scaled

variable {n d : Nat} (p q : Nat)

theorem binaryOrder_scaled (hn : n ≠ 0) (hd : d ≠ 0) :
    binaryOrder (n * 2 ^ p) (d * 2 ^ q) = binaryOrder n d + p - q := by
  unfold binaryOrder
  dsimp only
  rw [log2_mul_pow hn, log2_mul_pow hd, Nat.shiftLeft_eq, Nat.shiftLeft_eq, Nat.shiftLeft_eq, Nat.shiftLeft_eq,
    Nat.mul_assoc, Nat.mul_assoc, ← Nat.pow_add, ← Nat.pow_add]
  generalize n.log2 = u
  generalize d.log2 = v
  have hsame : p + (-(((u + p : Nat) : Int) - (v + q : Nat))).toNat + ((u : Int) - v).toNat =
      (-((u : Int) - v)).toNat + (q + (((u + p : Nat) : Int) - (v + q : Nat)).toNat) := by omega
  simp only [lt_scaled hsame]
  split <;> omega

/-- **The rounding of a quotient** does not depend on the scale it is given on. -/
theorem round?_scaled (hd : d ≠ 0) : round? (n * 2 ^ p) (d * 2 ^ q) ((q : Int) - p) = round? n d 0 := by
  by_cases hn : n = 0
  · subst hn
    rw [Nat.zero_mul]
    exact (if_pos rfl).trans (if_pos rfl).symm
  · have hn' : n * 2 ^ p ≠ 0 := Nat.mul_ne_zero hn (Nat.two_pow_pos p).ne'
    unfold round?
    dsimp only
    rw [if_neg hn, if_neg hn', binaryOrder_scaled p q hn hd,
      show binaryOrder n d + p - q + ((q : Int) - p) - 52 = binaryOrder n d + 0 - 52 by omega]
    generalize max (binaryOrder n d + 0 - 52) (-1074) = k
    have hsame : p + ((q : Int) - p - k).toNat + (-(0 - k)).toNat =
        (0 - k).toNat + (q + (-((q : Int) - p - k)).toNat) := by omega
    have hround : divRound ((n * 2 ^ p) <<< ((q : Int) - p - k).toNat) ((d * 2 ^ q) <<< (-((q : Int) - p - k)).toNat) =
        divRound (n <<< (0 - k).toNat) (d <<< (-(0 - k)).toNat) := by
      have hpos : 0 < d := Nat.pos_of_ne_zero hd
      rw [Nat.shiftLeft_eq, Nat.shiftLeft_eq, Nat.shiftLeft_eq, Nat.shiftLeft_eq, Nat.mul_assoc, Nat.mul_assoc,
        ← Nat.pow_add, ← Nat.pow_add]
      refine divRound_eq (Nat.mul_pos hpos (Nat.two_pow_pos _)) (Nat.mul_pos hpos (Nat.two_pow_pos _)) ?_
      rw [Nat.mul_mul_mul_comm, ← Nat.pow_add, hsame, Nat.pow_add, Nat.mul_mul_mul_comm]
    rw [hround]

end Scaled

/-! ## 3. The whole part of a quotient -/

/-- The rounded quotient is at most half a unit away. -/
theorem divRound_near (n : Nat) {d : Nat} (hd : 0 < d) :
    2 * (divRound n d * d) ≤ 2 * n + d ∧ 2 * n ≤ 2 * (divRound n d * d) + d := by
  have hn : n / d * d + n % d = n := by rw [Nat.mul_comm, Nat.div_add_mod]
  have hlt := Nat.mod_lt n hd
  unfold divRound
  dsimp only
  split
  · rename_i hup
    have hhalf : d ≤ 2 * (n % d) := by
      rw [Bool.or_eq_true_iff, decide_eq_true_iff, Bool.and_eq_true_iff, beq_iff_eq] at hup
      omega
    rw [Nat.add_mul, Nat.one_mul]
    omega
  · rename_i hdown
    have hhalf : 2 * (n % d) ≤ d := by
      rw [Bool.or_eq_true_iff, decide_eq_true_iff] at hdown
      omega
    omega

/-- The rounded quotient has as many digits as the quotient, if it is not full. -/
theorem divRound_bounds {n d : Nat} (hd : 0 < d) (hlow : d * 2 ^ 52 ≤ n) (hhigh : n < 2 * (d * 2 ^ 52)) :
    2 ^ 52 ≤ divRound n d ∧ divRound n d ≤ 2 ^ 53 := by
  obtain ⟨hbelow, habove⟩ := divRound_near n hd
  constructor
  · refine Nat.le_of_not_lt fun hless => ?_
    have hscaled := Nat.mul_le_mul_right d (Nat.succ_le_of_lt hless)
    rw [Nat.succ_mul] at hscaled
    omega
  · refine Nat.le_of_not_lt fun hmore => ?_
    have hscaled := Nat.mul_le_mul_right d (Nat.succ_le_of_lt hmore)
    rw [Nat.succ_mul] at hscaled
    omega

/-- What is nearer to a quotient, on a finer scale, than the quotient is to the next integer, has the same whole
part, and is whole only if the quotient is. -/
theorem whole_of_near {a b q j : Nat} (hb : 0 < b) (hfine : b < 2 ^ (j + 1))
    (hnear : 2 * (q * b) ≤ 2 * (a * 2 ^ j) + b ∧ 2 * (a * 2 ^ j) ≤ 2 * (q * b) + b) :
    q / 2 ^ j = a / b ∧ (q % 2 ^ j = 0 ↔ b ∣ a) := by
  obtain ⟨hbelow, habove⟩ := hnear
  rw [Nat.pow_succ] at hfine
  have hpos : 0 < 2 ^ j := Nat.two_pow_pos j
  generalize 2 ^ j = c at *
  have hlt := Nat.mod_lt a hb
  have ha : a * c = a / b * c * b + a % b * c := by
    calc a * c = (b * (a / b) + a % b) * c := by rw [Nat.div_add_mod]
      _ = a / b * c * b + a % b * c := by ring
  have hfirst : a / b * c ≤ q := by
    refine Nat.le_of_not_lt fun hless => ?_
    have hscaled := Nat.mul_le_mul_right b (Nat.succ_le_of_lt hless)
    rw [Nat.succ_mul] at hscaled
    omega
  have hlast : q < (a / b + 1) * c := by
    refine Nat.lt_of_not_le fun hless => ?_
    have hscaled := Nat.mul_le_mul_right b hless
    have hnext : (a / b + 1) * c * b = a / b * c * b + b * c := by ring
    have hrest := Nat.mul_le_mul_right c (Nat.succ_le_of_lt hlt)
    rw [Nat.succ_mul] at hrest
    omega
  have hwhole : q / c = a / b := Nat.div_eq_of_lt_le hfirst hlast
  refine ⟨hwhole, fun hmod => ?_, fun hdvd => ?_⟩
  · have hq : q = a / b * c := by rw [← hwhole, Nat.div_mul_cancel (Nat.dvd_of_mod_eq_zero hmod)]
    rw [← hq] at ha
    refine Nat.dvd_of_mod_eq_zero (Nat.eq_zero_of_not_pos fun hrest => ?_)
    have hleast := Nat.mul_le_mul_right c hrest
    omega
  · rw [Nat.mod_eq_zero_of_dvd hdvd, Nat.zero_mul, Nat.add_zero] at ha
    have hq : q = a / b * c := by
      refine Nat.le_antisymm (Nat.le_of_not_lt fun hmore => ?_) hfirst
      have hscaled := Nat.mul_le_mul_right b (Nat.succ_le_of_lt hmore)
      rw [Nat.succ_mul] at hscaled
      omega
    rw [hq, Nat.mul_mod_left]

/-- The bounds of the order of a quotient of numbers below the precision, and the grid on which it is rounded. -/
theorem quotient_grid {a b : Nat} (hzero : a ≠ 0) (ha : a < 2 ^ 53) (hb : 0 < b) (hb' : b < 2 ^ 53) :
    ∃ j : Nat, binaryOrder a b = 52 - (j : Int) ∧ j ≤ 105 ∧ b < 2 ^ (j + 1) ∧ b * 2 ^ 52 ≤ a * 2 ^ j ∧
      a * 2 ^ j < 2 * (b * 2 ^ 52) := by
  obtain ⟨hlow, hhigh⟩ := binaryOrder_spec hzero hb.ne'
  generalize binaryOrder a b = o at *
  have hupper : o ≤ 52 := by
    refine Int.not_lt.mp fun hlt => ?_
    have hpow : 2 ^ 53 ≤ 2 ^ o.toNat := Nat.pow_le_pow_right (by decide) (by omega)
    have hprod := Nat.mul_le_mul hb hpow
    rw [show (-o).toNat = 0 by omega] at hlow
    omega
  have hlower : -53 ≤ o := by
    refine Int.not_lt.mp fun hlt => ?_
    have hpow : 2 ^ 54 ≤ 2 ^ (-o).toNat := Nat.pow_le_pow_right (by decide) (by omega)
    have hprod := Nat.mul_le_mul (Nat.pos_of_ne_zero hzero) hpow
    rw [show o.toNat = 0 by omega] at hhigh
    omega
  obtain ⟨c, hc⟩ : ∃ c : Nat, c + o.toNat = 52 := ⟨52 - o.toNat, by omega⟩
  refine ⟨c + (-o).toNat, by omega, by omega, ?_, ?_, ?_⟩
  · have hprod := Nat.mul_lt_mul_of_pos_right ha (Nat.two_pow_pos (-o).toNat)
    have hpow : 2 ^ 53 * 2 ^ (-o).toNat = 2 ^ (c + (-o).toNat + 1) * 2 ^ o.toNat := by
      rw [← Nat.pow_add, ← Nat.pow_add]
      congr 1
      omega
    exact Nat.lt_of_mul_lt_mul_right (Nat.lt_of_le_of_lt hlow (hpow ▸ hprod))
  · have hprod := Nat.mul_le_mul_right (2 ^ c) hlow
    rwa [Nat.mul_assoc, Nat.mul_assoc, ← Nat.pow_add, ← Nat.pow_add, Nat.add_comm o.toNat, hc,
      Nat.add_comm _ c] at hprod
  · have hprod := Nat.mul_lt_mul_of_pos_right hhigh (Nat.two_pow_pos c)
    rwa [Nat.mul_assoc, Nat.mul_assoc, Nat.mul_assoc, ← Nat.pow_add, ← Nat.pow_add, Nat.add_comm o.toNat, hc,
      Nat.add_comm _ c] at hprod

theorem whole_of_nonpos {m : Magnitude} {j : Nat} (hm : m.exponent = -(j : Int)) :
    m.whole = m.mantissa / 2 ^ j ∧ (m.isWhole = true ↔ m.mantissa % 2 ^ j = 0) := by
  unfold whole isWhole
  rw [hm, Int.neg_neg, Int.toNat_natCast]
  cases j with
  | zero => simp [Nat.mod_one]
  | succ j =>
    have hneg : ¬ (0 : Int) ≤ -((j + 1 : Nat) : Int) := by omega
    rw [if_neg hneg, decide_eq_false hneg, Bool.false_or, beq_iff_eq, Nat.shiftRight_eq_div_pow]
    exact ⟨rfl, Iff.rfl⟩

/-- A quotient of known order is rounded on its grid. -/
theorem round?_of_order {a b j : Nat} (hzero : a ≠ 0) (horder : binaryOrder a b = 52 - (j : Int)) (hj : j ≤ 1074) :
    round? a b 0 = if divRound (a * 2 ^ j) b = 2 ^ 53 then ofParts? (2 ^ 52) (-(j : Int) + 1)
      else ofParts? (divRound (a * 2 ^ j) b) (-(j : Int)) := by
  unfold round?
  dsimp only
  rw [if_neg hzero, horder, show max (52 - (j : Int) + 0 - 52) (-1074) = -(j : Int) by omega,
    show (0 - -(j : Int)).toNat = j by omega, show (-(0 - -(j : Int))).toNat = 0 by omega, Nat.shiftLeft_zero,
    Nat.shiftLeft_eq]

/-- **The whole part of a rounded quotient** is that of the quotient, and only what is whole is rounded to what is. -/
theorem exists_round?_quotient {a b : Nat} (ha : a < 2 ^ 53) (hb : 0 < b) (hb' : b < 2 ^ 53) :
    ∃ m, round? a b 0 = some m ∧ m.whole = a / b ∧ (m.isWhole = true ↔ b ∣ a) := by
  by_cases hzero : a = 0
  · subst hzero
    obtain ⟨hwhole, hvalue⟩ := Double.whole_of_has (m := zero) (n := 0) ⟨by decide, (Nat.zero_mul _).symm⟩
    exact ⟨zero, if_pos rfl, hvalue.trans (Nat.zero_div b).symm, iff_of_true hwhole (Nat.dvd_zero b)⟩
  obtain ⟨j, horder, hj, hfine, hlow, hhigh⟩ := quotient_grid hzero ha hb hb'
  obtain ⟨hleast, hmost⟩ := divRound_bounds hb hlow hhigh
  obtain ⟨hwhole, hdvd⟩ := whole_of_near hb hfine (divRound_near (a * 2 ^ j) hb)
  rw [round?_of_order hzero horder (by omega)]
  generalize divRound (a * 2 ^ j) b = q at *
  by_cases hfull : q = 2 ^ 53
  · -- a mantissa that is full is halved, which leaves its value as it is
    obtain ⟨i, rfl⟩ : ∃ i, j = i + 1 := by
      refine Nat.exists_eq_succ_of_ne_zero ?_
      rintro rfl
      obtain rfl : b = 1 := by omega
      omega
    have hcanonical : Canonical (2 ^ 52) (-((i + 1 : Nat) : Int) + 1) :=
      ⟨by decide, by omega, by omega, .inl (Nat.le_refl _)⟩
    obtain ⟨hparts, hparts'⟩ := whole_of_nonpos (m := ⟨2 ^ 52, _, hcanonical⟩) (j := i) (by dsimp only; omega)
    rw [if_pos hfull]
    refine ⟨⟨2 ^ 52, _, hcanonical⟩, dif_pos hcanonical, ?_, ?_⟩
    · rw [hparts, ← hwhole, hfull, Nat.pow_succ 2 i]
      exact (Nat.mul_div_mul_right (2 ^ 52) (2 ^ i) (by decide : 0 < 2)).symm
    · rw [hparts', ← hdvd, hfull, Nat.pow_succ 2 i, show 2 ^ 53 = 2 ^ 52 * 2 from rfl, Nat.mul_mod_mul_right,
        Nat.mul_eq_zero, or_iff_left (by decide)]
  · have hcanonical : Canonical q (-(j : Int)) := ⟨by omega, by omega, by omega, .inl hleast⟩
    obtain ⟨hparts, hparts'⟩ := whole_of_nonpos (m := ⟨q, _, hcanonical⟩) (j := j) rfl
    rw [if_neg hfull]
    exact ⟨⟨q, _, hcanonical⟩, dif_pos hcanonical, hparts.trans hwhole, hparts'.trans hdvd⟩

end Magnitude

/-! ## 4. Division of integers -/

namespace Double

variable {i j : Int}

theorem finite_ofInt (hi : i.natAbs < 2 ^ 53) : ∃ m, ofInt i = finite (decide (i < 0)) m ∧ m.Has i.natAbs := by
  obtain ⟨m, hm, hhas, _⟩ := Magnitude.exists_round? hi
  have hround := hm 0
  rw [Nat.pow_zero, Nat.mul_one, Int.natCast_zero, Int.neg_zero] at hround
  refine ⟨m, ?_, hhas⟩
  unfold ofInt ofQuotient
  rw [hround]

/-- The quotient of integers is rounded once. -/
theorem ofInt_div (hi : i.natAbs < 2 ^ 53) (hj : 0 < j) (hj' : j.natAbs < 2 ^ 53) :
    ofInt i / ofInt j = ofQuotient (decide (i < 0)) i.natAbs j.natAbs 0 := by
  obtain ⟨m, hm, hexponent, hmantissa⟩ := finite_ofInt hi
  obtain ⟨m', hm', hhas'⟩ := finite_ofInt hj'
  have hzero : m'.isZero = false := (isZero_of_has hhas').trans (decide_eq_false (by omega))
  obtain ⟨hexponent', hmantissa'⟩ := hhas'
  have hscale : m.exponent - m'.exponent = ((-m'.exponent).toNat : Int) - (-m.exponent).toNat := by omega
  rw [hm, hm', decide_eq_false (by omega : ¬ j < 0)]
  show (if m'.isZero then (if m.isZero then nan else infinite _) else ofQuotient (decide (i < 0) != false) m.mantissa
    m'.mantissa (m.exponent - m'.exponent)) = _
  rw [hzero, if_neg Bool.false_ne_true, Bool.bne_false, hmantissa, hmantissa', hscale]
  unfold ofQuotient
  rw [Magnitude.round?_scaled _ _ (by omega)]

/-- **The whole part of a quotient of integers.** -/
theorem floor_div (hi : i.natAbs < 2 ^ 53) (hj : 0 < j) (hj' : j.natAbs < 2 ^ 53) :
    (ofInt i / ofInt j).floor = ofInt (i / j) := by
  obtain ⟨m, hm, hwhole, hdvd⟩ := Magnitude.exists_round?_quotient hi (by omega : 0 < j.natAbs) hj'
  obtain ⟨d, rfl⟩ := Int.eq_ofNat_of_zero_le (Int.le_of_lt hj)
  rw [ofInt_div hi hj hj']
  unfold ofQuotient
  rw [hm]
  show (if m.isWhole then finite _ m
    else if decide (i < 0) then ofQuotient true (m.whole + 1) 1 0 else ofQuotient false m.whole 1 0) = _
  rcases Int.lt_or_le i 0 with hneg | hpos
  · obtain ⟨n, rfl⟩ := Int.exists_eq_neg_ofNat (Int.le_of_lt hneg)
    rw [Int.natAbs_neg, Int.natAbs_natCast, Int.natAbs_natCast] at hwhole hdvd
    rw [decide_eq_true hneg, Int.neg_ediv, ← Int.natCast_ediv, ← hwhole, Int.sign_eq_one_of_pos hj]
    simp only [Int.natCast_dvd_natCast, ← hdvd]
    by_cases hm : m.isWhole = true
    · have hdenotes : Denotes (finite true m) (-(m.whole : Int)) :=
        denotes_of_toInt? (by unfold toInt?; dsimp only; rw [hm, if_pos rfl]; rfl)
      rw [if_pos hm, if_pos hm, Int.sub_zero]
      refine hdenotes.eq fun hzero => ?_
      obtain ⟨k, rfl⟩ := hdvd.mp hm
      rw [Nat.mul_div_cancel_left k (by omega)] at hwhole
      obtain rfl : k = 0 := by omega
      rw [Nat.mul_zero] at hneg
      omega
    · rw [if_neg hm, if_neg hm, if_pos trivial]
      unfold ofInt
      rw [decide_eq_true (by omega), show (-(m.whole : Int) - 1).natAbs = m.whole + 1 by omega]
  · obtain ⟨n, rfl⟩ := Int.eq_ofNat_of_zero_le hpos
    rw [Int.natAbs_natCast, Int.natAbs_natCast] at hwhole
    rw [decide_eq_false (Int.not_lt.mpr hpos), ← Int.natCast_ediv, ← hwhole, ofInt_natCast]
    split
    · exact eq_ofNat_of_isWhole ‹_›
    · rfl

/-- What is zero with a sign stays it. -/
theorem floor_div_zero (s : Bool) (hj : 0 < j) (hj' : j.natAbs < 2 ^ 53) :
    (finite s .zero / ofInt j).floor = finite s .zero := by
  obtain ⟨m, hm, hhas⟩ := finite_ofInt hj'
  have hzero : m.isZero = false := (isZero_of_has hhas).trans (decide_eq_false (by omega))
  rw [hm, decide_eq_false (by omega : ¬ j < 0)]
  show (if m.isZero then (if Magnitude.zero.isZero then nan else infinite _) else
    ofQuotient (s != false) 0 m.mantissa (-1074 - m.exponent)).floor = _
  have hwhole : Magnitude.zero.isWhole = true := (whole_of_has (n := 0) ⟨by decide, (Nat.zero_mul _).symm⟩).1
  have hquotient (d : Nat) (e : Int) : ofQuotient s 0 d e = finite s .zero := rfl
  rw [hzero, if_neg Bool.false_ne_true, Bool.bne_false, hquotient]
  unfold floor
  dsimp only
  rw [if_pos hwhole]

/-- The truncated remainder by a positive number. -/
theorem tmod_eq (hj : 0 < j) : i.tmod j = if 0 ≤ i ∨ i % j = 0 then i % j else i % j - j := by
  rw [Int.tmod_eq_emod]
  simp only [Int.dvd_iff_emod_eq_zero]
  split
  · exact Int.sub_zero _
  · rw [Int.natAbs_of_nonneg (Int.le_of_lt hj)]

/-- The remainder has the sign of what is divided, also if it is zero. -/
theorem ofInt_rem (hi : i.natAbs < 2 ^ 53) (hj : 0 < j) (hj' : j.natAbs < 2 ^ 53) :
    ofInt i % ofInt j = if i % j = 0 then finite (decide (i < 0)) .zero else ofInt (i.tmod j) := by
  obtain ⟨m, hm, hhas⟩ := finite_ofInt hi
  obtain ⟨m', hm', hhas'⟩ := finite_ofInt hj'
  have hzero : m'.isZero = false := (isZero_of_has hhas').trans (decide_eq_false (by omega))
  have hscale : min m.exponent m'.exponent = -((-min m.exponent m'.exponent).toNat : Int) := by
    have := hhas.1
    omega
  have hleft := shiftLeft_of_has hhas (Int.min_le_left m.exponent m'.exponent)
  have hright := shiftLeft_of_has hhas' (Int.min_le_right m.exponent m'.exponent)
  have habs : (i.tmod j).natAbs = i.natAbs % j.natAbs := Int.natAbs_tmod i j
  have hbounds := Int.emod_nonneg i (by omega : j ≠ 0)
  have hlt := Int.emod_lt_of_pos i hj
  have hrest := tmod_eq (i := i) hj
  rw [hm, hm']
  show (if m'.isZero then nan else ofQuotient (decide (i < 0))
    ((m.mantissa <<< (m.exponent - min m.exponent m'.exponent).toNat) %
      (m'.mantissa <<< (m'.exponent - min m.exponent m'.exponent).toNat)) 1 (min m.exponent m'.exponent)) = _
  rw [hzero, if_neg Bool.false_ne_true, hleft, hright, Nat.mul_mod_mul_right, ← habs]
  generalize (-min m.exponent m'.exponent).toNat = k at hscale ⊢
  rw [hscale]
  by_cases hnone : i % j = 0
  · rw [hrest, if_pos (.inr hnone), hnone, if_pos rfl, Int.natAbs_zero, Nat.zero_mul]
    rfl
  · have hne : i.tmod j ≠ 0 := by
      rw [hrest]
      split <;> omega
    have hsign : IsSign (decide (i < 0)) (i.tmod j) := by
      intro _
      rw [hrest]
      refine decide_eq_decide.mpr ?_
      split <;> omega
    have hsmall : (i.tmod j).natAbs ≤ 2 ^ 53 := by
      rw [hrest]
      split <;> omega
    rw [if_neg hnone]
    exact (denotes_scaled hsign hsmall k).eq hne

/-- **The remainder that is never negative**; if it is zero, it has the sign of what is divided. -/
theorem remEuclid_ofInt (hi : i.natAbs < 2 ^ 53) (hj : 0 < j) (hj' : j.natAbs < 2 ^ 53) :
    (ofInt i).remEuclid (ofInt j) = if i % j = 0 then finite (decide (i < 0)) .zero else ofInt (i % j) := by
  have hbounds := Int.emod_nonneg i (by omega : j ≠ 0)
  have hlt := Int.emod_lt_of_pos i hj
  have hrest := tmod_eq (i := i) hj
  have hdenotes : Denotes zero 0 := .inl rfl
  unfold remEuclid
  rw [ofInt_rem hi hj hj']
  dsimp only
  by_cases hnone : i % j = 0
  · rw [if_pos hnone, if_pos hnone]
    cases decide (i < 0) <;> rfl
  · rw [if_neg hnone, if_neg hnone]
    by_cases hpos : 0 ≤ i
    · rw [if_pos (.inl hpos)] at hrest
      rw [hrest, (denotes_ofInt _).lt hdenotes (by omega) (by decide), decide_eq_false (by omega),
        if_neg Bool.false_ne_true]
    · rw [if_neg (by omega)] at hrest
      have habs : (ofInt j).abs = ofInt j := by
        rw [(denotes_ofInt j).abs, ← ofInt_natCast, Int.natAbs_of_nonneg (Int.le_of_lt hj)]
      rw [hrest, (denotes_ofInt _).lt hdenotes (by omega) (by decide), decide_eq_true (by omega), if_pos rfl,
        habs, ofInt_add (denotes_ofInt j) (by omega) hj' (by omega), Int.sub_add_cancel]

end Double

end Ecma51
