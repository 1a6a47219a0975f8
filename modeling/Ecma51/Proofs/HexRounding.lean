import Ecma51.Proofs.RadixTexts

/-!
# Hexadecimal digits that are rounded one by one

The value of hexadecimal digits is computed by rounding after every digit, or from the whole number by rounding once.
The first digits that together are not below the precision are still rounded as one number. Whatever follows them is
less than half a unit of what has been computed and leaves no trace: the digits after the first ones count as zeros.
This makes a difference only where the first ones lie half way between two numbers, so that the rest decides.

* `droppedDigits`, `keptNumber`: the digits that count as zeros, and what is kept of the number.
* `round?_large`, `ofNat_eq_ofNat_iff`: rounding beyond the precision.
* **`RoundedDigits.eq_keptNumber`**: digits rounded one by one are the number that is kept, rounded once.
* `HalfWay`, **`ofNat_keptNumber_iff`**: where this is the number itself, rounded once.
* **`hexTexts_exact`**: the two readers of hexadecimal digits.
-/

namespace Ecma51

-- powers mean the same whether or not there are other instances in scope
attribute [local instance (high)] instPowNat

open Magnitude Double

/-! ## 1. What is kept -/

/-- How many hexadecimal digits follow the first ones that together are not below the precision. -/
def droppedDigits (n : Nat) : Nat := (n.log2 - 53) / 4

/-- The number with zeros for these digits. -/
def keptNumber (n : Nat) : Nat := n / 16 ^ droppedDigits n * 16 ^ droppedDigits n

variable {n v w d : Nat}

theorem log2_scaled_add {p r : Nat} (hv : v ≠ 0) (hr : r < 2 ^ p) : (v * 2 ^ p + r).log2 = v.log2 + p := by
  have hpos := Nat.two_pow_pos p
  have hlow := Nat.mul_le_mul_right (2 ^ p) (Nat.log2_self_le hv)
  have hhigh := Nat.mul_le_mul_right (2 ^ p) (Nat.succ_le_of_lt (@Nat.lt_log2_self v))
  have hone : 2 ^ p ≤ v * 2 ^ p := Nat.le_mul_of_pos_left _ (Nat.pos_of_ne_zero hv)
  rw [Nat.succ_mul] at hhigh
  rw [Nat.log2_eq_iff (by omega), Nat.add_right_comm, Nat.pow_add, Nat.pow_add]
  omega

theorem log2_digit (hv : v ≠ 0) (hd : d < 16) : (v * 16 + d).log2 = v.log2 + 4 := @log2_scaled_add v 4 d hv hd

theorem droppedDigits_of_lt (hn : n < 2 ^ 57) : droppedDigits n = 0 := by
  unfold droppedDigits
  by_cases hzero : n = 0
  · rw [hzero, Nat.log2_zero]
  · have hlog := (Nat.log2_lt hzero).mpr hn
    omega

theorem keptNumber_of_lt (hn : n < 2 ^ 57) : keptNumber n = n := by
  unfold keptNumber
  rw [droppedDigits_of_lt hn, Nat.pow_zero, Nat.div_one, Nat.mul_one]

theorem le_log2 (hv : 2 ^ 53 ≤ v) : 53 ≤ v.log2 := (Nat.le_log2 (by omega)).mpr hv

/-- One more digit is dropped. -/
theorem keptNumber_digit (hv : 2 ^ 53 ≤ v) (hd : d < 16) : keptNumber (v * 16 + d) = keptNumber v * 16 := by
  have hlog := le_log2 hv
  have hdropped : droppedDigits (v * 16 + d) = droppedDigits v + 1 := by
    unfold droppedDigits
    rw [log2_digit (by omega) hd]
    omega
  have hfirst : (v * 16 + d) / 16 = v := by omega
  unfold keptNumber
  rw [hdropped, Nat.pow_succ', ← Nat.div_div_eq_div_mul, hfirst, Nat.mul_comm 16, Nat.mul_assoc]

theorem sixteen_pow (k : Nat) : 16 ^ k = 2 ^ (4 * k) := by
  rw [Nat.pow_mul]

/-- Enough is kept. -/
theorem le_kept (hv : 2 ^ 53 ≤ v) : 2 ^ 53 ≤ v / 16 ^ droppedDigits v := by
  have hlog := le_log2 hv
  rw [Nat.le_div_iff_mul_le (Nat.pow_pos (by decide)), sixteen_pow, ← Nat.pow_add]
  refine Nat.le_trans (Nat.pow_le_pow_right (by decide) ?_) (Nat.log2_self_le (by omega))
  unfold droppedDigits
  omega

theorem le_keptNumber (hv : 2 ^ 53 ≤ v) : 2 ^ 53 ≤ keptNumber v :=
  Nat.le_trans (le_kept hv) (Nat.le_mul_of_pos_right _ (Nat.pow_pos (by decide)))

/-! ## 2. Rounding beyond the precision -/

/-- **A number beyond the precision is rounded to units of its last place**, or to infinity if these are too large. -/
theorem round?_large (hn : 2 ^ 52 ≤ n) :
    2 ^ 52 ≤ divRound n (2 ^ (n.log2 - 52)) ∧
      (n.log2 ≤ 1023 → choiceRat (round? n 1 0) = (divRound n (2 ^ (n.log2 - 52)) : ℚ) * 2 ^ ((n.log2 : Int) - 52)) ∧
      (1023 < n.log2 → round? n 1 0 = none) := by
  have hzero : n ≠ 0 := by
    rintro rfl
    exact absurd hn (by decide)
  have hlog : 52 ≤ n.log2 := (Nat.le_log2 hzero).mpr hn
  have hlow := Nat.log2_self_le hzero
  have hhigh := @Nat.lt_log2_self n
  obtain ⟨k, hk⟩ : ∃ k, n.log2 = 52 + k := Nat.exists_eq_add_of_le hlog
  rw [hk] at hlow hhigh
  rw [show 52 + k + 1 = 1 + (k + 52) by omega, Nat.pow_add, Nat.pow_add] at hhigh
  rw [Nat.pow_add, Nat.mul_comm] at hlow
  obtain ⟨hleast, hmost⟩ := divRound_bounds (Nat.two_pow_pos k) hlow hhigh
  obtain ⟨hpoint, hbeyond⟩ := choice_of_point (k := k) (by omega) hmost fun _ => hleast
  have hround : round? n 1 0 =
      if divRound n (2 ^ k) = 2 ^ 53 then ofParts? (2 ^ 52) ((k : Int) + 1) else ofParts? (divRound n (2 ^ k)) k := by
    unfold round?
    rw [if_neg hzero, binaryOrder_one hzero, hk]
    dsimp only
    rw [show max (((52 + k : Nat) : Int) + 0 - 52) (-1074) = k by omega, show ((0 : Int) - k).toNat = 0 by omega,
      show (-((0 : Int) - k)).toNat = k by omega, Nat.shiftLeft_zero, Nat.shiftLeft_eq, Nat.one_mul]
  rw [hk, hround, show 52 + k - 52 = k by omega, show ((52 + k : Nat) : Int) - 52 = k by omega]
  exact ⟨hleast, fun hsmall => (hpoint (by omega)).1, fun hlarge => hbeyond (by omega)⟩

theorem ofNat_eq_elim (n : Nat) : ofNat n = (round? n 1 0).elim (infinite false) (finite false) := by
  unfold ofNat ofQuotient
  cases round? n 1 0 <;> rfl

theorem ofNat_eq_elim_iff (n : Nat) (c : Option Magnitude) :
    ofNat n = c.elim (infinite false) (finite false) ↔ round? n 1 0 = c := by
  rw [ofNat_eq_elim]
  cases round? n 1 0 <;> cases c <;>
    simp only [Option.elim_none, Option.elim_some, reduceCtorEq, finite.injEq, Option.some.injEq, true_and]

/-- Numbers with the same last place are rounded to the same if they are as many units of it, or too large. -/
theorem ofNat_eq_ofNat_iff {n' : Nat} (hn : 2 ^ 52 ≤ n) (hn' : 2 ^ 52 ≤ n') (hlog : n'.log2 = n.log2) :
    ofNat n' = ofNat n ↔
      (n.log2 < 1024 → divRound n' (2 ^ (n.log2 - 52)) = divRound n (2 ^ (n.log2 - 52))) := by
  obtain ⟨-, hpoint, hbeyond⟩ := round?_large hn
  obtain ⟨-, hpoint', hbeyond'⟩ := round?_large hn'
  rw [hlog] at hpoint' hbeyond'
  rw [ofNat_eq_elim n, ofNat_eq_elim_iff]
  constructor
  · intro heq hfits
    have hvalues := hpoint' (by omega)
    rw [heq, hpoint (by omega)] at hvalues
    exact (Nat.cast_injective (mul_right_cancel₀ (zpow_two_pos _).ne' hvalues)).symm
  · intro heq
    by_cases hfits : n.log2 < 1024
    · refine eq_of_choiceRat_eq ?_
      rw [hpoint (by omega), hpoint' (by omega), heq hfits]
    · rw [hbeyond (by omega), hbeyond' (by omega)]

/-! ## 3. One more digit -/

/-- **Sixteen times a number is rounded to sixteen times as much**, or to infinity if that is too large. -/
theorem round?_sixteenfold (hw : 2 ^ 52 ≤ w) :
    (w.log2 + 4 ≤ 1023 →
      choiceRat (round? (w * 16) 1 0) = (divRound w (2 ^ (w.log2 - 52)) : ℚ) * 2 ^ ((w.log2 : Int) - 52) * 16) ∧
      (1023 < w.log2 + 4 → round? (w * 16) 1 0 = none) := by
  have hlog : 52 ≤ w.log2 := (Nat.le_log2 (by omega)).mpr hw
  have hmore : (w * 16).log2 = w.log2 + 4 := @log2_digit w 0 (by omega) (by decide)
  have hsame : divRound (w * 16) (2 ^ (w.log2 + 4 - 52)) = divRound w (2 ^ (w.log2 - 52)) := by
    refine divRound_eq (Nat.two_pow_pos _) (Nat.two_pow_pos _) ?_
    rw [show w.log2 + 4 - 52 = 4 + (w.log2 - 52) by omega, Nat.pow_add, ← Nat.mul_assoc]
  obtain ⟨-, hpoint, hbeyond⟩ := @round?_large (w * 16) (by omega)
  rw [hmore, hsame] at hpoint
  rw [hmore] at hbeyond
  refine ⟨fun hfits => (hpoint hfits).trans ?_, hbeyond⟩
  rw [show ((w.log2 + 4 : Nat) : Int) - 52 = (w.log2 : Int) - 52 + 4 by omega, zpow_add₀ (by norm_num), mul_assoc]
  norm_num

/-- **A digit beyond the precision is lost**: with or without it, sixteen times the number rounds to the same. -/
theorem rounds_sixteenfold (hw : 2 ^ 53 ≤ w) (hd : d < 16) {m : Magnitude} (hm : round? w 1 0 = some m) :
    Rounds false (m.toRat * 16 + d) (ofNat (w * 16)) := by
  obtain ⟨hleast, hpoint, hbeyond⟩ := @round?_large w (by omega)
  obtain ⟨hpoint', hbeyond'⟩ := @round?_sixteenfold w (by omega)
  have hlog := le_log2 hw
  have hsmall : w.log2 ≤ 1023 := by
    by_contra hlarge
    rw [hbeyond (by omega)] at hm
    cases hm
  have hvalue := hpoint hsmall
  rw [hm] at hvalue
  generalize divRound w (2 ^ (w.log2 - 52)) = q at hleast hvalue hpoint'
  have hvalue : m.toRat = q * 2 ^ ((w.log2 : Int) - 52) := hvalue
  rw [← hvalue] at hpoint'
  obtain ⟨k, hk⟩ : ∃ k : Int, k = (w.log2 : Int) - 52 + 4 := ⟨_, rfl⟩
  have hunit := zpow_two_pos k
  have hscaled : m.toRat * 16 = q * 2 ^ k := by
    rw [hvalue, hk, zpow_add₀ (by norm_num), mul_assoc]
    norm_num
  have hbits : ((2 ^ 52 : ℕ) : ℚ) ≤ q := by exact_mod_cast hleast
  rw [Nat.cast_pow, Nat.cast_ofNat, ← zpow_natCast] at hbits
  have hbits : (2 : ℚ) ^ (52 : Int) ≤ q := hbits
  by_cases hfits : w.log2 + 4 ≤ 1023
  · refine ⟨round? (w * 16) 1 0, ?_, ofNat_eq_elim _⟩
    have hnonneg : (0 : ℚ) ≤ d / 2 ^ k := div_nonneg (Nat.cast_nonneg d) hunit.le
    -- a unit is at least thirty-two here
    have hless : (d : ℚ) / 2 ^ k < 1 / 2 := by
      have hthirtytwo : (2 : ℚ) ^ (5 : Int) ≤ 2 ^ k := zpow_le_zpow_right₀ (by norm_num) (by omega)
      have hsixteen : (d : ℚ) < 16 := by exact_mod_cast hd
      rw [div_lt_div_iff₀ hunit (by norm_num)]
      norm_num at hthirtytwo
      linarith
    have hdistance : |(q : ℚ) + d / 2 ^ k - q| = d / 2 ^ k := by rw [add_sub_cancel_left, abs_of_nonneg hnonneg]
    have hsum : m.toRat * 16 + d = (q + d / 2 ^ k) * 2 ^ k := by rw [hscaled, add_mul, div_mul_cancel₀ _ hunit.ne']
    rw [hsum]
    refine isNearest_of_grid (by omega) (hdistance.le.trans hless.le) ((hpoint' hfits).trans hscaled) (fun htie => ?_)
      fun _ => hbits.trans (le_add_of_nonneg_right hnonneg)
    exact absurd (hdistance.symm.trans htie) hless.ne
  · rw [ofNat_eq_elim, hbeyond' (by omega)]
    refine rounds_infinite false ?_
    calc (2 : ℚ) ^ (1024 : Int) ≤ 2 ^ (52 + k) := zpow_le_zpow_right₀ (by norm_num) (by omega)
      _ = 2 ^ (52 : Int) * 2 ^ k := zpow_add₀ (by norm_num) _ _
      _ ≤ q * 2 ^ k := mul_le_mul_of_nonneg_right hbits hunit.le
      _ = m.toRat * 16 := hscaled.symm
      _ ≤ m.toRat * 16 + d := le_add_of_nonneg_right (Nat.cast_nonneg d)

/-- What is too large stays so. -/
theorem infinite_sixteenfold (hw : 2 ^ 52 ≤ w) (h : round? w 1 0 = none) : round? (w * 16) 1 0 = none := by
  obtain ⟨-, hpoint, -⟩ := round?_large hw
  obtain ⟨hpoint', hbeyond'⟩ := round?_sixteenfold hw
  by_cases hfits : w.log2 + 4 ≤ 1023
  · -- otherwise its value would be sixteen times what is beyond all magnitudes
    have hvalue := hpoint' hfits
    rw [← hpoint (by omega), h] at hvalue
    have hmost := choiceRat_le (round? (w * 16) 1 0)
    have hpos : (0 : ℚ) < choiceRat none := zpow_two_pos 1024
    linarith
  · exact hbeyond' (by omega)

/-- **Digits rounded one by one are what is kept of the number**, rounded once. -/
theorem RoundedDigits.eq_keptNumber {ds : List Nat} {x : Double} (h : RoundedDigits ds x) (hds : ∀ d ∈ ds, d < 16) :
    x = ofNat (keptNumber (hexNumber ds)) := by
  induction h with
  | none => rfl
  | @digit ds d m x _ hrounds ih =>
    obtain ⟨hds, hd⟩ := List.forall_mem_append.mp hds
    have hd : d < 16 := hd d List.mem_cons_self
    have hbefore := ih hds
    rw [hexNumber_concat]
    refine hrounds.unique ?_
    -- nothing has been rounded below the precision, and beyond it the digit is lost
    by_cases hsmall : hexNumber ds < 2 ^ 53
    · obtain ⟨m', hexact, hvalue⟩ := exists_toRat_natCast hsmall
      rw [keptNumber_of_lt (by omega), hexact] at hbefore
      cases hbefore
      rw [keptNumber_of_lt (by omega), hvalue]
      have hrounded := ofNat_rounds (hexNumber ds * 16 + d)
      rwa [Nat.cast_add, Nat.cast_mul] at hrounded
    · have hlarge : 2 ^ 53 ≤ hexNumber ds := Nat.le_of_not_lt hsmall
      rw [keptNumber_digit hlarge hd]
      exact rounds_sixteenfold (le_keptNumber hlarge) hd ((ofNat_eq_elim_iff _ (some m)).mp hbefore.symm)
  | @beyond ds d _ ih =>
    obtain ⟨hds, hd⟩ := List.forall_mem_append.mp hds
    have hd : d < 16 := hd d List.mem_cons_self
    have hbefore := ih hds
    rw [hexNumber_concat]
    by_cases hsmall : hexNumber ds < 2 ^ 53
    · obtain ⟨m', hexact, -⟩ := exists_toRat_natCast hsmall
      rw [keptNumber_of_lt (by omega), hexact] at hbefore
      cases hbefore
    · have hlarge : 2 ^ 53 ≤ hexNumber ds := Nat.le_of_not_lt hsmall
      have hkept := le_keptNumber hlarge
      have hchoice := (ofNat_eq_elim_iff _ Option.none).mp hbefore.symm
      rw [keptNumber_digit hlarge hd]
      exact ((ofNat_eq_elim_iff _ Option.none).mpr (infinite_sixteenfold (by omega) hchoice)).symm

/-! ## 4. Where it makes a difference -/

/-- What is kept lies half way between two numbers, and the lower one is even. -/
def HalfWay (n : Nat) : Prop :=
  let kept := n / 16 ^ droppedDigits n
  let unit := 2 ^ (kept.log2 - 52)
  kept % unit = unit / 2 ∧ kept / unit % 2 = 0

/-- What follows decides only about a half. -/
theorem divRound_add_iff {q u s r : Nat} (hr : r < s) (heven : u % 2 = 0) (hu : 0 < u) :
    divRound (q * s) (u * s) = divRound (q * s + r) (u * s) ↔ ¬ (r ≠ 0 ∧ q % u = u / 2 ∧ q / u % 2 = 0) := by
  have hs : 0 < s := Nat.zero_lt_of_lt hr
  have hexact : divRound (q * s) (u * s) = divRound q u :=
    divRound_eq (Nat.mul_pos hu hs) hu (by rw [Nat.mul_assoc, Nat.mul_comm s])
  have hquotient : (q * s + r) / (u * s) = q / u := by
    rw [Nat.mul_comm u, ← Nat.div_div_eq_div_mul, Nat.mul_comm q, Nat.mul_add_div hs, Nat.div_eq_of_lt hr, Nat.add_zero]
  have hrest : (q * s + r) % (u * s) = q % u * s + r := by
    have hparts := Nat.div_add_mod (q * s + r) (u * s)
    have hparts' : u * (q / u) * s + q % u * s = q * s := by rw [← Nat.add_mul, Nat.div_add_mod]
    rw [hquotient, Nat.mul_right_comm] at hparts
    omega
  rw [hexact]
  unfold divRound
  dsimp only
  rw [hquotient, hrest]
  obtain ⟨h, rfl⟩ : ∃ h, u = 2 * h := ⟨u / 2, by omega⟩
  rw [Nat.mul_div_cancel_left h Nat.two_pos, Nat.mul_assoc]
  generalize q % (2 * h) = a
  generalize q / (2 * h) = c
  simp only [Bool.or_eq_true, Bool.and_eq_true, decide_eq_true_eq, beq_iff_eq]
  -- both are rounded down below the half, and up above it
  rcases Nat.lt_trichotomy a h with hless | rfl | hmore
  · have hscaled : (a + 1) * s ≤ h * s := Nat.mul_le_mul_right s hless
    rw [Nat.add_mul, Nat.one_mul] at hscaled
    rw [if_neg (by omega), if_neg (by omega)]
    exact iff_of_true rfl (by omega)
  · generalize a * s = half
    by_cases hodd : c % 2 = 1
    · rw [if_pos (by omega), if_pos (by omega)]
      exact iff_of_true rfl (by omega)
    · rw [if_neg (by omega)]
      split
      · exact iff_of_false (by omega) (by omega)
      · exact iff_of_true rfl (by omega)
  · have hscaled : (h + 1) * s ≤ a * s := Nat.mul_le_mul_right s hmore
    rw [Nat.add_mul, Nat.one_mul] at hscaled
    rw [if_pos (by omega), if_pos (by omega)]
    exact iff_of_true rfl (by omega)

/-- **The number that is kept is rounded to the same as the number**, unless it lies half way and the rest of the number
says to which side. -/
theorem ofNat_keptNumber_iff (n : Nat) :
    ofNat (keptNumber n) = ofNat n ↔ ¬ (n < 2 ^ 1024 ∧ keptNumber n ≠ n ∧ HalfWay n) := by
  by_cases hsmall : n < 2 ^ 57
  · rw [keptNumber_of_lt hsmall]
    exact iff_of_true rfl fun h => h.2.1 rfl
  have hzero : n ≠ 0 := by omega
  have hbits := @le_kept n (by omega)
  unfold HalfWay keptNumber
  dsimp only
  rw [sixteen_pow] at hbits ⊢
  generalize 4 * droppedDigits n = p at hbits ⊢
  have hr := Nat.mod_lt n (Nat.two_pow_pos p)
  have hn := Nat.div_add_mod' n (2 ^ p)
  generalize n / 2 ^ p = q at hbits hn ⊢
  generalize n % 2 ^ p = r at hr hn
  -- both numbers have the same last place, which is a place of what is kept
  have hlog := le_log2 hbits
  have hmore : n.log2 = q.log2 + p := hn ▸ log2_scaled_add (by omega) hr
  have hkept : (q * 2 ^ p).log2 = n.log2 := (log2_mul_pow (by omega) p).trans hmore.symm
  have hunit : 2 ^ (n.log2 - 52) = 2 ^ (q.log2 - 52) * 2 ^ p := by
    rw [← Nat.pow_add]
    congr 1
    omega
  have heven : 2 ^ (q.log2 - 52) % 2 = 0 := by
    rw [show q.log2 - 52 = 1 + (q.log2 - 53) by omega, Nat.pow_add]
    omega
  have hrounded := @divRound_add_iff q _ (2 ^ p) r hr heven (Nat.two_pow_pos _)
  rw [← hunit, hn] at hrounded
  have hlarge : 2 ^ 52 ≤ q * 2 ^ p := Nat.le_trans (by omega) (Nat.le_mul_of_pos_right q (Nat.two_pow_pos p))
  have hrest : q * 2 ^ p ≠ n ↔ r ≠ 0 := by omega
  rw [ofNat_eq_ofNat_iff (by omega) hlarge hkept, ← Nat.log2_lt hzero, hrounded, hrest]
  exact not_and.symm

/-! ## 5. The readers -/

theorem HexDigits.digitUnits {ds : List Nat} {us : List CodeUnit} (h : HexDigits ds us []) : DigitUnits 16 us ds := by
  generalize hrest : ([] : List CodeUnit) = rest at h
  induction h with
  | last hu =>
    rw [← hrest]
    exact .cons (digitValue?_of_hexValue? hu) .nil
  | more hu _ ih => exact .cons (digitValue?_of_hexValue? hu) (ih hrest)

/-- **The two readers of hexadecimal digits.** As a whole number in base sixteen, digits are what is kept of their
number, rounded once. As a literal, with the mark before them, they are their number, rounded once, up to thirty-two
digits, and what is kept of it beyond. Rounding once gives the nearest number, or infinity; what is kept gives the same,
unless the number is not too large, the digits that are dropped are not all zeros, and what is kept lies half way
between two numbers of which the lower one is even. -/
theorem hexTexts_exact {ds : List Nat} {us : List CodeUnit} (h : HexDigits ds us []) :
    let n := hexNumber ds
    parseInt (.ofList us) 16 = ofNat (keptNumber n) ∧
      (∀ x : CodeUnit, x = 0x78 ∨ x = 0x58 →
        ofText (.ofList (0x30 :: x :: us)) = if ds.length ≤ 32 then ofNat n else ofNat (keptNumber n)) ∧
      Rounds false n (ofNat n) ∧
      (ofNat (keptNumber n) = ofNat n ↔ ¬ (n < 2 ^ 1024 ∧ keptNumber n ≠ n ∧ HalfWay n)) := by
  intro n
  have hvalue : valueOfDigits 16 ds = ofNat (keptNumber n) :=
    (roundedDigits_valueOfDigits h.lt).1.eq_keptNumber h.lt
  refine ⟨?_, fun x hx => ?_, ofNat_rounds n, ofNat_keptNumber_iff n⟩
  · have hread := @parseInt_eq 16 us ds (.ofList us) false (by decide) (by decide) (Text.toList_ofList us) h.digitUnits
      h.ne_nil
    exact hread.trans hvalue
  · have hspells : SpellsHex ds (0x30 :: x :: us) [] := ⟨x, us, rfl, hx, h⟩
    have hsurrounded : Surrounded (.ofList (0x30 :: x :: us)) (0x30 :: x :: us) :=
      ⟨[], [], by rw [Text.toList_ofList, List.append_nil]; rfl, nofun, nofun⟩
    rw [hsurrounded.ofText_eq hspells.noBlanks, hspells.ofUnits_eq, ← hvalue]
    rfl

/-- Fifteen digits that are worth seventeen more than a power of two, where numbers are thirty-two apart. As a whole
number they are read as this power, because the last digit is dropped and what is kept lies half way; the literal is
read as the next number, which is nearer. -/
theorem hexTexts_exact_long :
    let us := (Text.ofString "200000000000011").toList
    ∃ ds, HexDigits ds us [] ∧ hexNumber ds = 2 ^ 57 + 17 ∧ parseInt (.ofList us) 16 = ofNat (2 ^ 57) ∧
      ofText (.ofList (0x30 :: 0x78 :: us)) = ofNat (2 ^ 57 + 32) ∧
      ¬ Rounds false (hexNumber ds) (parseInt (.ofList us) 16) := by
  intro us
  have hdigits : leadingDigits 16 us = 2 :: List.replicate 12 0 ++ [1, 1] := by decide
  have hspells : HexDigits (2 :: List.replicate 12 0 ++ [1, 1]) us [] := by
    rw [← hdigits]
    exact hexDigits_of_leadingDigits (by rw [hdigits]; decide) (by rw [hdigits]; decide)
  have hnumber : hexNumber (2 :: List.replicate 12 0 ++ [1, 1]) = 2 ^ 57 + 17 := by decide
  obtain ⟨hwhole, hliteral, hrounds, -⟩ := hexTexts_exact hspells
  have hliteral := hliteral 0x78 (.inl rfl)
  rw [hnumber] at hwhole hliteral hrounds
  have hkept : ofNat (keptNumber (2 ^ 57 + 17)) = ofNat (2 ^ 57) := by decide +kernel
  have hnext : ofNat (2 ^ 57 + 17) = ofNat (2 ^ 57 + 32) := by decide +kernel
  refine ⟨_, hspells, hnumber, hwhole.trans hkept, hliteral.trans hnext, fun hnearest => ?_⟩
  rw [hnumber, hwhole, hkept] at hnearest
  exact absurd (hnearest.unique hrounds) (by decide +kernel)

end Ecma51
