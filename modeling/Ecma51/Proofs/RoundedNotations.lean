import Ecma51.Proofs.DateReaders
import Ecma51.Proofs.DecimalRounding

/-!
# Notations with a given number of digits

A number with a fixed number of places after the point, and a number with a fixed number of significant digits,
plain or scientific. They show the exact value of the number, rounded once on the grid of the last digit, halves
going up in magnitude.

Numbers are rounded and laid out on lists of digits: a carry runs through them from the last place to the first,
and they are cut where the point stands. When every digit that is asked for, every cut and every count that may
not be negative is checked, none of the checks ever fails.

* `Double.plain`, `Double.scientific`: the notations of a natural number scaled by a power of ten.
* **`Double.toFixed_eq`**, **`Double.toExponential_eq`**, **`Double.toPrecision_eq`**: what is shown.
* `Decimal.round?`, `Double.toFixed?`, `Double.toExponential?`, `Double.toPrecision?`: the same with checks.
* `Decimal.round?_eq`, `Double.toFixed?_eq`, …: none of them fails.
* **`notations_exact`**: they are computed for every finite number, and what they show.
-/

namespace Ecma51

-- powers mean the same whether or not there are other instances in scope
attribute [local instance (high)] instPowNat

namespace Double

open Decimal

/-! ## 1. The notations -/

/-- The natural number `n` divided by `10 ^ f`, with exactly `f` digits after the point. -/
def plain (n f : Nat) : List Char :=
  natChars (n / 10 ^ f) ++ if f = 0 then [] else '.' :: Calendar.padded f (n % 10 ^ f)

/-- The digits of `n`, a point after the first if there are more, and the exponent of the first one. -/
def scientific (n : Nat) (e : Int) : List Char :=
  let first := (natChars n).take 1
  let more := (natChars n).drop 1
  let sign := if 0 ≤ e then '+' else '-'
  first ++ (if more = [] then [] else '.' :: more) ++ 'e' :: sign :: natChars e.natAbs

variable {ds : List Nat}

theorem pointed_exponent (n : Nat) (e : Int) : pointed (natChars n) ++ exponentChars e = scientific n e := by
  unfold scientific exponentChars
  dsimp only
  cases hn : natChars n with
  | nil => exact absurd hn Nat.toDigits_ne_nil
  | cons c cs =>
    cases cs with
    | nil => rfl
    | cons c' cs => rfl

theorem digitChars_of_significant (h : Significant ds) : digitChars ds = natChars (valueOf ds) := by
  conv_lhs => rw [← digitsOf_valueOf h]
  exact digitChars_digitsOf _

/-- A fixed number of digits is written with the zeros before it. -/
theorem digitChars_eq_padded (h : AllDigits ds) (hne : ds ≠ []) :
    digitChars ds = Calendar.padded ds.length (valueOf ds) := by
  have hpos : 0 < ds.length := List.length_pos_iff.mpr hne
  have hpadded : Calendar.padded ds.length (valueOf ds) =
      digitChars (List.replicate (ds.length - (Nat.toDigits 10 (valueOf ds)).length) 0 ++ digitsOf (valueOf ds)) := by
    rw [digitChars_append, digitChars_zeros, digitChars_digitsOf]
    rfl
  have hlength := congrArg List.length hpadded
  rw [Calendar.DateText.length_padded_of_lt hpos (valueOf_lt h)] at hlength
  rw [hpadded]
  refine congrArg digitChars (eq_of_valueOf_eq h ?_ ?_ ?_)
  · exact List.forall_mem_append.mpr ⟨allDigits_zeros _, allDigits_digitsOf _⟩
  · exact hlength.trans (List.length_map _)
  · rw [valueOf_zeros_append, valueOf_digitsOf]

/-- Digits with a point before the last `f` of them are a plain notation, if what is before the point is. -/
theorem split_eq_plain (h : AllDigits ds) {f : Nat} (hf : f < ds.length)
    (hwhole : digitsOf (valueOf (ds.take (ds.length - f))) = ds.take (ds.length - f)) :
    digitChars (ds.take (ds.length - f)) ++ (if f = 0 then [] else '.' :: digitChars (ds.drop (ds.length - f))) =
      plain (valueOf ds) f := by
  have hleft : ds.length - (ds.length - f) = f := by omega
  have hlength : (ds.drop (ds.length - f)).length = f := (List.length_drop).trans hleft
  unfold plain
  congr 1
  · rw [← hwhole, digitChars_digitsOf, valueOf_take h, hleft]
    rfl
  · split
    · rfl
    · rename_i hzero
      have hne : ds.drop (ds.length - f) ≠ [] := by
        refine List.length_pos_iff.mp ?_
        omega
      rw [digitChars_eq_padded (h.drop _) hne, hlength, valueOf_drop h, hleft]

/-! ## 2. Places after the point -/

theorem pow_mul_zpow (d : Decimal) (f : Nat) :
    d.toRat * 10 ^ f = valueOf d.digits * 10 ^ (d.exponent + f - (d.digits.length - 1 : Nat)) := by
  unfold Decimal.toRat
  rw [mul_assoc, ← zpow_natCast, ← zpow_add₀ (by norm_num)]
  congr 2
  omega

/-- Rounding a decimal at a place after the point gives the digits of the number of units of this place. -/
theorem digits_in_units {d : Decimal} (h : Significant d.digits) (f : Nat) :
    (if d.exponent + 1 + f < 0 then [0]
      else if d.exponent + 1 + f = 0 then [if 5 ≤ d.digits.headD 0 then 1 else 0]
      else
        let r := d.round (d.exponent + 1 + f).toNat
        fit (max (r.exponent + 1 + f).toNat r.digits.length) r.digits) =
      digitsOf (halfUp (d.toRat * 10 ^ f)) := by
  have hlength : 0 < d.digits.length := List.length_pos_iff.mpr h.ne_nil
  by_cases hneg : d.exponent + 1 + f < 0
  · -- less than a tenth of a unit
    have hsmall : d.toRat * 10 ^ f < 1 / 2 := by
      calc d.toRat * 10 ^ f < 10 ^ (d.exponent + 1) * 10 ^ f :=
            mul_lt_mul_of_pos_right (toRat_bounds h).2 (by positivity)
        _ = (10 : ℚ) ^ (d.exponent + 1 + f) := by rw [← zpow_natCast, ← zpow_add₀ (by norm_num)]
        _ ≤ 10 ^ (-1 : Int) := zpow_le_zpow_right₀ (by norm_num) (by omega)
        _ < 1 / 2 := by norm_num
    have hzero : halfUp (d.toRat * 10 ^ f) = 0 := Nat.floor_eq_zero.mpr (by linarith)
    rw [if_pos hneg, hzero]
    rfl
  rw [if_neg hneg]
  obtain ⟨keep, hkeep⟩ := Int.eq_ofNat_of_zero_le (Int.not_lt.mp hneg)
  have hgrid : d.toRat * 10 ^ f = valueOf d.digits * 10 ^ ((keep : Int) - d.digits.length) := by
    rw [pow_mul_zpow]
    congr 2
    omega
  rw [hkeep, hgrid]
  cases keep with
  | zero =>
    -- the first digit decides
    rw [if_pos (by rfl), halfUp_eq h.lt 0, List.length_eq_zero_iff.mp (length_fit 0 d.digits)]
    cases hds : d.digits with
    | nil => exact absurd hds h.ne_nil
    | cons a as =>
      by_cases hfive : 5 ≤ a
      · rw [List.headD_cons, List.getD_cons_zero, if_pos hfive]
        rfl
      · rw [List.headD_cons, List.getD_cons_zero, if_neg hfive]
        rfl
  | succ k =>
    rw [if_neg (by omega), Int.toNat_natCast]
    obtain ⟨hsignificant, hdigits, -, -⟩ := round_eq_shown h (Nat.succ_pos k)
    obtain ⟨-, -, -, hvalue, hexponent⟩ := round_spec h.lt (Nat.succ_pos k) rfl
    generalize halfUp (valueOf d.digits * 10 ^ (((k + 1 : Nat) : Int) - d.digits.length)) = n at hvalue hexponent ⊢
    generalize d.round (k + 1) = r at hsignificant hdigits hvalue hexponent ⊢
    dsimp only
    unfold fit
    have hlong : r.digits.length ≤ max (r.exponent + 1 + f).toNat r.digits.length := Nat.le_max_right _ _
    rw [List.take_of_length_le hlong, ← digitsOf_valueOf (hsignificant.append_zeros _), valueOf_append,
      valueOf_zeros, List.length_replicate, hvalue, hexponent, hdigits, Nat.add_zero]
    congr 1
    split
    · rename_i hten
      rw [show max (d.exponent + 1 + 1 + f).toNat (k + 1) - (k + 1) = 1 by omega, hten]
      rfl
    · rw [show max (d.exponent + 1 + f).toNat (k + 1) - (k + 1) = 0 by omega, Nat.pow_zero, Nat.mul_one]

@[simp]
theorem isZero_finite (s : Bool) (m : Magnitude) : (finite s m).isZero = m.isZero := rfl

/-- The digits are those of the number of units of the last place. -/
theorem fixedDigits_eq (m : Magnitude) (f : Nat) :
    fixedDigits (finite false m) f = digitsOf (halfUp (m.toRat * 10 ^ f)) := by
  unfold fixedDigits
  cases hm : m.isZero with
  | true =>
    have hzero : halfUp (m.toRat * 10 ^ f) = 0 := by
      unfold Magnitude.toRat
      rw [show m.mantissa = 0 from beq_iff_eq.mp hm, Nat.cast_zero, zero_mul, zero_mul]
      exact halfUp_natCast 0
    rw [isZero_finite, hm, if_pos rfl, hzero]
    rfl
  | false =>
    obtain ⟨hsignificant, hvalue⟩ := exact_spec hm
    rw [isZero_finite, hm, if_neg Bool.false_ne_true, ← hvalue]
    exact digits_in_units hsignificant f

/-- Only a number with a sign that is not zero is below zero. -/
theorem isBelowZero_finite (s : Bool) (m : Magnitude) : (finite s m).isBelowZero = (s && !m.isZero) := by
  have horder : order? (finite s m) (finite false .zero) =
      some (if m.isZero && true then .eq else if s != false then if s then .lt else .gt
        else if s then Magnitude.zero.compare m else m.compare .zero) := rfl
  unfold isBelowZero lt zero
  rw [horder]
  cases hm : m.isZero with
  | true =>
    rw [Bool.not_true, Bool.and_false]
    rfl
  | false =>
    cases s with
    | true => rfl
    | false =>
      -- nothing is less than zero
      have hleast := m.canonical.2.1
      have hge : m.compare .zero ≠ .lt := by
        unfold Magnitude.compare Magnitude.zero
        rw [Ne, Ordering.then_eq_lt, compare_lt_iff_lt, compare_lt_iff_lt]
        dsimp only
        omega
      show (some (m.compare .zero) == some .lt) = false
      exact beq_eq_false_iff_ne.mpr fun h => hge (Option.some.inj h)

/-- Before the point there are the digits of a number, although zeros were put before those of the whole. -/
theorem digitsOf_beforePoint {n f : Nat} {ds : List Nat}
    (hds : List.replicate (f + 1 - (digitsOf n).length) 0 ++ digitsOf n = ds) :
    digitsOf (valueOf (ds.take (ds.length - f))) = ds.take (ds.length - f) := by
  have hpos : 0 < (digitsOf n).length := by
    rw [digitsOf, List.length_map]
    exact Nat.length_toDigits_pos
  have hsize : ds.length = f + 1 - (digitsOf n).length + (digitsOf n).length := by
    rw [← hds, List.length_append, List.length_replicate]
  by_cases hfew : (digitsOf n).length ≤ f
  · -- a zero before the point
    have hone : ds.length - f = 1 := by omega
    obtain ⟨z, hz⟩ : ∃ z, f + 1 - (digitsOf n).length = z + 1 := ⟨f - (digitsOf n).length, by omega⟩
    rw [hone, ← hds, hz, List.replicate_succ, List.cons_append, List.take_succ_cons, List.take_zero]
    rfl
  · -- the first digits of the number
    have hnone : f + 1 - (digitsOf n).length = 0 := by omega
    rw [hnone, List.replicate_zero, List.nil_append] at hds
    by_cases hn : n = 0
    · have hf : f = 0 := by
        rw [hn] at hfew
        exact Nat.lt_one_iff.mp (Nat.lt_of_not_le hfew)
      rw [hf, Nat.sub_zero, List.take_length, ← hds, valueOf_digitsOf]
    · rw [← hds]
      have hsignificant := significant_digitsOf (Nat.pos_of_ne_zero hn)
      refine digitsOf_valueOf (hsignificant.of_prefix (List.take_prefix _ _) ?_)
      intro hnil
      rw [List.take_eq_nil_iff] at hnil
      rcases hnil with hnil | hnil
      · rw [hds] at hnil
        omega
      · exact hpos.ne' (List.length_eq_zero_iff.mpr hnil)

/-- **A fixed number of places shows the nearest number of units of the last place.** -/
theorem toFixed_eq (s : Bool) (m : Magnitude) (f : Nat) :
    (finite s m).toFixed f =
      Text.ofChars (signChars (finite s m).isBelowZero ++ plain (halfUp (m.toRat * 10 ^ f)) f) := by
  have hdigits : fixedDigits (finite s m).abs f = digitsOf (halfUp (m.toRat * 10 ^ f)) := fixedDigits_eq m f
  unfold toFixed
  dsimp only
  rw [hdigits, digitChars_digitsOf]
  generalize halfUp (m.toRat * 10 ^ f) = n
  congr 2
  have hlength : (digitsOf n).length = (Nat.toDigits 10 n).length := List.length_map _
  have hpos : 0 < (Nat.toDigits 10 n).length := Nat.length_toDigits_pos
  -- the digits with the zeros before them
  generalize hds : List.replicate (f + 1 - (Nat.toDigits 10 n).length) 0 ++ digitsOf n = ds
  have hall : AllDigits ds := hds ▸ List.forall_mem_append.mpr ⟨allDigits_zeros _, allDigits_digitsOf n⟩
  have hvalue : valueOf ds = n := by rw [← hds, valueOf_zeros_append, valueOf_digitsOf]
  have hchars : zeros (f + 1 - (Nat.toDigits 10 n).length) ++ Nat.toDigits 10 n = digitChars ds := by
    rw [← hds, digitChars_append, digitChars_zeros, digitChars_digitsOf]
  have hsize : ds.length = max (f + 1) (Nat.toDigits 10 n).length := by
    rw [← hds, List.length_append, List.length_replicate, hlength]
    omega
  have hwhole := digitsOf_beforePoint (n := n) (f := f) (hlength.symm ▸ hds)
  have hplain := split_eq_plain hall (by omega) hwhole
  rw [hvalue] at hplain
  rw [← hplain]
  have hpadded : (digitChars ds).length = ds.length := List.length_map _
  split
  · rename_i hf
    subst hf
    rw [Nat.sub_zero, List.take_length, List.append_nil, ← hchars, show 0 + 1 - (Nat.toDigits 10 n).length = 0 by omega]
    rfl
  · rw [hchars, hpadded]
    unfold splitPoint digitChars
    rw [List.map_take, List.map_drop]

/-! ## 3. Significant digits -/

/-- **Scientific notation shows the nearest number of that many digits.** -/
theorem toExponential_eq {s : Bool} {m : Magnitude} (hm : m.isZero = false) (f : Nat) :
    (finite s m).toExponential (some f) = Text.ofChars (signChars (finite s m).isBelowZero ++
      scientific (shown m.toRat (f + 1)).1 (shown m.toRat (f + 1)).2) := by
  obtain ⟨hsignificant, hvalue⟩ := exact_spec hm
  obtain ⟨hdigits, -, hspelled, hexponent⟩ := round_eq_shown hsignificant (Nat.succ_pos f)
  rw [hvalue] at hspelled hexponent
  unfold toExponential
  rw [isZero_finite, hm, if_neg Bool.false_ne_true]
  show Text.ofChars (_ ++ pointed (digitChars ((exact m).round (f + 1)).digits) ++
    exponentChars ((exact m).round (f + 1)).exponent) = _
  rw [digitChars_of_significant hdigits, List.append_assoc, pointed_exponent, hspelled, hexponent]

/-- The significant digits in plain notation, as long as they reach the point. -/
theorem plain_of_exponent {p : Nat} (h : Significant ds) (hlength : ds.length = p) {e : Int} (he : e < p) :
    (if e = (p : Int) - 1 then digitChars ds
      else if 0 ≤ e then splitPoint (e.toNat + 1) (digitChars ds)
      else '0' :: '.' :: zeros (-(e + 1)).toNat ++ digitChars ds) =
      plain (valueOf ds) ((p : Int) - 1 - e).toNat := by
  have hpos : 0 < ds.length := List.length_pos_iff.mpr h.ne_nil
  split
  · -- no digit after the point
    have hnone : ((p : Int) - 1 - e).toNat = 0 := by omega
    have hplain := split_eq_plain h.lt hpos (by rw [Nat.sub_zero, List.take_length]; exact digitsOf_valueOf h)
    rw [if_pos rfl, Nat.sub_zero, List.take_length, List.append_nil] at hplain
    rw [hnone, hplain]
  split
  · -- the point among the digits
    have hplaces : ds.length - ((p : Int) - 1 - e).toNat = e.toNat + 1 := by omega
    have hfirst : Significant (ds.take (e.toNat + 1)) := by
      refine h.of_prefix (List.take_prefix _ _) fun hnil => ?_
      rw [List.take_eq_nil_iff] at hnil
      exact hnil.elim (Nat.succ_ne_zero _) h.ne_nil
    have hplain := split_eq_plain h.lt (f := ((p : Int) - 1 - e).toNat) (by omega)
      (by rw [hplaces]; exact digitsOf_valueOf hfirst)
    rw [if_neg (by omega), hplaces] at hplain
    rw [← hplain]
    unfold splitPoint digitChars
    rw [List.map_take, List.map_drop]
  · -- the point before the digits
    generalize hz : (-(e + 1)).toNat = z
    have hall : AllDigits (0 :: (List.replicate z 0 ++ ds)) :=
      List.forall_mem_cons.mpr ⟨by decide, List.forall_mem_append.mpr ⟨allDigits_zeros z, h.lt⟩⟩
    have hmore : (0 :: (List.replicate z 0 ++ ds)).length = ((p : Int) - 1 - e).toNat + 1 := by
      rw [List.length_cons, List.length_append, List.length_replicate]
      omega
    have hvalue : valueOf (0 :: (List.replicate z 0 ++ ds)) = valueOf ds := by
      rw [valueOf_cons, Nat.zero_mul, Nat.zero_add, valueOf_zeros_append]
    have hone : (0 :: (List.replicate z 0 ++ ds)).length - ((p : Int) - 1 - e).toNat = 1 := by omega
    have hplain := split_eq_plain hall (f := ((p : Int) - 1 - e).toNat) (by omega)
      (by rw [hone, List.take_succ_cons, List.take_zero]; rfl)
    rw [hone, if_neg (by omega), hvalue, List.take_succ_cons, List.take_zero, List.drop_succ_cons, List.drop_zero,
      digitChars_append, digitChars_zeros] at hplain
    exact hplain

/-- **A given number of significant digits shows the nearest number of that many digits**, plain if the exponent
is at least -6 and the digits reach the point. -/
theorem toPrecision_eq {s : Bool} {m : Magnitude} (hm : m.isZero = false) {p : Nat} (hp : 0 < p) :
    (finite s m).toPrecision p = Text.ofChars (signChars (finite s m).isBelowZero ++
      if -6 ≤ (shown m.toRat p).2 ∧ (shown m.toRat p).2 < p then
        plain (shown m.toRat p).1 ((p : Int) - 1 - (shown m.toRat p).2).toNat
      else scientific (shown m.toRat p).1 (shown m.toRat p).2) := by
  obtain ⟨hsignificant, hvalue⟩ := exact_spec hm
  obtain ⟨hdigits, hlength, hspelled, hexponent⟩ := round_eq_shown hsignificant hp
  rw [hvalue] at hspelled hexponent
  have hrounded : (finite s m).exactDecimal.round p = (exact m).round p := rfl
  unfold toPrecision
  rw [isZero_finite, hm, if_neg Bool.false_ne_true, hrounded, ← hspelled, ← hexponent]
  generalize (exact m).round p = d at hdigits hlength
  dsimp only
  congr 2
  by_cases hplain : -6 ≤ d.exponent ∧ d.exponent < p
  · rw [if_pos hplain, if_neg (by omega)]
    exact plain_of_exponent hdigits hlength hplain.2
  · rw [if_neg hplain, if_pos (by omega), digitChars_of_significant hdigits, pointed_exponent]

/-! ## 4. Zero -/

theorem toExponential_zero {s : Bool} {m : Magnitude} (hm : m.isZero = true) (f : Nat) :
    (finite s m).toExponential (some f) =
      Text.ofChars ('0' :: (if f = 0 then [] else '.' :: zeros f) ++ exponentChars 0) := by
  have hsign : (finite s m).isBelowZero = false := by rw [isBelowZero_finite, hm, Bool.not_true, Bool.and_false]
  unfold toExponential
  rw [isZero_finite, hm, if_pos rfl, hsign]
  dsimp only
  rw [Option.getD_some, digitChars_zeros]
  cases f with
  | zero => rfl
  | succ f => rfl

theorem toPrecision_zero {s : Bool} {m : Magnitude} (hm : m.isZero = true) (f : Nat) :
    (finite s m).toPrecision (f + 1) = Text.ofChars ('0' :: (if f = 0 then [] else '.' :: zeros f)) := by
  have hsign : (finite s m).isBelowZero = false := by rw [isBelowZero_finite, hm, Bool.not_true, Bool.and_false]
  unfold toPrecision
  rw [isZero_finite, hm, if_pos rfl, hsign]
  dsimp only
  rw [digitChars_zeros, if_neg (by omega)]
  cases f with
  | zero => rfl
  | succ f =>
    rw [if_neg (by omega), if_pos (by omega)]
    rfl

end Double

/-! ## 5. Checks -/

/-- A difference of counts, if it is one. -/
def minus? (a b : Nat) : Option Nat := if b ≤ a then some (a - b) else none

/-- An integer as a count, if it is one. -/
def count? (i : Int) : Option Nat := if 0 ≤ i then some i.toNat else none

/-- The characters before a position and those from it on, if there are so many. -/
def splitAt? (n : Nat) (cs : List Char) : Option (List Char × List Char) :=
  if n ≤ cs.length then some (cs.take n, cs.drop n) else none

theorem minus?_eq {a b : Nat} (h : b ≤ a) : minus? a b = some (a - b) := if_pos h

theorem count?_eq {i : Int} (h : 0 ≤ i) : count? i = some i.toNat := if_pos h

theorem splitAt?_eq {n : Nat} {cs : List Char} (h : n ≤ cs.length) : splitAt? n cs = some (cs.take n, cs.drop n) :=
  if_pos h

/-! ## 6. Rounding in place -/

namespace Decimal

/-- One more in the place before position `i`, from place to place towards the first; the flag tells a carry out of
the first one. -/
def carry? (ds : List Nat) : Nat → Option (List Nat × Bool)
  | 0 => some (ds, true)
  | i + 1 => do
    let d ← ds[i]?
    if d = 9 then carry? (ds.set i 0) i else return (ds.set i (d + 1), false)

/-- The decimal with `keep` significant digits, changed in place. -/
def round? (d : Decimal) (keep : Nat) : Option Decimal :=
  if 5 ≤ d.digits.getD keep 0 then do
    let (ds, carried) ← carry? (fit keep d.digits) keep
    return if carried then ⟨(1 :: ds).take (max keep 1), d.exponent + 1⟩ else ⟨ds, d.exponent⟩
  else some ⟨fit keep d.digits, d.exponent⟩

variable {ds : List Nat}

theorem increment_concat (ds : List Nat) (d : Nat) :
    increment (ds ++ [d]) =
      if d = 9 then ((increment ds).1 ++ [0], (increment ds).2) else (ds ++ [d + 1], false) := by
  induction ds with
  | nil =>
    by_cases hd : d = 9
    · rw [if_pos hd]
      simp [increment, hd]
    · rw [if_neg hd]
      simp [increment, hd]
  | cons a ds ih =>
    rw [List.cons_append]
    unfold increment
    rw [ih]
    by_cases hd : d = 9
    · rw [if_pos hd, if_pos hd]
      dsimp only
      split
      · split <;> rfl
      · rfl
    · rw [if_neg hd, if_neg hd]
      rfl

/-- Adding from place to place never leaves the digits, and is adding from the first digit on. -/
theorem carry?_eq {i : Nat} (hi : i ≤ ds.length) :
    carry? ds i = some ((increment (ds.take i)).1 ++ ds.drop i, (increment (ds.take i)).2) := by
  induction i generalizing ds with
  | zero => rfl
  | succ i ih =>
    have hlt : i < ds.length := hi
    have htake : ds.take (i + 1) = ds.take i ++ [ds[i]] := List.take_succ_eq_append_getElem hlt
    unfold carry?
    rw [List.getElem?_eq_getElem hlt, htake, increment_concat]
    show (if ds[i] = 9 then _ else _) = _
    by_cases hnine : ds[i] = 9
    · have hbefore : (ds.set i 0).take i = ds.take i := List.take_set_of_le (Nat.le_refl i)
      have hafter : (ds.set i 0).drop i = 0 :: ds.drop (i + 1) := by
        rw [List.drop_eq_getElem_cons (by rw [List.length_set]; exact hlt), List.getElem_set_self,
          List.drop_set_of_lt (Nat.lt_succ_self i)]
      rw [if_pos hnine, if_pos hnine, ih (by rw [List.length_set]; omega), hbefore, hafter, List.append_assoc]
      rfl
    · rw [if_neg hnine, if_neg hnine, List.set_eq_take_append_cons_drop, if_pos hlt, List.append_assoc]
      rfl

/-- **Rounding in place is rounding.** -/
theorem round?_eq (d : Decimal) (keep : Nat) : d.round? keep = some (d.round keep) := by
  have hlength := length_fit keep d.digits
  unfold round? round
  dsimp only
  split
  · rw [carry?_eq hlength.ge, List.take_of_length_le hlength.le, List.drop_of_length_le hlength.le, List.append_nil]
    generalize increment (fit keep d.digits) = r
    obtain ⟨ds, carried⟩ := r
    cases carried with
    | true => rfl
    | false => rfl
  · rfl

end Decimal

/-! ## 7. The notations -/

namespace Double

open Decimal

/-- The digits of the number of units of the last place. -/
def fixedDigits? (x : Double) (f : Nat) : Option (List Nat) :=
  if x.isZero then some [0]
  else
    let d := x.exactDecimal
    let keep := d.exponent + 1 + f
    if keep < 0 then some [0]
    else if keep = 0 then do
      return [if 5 ≤ (← d.digits[0]?) then 1 else 0]
    else do
      let r ← d.round? (← count? keep)
      let places ← count? (max (r.exponent + 1 + f) 0)
      if r.digits.length < places then
        return r.digits ++ List.replicate (← minus? places r.digits.length) 0
      else return r.digits

/-- The digits with a point after the first `n`. -/
def splitPoint? (n : Nat) (ds : List Char) : Option (List Char) := do
  let (whole, fraction) ← splitAt? n ds
  return whole ++ '.' :: fraction

/-- The digits with zeros before them, more than `f` together. -/
def fillUp? (f : Nat) (ds : List Char) : Option (List Char) :=
  if ds.length ≤ f then do return zeros (← minus? (f + 1) ds.length) ++ ds else some ds

/-- The digits with a point before the last `f`. -/
def fixedBody? (f : Nat) (ds : List Char) : Option (List Char) :=
  if f = 0 then some ds
  else do
    let padded ← fillUp? f ds
    splitPoint? (← minus? padded.length f) padded

/-- A number with a fixed number of places. -/
def toFixed? (x : Double) (f : Nat) : Option Text := do
  let ds ← fixedDigits? x.abs f
  let body ← fixedBody? f (digitChars ds)
  return Text.ofChars (signChars x.isBelowZero ++ body)

/-- Digits in scientific notation. -/
def scientific? (d : Decimal) : Option (List Char) := do
  let (first, more) ← splitAt? 1 (digitChars d.digits)
  return (if more.isEmpty then first else first ++ '.' :: more) ++ exponentChars d.exponent

/-- The digits that a number shows in scientific notation, with `f` of them after the point or as many as needed. -/
def exponentialDigits? (x : Double) (f : Option Nat) : Option Decimal :=
  if x.isZero then some ⟨List.replicate (f.getD 0 + 1) 0, 0⟩
  else match f with
    | none => some x.shortestDecimal
    | some f => x.exactDecimal.round? (f + 1)

/-- A number in scientific notation, with `f` digits after the point or as many as needed. -/
def toExponential? (x : Double) (f : Option Nat) : Option Text := do
  let d ← exponentialDigits? x f
  let body ← scientific? d
  return Text.ofChars (signChars x.isBelowZero ++ body)

/-- Significant digits, plain or scientific. -/
def precisionBody? (d : Decimal) (p : Nat) : Option (List Char) :=
  let s := digitChars d.digits
  let e := d.exponent
  if e < -6 ∨ (p : Int) ≤ e then scientific? d
  else if e = (p : Int) - 1 then some s
  else if 0 ≤ e then do splitPoint? ((← count? e) + 1) s
  else do return '0' :: '.' :: zeros (← count? (-(e + 1))) ++ s

/-- A number with a given number of significant digits. -/
def toPrecision? (x : Double) (p : Nat) : Option Text := do
  let d ← if x.isZero then some ⟨List.replicate p 0, 0⟩ else x.exactDecimal.round? p
  let body ← precisionBody? d p
  return Text.ofChars (signChars x.isBelowZero ++ body)

variable {s : Bool} {m : Magnitude}

theorem fixedDigits?_eq (s : Bool) (m : Magnitude) (f : Nat) :
    fixedDigits? (finite s m) f = some (fixedDigits (finite s m) f) := by
  unfold fixedDigits? fixedDigits
  rw [isZero_finite]
  cases hm : m.isZero with
  | true => rfl
  | false =>
    have hsignificant : Significant (finite s m).exactDecimal.digits := (exact_spec hm).1
    rw [if_neg Bool.false_ne_true, if_neg Bool.false_ne_true]
    generalize (finite s m).exactDecimal = d at hsignificant
    dsimp only
    by_cases hneg : d.exponent + 1 + f < 0
    · rw [if_pos hneg, if_pos hneg]
    rw [if_neg hneg, if_neg hneg]
    by_cases hnone : d.exponent + 1 + f = 0
    · rw [if_pos hnone, if_pos hnone]
      cases hds : d.digits with
      | nil => exact absurd hds hsignificant.ne_nil
      | cons a as => rfl
    · rw [if_neg hnone, if_neg hnone, count?_eq (by omega), Option.bind_eq_bind, Option.bind_some, round?_eq,
        Option.bind_eq_bind, Option.bind_some]
      generalize d.round (d.exponent + 1 + f).toNat = r
      have hplaces : (max (r.exponent + 1 + f) 0).toNat = (r.exponent + 1 + f).toNat := by omega
      rw [count?_eq (Int.le_max_right _ _), Option.bind_some, hplaces]
      unfold fit
      rw [List.take_of_length_le (Nat.le_max_right _ _)]
      split
      · rename_i hfew
        rw [minus?_eq hfew.le, Nat.max_eq_left hfew.le]
        rfl
      · rename_i hmany
        rw [Nat.max_eq_right (Nat.le_of_not_lt hmany), Nat.sub_self, List.replicate_zero, List.append_nil]
        rfl

theorem splitPoint?_eq {n : Nat} {ds : List Char} (h : n ≤ ds.length) : splitPoint? n ds = some (splitPoint n ds) := by
  unfold splitPoint?
  rw [splitAt?_eq h]
  rfl

theorem fillUp?_eq (f : Nat) (ds : List Char) : fillUp? f ds = some (zeros (f + 1 - ds.length) ++ ds) := by
  unfold fillUp?
  split
  · rename_i hle
    rw [minus?_eq (by omega)]
    rfl
  · rw [show f + 1 - ds.length = 0 by omega]
    rfl

theorem fixedBody?_eq (f : Nat) (ds : List Char) :
    fixedBody? f ds = some (if f = 0 then ds
      else splitPoint ((zeros (f + 1 - ds.length) ++ ds).length - f) (zeros (f + 1 - ds.length) ++ ds)) := by
  unfold fixedBody?
  by_cases hf : f = 0
  · rw [if_pos hf, if_pos hf]
  · have hlong : f ≤ (zeros (f + 1 - ds.length) ++ ds).length := by
      unfold zeros
      rw [List.length_append, List.length_replicate]
      omega
    rw [if_neg hf, if_neg hf, fillUp?_eq, Option.bind_eq_bind, Option.bind_some, minus?_eq hlong,
      Option.bind_eq_bind, Option.bind_some, splitPoint?_eq (Nat.sub_le _ _)]

/-- **A fixed number of places is shown without a failure.** -/
theorem toFixed?_eq (s : Bool) (m : Magnitude) (f : Nat) :
    toFixed? (finite s m) f = some ((finite s m).toFixed f) := by
  have hdigits : fixedDigits? (finite s m).abs f = some (fixedDigits (finite s m).abs f) := fixedDigits?_eq false m f
  unfold toFixed? toFixed
  rw [hdigits, Option.bind_eq_bind, Option.bind_some, fixedBody?_eq]
  rfl

theorem scientific?_eq {d : Decimal} (h : d.digits ≠ []) :
    scientific? d = some (pointed (digitChars d.digits) ++ exponentChars d.exponent) := by
  unfold scientific?
  cases hds : d.digits with
  | nil => exact absurd hds h
  | cons a as =>
    rw [splitAt?_eq (Nat.succ_le_succ (Nat.zero_le _))]
    cases as with
    | nil => rfl
    | cons b bs => rfl

theorem length_round (hm : m.isZero = false) {p : Nat} (hp : 0 < p) :
    ((finite s m).exactDecimal.round p).digits.length = p :=
  (round_eq_shown (exact_spec hm).1 hp).2.1

/-- **Scientific notation is shown without a failure.** -/
theorem toExponential?_eq (s : Bool) (m : Magnitude) (f : Option Nat) :
    toExponential? (finite s m) f = some ((finite s m).toExponential f) := by
  have hfinish {d : Decimal} (hd : d.digits ≠ []) :
      (do return Text.ofChars (signChars (finite s m).isBelowZero ++ (← scientific? d)) : Option Text) =
        some (Text.ofChars (signChars (finite s m).isBelowZero ++ pointed (digitChars d.digits) ++
          exponentChars d.exponent)) := by
    rw [scientific?_eq hd, List.append_assoc]
    rfl
  unfold toExponential? toExponential exponentialDigits?
  rw [isZero_finite]
  cases hm : m.isZero with
  | true =>
    rw [if_pos rfl, if_pos rfl]
    exact hfinish (d := ⟨List.replicate (f.getD 0 + 1) 0, 0⟩) (List.cons_ne_nil _ _)
  | false =>
    rw [if_neg Bool.false_ne_true, if_neg Bool.false_ne_true]
    cases f with
    | none =>
      refine hfinish ?_
      show (Decimal.shortest m).digits ≠ []
      rcases Json.shortest_cases hm with hshort | hsignificant
      · rw [hshort]
        exact List.cons_ne_nil _ _
      · exact hsignificant.ne_nil
    | some f =>
      dsimp only
      rw [round?_eq]
      refine hfinish (List.length_pos_iff.mp ?_)
      rw [length_round hm (Nat.succ_pos f)]
      exact Nat.succ_pos f

theorem precisionBody?_eq {d : Decimal} {p : Nat} (hp : 0 < p) (h : d.digits.length = p) :
    precisionBody? d p = some (
      if d.exponent < -6 ∨ (p : Int) ≤ d.exponent then pointed (digitChars d.digits) ++ exponentChars d.exponent
      else if d.exponent = (p : Int) - 1 then digitChars d.digits
      else if 0 ≤ d.exponent then splitPoint (d.exponent.toNat + 1) (digitChars d.digits)
      else '0' :: '.' :: zeros (-(d.exponent + 1)).toNat ++ digitChars d.digits) := by
  have hlength : (digitChars d.digits).length = p := (List.length_map _).trans h
  unfold precisionBody?
  dsimp only
  split
  · exact scientific?_eq (List.length_pos_iff.mp (Nat.lt_of_lt_of_eq hp h.symm))
  split
  · rfl
  split
  · rename_i hnonneg
    rw [count?_eq hnonneg, Option.bind_eq_bind, Option.bind_some, splitPoint?_eq (by omega)]
  · rw [count?_eq (by omega)]
    rfl

/-- **Significant digits are shown without a failure.** -/
theorem toPrecision?_eq (s : Bool) (m : Magnitude) {p : Nat} (hp : 0 < p) :
    toPrecision? (finite s m) p = some ((finite s m).toPrecision p) := by
  have hfinish {d : Decimal} (h : d.digits.length = p) :
      (do return Text.ofChars (signChars (finite s m).isBelowZero ++ (← precisionBody? d p)) : Option Text) =
        some (Text.ofChars (signChars (finite s m).isBelowZero ++
          if d.exponent < -6 ∨ (p : Int) ≤ d.exponent then pointed (digitChars d.digits) ++ exponentChars d.exponent
          else if d.exponent = (p : Int) - 1 then digitChars d.digits
          else if 0 ≤ d.exponent then splitPoint (d.exponent.toNat + 1) (digitChars d.digits)
          else '0' :: '.' :: zeros (-(d.exponent + 1)).toNat ++ digitChars d.digits)) := by
    rw [precisionBody?_eq hp h]
    rfl
  unfold toPrecision? toPrecision
  rw [isZero_finite]
  cases hm : m.isZero with
  | true =>
    rw [if_pos rfl, if_pos rfl]
    exact hfinish (d := ⟨List.replicate p 0, 0⟩) List.length_replicate
  | false =>
    rw [if_neg Bool.false_ne_true, if_neg Bool.false_ne_true, round?_eq]
    exact hfinish (length_round hm hp)

end Double

/-! ## 8. What they show -/

open Decimal Double

/-- The exponents that are shown are small. -/
theorem shown_range {m : Magnitude} (hm : m.isZero = false) {p : Nat} (hp : 0 < p) :
    (natChars (shown m.toRat p).1).length = p ∧ -324 ≤ (shown m.toRat p).2 ∧ (shown m.toRat p).2 ≤ 309 := by
  obtain ⟨hsignificant, hvalue⟩ := exact_spec hm
  obtain ⟨hdigits, hlength, hspelled, -⟩ := round_eq_shown hsignificant hp
  obtain ⟨hlow, hhigh⟩ := log_range hm
  rw [hvalue] at hspelled
  refine ⟨?_, ?_⟩
  · rw [← hspelled, ← digitChars_of_significant hdigits]
    exact (List.length_map _).trans hlength
  · unfold shown
    dsimp only
    split
    · dsimp only
      omega
    · dsimp only
      omega

/-- The value of a number with its sign. -/
def signedRat (s : Bool) (m : Magnitude) : ℚ := if s then -m.toRat else m.toRat

theorem abs_signedRat (s : Bool) (m : Magnitude) : |signedRat s m| = m.toRat := by
  unfold signedRat
  split
  · rw [abs_neg, abs_of_nonneg m.toRat_nonneg]
  · exact abs_of_nonneg m.toRat_nonneg

/-- A number is shown with a minus sign if and only if its value is negative. -/
theorem isBelowZero_iff (s : Bool) (m : Magnitude) : (finite s m).isBelowZero = decide (signedRat s m < 0) := by
  have hnonneg := m.toRat_nonneg
  rw [isBelowZero_finite]
  unfold signedRat
  cases s with
  | false => exact (decide_eq_false (not_lt.mpr hnonneg)).symm
  | true =>
    rw [if_pos rfl, Bool.true_and]
    cases hm : m.isZero with
    | true =>
      rw [Magnitude.toRat_eq_zero.mpr hm, neg_zero]
      rfl
    | false =>
      have hne : m.toRat ≠ 0 := fun h => Bool.false_ne_true (hm.symm.trans (Magnitude.toRat_eq_zero.mp h))
      exact (decide_eq_true (neg_lt_zero.mpr (lt_of_le_of_ne hnonneg hne.symm))).symm

/-- **The notations show the value of a number, rounded once, and no check in them fails.** With a fixed number of
places it is the number of units of the last place, halves going up; with significant digits it is the number of
units of the last of them, on the grid that the decimal logarithm gives, or the power of ten that has one digit
more with one less and the next exponent. Significant digits are plain if and only if the exponent that is shown
is at least -6 and less than their number. Zero shows zeros only, and its exponent is zero. -/
theorem notations_exact (s : Bool) (m : Magnitude) (f : Nat) :
    let x := Double.finite s m
    let v := signedRat s m
    let sign := signChars (decide (v < 0))
    let n := (shown |v| (f + 1)).1
    let e := (shown |v| (f + 1)).2
    let zero := '0' :: if f = 0 then [] else '.' :: zeros f
    (x.toFixed? f = some (x.toFixed f) ∧
      x.toFixed f = Text.ofChars (sign ++ plain (halfUp (|v| * 10 ^ f)) f)) ∧
    (x.toExponential? (some f) = some (x.toExponential (some f)) ∧
      x.toPrecision? (f + 1) = some (x.toPrecision (f + 1))) ∧
    (v = 0 ∧ x.toExponential (some f) = Text.ofChars (zero ++ exponentChars 0) ∧
        x.toPrecision (f + 1) = Text.ofChars zero ∨
      v ≠ 0 ∧ (natChars n).length = f + 1 ∧ -324 ≤ e ∧ e ≤ 309 ∧
        x.toExponential (some f) = Text.ofChars (sign ++ scientific n e) ∧
        x.toPrecision (f + 1) = Text.ofChars (sign ++
          if -6 ≤ e ∧ e < (f + 1 : Nat) then plain n ((f : Int) - e).toNat else scientific n e)) := by
  intro x v sign n e zero
  have habs : |v| = m.toRat := abs_signedRat s m
  have hsign : signChars x.isBelowZero = sign := congrArg signChars (isBelowZero_iff s m)
  have hn : n = (shown m.toRat (f + 1)).1 := congrArg (fun q => (shown q (f + 1)).1) habs
  have he : e = (shown m.toRat (f + 1)).2 := congrArg (fun q => (shown q (f + 1)).2) habs
  refine ⟨⟨toFixed?_eq s m f, ?_⟩, ⟨toExponential?_eq s m (some f), toPrecision?_eq s m (Nat.succ_pos f)⟩, ?_⟩
  · rw [← hsign, habs]
    exact toFixed_eq s m f
  cases hm : m.isZero with
  | true =>
    refine .inl ⟨abs_eq_zero.mp (habs.trans (Magnitude.toRat_eq_zero.mpr hm)), ?_, toPrecision_zero hm f⟩
    exact toExponential_zero hm f
  | false =>
    have hne : v ≠ 0 := fun h =>
      Bool.false_ne_true (hm.symm.trans (Magnitude.toRat_eq_zero.mp (habs.symm.trans (abs_eq_zero.mpr h))))
    obtain ⟨hlength, hlow, hhigh⟩ := shown_range hm (Nat.succ_pos f)
    rw [← hn] at hlength
    rw [← he] at hlow hhigh
    refine .inr ⟨hne, hlength, hlow, hhigh, ?_, ?_⟩
    · rw [← hsign, hn, he]
      exact toExponential_eq hm f
    · have hplaces : ((f + 1 : Nat) : Int) - 1 - e = (f : Int) - e := by omega
      rw [← hsign, ← hplaces, hn, he]
      exact toPrecision_eq hm (Nat.succ_pos f)

end Ecma51
