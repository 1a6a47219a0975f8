import Ecma51.Proofs.TimeComposition
import Ecma51.Proofs.WholeQuotients

/-!
# Fields by arithmetic on doubles

The rules of the calendar, done on doubles and rounded at every step, give for whole times the fields that the rules
on integers give. Only quotients are ever rounded, and their whole parts are right; and the guess at the year is near
enough for the number of corrections that are made at most.

* `Calendar.Rounded.denotes_dayFromYear`, `Calendar.Rounded.lt_timeFromYear`: the beginning of a year.
* **`Calendar.Rounded.yearFromTime_ofInt`**: the loops on doubles end in the year of the instant.
* **`Calendar.rounded_eq_at`**, `Calendar.rounded_weekDay`: all fields.
-/

namespace Ecma51

open Double

namespace Calendar

/-! ## 1. Instants of years that dates come near to -/

theorem NearYear.lt {t : Int} (h : NearYear (yearFromTime t)) : t.natAbs < 2 ^ 53 := by
  obtain ⟨hbegun, hlast⟩ := inYear_yearFromTime t
  have hlower := (dayFromYear_bounds (yearFromTime t)).1
  have hupper := (dayFromYear_bounds (yearFromTime t + 1)).2
  unfold NearYear at h
  unfold day msPerDay at hbegun hlast
  omega

theorem NearYear.day_lt {t : Int} (h : NearYear (yearFromTime t)) : (day t).natAbs < 2 ^ 52 := by
  have hlt := h.lt
  unfold day msPerDay
  omega

theorem dayWithinYear_small (t : Int) : 0 ≤ dayWithinYear t ∧ dayWithinYear t < 366 := by
  obtain ⟨hfirst, hlast⟩ := dayWithinYear_bounds t
  unfold daysInYear at hlast
  split at hlast <;> omega

theorem lt_timeFromYear_iff_lt (t y : Int) : t < timeFromYear y ↔ yearFromTime t < y := by
  rw [lt_timeFromYear_iff, yearFromTime_lt_iff]

/-- The guess is a few years off at most. -/
theorem estimateYear_near (t : Int) :
    t / 31556952000 + 1970 ≤ yearFromTime t + 2 ∧ yearFromTime t ≤ t / 31556952000 + 1970 + 2 := by
  obtain ⟨hbegun, hlast⟩ := inYear_yearFromTime t
  have hlower := (dayFromYear_bounds (yearFromTime t)).1
  have hupper := (dayFromYear_bounds (yearFromTime t + 1)).2
  unfold day msPerDay at hbegun hlast
  omega

namespace Rounded

/-! ## 2. Years -/

section Year

variable {y : Int} (hy : y.natAbs ≤ 281000)

include hy

theorem floor_years (k d : Int) (hk : k.natAbs ≤ 2000) (hd : 0 < d) (hd' : d.natAbs ≤ 400) :
    Denotes ((ofInt y - ofInt k) / ofInt d).floor ((y - k) / d) := by
  rw [ofInt_sub (denotes_ofInt k) (by omega) (by omega) (by omega), floor_div (by omega) hd (by omega)]
  exact denotes_ofInt _

/-- The day on which a year begins. -/
theorem denotes_dayFromYear : Denotes (dayFromYear (ofInt y)) (Calendar.dayFromYear y) := by
  have hdays : Denotes (365 * (ofInt y - 1970)) (365 * (y - 1970)) :=
    (denotes_ofInt 365).mul ((denotes_ofInt y).sub (denotes_ofInt 1970) (by omega) (by decide) (by omega)) (by decide)
      (by omega) (by omega)
  have hfour : Denotes ((ofInt y - 1969) / 4).floor ((y - 1969) / 4) :=
    floor_years hy 1969 4 (by decide) (by decide) (by decide)
  have hhundred : Denotes ((ofInt y - 1901) / 100).floor ((y - 1901) / 100) :=
    floor_years hy 1901 100 (by decide) (by decide) (by decide)
  have hfourHundred : Denotes ((ofInt y - 1601) / 400).floor ((y - 1601) / 400) :=
    floor_years hy 1601 400 (by decide) (by decide) (by decide)
  exact ((hdays.add hfour (by omega) (by omega) (by omega)).sub hhundred (by omega) (by omega) (by omega)).add
    hfourHundred (by omega) (by omega) (by omega)

theorem denotes_timeFromYear : Denotes (timeFromYear (ofInt y)) (Calendar.timeFromYear y) ∧
    (Calendar.timeFromYear y).natAbs < 2 ^ 53 := by
  have hbounds := dayFromYear_bounds y
  unfold timeFromYear Calendar.timeFromYear msPerDay
  exact ⟨(denotes_ofInt 86400000).mul (denotes_dayFromYear hy) (by decide) (by omega) (by omega), by omega⟩

variable {t : Int} (ht : NearYear (Calendar.yearFromTime t))

include ht

/-- Whether the instant is before the year. -/
theorem lt_timeFromYear : Double.lt (ofInt t) (timeFromYear (ofInt y)) = decide (Calendar.yearFromTime t < y) := by
  obtain ⟨hdenotes, hsmall⟩ := denotes_timeFromYear hy
  rw [(denotes_ofInt t).lt hdenotes ht.lt hsmall]
  exact decide_eq_decide.mpr (lt_timeFromYear_iff_lt t y)

theorem timeFromYear_le : Double.le (timeFromYear (ofInt y)) (ofInt t) = decide (y ≤ Calendar.yearFromTime t) := by
  obtain ⟨hdenotes, hsmall⟩ := denotes_timeFromYear hy
  rw [hdenotes.le (denotes_ofInt t) hsmall ht.lt]
  refine decide_eq_decide.mpr ?_
  rw [← Int.not_lt, lt_timeFromYear_iff_lt, Int.not_lt]

end Year

section Time

variable {t : Int} (ht : NearYear (Calendar.yearFromTime t))

include ht

/-- **The first loop** ends in the year, if it begins in it or after it. -/
theorem correctDown_ofInt {n : Nat} {y : Int} (hy : y.natAbs ≤ 280500) (hn : y - Calendar.yearFromTime t ≤ n) :
    correctDown (ofInt t) n (ofInt y) = ofInt (min y (Calendar.yearFromTime t)) := by
  unfold NearYear at ht
  induction n generalizing y with
  | zero =>
    rw [Int.min_eq_left (by omega)]
    rfl
  | succ n ih =>
    unfold correctDown
    rw [lt_timeFromYear (by omega) ht]
    by_cases hlate : Calendar.yearFromTime t < y
    · have hprevious : ofInt y - 1 = ofInt (y - 1) :=
        ofInt_sub (j := 1) (denotes_ofInt 1) (by omega) (by decide) (by omega)
      rw [if_pos (decide_eq_true hlate), hprevious, ih (by omega) (by omega)]
      congr 1
      omega
    · rw [if_neg (by rwa [decide_eq_true_iff]), Int.min_eq_left (by omega)]

/-- **The second loop** ends in the year, if it begins in it or before it. -/
theorem correctUp_ofInt {n : Nat} {y : Int} (hy : y.natAbs ≤ 280500) (hn : Calendar.yearFromTime t - y ≤ n) :
    correctUp (ofInt t) n (ofInt y) = ofInt (max y (Calendar.yearFromTime t)) := by
  unfold NearYear at ht
  induction n generalizing y with
  | zero =>
    rw [Int.max_eq_left (by omega)]
    rfl
  | succ n ih =>
    have hnext : ofInt y + 1 = ofInt (y + 1) := ofInt_add (j := 1) (denotes_ofInt 1) (by omega) (by decide) (by omega)
    unfold correctUp
    rw [hnext, timeFromYear_le (by omega) ht]
    by_cases hearly : y + 1 ≤ Calendar.yearFromTime t
    · rw [if_pos (decide_eq_true hearly), ih (by omega) (by omega)]
      congr 1
      omega
    · rw [if_neg (by rwa [decide_eq_true_iff]), Int.max_eq_left (by omega)]

/-- **Both loops end in the year of the instant** from every guess that is near enough, if they may take enough
turns. -/
theorem correct_ofInt {n : Nat} {e : Int} (he : e.natAbs ≤ 280500) (hn : (e - Calendar.yearFromTime t).natAbs ≤ n) :
    correctUp (ofInt t) n (correctDown (ofInt t) n (ofInt e)) = ofInt (Calendar.yearFromTime t) := by
  have hyear := ht
  unfold NearYear at hyear
  rw [correctDown_ofInt ht he (by omega), correctUp_ofInt ht (by omega) (by omega)]
  congr 1
  omega

/-- The guess at the year is that on integers. -/
theorem estimateYear_ofInt : estimateYear (ofInt t) = ofInt (t / 31556952000 + 1970) := by
  have hmean : msPerMeanYear = ofInt 31556952000 := by decide +kernel
  have hlt := ht.lt
  unfold estimateYear
  rw [hmean, floor_div hlt (by decide) (by decide)]
  exact ofInt_add (j := 1970) (denotes_ofInt 1970) (by omega) (by decide) (by omega)

/-- **The year of a whole time.** -/
theorem yearFromTime_ofInt : yearFromTime (ofInt t) = ofInt (Calendar.yearFromTime t) := by
  have hnear := estimateYear_near t
  have hyear := ht
  unfold NearYear at hyear
  unfold yearFromTime maxCorrection
  rw [estimateYear_ofInt ht, correct_ofInt ht (by omega) (by omega)]

/-! ## 3. Months and days -/

theorem day_ofInt : day (ofInt t) = ofInt (Calendar.day t) := floor_div ht.lt (by decide) (by decide)

omit ht in
/-- Whether a year is a multiple. -/
theorem isZero_rem {y : Int} (hy : NearYear y) {d : Int} (hd : 0 < d) (hd' : d.natAbs < 2 ^ 53) :
    (ofInt y % ofInt d).isZero = (y % d == 0) := by
  unfold NearYear at hy
  rw [ofInt_rem (by omega) hd hd']
  by_cases hzero : y % d = 0
  · rw [if_pos hzero, hzero]
    rfl
  · have hrest := tmod_eq (i := y) hd
    have hlt := Int.emod_lt_of_pos y hd
    have hbounds := Int.emod_nonneg y (by omega : d ≠ 0)
    have hne : (y.tmod d).natAbs ≠ 0 ∧ (y.tmod d).natAbs < 2 ^ 53 := by
      rw [hrest]
      split <;> omega
    obtain ⟨m, hm, hhas⟩ := finite_ofInt hne.2
    rw [if_neg hzero, hm, beq_false_of_ne hzero]
    exact (isZero_of_has hhas).trans (decide_eq_false hne.1)

omit ht in
theorem isLeapYear_ofInt {y : Int} (hy : NearYear y) : isLeapYear (ofInt y) = Calendar.isLeapYear y := by
  have hfour : (ofInt y % 4).isZero = (y % 4 == 0) := isZero_rem (d := 4) hy (by decide) (by decide)
  have hhundred : (ofInt y % 100).isZero = (y % 100 == 0) := isZero_rem (d := 100) hy (by decide) (by decide)
  have hfourHundred : (ofInt y % 400).isZero = (y % 400 == 0) := isZero_rem (d := 400) hy (by decide) (by decide)
  unfold isLeapYear Calendar.isLeapYear
  rw [hfour, hhundred, hfourHundred]
  rfl

theorem dayWithinYear_ofInt : dayWithinYear (ofInt t) = ofInt (Calendar.dayWithinYear t) := by
  have hyear := ht
  have hday := ht.day_lt
  have hbegin := dayFromYear_bounds (Calendar.yearFromTime t)
  unfold NearYear at hyear
  unfold dayWithinYear Calendar.dayWithinYear
  rw [day_ofInt ht, yearFromTime_ofInt ht]
  exact ofInt_sub (denotes_dayFromYear (by omega)) (by omega) (by omega) (by omega)

omit ht in
theorem lastMonth_ofInt {d : Int} (hd : d.natAbs < 2 ^ 53) (leap : Bool) {n : Nat} (hn : n ≤ 12) :
    lastMonth (ofInt d) leap n = Calendar.lastMonth d leap n := by
  induction n with
  | zero => rfl
  | succ n ih =>
    have hstart := monthStart_bounds (by omega : n ≤ 12) leap
    have hcompare : Double.le (monthStart n leap) (ofInt d) = decide (Calendar.monthStart n leap ≤ d) :=
      (denotes_ofInt _).le (denotes_ofInt d) (by omega) hd
    unfold lastMonth Calendar.lastMonth
    rw [hcompare, ih (by omega)]
    simp only [decide_eq_true_eq]

theorem monthFromTime_ofInt : monthFromTime (ofInt t) = Calendar.monthFromTime t := by
  have hday := dayWithinYear_small t
  unfold monthFromTime Calendar.monthFromTime
  rw [dayWithinYear_ofInt ht, yearFromTime_ofInt ht, isLeapYear_ofInt ht,
    lastMonth_ofInt (by omega) _ (Nat.le_refl 12)]

theorem dateFromTime_ofInt : dateFromTime (ofInt t) = ofInt (Calendar.dateFromTime t) := by
  have hday := dayWithinYear_small t
  have hmonth := (monthFromTime_holds t).1
  have hstart := monthStart_bounds (Nat.le_of_lt hmonth) (Calendar.isLeapYear (Calendar.yearFromTime t))
  unfold dateFromTime Calendar.dateFromTime monthStart
  rw [dayWithinYear_ofInt ht, yearFromTime_ofInt ht, isLeapYear_ofInt ht, monthFromTime_ofInt ht,
    ofInt_sub (denotes_ofInt _) (by omega) (by omega) (by omega)]
  exact ofInt_add (j := 1) (denotes_ofInt 1) (by omega) (by decide) (by omega)

/-! ## 4. Remainders -/

omit ht in
/-- The remainder that is never negative, as fields have it. -/
theorem remEuclid_eq {i j : Int} (hi : i.natAbs < 2 ^ 53) (hj : 0 < j) (hj' : j.natAbs < 2 ^ 53) :
    (ofInt i).remEuclid (ofInt j) = remainderOf i (i % j) := by
  rw [remEuclid_ofInt hi hj hj']
  unfold remainderOf
  split <;> rfl

/-- A field of the time of day that goes round in sixty. -/
theorem sixtieth_ofInt {d : Int} (hd : 0 < d) (hd' : d.natAbs < 2 ^ 53) :
    (ofInt t / ofInt d).floor.remEuclid 60 = remainderOf t (t / d % 60) := by
  have hneg : t / d < 0 ↔ t < 0 := Int.ediv_lt_iff_lt_mul hd |>.trans (by rw [Int.zero_mul])
  have hquotient : (t / d).natAbs < 2 ^ 53 := Nat.lt_of_le_of_lt (Int.natAbs_ediv_le_natAbs t d) ht.lt
  rw [floor_div ht.lt hd hd']
  have hrest : (ofInt (t / d)).remEuclid 60 = remainderOf (t / d) (t / d % 60) :=
    remEuclid_eq (j := 60) hquotient (by decide) (by decide)
  rw [hrest]
  unfold remainderOf
  rw [decide_eq_decide.mpr hneg]

theorem hourFromTime_ofInt : hourFromTime (ofInt t) = Field.at t .hour := by
  have hday := Int.emod_lt_of_pos t (by decide : (0 : Int) < msPerDay)
  have hday' := Int.emod_nonneg t (by decide : msPerDay ≠ 0)
  have hwithin : timeWithinDay (ofInt t) = remainderOf t (Calendar.timeWithinDay t) :=
    remEuclid_eq ht.lt (by decide) (by decide)
  unfold hourFromTime
  rw [hwithin]
  show _ = if Calendar.timeWithinDay t = 0 then remainderOf t 0 else ofInt (Calendar.hourFromTime t)
  unfold remainderOf
  by_cases hzero : Calendar.timeWithinDay t = 0
  · rw [if_pos hzero, if_pos hzero, if_pos rfl]
    exact floor_div_zero _ (by decide) (by decide)
  · rw [if_neg hzero, if_neg hzero]
    refine floor_div ?_ (by decide) (by decide)
    unfold Calendar.timeWithinDay
    unfold msPerDay at hday hday' ⊢
    omega

end Time

end Rounded

/-! ## 5. All fields -/

section Fields

variable {t : Int} (ht : NearYear (yearFromTime t))

include ht

/-- **The fields of a whole time by arithmetic on doubles** are those by arithmetic on integers, zeros with their
signs. -/
theorem rounded_eq_at (f : Field) : f.rounded (ofInt t) = f.at t := by
  cases f with
  | year => exact Rounded.yearFromTime_ofInt ht
  | month => exact congrArg ofNat (Rounded.monthFromTime_ofInt ht)
  | date => exact Rounded.dateFromTime_ofInt ht
  | hour => exact Rounded.hourFromTime_ofInt ht
  | minute => exact Rounded.sixtieth_ofInt ht (by decide) (by decide)
  | second => exact Rounded.sixtieth_ofInt ht (by decide) (by decide)
  | millisecond => exact Rounded.remEuclid_eq ht.lt (by decide) (by decide)

theorem rounded_weekDay : Rounded.weekDay (ofInt t) = remainderOf (day t + 4) (weekDay t) := by
  have hday := ht.day_lt
  have hshifted : ofInt (day t) + 4 = ofInt (day t + 4) :=
    ofInt_add (j := 4) (denotes_ofInt 4) (by omega) (by decide) (by omega)
  unfold Rounded.weekDay
  rw [Rounded.day_ofInt ht, hshifted]
  exact Rounded.remEuclid_eq (j := 7) (by omega) (by decide) (by decide)

end Fields

end Calendar

end Ecma51
