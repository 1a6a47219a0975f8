import Ecma51.Proofs.CalendarDates
import Ecma51.Proofs.TimeValues

/-!
# Composing times

The numbers that fields are put together from are doubles. As long as the year is one that dates come near to,
nothing is rounded: the fields of a time compose to it, and so do those of a date of the calendar.

* `Calendar.NearTime`: the instants of all time values, and those up to a day beyond them.
* **`Calendar.makeDate_exact`**: what is composed from a date and a time of day.
* `Calendar.Field.number`: the fields of an instant as integers.
* **`Calendar.denotes_fields`**, **`Calendar.composeFields_fields`**: the fields of a time, and composing them.
-/

namespace Ecma51

open Double

namespace Calendar

/-! ## 1. Bounds -/

/-- The instant is that of a time value, or at most a day away from one. -/
def NearTime (t : Int) : Prop := t.natAbs ≤ 8640000000000000 + 86400000

/-- The year is not far from those of time values. -/
def NearYear (year : Int) : Prop := year.natAbs ≤ 280000

theorem NearTime.lt {t : Int} (h : NearTime t) : t.natAbs < 2 ^ 53 := Nat.lt_of_le_of_lt h (by decide)

/-- The day on which a year begins is about as many mean years after the first day of 1970. -/
theorem dayFromYear_bounds (y : Int) :
    3652425 * (y - 1970) - 20000 ≤ 10000 * dayFromYear y ∧ 10000 * dayFromYear y ≤ 3652425 * (y - 1970) + 20000 := by
  unfold dayFromYear
  omega

theorem NearTime.nearYear {t : Int} (h : NearTime t) : NearYear (yearFromTime t) := by
  obtain ⟨hbegun, hlast⟩ := inYear_yearFromTime t
  have hlower := (dayFromYear_bounds (yearFromTime t)).1
  have hupper := (dayFromYear_bounds (yearFromTime t + 1)).2
  unfold NearTime at h
  unfold NearYear
  unfold day msPerDay at hbegun hlast
  omega

theorem monthStart_bounds {month : Nat} (h : month ≤ 12) (leap : Bool) :
    0 ≤ monthStart month leap ∧ monthStart month leap ≤ 366 := by
  have hfirst := monthStart_mono (Nat.zero_le month) h leap
  have hlast := monthStart_mono h (Nat.le_refl 12) leap
  rw [monthStart_zero] at hfirst
  refine ⟨hfirst, Int.le_trans hlast ?_⟩
  cases leap <;> decide

theorem daysInMonth_le (month : Nat) (leap : Bool) : daysInMonth month leap ≤ 31 := by
  unfold daysInMonth
  split
  · split <;> decide
  · split <;> decide

/-! ## 2. Composing -/

section Compose

variable {xyear xmonth xdate xhour xminute xsecond xms : Double} {year : Int} {month : Nat}
  {date hour minute second ms : Int}

/-- **The milliseconds of a time of day.** -/
theorem makeTime_exact (hhour : Denotes xhour hour) (hminute : Denotes xminute minute)
    (hsecond : Denotes xsecond second) (hms : Denotes xms ms) (h : IsClock hour minute second ms) :
    Denotes (makeTime xhour xminute xsecond xms) (clockOf hour minute second ms) := by
  obtain ⟨hh, hmi, hs, hm⟩ := h
  have hfinite : (xhour.isFinite && xminute.isFinite && xsecond.isFinite && xms.isFinite) = true := by
    rw [hhour.isFinite (by omega), hminute.isFinite (by omega), hsecond.isFinite (by omega), hms.isFinite (by omega)]
    rfl
  unfold makeTime clockOf
  rw [if_pos hfinite]
  unfold msPerHour msPerMinute msPerSecond
  have hhours := (hhour.toInteger (by omega)).mul (denotes_ofInt 3600000) (by omega) (by decide) (by omega)
  have hminutes := (hminute.toInteger (by omega)).mul (denotes_ofInt 60000) (by omega) (by decide) (by omega)
  have hseconds := (hsecond.toInteger (by omega)).mul (denotes_ofInt 1000) (by omega) (by decide) (by omega)
  have hfirst := hhours.add hminutes (by omega) (by omega) (by omega)
  have hsecond := hfirst.add hseconds (by omega) (by omega) (by omega)
  exact hsecond.add (hms.toInteger (by omega)) (by omega) (by omega) (by omega)

/-- A month of the year carries nothing over. -/
theorem month_carries_nothing (hmonth : month < 12) (h : Denotes xmonth month) :
    Denotes (xmonth / 12).floor 0 ∧ (xmonth.remEuclid 12).truncInt.toNat = month := by
  have hall : ∀ m < 12, (ofInt (m : Nat) / 12).floor = ofInt 0 ∧
      ((ofInt (m : Nat)).remEuclid 12).truncInt.toNat = m := by decide +kernel
  have hzero : (negZero / 12).floor = negZero ∧ (negZero.remEuclid 12).truncInt.toNat = 0 := by decide +kernel
  rcases h with rfl | ⟨hmonth, rfl⟩
  · exact ⟨.inl (hall month ‹_›).1, (hall month ‹_›).2⟩
  · exact ⟨.inr ⟨rfl, hzero.1⟩, hzero.2.trans (Int.natCast_eq_zero.mp hmonth).symm⟩

/-- **The day of a date.** -/
theorem makeDay_exact (hyear : Denotes xyear year) (hmonth : Denotes xmonth month) (hdate : Denotes xdate date)
    (hnear : NearYear year) (h : IsDate year month date) :
    makeDay xyear xmonth xdate = ofInt (dayOf year month date) := by
  obtain ⟨hlt, hone, hdays⟩ := h
  unfold NearYear at hnear
  have hdays' := daysInMonth_le month (isLeapYear year)
  have hstart := monthStart_bounds (Nat.le_of_lt hlt) (isLeapYear year)
  have hbegin := dayFromYear_bounds year
  have hfinite : (xyear.isFinite && xmonth.isFinite && xdate.isFinite) = true := by
    rw [hyear.isFinite (by omega), hmonth.isFinite (by omega), hdate.isFinite (by omega)]
    rfl
  obtain ⟨hcarry, hrest⟩ := month_carries_nothing hlt (hmonth.toInteger (by omega))
  have hsum : Denotes (xyear.toInteger + (xmonth.toInteger / 12).floor) year := by
    have h := (hyear.toInteger (by omega)).add hcarry (by omega) (by decide) (by omega)
    rwa [Int.add_zero] at h
  unfold makeDay
  rw [if_pos hfinite]
  dsimp only
  have hinside : Double.lt (ofNat 400000) (xyear.toInteger + (xmonth.toInteger / 12).floor).abs = false := by
    rw [hsum.abs, ofNat_lt_ofNat (by decide) (by omega)]
    exact decide_eq_false (by omega)
  rw [hinside, if_neg Bool.false_ne_true, hsum.truncInt (by omega), hrest]
  rw [ofInt_add (hdate.toInteger (by omega)) (by omega) (by omega) (by omega)]
  exact ofInt_sub (j := 1) (denotes_ofNat 1) (by omega) (by decide) (by omega)

/-- **The instant of a date and a time of day.** -/
theorem makeDate_exact (hyear : Denotes xyear year) (hmonth : Denotes xmonth month) (hdate : Denotes xdate date)
    (hhour : Denotes xhour hour) (hminute : Denotes xminute minute) (hsecond : Denotes xsecond second)
    (hms : Denotes xms ms) (hnear : NearYear year) (hcalendar : IsDate year month date)
    (hclock : IsClock hour minute second ms) :
    makeDate (makeDay xyear xmonth xdate) (makeTime xhour xminute xsecond xms) =
      ofInt (instantOf year month date hour minute second ms) := by
  have htime := makeTime_exact hhour hminute hsecond hms hclock
  have hbounds := hclock.bounds
  have hday : (dayOf year month date).natAbs < 103100000 := by
    obtain ⟨hlt, hone, hdays⟩ := hcalendar
    have hdays' := daysInMonth_le month (isLeapYear year)
    have hstart := monthStart_bounds (Nat.le_of_lt hlt) (isLeapYear year)
    have hbegin := dayFromYear_bounds year
    unfold NearYear at hnear
    unfold dayOf
    omega
  rw [makeDay_exact hyear hmonth hdate hnear hcalendar]
  unfold msPerDay at hbounds
  have hfinite : ((ofInt (dayOf year month date)).isFinite &&
      (makeTime xhour xminute xsecond xms).isFinite) = true := by
    rw [(denotes_ofInt _).isFinite (by omega), htime.isFinite (by omega)]
    rfl
  unfold makeDate
  rw [if_pos hfinite]
  unfold instantOf msPerDay
  rw [ofInt_mul (by decide) (by omega) (by decide) (by omega)]
  exact ofInt_add htime (by omega) (by omega) (by omega)

end Compose

/-! ## 3. The fields of a time -/

/-- A field of an instant as an integer. -/
def Field.number (t : Int) : Field → Int
  | .year => yearFromTime t
  | .month => monthFromTime t
  | .date => dateFromTime t
  | .hour => hourFromTime t
  | .minute => minuteFromTime t
  | .second => secondFromTime t
  | .millisecond => msFromTime t

theorem denotes_remainderOf (dividend value : Int) : Denotes (remainderOf dividend value) value := by
  unfold remainderOf
  split
  · rename_i hzero
    rw [hzero]
    cases decide (dividend < 0)
    · exact .inl rfl
    · exact .inr ⟨rfl, rfl⟩
  · exact denotes_ofInt value

theorem denotes_at (t : Int) (f : Field) : Denotes (f.at t) (f.number t) := by
  cases f with
  | year => exact denotes_ofInt _
  | month => exact denotes_ofNat _
  | date => exact denotes_ofInt _
  | hour =>
    show Denotes (if timeWithinDay t = 0 then remainderOf t 0 else ofInt (hourFromTime t)) (hourFromTime t)
    split
    · rename_i hzero
      rw [hourFromTime, hzero]
      exact denotes_remainderOf t 0
    · exact denotes_ofInt _
  | minute => exact denotes_remainderOf t _
  | second => exact denotes_remainderOf t _
  | millisecond => exact denotes_remainderOf t _

section Fields

variable {x : Double} {t : Int}

theorem instant?_of_denotes (hx : Denotes x t) (ht : t.natAbs < 2 ^ 53) : instant? x = some t := by
  unfold instant?
  rw [hx.toInt? ht, Option.filter_some, if_pos (decide_eq_true (Nat.le_of_lt ht))]

theorem value_of_denotes (hx : Denotes x t) (ht : t.natAbs < 2 ^ 53) (f : Field) : f.value x = f.at t := by
  unfold Field.value
  rw [instant?_of_denotes hx ht]

/-- **The fields of a time are those of its instant.** -/
theorem denotes_fields (hx : Denotes x t) (ht : t.natAbs < 2 ^ 53) (f : Field) : Denotes (f.value x) (f.number t) := by
  rw [value_of_denotes hx ht]
  exact denotes_at t f

theorem composeFields_eq (xs : Field → Double) : composeFields (Field.all.map xs) =
    makeDate (makeDay (xs .year) (xs .month) (xs .date))
      (makeTime (xs .hour) (xs .minute) (xs .second) (xs .millisecond)) := rfl

/-- **The fields of a time compose to it.** -/
theorem composeFields_fields (ht : NearTime t) : composeFields (Field.all.map (·.value (ofInt t))) = ofInt t := by
  have hfields (f : Field) := denotes_fields (denotes_ofInt t) ht.lt f
  rw [composeFields_eq, makeDate_exact (hfields .year) (hfields .month) (hfields .date) (hfields .hour)
    (hfields .minute) (hfields .second) (hfields .millisecond) ht.nearYear (isDate_fields t) (isClock_fields t)]
  exact congrArg ofInt (instantOf_fields t)

end Fields

end Calendar

end Ecma51
