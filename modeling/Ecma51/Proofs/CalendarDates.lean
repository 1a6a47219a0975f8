import Mathlib.Order.Monotone.Basic
import Ecma51.Calendar.Fields

/-!
# Years, dates and times of day

Every instant lies in exactly one year, and the loops that look for it end there, wherever they begin. Its fields are
in their ranges and give the instant back, and every date of the calendar with a time of day is an instant with these
fields. Here all of it is on integers.

* `Calendar.daysInYear`, `Calendar.daysInMonth`: the lengths of years and months.
* `Calendar.YearLoops`: what the two loops do, turn by turn.
* **`Calendar.yearLoops_yearFromTime`**: from every estimate they end in the year of the instant.
* **`Calendar.yearFromTime_eq_iff`**: the year of an instant is the only one that holds its day.
* `Calendar.IsDate`, `Calendar.IsClock`: the dates of the calendar, and the times of day.
* `Calendar.instantOf`: the instant of a date and a time of day.
* **`Calendar.instantOf_fields`**, **`Calendar.fields_instantOf`**: composing and taking apart.
-/

namespace Ecma51

namespace Calendar

/-! ## 1. The length of a year -/

/-- The days of a year. -/
def daysInYear (y : Int) : Int := if isLeapYear y then 366 else 365

theorem isLeapYear_iff (y : Int) : isLeapYear y = true ↔ y % 4 = 0 ∧ y % 100 ≠ 0 ∨ y % 400 = 0 := by
  simp [isLeapYear]

/-- **A year follows the one before it**: the rule for leap years is that of the first days. -/
theorem dayFromYear_succ (y : Int) : dayFromYear (y + 1) = dayFromYear y + daysInYear y := by
  have hfour : (y + 1 - 1969) / 4 = (y - 1969) / 4 + if y % 4 = 0 then 1 else 0 := by
    split <;> omega
  have hhundred : (y + 1 - 1901) / 100 = (y - 1901) / 100 + if y % 100 = 0 then 1 else 0 := by
    split <;> omega
  have hfourHundred : (y + 1 - 1601) / 400 = (y - 1601) / 400 + if y % 400 = 0 then 1 else 0 := by
    split <;> omega
  unfold dayFromYear daysInYear
  simp only [hfour, hhundred, hfourHundred, isLeapYear_iff]
  split <;> split <;> split <;> split <;> omega

/-- Later years begin later. -/
theorem dayFromYear_lt_iff (y z : Int) : dayFromYear y < dayFromYear z ↔ y < z := by
  have hmono : StrictMono dayFromYear := by
    refine strictMono_int_of_lt_succ fun y => ?_
    have := dayFromYear_succ_le y
    omega
  exact hmono.lt_iff_lt

theorem dayFromYear_le_iff (y z : Int) : dayFromYear y ≤ dayFromYear z ↔ y ≤ z := by
  rw [← Int.not_lt, dayFromYear_lt_iff, Int.not_lt]

/-! ## 2. The year of an instant -/

/-- The day of the instant is a day of the year. -/
def InYear (t y : Int) : Prop := dayFromYear y ≤ day t ∧ day t < dayFromYear (y + 1)

theorem timeFromYear_le_iff (t y : Int) : timeFromYear y ≤ t ↔ dayFromYear y ≤ day t := by
  unfold timeFromYear day
  rw [Int.le_ediv_iff_mul_le (by decide), Int.mul_comm]

theorem lt_timeFromYear_iff (t y : Int) : t < timeFromYear y ↔ day t < dayFromYear y := by
  rw [← Int.not_le, timeFromYear_le_iff, Int.not_le]

/-- There are no two such years. -/
theorem InYear.unique {t y z : Int} (hy : InYear t y) (hz : InYear t z) : y = z := by
  have hle : y < z + 1 := (dayFromYear_lt_iff _ _).mp (Int.lt_of_le_of_lt hy.1 hz.2)
  have hge : z < y + 1 := (dayFromYear_lt_iff _ _).mp (Int.lt_of_le_of_lt hz.1 hy.2)
  omega

/-! ## 3. The loops -/

/-- The loops begin at an estimate `e` and end in the year `y`: the first one takes some turns down, each from a
year that begins after the instant, and the second one some turns up, each to a year that does not. -/
def YearLoops (t e y : Int) : Prop :=
  ∃ down up : Nat, y = e - down + up ∧
    (∀ k < down, t < timeFromYear (e - k)) ∧ timeFromYear (e - down) ≤ t ∧
    (∀ k < up, timeFromYear (e - down + k + 1) ≤ t) ∧ t < timeFromYear (e - down + up + 1)

theorem correctDown_turns (t e : Int) : ∃ down : Nat, correctDown t e = e - down ∧
    (∀ k < down, t < timeFromYear (e - k)) ∧ timeFromYear (e - down) ≤ t := by
  fun_induction correctDown t e with
  | case1 e hlate ih =>
    obtain ⟨down, hend, hturns, hbegun⟩ := ih
    have hstep (k : Nat) : e - 1 - (k : Int) = e - (k + 1 : Nat) := by omega
    refine ⟨down + 1, hend.trans (hstep down), fun k hk => ?_, hstep down ▸ hbegun⟩
    cases k with
    | zero =>
      rw [Int.natCast_zero, Int.sub_zero]
      exact hlate
    | succ k => exact hstep k ▸ hturns k (Nat.lt_of_succ_lt_succ hk)
  | case2 e hbegun =>
    refine ⟨0, (Int.sub_zero e).symm, fun k hk => absurd hk (Nat.not_lt_zero k), ?_⟩
    rw [Int.natCast_zero, Int.sub_zero]
    exact Int.not_lt.mp hbegun

theorem correctUp_turns (t e : Int) : ∃ up : Nat, correctUp t e = e + up ∧
    (∀ k < up, timeFromYear (e + k + 1) ≤ t) ∧ t < timeFromYear (e + up + 1) := by
  fun_induction correctUp t e with
  | case1 e hearly ih =>
    obtain ⟨up, hend, hturns, hlast⟩ := ih
    have hstep (k : Nat) : e + 1 + (k : Int) = e + (k + 1 : Nat) := by omega
    refine ⟨up + 1, hend.trans (hstep up), fun k hk => ?_, hstep up ▸ hlast⟩
    cases k with
    | zero =>
      rw [Int.natCast_zero, Int.add_zero]
      exact hearly
    | succ k => exact hstep k ▸ hturns k (Nat.lt_of_succ_lt_succ hk)
  | case2 e hlast =>
    refine ⟨0, (Int.add_zero e).symm, fun k hk => absurd hk (Nat.not_lt_zero k), ?_⟩
    rw [Int.natCast_zero, Int.add_zero]
    exact Int.not_le.mp hlast

theorem yearLoops_correct (t e : Int) : YearLoops t e (correctUp t (correctDown t e)) := by
  obtain ⟨down, hdown, hturns, hbegun⟩ := correctDown_turns t e
  obtain ⟨up, hup, hturns', hlast⟩ := correctUp_turns t (correctDown t e)
  rw [hdown] at hup hturns' hlast
  exact ⟨down, up, by rw [hdown, hup], hturns, hbegun, hturns', hlast⟩

/-- The second loop goes on from a year that has begun only to years that have. -/
theorem YearLoops.inYear {t e y : Int} (h : YearLoops t e y) : InYear t y := by
  obtain ⟨down, up, rfl, _, hbegun, hturns, hlast⟩ := h
  refine ⟨?_, (lt_timeFromYear_iff t _).mp hlast⟩
  rw [← timeFromYear_le_iff]
  cases up with
  | zero =>
    rw [Int.natCast_zero, Int.add_zero]
    exact hbegun
  | succ k =>
    rw [Int.natCast_succ, ← Int.add_assoc]
    exact hturns k (Nat.lt_succ_self k)

theorem inYear_yearFromTime (t : Int) : InYear t (yearFromTime t) := (yearLoops_correct t _).inYear

/-- **The loops end in the year of the instant, wherever they begin.** -/
theorem yearLoops_yearFromTime (t e : Int) : YearLoops t e (yearFromTime t) := by
  have hloops := yearLoops_correct t e
  rwa [hloops.inYear.unique (inYear_yearFromTime t)] at hloops

/-- **The year of an instant is the only one that holds its day.** -/
theorem yearFromTime_eq_iff (t y : Int) : yearFromTime t = y ↔ InYear t y := by
  constructor
  · rintro rfl
    exact inYear_yearFromTime t
  · exact (inYear_yearFromTime t).unique

/-- Instants of a year are of years in the same order. -/
theorem yearFromTime_lt_iff (t y : Int) : yearFromTime t < y ↔ day t < dayFromYear y := by
  obtain ⟨hbegun, hlast⟩ := inYear_yearFromTime t
  constructor
  · intro hlt
    exact Int.lt_of_lt_of_le hlast ((dayFromYear_le_iff _ _).mpr hlt)
  · intro hday
    exact (dayFromYear_lt_iff _ _).mp (Int.lt_of_le_of_lt hbegun hday)

end Calendar

namespace Calendar

/-! ## 4. Months -/

/-- The days of a month, counted from zero. -/
def daysInMonth (month : Nat) (leap : Bool) : Int :=
  if month = 1 then if leap then 29 else 28
  else if month = 3 ∨ month = 5 ∨ month = 8 ∨ month = 10 then 30 else 31

/-- **A month follows the one before it.** -/
theorem monthStart_succ {month : Nat} (h : month < 12) (leap : Bool) :
    monthStart (month + 1) leap = monthStart month leap + daysInMonth month leap := by
  revert month leap
  decide

theorem monthStart_zero (leap : Bool) : monthStart 0 leap = 0 := by cases leap <;> rfl

/-- The last month ends with the year. -/
theorem monthStart_twelve (y : Int) : monthStart 12 (isLeapYear y) = daysInYear y := by
  unfold daysInYear
  cases isLeapYear y <;> rfl

theorem daysInMonth_pos (month : Nat) (leap : Bool) : 0 < daysInMonth month leap := by
  unfold daysInMonth
  split
  · split <;> decide
  · split <;> decide

theorem monthStart_mono {month other : Nat} (hle : month ≤ other) (h : other ≤ 12) (leap : Bool) :
    monthStart month leap ≤ monthStart other leap := by
  induction hle with
  | refl => exact Int.le_refl _
  | @step n _ ih =>
    have hpos := daysInMonth_pos n leap
    have hfirst := ih (Nat.le_of_succ_le h)
    rw [Nat.succ_eq_add_one, monthStart_succ h leap]
    omega

/-- The month that is found holds the day, if one of those that are searched does. -/
theorem lastMonth_holds {d : Int} {leap : Bool} {n : Nat} (hn : 0 < n) (hfirst : 0 ≤ d)
    (hlast : d < monthStart n leap) :
    lastMonth d leap n < n ∧ monthStart (lastMonth d leap n) leap ≤ d ∧
      d < monthStart (lastMonth d leap n + 1) leap := by
  induction n with
  | zero => exact absurd hn (Nat.lt_irrefl 0)
  | succ n ih =>
    unfold lastMonth
    by_cases hbegun : monthStart n leap ≤ d
    · rw [if_pos hbegun]
      exact ⟨Nat.lt_succ_self n, hbegun, hlast⟩
    · rw [if_neg hbegun]
      have hpos : 0 < n := by
        refine Nat.pos_of_ne_zero fun hzero => hbegun ?_
        rw [hzero, monthStart_zero]
        exact hfirst
      obtain ⟨hlt, hholds⟩ := ih hpos (Int.not_le.mp hbegun)
      exact ⟨Nat.lt_succ_of_lt hlt, hholds⟩

/-- There are no two such months. -/
theorem month_unique {d : Int} {leap : Bool} {month other : Nat} (hmonth : month < 12) (hother : other < 12)
    (h : monthStart month leap ≤ d ∧ d < monthStart (month + 1) leap)
    (h' : monthStart other leap ≤ d ∧ d < monthStart (other + 1) leap) : month = other := by
  rcases Nat.lt_trichotomy month other with hlt | heq | hgt
  · have := monthStart_mono hlt (Nat.le_of_lt hother) leap
    rw [Nat.succ_eq_add_one] at this
    omega
  · exact heq
  · have := monthStart_mono hgt (Nat.le_of_lt hmonth) leap
    rw [Nat.succ_eq_add_one] at this
    omega

/-! ## 5. Dates -/

/-- A date of the calendar, months counted from zero. -/
structure IsDate (year : Int) (month : Nat) (date : Int) : Prop where
  month_lt : month < 12
  one_le : 1 ≤ date
  le_days : date ≤ daysInMonth month (isLeapYear year)

/-- The day of a date. -/
def dayOf (year : Int) (month : Nat) (date : Int) : Int :=
  dayFromYear year + monthStart month (isLeapYear year) + date - 1

section Instant

variable (t : Int)

theorem dayWithinYear_bounds : 0 ≤ dayWithinYear t ∧ dayWithinYear t < daysInYear (yearFromTime t) := by
  obtain ⟨hbegun, hlast⟩ := inYear_yearFromTime t
  rw [dayFromYear_succ] at hlast
  unfold dayWithinYear
  omega

/-- The month of an instant holds its day. -/
theorem monthFromTime_holds : monthFromTime t < 12 ∧
    monthStart (monthFromTime t) (isLeapYear (yearFromTime t)) ≤ dayWithinYear t ∧
    dayWithinYear t < monthStart (monthFromTime t + 1) (isLeapYear (yearFromTime t)) := by
  obtain ⟨hfirst, hlast⟩ := dayWithinYear_bounds t
  rw [← monthStart_twelve] at hlast
  exact lastMonth_holds (by decide) hfirst hlast

/-- **The year, month and day of an instant are a date of the calendar.** -/
theorem isDate_fields : IsDate (yearFromTime t) (monthFromTime t) (dateFromTime t) := by
  obtain ⟨hlt, hbegun, hlast⟩ := monthFromTime_holds t
  rw [monthStart_succ hlt] at hlast
  refine ⟨hlt, ?_, ?_⟩
  · unfold dateFromTime
    omega
  · unfold dateFromTime
    omega

/-- The date gives the day back. -/
theorem dayOf_fields : dayOf (yearFromTime t) (monthFromTime t) (dateFromTime t) = day t := by
  unfold dayOf dateFromTime dayWithinYear
  omega

end Instant

section Date

variable {year : Int} {month : Nat} {date : Int} (h : IsDate year month date)

include h

/-- The day of a date is in its year and its month. -/
theorem IsDate.bounds : dayFromYear year + monthStart month (isLeapYear year) ≤ dayOf year month date ∧
    dayOf year month date < dayFromYear year + monthStart (month + 1) (isLeapYear year) ∧
    dayFromYear year ≤ dayOf year month date ∧ dayOf year month date < dayFromYear (year + 1) := by
  obtain ⟨hmonth, hone, hdays⟩ := h
  have hfirst := monthStart_mono (Nat.zero_le month) (Nat.le_of_lt hmonth) (isLeapYear year)
  have hlast := monthStart_mono hmonth (Nat.le_refl 12) (isLeapYear year)
  rw [monthStart_zero] at hfirst
  rw [Nat.succ_eq_add_one, monthStart_twelve, monthStart_succ hmonth] at hlast
  rw [monthStart_succ hmonth, dayFromYear_succ]
  unfold dayOf
  omega

/-- **An instant on the day of a date has this date.** -/
theorem IsDate.fields {t : Int} (ht : day t = dayOf year month date) :
    yearFromTime t = year ∧ monthFromTime t = month ∧ dateFromTime t = date := by
  obtain ⟨hbegun, hlast, hyear⟩ := h.bounds
  rw [← ht] at hbegun hlast hyear
  have hyear : yearFromTime t = year := (yearFromTime_eq_iff t year).mpr hyear
  obtain ⟨hlt, hholds⟩ := monthFromTime_holds t
  have hwithin : dayWithinYear t = day t - dayFromYear year := by
    unfold dayWithinYear
    rw [hyear]
  rw [hyear] at hholds
  have hmonth : monthFromTime t = month := by
    refine month_unique hlt h.month_lt hholds ⟨?_, ?_⟩ <;> omega
  refine ⟨hyear, hmonth, ?_⟩
  unfold dateFromTime
  rw [hwithin, hmonth, hyear, ht]
  unfold dayOf
  omega

end Date

/-! ## 6. Times of day -/

/-- A time of day. -/
structure IsClock (hour minute second ms : Int) : Prop where
  hour : 0 ≤ hour ∧ hour < 24
  minute : 0 ≤ minute ∧ minute < 60
  second : 0 ≤ second ∧ second < 60
  ms : 0 ≤ ms ∧ ms < 1000

/-- The milliseconds of a time of day. -/
def clockOf (hour minute second ms : Int) : Int :=
  hour * msPerHour + minute * msPerMinute + second * msPerSecond + ms

/-- **The hour, minute, second and millisecond of an instant are a time of day.** -/
theorem isClock_fields (t : Int) :
    IsClock (hourFromTime t) (minuteFromTime t) (secondFromTime t) (msFromTime t) := by
  unfold hourFromTime minuteFromTime secondFromTime msFromTime timeWithinDay msPerDay msPerHour msPerMinute msPerSecond
  constructor <;> omega

/-- The time of day gives the milliseconds of the day back. -/
theorem clockOf_fields (t : Int) :
    clockOf (hourFromTime t) (minuteFromTime t) (secondFromTime t) (msFromTime t) = timeWithinDay t := by
  unfold clockOf hourFromTime minuteFromTime secondFromTime msFromTime timeWithinDay msPerDay msPerHour msPerMinute
    msPerSecond
  omega

theorem IsClock.bounds {hour minute second ms : Int} (h : IsClock hour minute second ms) :
    0 ≤ clockOf hour minute second ms ∧ clockOf hour minute second ms < msPerDay := by
  obtain ⟨hhour, hminute, hsecond, hms⟩ := h
  unfold clockOf msPerDay msPerHour msPerMinute msPerSecond
  omega

/-- The day of the week is one of seven. -/
theorem weekDay_bounds (t : Int) : 0 ≤ weekDay t ∧ weekDay t < 7 := by
  unfold weekDay
  omega

/-! ## 7. Instants -/

/-- The instant of a date and a time of day. -/
def instantOf (year : Int) (month : Nat) (date hour minute second ms : Int) : Int :=
  dayOf year month date * msPerDay + clockOf hour minute second ms

/-- **The fields of an instant give it back.** -/
theorem instantOf_fields (t : Int) :
    instantOf (yearFromTime t) (monthFromTime t) (dateFromTime t) (hourFromTime t) (minuteFromTime t)
      (secondFromTime t) (msFromTime t) = t := by
  unfold instantOf
  rw [dayOf_fields, clockOf_fields, day, timeWithinDay, Int.mul_comm]
  exact Int.mul_ediv_add_emod t msPerDay

/-- What an instant is made of. -/
structure HasFields (t year : Int) (month : Nat) (date hour minute second ms : Int) : Prop where
  year : yearFromTime t = year
  month : monthFromTime t = month
  date : dateFromTime t = date
  hour : hourFromTime t = hour
  minute : minuteFromTime t = minute
  second : secondFromTime t = second
  ms : msFromTime t = ms

/-- **A date of the calendar and a time of day are the fields of their instant.** -/
theorem fields_instantOf {year : Int} {month : Nat} {date hour minute second ms : Int}
    (hdate : IsDate year month date) (hclock : IsClock hour minute second ms) :
    HasFields (instantOf year month date hour minute second ms) year month date hour minute second ms := by
  have hbounds := hclock.bounds
  have hday : day (instantOf year month date hour minute second ms) = dayOf year month date := by
    unfold day instantOf
    unfold msPerDay at hbounds ⊢
    omega
  obtain ⟨hyear, hmonth, hdate'⟩ := hdate.fields hday
  obtain ⟨hhour, hminute, hsecond, hms⟩ := hclock
  refine ⟨hyear, hmonth, hdate', ?_, ?_, ?_, ?_⟩
  all_goals
    unfold instantOf clockOf msPerDay msPerHour msPerMinute msPerSecond
  · unfold hourFromTime timeWithinDay msPerDay msPerHour
    omega
  · unfold minuteFromTime msPerMinute
    omega
  · unfold secondFromTime msPerSecond
    omega
  · unfold msFromTime msPerSecond
    omega

end Calendar

end Ecma51
