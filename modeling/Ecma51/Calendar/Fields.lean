/-!
# Calendar fields

The proleptic Gregorian calendar on integers. An instant is a number of milliseconds since the start
of 1970; all divisions go to the floor, so instants before it need no special case.

* `dayFromYear`: the day on which a year begins.
* `yearFromTime`: the year that holds an instant, from an estimate that is corrected down and up.
* `monthFromTime`, `dateFromTime`, `weekDay`, `hourFromTime`, …: the other fields.
-/

namespace Ecma51

namespace Calendar

/-! ## 1. Units -/

/-- Milliseconds of a second. -/
def msPerSecond : Int := 1000

/-- Milliseconds of a minute. -/
def msPerMinute : Int := 60000

/-- Milliseconds of an hour. -/
def msPerHour : Int := 3600000

/-- Milliseconds of a day. -/
def msPerDay : Int := 86400000

/-- The day that holds an instant. -/
def day (t : Int) : Int := t / msPerDay

/-- Milliseconds since the start of the day. -/
def timeWithinDay (t : Int) : Int := t % msPerDay

/-! ## 2. Years -/

/-- The day on which a year begins. -/
def dayFromYear (y : Int) : Int :=
  365 * (y - 1970) + (y - 1969) / 4 - (y - 1901) / 100 + (y - 1601) / 400

/-- The instant at which a year begins. -/
def timeFromYear (y : Int) : Int := msPerDay * dayFromYear y

/-- A year of 366 days. -/
def isLeapYear (y : Int) : Bool := (y % 4 == 0 && y % 100 != 0) || y % 400 == 0

/-- A year is at least 365 days long. -/
theorem dayFromYear_succ_le (y : Int) : dayFromYear y + 365 ≤ dayFromYear (y + 1) := by
  unfold dayFromYear; omega

/-- The last year, `y` or an earlier one, that begins at `t` or before. -/
def correctDown (t y : Int) : Int :=
  if t < timeFromYear y then correctDown t (y - 1) else y
termination_by (timeFromYear y - t).toNat
decreasing_by
  have h := dayFromYear_succ_le (y - 1)
  rw [Int.sub_add_cancel] at h
  simp only [timeFromYear, msPerDay] at *
  omega

/-- The first year, `y` or a later one, whose successor begins after `t`. -/
def correctUp (t y : Int) : Int :=
  if timeFromYear (y + 1) ≤ t then correctUp t (y + 1) else y
termination_by (t + 1 - timeFromYear (y + 1)).toNat
decreasing_by
  have h := dayFromYear_succ_le (y + 1)
  simp only [timeFromYear, msPerDay] at *
  omega

/-- A guess at the year of an instant, from the mean length of a year. -/
def estimateYear (t : Int) : Int := t * 10000 / (msPerDay * 3652425) + 1970

/-- The year that holds an instant. -/
def yearFromTime (t : Int) : Int := correctUp t (correctDown t (estimateYear t))

/-! ## 3. Months and days -/

/-- The day of a common year on which a month begins. -/
def commonMonthStart (month : Nat) : Int :=
  [0, 31, 59, 90, 120, 151, 181, 212, 243, 273, 304, 334].getD month 365

/-- The day of a year on which a month, counted from zero, begins. -/
def monthStart (month : Nat) (leap : Bool) : Int :=
  commonMonthStart month + if leap && 2 ≤ month then 1 else 0

/-- Days since the start of the year. -/
def dayWithinYear (t : Int) : Int := day t - dayFromYear (yearFromTime t)

/-- The last of the first `n` months that begins on day `d` or before. -/
def lastMonth (d : Int) (leap : Bool) : Nat → Nat
  | 0 => 0
  | n + 1 => if monthStart n leap ≤ d then n else lastMonth d leap n

/-- The month of an instant, counted from zero. -/
def monthFromTime (t : Int) : Nat := lastMonth (dayWithinYear t) (isLeapYear (yearFromTime t)) 12

/-- The day of the month of an instant, counted from one. -/
def dateFromTime (t : Int) : Int :=
  dayWithinYear t - monthStart (monthFromTime t) (isLeapYear (yearFromTime t)) + 1

/-- The day of the week, Sunday being zero. -/
def weekDay (t : Int) : Int := (day t + 4) % 7

/-! ## 4. Time of day -/

/-- Hours since the start of the day. -/
def hourFromTime (t : Int) : Int := timeWithinDay t / msPerHour

/-- Minutes since the start of the hour. -/
def minuteFromTime (t : Int) : Int := t / msPerMinute % 60

/-- Seconds since the start of the minute. -/
def secondFromTime (t : Int) : Int := t / msPerSecond % 60

/-- Milliseconds since the start of the second. -/
def msFromTime (t : Int) : Int := t % msPerSecond

end Calendar

end Ecma51
