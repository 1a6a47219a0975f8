import Ecma51.Calendar.Fields
import Ecma51.Number.Integral

/-!
# Calendar fields by rounded arithmetic

A time need not be a whole number of milliseconds, and a large one has no double beside it that is
one millisecond away. The fields of such a time come from the rules of the calendar with every step
done on doubles and rounded, so they may lie a little outside their usual ranges: just before midnight
the hour can be 24, and a very large time can fall on day 0 or 32 of a month. A time that is not
finite goes through the same rules and gives not-a-number.

* `Rounded.dayFromYear`, `Rounded.timeFromYear`: the start of a year.
* `Rounded.yearFromTime`: the year that holds a time, from an estimate that is corrected down and up.
* `Rounded.monthFromTime`, `Rounded.dateFromTime`, `Rounded.weekDay`, …: the other fields.
-/

namespace Ecma51

namespace Calendar

namespace Rounded

/-! ## 1. Days and years -/

/-- The day that holds a time. -/
def day (t : Double) : Double := (t / Double.ofInt msPerDay).floor

/-- Milliseconds since the start of the day. -/
def timeWithinDay (t : Double) : Double := t.remEuclid (Double.ofInt msPerDay)

/-- The day on which a year begins. -/
def dayFromYear (y : Double) : Double :=
  365 * (y - 1970) + ((y - 1969) / 4).floor - ((y - 1901) / 100).floor + ((y - 1601) / 400).floor

/-- The time at which a year begins. -/
def timeFromYear (y : Double) : Double := Double.ofInt msPerDay * dayFromYear y

/-- A year of 366 days. -/
def isLeapYear (y : Double) : Bool :=
  ((y % 4).isZero && !(y % 100).isZero) || (y % 400).isZero

/-- The last year, `y` or one of the `n` years before it, that begins at `t` or before. -/
def correctDown (t : Double) : Nat → Double → Double
  | 0, y => y
  | n + 1, y => if Double.lt t (timeFromYear y) then correctDown t n (y - 1) else y

/-- The first year, `y` or one of the `n` years after it, whose successor begins after `t`. -/
def correctUp (t : Double) : Nat → Double → Double
  | 0, y => y
  | n + 1, y => if Double.le (timeFromYear (y + 1)) t then correctUp t n (y + 1) else y

/-- A year of mean length, in milliseconds. -/
def msPerMeanYear : Double := Double.ofInt msPerDay * Double.ofDecimal false 3652425 (-4)

/-- A guess at the year of a time, from the mean length of a year. -/
def estimateYear (t : Double) : Double := (t / msPerMeanYear).floor + 1970

/-- How far, in years, an estimate is corrected at most. As long as years are told apart by doubles
the estimate is a few years off. -/
def maxCorrection : Nat := 1024

/-- The year that holds a time. -/
def yearFromTime (t : Double) : Double :=
  correctUp t maxCorrection (correctDown t maxCorrection (estimateYear t))

/-! ## 2. Months and days -/

/-- Days since the start of the year. -/
def dayWithinYear (t : Double) : Double := day t - dayFromYear (yearFromTime t)

/-- The day of a year on which a month, counted from zero, begins. -/
def monthStart (month : Nat) (leap : Bool) : Double := Double.ofInt (Calendar.monthStart month leap)

/-- The last of the first `n` months that begins on day `d` or before. -/
def lastMonth (d : Double) (leap : Bool) : Nat → Nat
  | 0 => 0
  | n + 1 => if Double.le (monthStart n leap) d then n else lastMonth d leap n

/-- The month of a time, counted from zero. -/
def monthFromTime (t : Double) : Nat := lastMonth (dayWithinYear t) (isLeapYear (yearFromTime t)) 12

/-- The day of the month of a time, counted from one. -/
def dateFromTime (t : Double) : Double :=
  dayWithinYear t - monthStart (monthFromTime t) (isLeapYear (yearFromTime t)) + 1

/-- The day of the week, Sunday being zero. -/
def weekDay (t : Double) : Double := (day t + 4).remEuclid 7

/-! ## 3. Time of day -/

/-- Hours since the start of the day. -/
def hourFromTime (t : Double) : Double := (timeWithinDay t / Double.ofInt msPerHour).floor

/-- Minutes since the start of the hour. -/
def minuteFromTime (t : Double) : Double := (t / Double.ofInt msPerMinute).floor.remEuclid 60

/-- Seconds since the start of the minute. -/
def secondFromTime (t : Double) : Double := (t / Double.ofInt msPerSecond).floor.remEuclid 60

/-- Milliseconds since the start of the second. -/
def msFromTime (t : Double) : Double := t.remEuclid (Double.ofInt msPerSecond)

end Rounded

end Calendar

end Ecma51
