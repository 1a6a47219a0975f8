import Ecma51.Calendar.Rounded

/-!
# Time values

A time value is a double: not-a-number for no date at all, else whole milliseconds since the start of
1970. This module composes time values from calendar fields and moves them between world time and
local time.

* `makeTime`, `makeDay`, `makeDate`, `timeClip`: composition.
* `Zone`: a fixed number of minutes east of world time, as far as it reports it; `localTime` and
  `universalTime`, for whatever a zone reports.
* `Field.value`: the field of a time value as a number. A remainder of zero keeps the sign of what
  was divided, so some fields of instants before 1970 are negative zero.
-/

namespace Ecma51

-- powers mean the same whether or not there are other instances in scope
attribute [local instance (high)] instPowNat

namespace Calendar

/-! ## 1. Composition -/

/-- The largest size of a time value. -/
def maxTime : Double := Double.ofNat 8640000000000000

/-- Milliseconds of a time of day; not-a-number unless all parts are finite. -/
def makeTime (hour minute second ms : Double) : Double :=
  if hour.isFinite && minute.isFinite && second.isFinite && ms.isFinite then
    hour.toInteger * Double.ofInt msPerHour + minute.toInteger * Double.ofInt msPerMinute +
      second.toInteger * Double.ofInt msPerSecond + ms.toInteger
  else .nan

/-- The day of a calendar date, months past the year's end carrying over; not-a-number unless all
parts are finite and the year is within 400000 years of zero. -/
def makeDay (year month date : Double) : Double :=
  if year.isFinite && month.isFinite && date.isFinite then
    let m := month.toInteger
    let y := year.toInteger + (m / 12).floor
    if Double.lt (Double.ofNat 400000) y.abs then .nan
    else
      let yi := y.truncInt
      let start := monthStart (m.remEuclid 12).truncInt.toNat (isLeapYear yi)
      Double.ofInt (dayFromYear yi + start) + date.toInteger - 1
  else .nan

/-- The instant of a day and a time of day. -/
def makeDate (day time : Double) : Double :=
  if day.isFinite && time.isFinite then day * Double.ofInt msPerDay + time else .nan

/-- The whole part of an instant within range, not-a-number otherwise; zero is positive. -/
def timeClip (time : Double) : Double :=
  if !time.isFinite || Double.lt maxTime time.abs then .nan else time.toInteger + .zero

/-! ## 2. Local time -/

/-- What a time zone reports: the offset of its local time from world time, in milliseconds, at an instant in
milliseconds, where it is known. -/
abbrev ZoneReport := Int → Option Int

/-- A time zone with one fixed offset. -/
structure Zone where
  /-- Minutes east of world time. -/
  minutes : Int
  deriving DecidableEq, Inhabited

/-- World time itself. -/
def Zone.universal : Zone := ⟨0⟩

/-- The instants, in milliseconds, for which the zone's offset is known. -/
def Zone.knows (t : Int) : Bool := -8334601228800000 ≤ t && t ≤ 8210266876799999

/-- The zone's offset where it is known. -/
def Zone.report (zone : Zone) : ZoneReport := fun t =>
  if Zone.knows t then some (zone.minutes * msPerMinute) else none

instance : Coe Zone ZoneReport := ⟨Zone.report⟩

/-- The offset at an instant in milliseconds. It is zero where none is reported; what is no time value is not
asked about. -/
def offsetAt (zone : ZoneReport) (t : Double) : Int :=
  if !t.isFinite || Double.lt maxTime t.abs then 0 else (zone t.truncInt).getD 0

/-- World time to local time. -/
def localTime (zone : ZoneReport) (t : Double) : Double := t + Double.ofInt (offsetAt zone t)

/-- Local time to world time: the offset is looked up at the instant that the offset of the local
time itself suggests. -/
def universalTime (zone : ZoneReport) (t : Double) : Double :=
  t - Double.ofInt (offsetAt zone (t - Double.ofInt (offsetAt zone t)))

/-! ## 3. Fields -/

/-- The fields that make up an instant, from the largest to the smallest. -/
inductive Field where
  | year
  | month
  | date
  | hour
  | minute
  | second
  | millisecond
  deriving DecidableEq, Repr

/-- All fields, from the largest to the smallest. -/
def Field.all : List Field := [.year, .month, .date, .hour, .minute, .second, .millisecond]

/-- The place of a field in `Field.all`. -/
def Field.index : Field → Nat
  | .year => 0
  | .month => 1
  | .date => 2
  | .hour => 3
  | .minute => 4
  | .second => 5
  | .millisecond => 6

/-- A remainder as a number: zero has the sign of what was divided. -/
def remainderOf (dividend value : Int) : Double :=
  if value = 0 then .finite (decide (dividend < 0)) .zero else .ofInt value

/-- A field of an instant. -/
def Field.at (t : Int) : Field → Double
  | .year => .ofInt (yearFromTime t)
  | .month => .ofNat (monthFromTime t)
  | .date => .ofInt (dateFromTime t)
  | .hour => if timeWithinDay t = 0 then remainderOf t 0 else .ofInt (hourFromTime t)
  | .minute => remainderOf t (minuteFromTime t)
  | .second => remainderOf t (secondFromTime t)
  | .millisecond => remainderOf t (msFromTime t)

/-- The whole milliseconds of a time, if doubles hold all whole numbers up to it. For these times the
rules on integers and the rules on doubles give the same fields. -/
def instant? (t : Double) : Option Int :=
  t.toInt?.filter fun i => i.natAbs ≤ 2 ^ (53 : Nat)

/-- A field of a time by rounded arithmetic. -/
def Field.rounded (t : Double) : Field → Double
  | .year => Rounded.yearFromTime t
  | .month => .ofNat (Rounded.monthFromTime t)
  | .date => Rounded.dateFromTime t
  | .hour => Rounded.hourFromTime t
  | .minute => Rounded.minuteFromTime t
  | .second => Rounded.secondFromTime t
  | .millisecond => Rounded.msFromTime t

/-- A field of a time value. -/
def Field.value (f : Field) (t : Double) : Double :=
  match instant? t with
  | some i => f.at i
  | none => f.rounded t

/-- The day of the week of a time value, Sunday being zero. -/
def weekDayValue (t : Double) : Double :=
  match instant? t with
  | some i => remainderOf (day i + 4) (weekDay i)
  | none => Rounded.weekDay t

end Calendar

end Ecma51
