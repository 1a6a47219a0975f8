import Ecma51.Calendar.TimeValue
import Ecma51.Text.Basic

/-!
# Dates as text

The three notations of an instant: the local one with weekday and zone, the world-time one of
message headers, and the ISO one.

* `formatLocal`, `formatUtc`, `formatIso`: the notations.
* `datePart`, `clockPart`, `zonePart`: their pieces.
-/

namespace Ecma51

-- powers mean the same whether or not there are other instances in scope
attribute [local instance (high)] instPowNat

namespace Calendar

/-- A number with leading zeros up to a width. -/
def padded (width n : Nat) : List Char :=
  let ds := Nat.toDigits 10 n
  List.replicate (width - ds.length) ('0') ++ ds

/-- The names of the days of the week. -/
def weekDayNames : List String := ["Sun", "Mon", "Tue", "Wed", "Thu", "Fri", "Sat"]

/-- The names of the months. -/
def monthNames : List String :=
  ["Jan", "Feb", "Mar", "Apr", "May", "Jun", "Jul", "Aug", "Sep", "Oct", "Nov", "Dec"]

/-- An integer with leading zeros up to a width in which the sign counts. -/
def paddedInt (width : Nat) (i : Int) : List Char :=
  if i < 0 then '-' :: padded (width - 1) i.natAbs else padded width i.toNat

/-- The calendar fields of a time as they are shown. -/
structure Shown where
  year : Int
  month : Nat
  date : Int
  weekDay : Nat
  hour : Nat
  minute : Nat
  second : Nat
  ms : Nat

/-- The integer that stands for a year: the infinities give the largest ones of 63 bits, and
not-a-number gives zero. -/
def yearInt : Double → Int
  | .infinite s => Double.signed s (2 ^ (63 : Nat) - 1)
  | y => y.truncInt

/-- The fields of a time as they are shown. A time without a date shows zeros. -/
def Shown.ofTime (t : Double) : Shown :=
  match instant? t with
  | some i =>
    { year := yearFromTime i, month := monthFromTime i, date := dateFromTime i,
      weekDay := (Calendar.weekDay i).toNat, hour := (hourFromTime i).toNat,
      minute := (minuteFromTime i).toNat, second := (secondFromTime i).toNat,
      ms := (msFromTime i).toNat }
  | none =>
    { year := yearInt (Rounded.yearFromTime t), month := Rounded.monthFromTime t,
      date := (Rounded.dateFromTime t).truncInt, weekDay := (Rounded.weekDay t).truncInt.toNat,
      hour := (Rounded.hourFromTime t).truncInt.toNat,
      minute := (Rounded.minuteFromTime t).truncInt.toNat,
      second := (Rounded.secondFromTime t).truncInt.toNat,
      ms := (Rounded.msFromTime t).truncInt.toNat }

/-- A year of at least four digits, or a minus and six digits. -/
def yearChars (y : Int) : List Char :=
  if 0 ≤ y then padded 4 y.toNat else '-' :: padded 6 y.natAbs

/-- Weekday, month, day and year. -/
def datePart (s : Shown) : List Char :=
  (weekDayNames.getD s.weekDay "").toList ++ ' ' :: (monthNames.getD s.month "").toList ++
    ' ' :: paddedInt 2 s.date ++ ' ' :: yearChars s.year

/-- Hours, minutes and seconds. -/
def clockPart (s : Shown) : List Char :=
  padded 2 s.hour ++ ':' :: padded 2 s.minute ++ ':' :: padded 2 s.second

/-- The zone's offset at a world time, as hours and minutes. -/
def zonePart (zone : ZoneReport) (tv : Double) : List Char :=
  let offset := (offsetAt zone tv).tdiv msPerMinute
  "GMT".toList ++ (if offset < 0 then '-' else '+') :: padded 2 (offset.natAbs / 60) ++
    padded 2 (offset.natAbs % 60)

/-- What stands for a date that is none. -/
def invalidDate : List Char := "Invalid Date".toList

/-- The local notation: `Thu Jan 01 1970 00:00:00 GMT+0000`. -/
def formatLocal (zone : ZoneReport) (tv : Double) : List Char :=
  if tv.isNaN then invalidDate
  else
    let s := Shown.ofTime (localTime zone tv)
    datePart s ++ ' ' :: clockPart s ++ ' ' :: zonePart zone tv

/-- The world-time notation: `Thu, 01 Jan 1970 00:00:00 GMT`. -/
def formatUtc (tv : Double) : List Char :=
  if tv.isNaN then invalidDate
  else
    let s := Shown.ofTime tv
    (weekDayNames.getD s.weekDay "").toList ++ ',' :: ' ' :: paddedInt 2 s.date ++
      ' ' :: (monthNames.getD s.month "").toList ++ ' ' :: yearChars s.year ++
      ' ' :: clockPart s ++ " GMT".toList

/-- A year of four digits, or a sign and six digits. -/
def isoYearChars (s : Shown) (known : Bool) : List Char :=
  if known && 0 ≤ s.year && s.year ≤ 9999 then padded 4 s.year.toNat
  else (if s.year < 0 then '-' else '+') :: padded 6 s.year.natAbs

/-- The ISO notation: `1970-01-01T00:00:00.000Z`. -/
def formatIso (tv : Double) : List Char :=
  let s := Shown.ofTime tv
  isoYearChars s tv.isFinite ++ '-' :: padded 2 (s.month + 1) ++ '-' :: paddedInt 2 s.date ++
    'T' :: clockPart s ++ '.' :: padded 3 s.ms ++ ['Z']

end Calendar

end Ecma51
