import Ecma51.Calendar.Format
import Ecma51.Number.Decimal
import Ecma51.Text.Scalar

/-!
# Reading dates

Date strings in the ISO notation, and in the two notations that the library writes itself. The
alternatives are ordered: a text that begins like an ISO date is read as one or not at all.

* `DateText.read?`: the fields and the zone that a string names.
* `parseDate`: the time value of a string, not-a-number if it is no date.
-/

namespace Ecma51

namespace Calendar

/-- What a date string says. Months count from zero; without a zone the date is local. -/
structure DateText where
  year : Double := 1970
  month : Int := 0
  date : Nat := 1
  hour : Nat := 0
  minute : Nat := 0
  second : Nat := 0
  ms : Nat := 0
  /-- Minutes east of world time. -/
  offset : Option Double := some .zero
  deriving DecidableEq

namespace DateText

/-! ## 1. Readers -/

/-- A reader consumes characters from the front or fails. -/
abbrev Reader := StateT (List Char) Option

/-- The given character. -/
def char (c : Char) : Reader Unit := fun
  | d :: ds => if c = d then some ((), ds) else none
  | [] => none

/-- The given word. -/
def word (w : String) : Reader Unit := fun s =>
  if w.toList.isPrefixOf s then some ((), s.drop w.length) else none

/-- The first of the given words that stands here, by its place in the list. -/
def oneOf : List String → Reader Nat
  | [] => failure
  | w :: ws => (do word w; return 0) <|> (do return (← oneOf ws) + 1)

/-- The reader if it succeeds, otherwise nothing is consumed. -/
def optionally {α : Type} (p : Reader α) : Reader (Option α) := (some <$> p) <|> pure none

/-- As many decimal digits as stand here, `most` at most, if they are at least `least`. -/
def digits (least most : Nat) : Reader (List Nat) := fun s =>
  let ds := (s.take most).takeWhile Char.isDigit
  if least ≤ ds.length then some (ds.map fun c => c.toNat - 48, s.drop ds.length) else none

/-- Exactly `n` digits as a number. -/
def number (n : Nat) : Reader Nat := Decimal.valueOf <$> digits n n

/-- A sign; true for minus. -/
def sign : Reader Bool := (do char ('-'); return true) <|> (do char ('+'); return false)

/-- A number with a sign; zero can be negative. -/
def signedDouble (negative : Bool) (n : Nat) : Double := .ofQuotient negative n 1 0

/-! ## 2. The ISO notation -/

/-- A year of four digits, or of a sign and six digits. -/
def isoYear : Reader Double :=
  (do
    let s ← sign
    return signedDouble s (← number 6)) <|>
  (do return signedDouble false (← number 4))

/-- A zone: `Z`, or a sign with hours and minutes. -/
def isoOffset : Reader Double :=
  (do char ('Z'); return .zero) <|>
  (do
    let s ← sign
    let hours ← number 2
    char (':')
    let minutes ← number 2
    return signedDouble s (hours * 60) + signedDouble s minutes)

/-- The thousandths of a fraction of a second. -/
def thousandths (ds : List Nat) : Nat := Decimal.valueOf (Decimal.fit 3 ds)

/-- A fraction of a second after the point, in thousandths. -/
def isoFraction : Reader Nat := do
  char ('.')
  thousandths <$> fun s => digits 1 s.length s

/-- Seconds after a colon, and thousandths of a second. -/
def isoSeconds : Reader (Nat × Nat) := do
  char (':')
  let second ← number 2
  return (second, (← optionally isoFraction).getD 0)

/-- A time of day after the mark `T`. -/
def isoTime (d : DateText) : Reader DateText := do
  char ('T')
  let hour ← number 2
  char (':')
  let minute ← number 2
  let seconds ← optionally isoSeconds
  let offset ← optionally isoOffset
  let (second, ms) := seconds.getD (0, 0)
  return { d with hour, minute, second, ms, offset := some (offset.getD .zero) }

/-- A day of the month after a hyphen. -/
def isoDay : Reader Nat := do
  char ('-')
  number 2

/-- A month after a hyphen, with an optional day. -/
def isoMonth : Reader (Nat × Option Nat) := do
  char ('-')
  let month ← number 2
  return (month, ← optionally isoDay)

/-- A date in the ISO notation, with an optional time. -/
def iso : Reader DateText := do
  let year ← isoYear
  let d : DateText :=
    match ← optionally isoMonth with
    | none => { year }
    | some (month, date) => { year, month := (month : Int) - 1, date := date.getD 1 }
  return (← optionally (isoTime d)).getD d

/-! ## 3. The other notations -/

/-- A year of up to six digits, possibly negative. -/
def plainYear : Reader Double := do
  let s ← optionally (char ('-'))
  return signedDouble s.isSome (Decimal.valueOf (← digits 1 6))

/-- A day of the month of one or two digits. -/
def plainDay : Reader Nat := Decimal.valueOf <$> digits 1 2

/-- Month, day and year. -/
def monthFirst : Reader DateText := do
  let month ← oneOf monthNames
  char (' ')
  let date ← plainDay
  let _ ← optionally (char (','))
  char (' ')
  return { year := ← plainYear, month := (month : Int), date, offset := none }

/-- Day, month and year. -/
def dayFirst : Reader DateText := do
  let date ← plainDay
  char (' ')
  let month ← oneOf monthNames
  char (' ')
  return { year := ← plainYear, month := (month : Int), date, offset := none }

/-- A date in one of the two orders. -/
def plainDate : Reader DateText := monthFirst <|> dayFirst

/-- Seconds after a colon. -/
def plainSeconds : Reader Nat := do
  char (':')
  number 2

/-- Hours and minutes, with optional seconds. -/
def clock : Reader (Nat × Nat × Nat) := do
  let hour ← plainDay
  char (':')
  let minute ← number 2
  return (hour, minute, (← optionally plainSeconds).getD 0)

/-- An offset of four digits, in minutes. -/
def zoneShift : Reader Double := do
  let s ← sign
  let v ← number 4
  return signedDouble s (v / 100 * 60 + v % 100)

/-- The name of world time with an optional offset. -/
def zoneOffset : Reader Double := do
  let _ ← oneOf ["GMT", "UTC", "Z"]
  return (← optionally zoneShift).getD .zero

/-- A remark in round brackets. -/
def remark : Reader Unit := do
  char ('(')
  modify fun s => s.dropWhile (· != ')')
  char (')')

/-- A day of the week, which tells nothing, with a space after it. -/
def weekDayMark : Reader Unit := do
  let _ ← oneOf weekDayNames
  let _ ← optionally (char (','))
  char (' ')

/-- What stands after a space. -/
def spaced {α : Type} (p : Reader α) : Reader α := do
  char (' ')
  p

/-- A date in one of the notations with names. -/
def named : Reader DateText := do
  let _ ← optionally weekDayMark
  let d ← plainDate
  let time ← optionally (spaced clock)
  let offset ← optionally (spaced zoneOffset)
  let _ ← optionally (spaced remark)
  let (hour, minute, second) := time.getD (0, 0, 0)
  return { d with hour, minute, second, offset }

/-! ## 4. Whole strings -/

/-- The fields are within their ranges; the hour 24 stands only for midnight. -/
def inRange (d : DateText) : Bool :=
  0 ≤ d.month && d.month ≤ 11 && 1 ≤ d.date && d.date ≤ 31 && d.hour ≤ 24 && d.minute ≤ 59 &&
    d.second ≤ 59 && (d.hour < 24 || (d.minute == 0 && d.second == 0 && d.ms == 0))

/-- Characters stripped from the ends of a date string. -/
def isBlank (c : Char) : Bool :=
  let n := c.toNat
  (0x9 ≤ n && n ≤ 0xD) || n == 0x20 || n == 0x85 || n == 0xA0 || n == 0x1680 ||
    (0x2000 ≤ n && n ≤ 0x200A) || n == 0x2028 || n == 0x2029 || n == 0x202F || n == 0x205F ||
    n == 0x3000

/-- What a string says as a date, if it is one. -/
def read? (t : Text) : Option DateText :=
  let body := ((t.chars.dropWhile isBlank).reverse.dropWhile isBlank).reverse
  match (iso <|> named) body with
  | some (d, []) => if d.inRange then some d else none
  | _ => none

end DateText

/-- The time value of a date string. -/
def parseDate (zone : ZoneReport) (t : Text) : Double :=
  match DateText.read? t with
  | none => .nan
  | some d =>
    let date := makeDate (makeDay d.year (.ofInt d.month) (.ofNat d.date))
      (makeTime (.ofNat d.hour) (.ofNat d.minute) (.ofNat d.second) (.ofNat d.ms))
    match d.offset with
    | some offset => timeClip (date - offset * .ofInt msPerMinute)
    | none => timeClip (universalTime zone date)

end Calendar

end Ecma51
