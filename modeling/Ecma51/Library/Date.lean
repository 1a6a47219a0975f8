import Ecma51.Calendar.Format
import Ecma51.Calendar.Parse
import Ecma51.Operation.Method

/-!
# Dates

The constructor `Date` and its methods. A date object holds a time value; getters take it apart,
setters replace some of its fields and put it together again.

* `timeOfComponents`: the instant that year, month and so on give.
* `replaceFields`: what a setter does to a time value.
* `dateFunction`: the functions.
-/

namespace Ecma51

open Calendar

/-! ## 1. Receivers and instants -/

/-- The time value of the date object that a method was called on. -/
def thisTime (this : Value) (f : DateFunction) : Run (ObjectId × Double) := do
  match this with
  | .object o =>
    match ((← getHeap).object o).kind with
    | .date t => return (o, t)
    | _ => raise (.incompatibleReceiver "Date" f.name)
  | _ => raise (.incompatibleReceiver "Date" f.name)

/-- Replaces the time value of the date object that a method was called on by one that is worked out
from it, which is also the result. -/
def updateTime (this : Value) (f : DateFunction) (next : Double → Run Double) : Run Value := do
  let (o, t) ← thisTime this f
  let t ← next t
  modifyHeap fun h => h.modify o fun x => { x with kind := .date t }
  return .number t

/-- The present instant as a time value. -/
def presentTime : Run Double := return timeClip (← get).clock

/-- The instant of seven fields, from the year to the millisecond. -/
def composeFields (fields : List Double) : Double :=
  let field (f : Field) : Double := fields.getD f.index .nan
  makeDate (makeDay (field .year) (field .month) (field .date))
    (makeTime (field .hour) (field .minute) (field .second) (field .millisecond))

/-- A year of two digits belongs to the twentieth century. -/
def fullYearOf (year : Double) : Double :=
  let y := year.toInteger
  if !year.isNaN && Double.le .zero y && Double.le y 99 then 1900 + y else year

/-- The fields that are not given: no year and no month, the first day, midnight. -/
def defaultFields : List Double := [.nan, .nan, 1, .zero, .zero, .zero, .zero]

/-- The instant that up to seven values give, from the year to the millisecond. -/
def timeOfComponents (args : List Value) : Run Double := do
  let given ← (args.take 7).mapM toNumber
  let fields := given ++ defaultFields.drop given.length
  return composeFields (fields.modifyHead fullYearOf)

/-- The time value of a new date object. -/
def constructedTime (args : List Value) : Run Double := do
  let zone := (← get).zone.report
  match args with
  | [] => presentTime
  | [v] =>
    match ← toPrimitive v .default with
    | .string t => return parseDate zone t
    | v => return timeClip (← toNumber v)
  | args => return timeClip (universalTime zone (← timeOfComponents args))

/-! ## 2. Getters and setters -/

/-- The field of an instant that a getter gives. -/
def DateField.read : DateField → Double → Double
  | .fullYear => Field.year.value
  | .month => Field.month.value
  | .date => Field.date.value
  | .day => weekDayValue
  | .hours => Field.hour.value
  | .minutes => Field.minute.value
  | .seconds => Field.second.value
  | .milliseconds => Field.millisecond.value

/-- Where the fields that a setter replaces begin, and how many there are at most. -/
def DateField.span : DateField → Nat × Nat
  | .fullYear => (0, 3)
  | .month => (1, 2)
  | .date | .day => (2, 1)
  | .hours => (3, 4)
  | .minutes => (4, 3)
  | .seconds => (5, 2)
  | .milliseconds => (6, 1)

/-- A time value, in local time if so asked. -/
def inZone (zone : ZoneReport) (isLocal : Bool) (t : Double) : Double :=
  if isLocal then localTime zone t else t

/-- A time value with fields replaced. What is no date gets fields only if the year is among them;
the others are then those of the first instant. -/
def replaceFields (zone : ZoneReport) (isLocal : Bool) (t : Double) (first : Nat)
    (values : List Double) : Double :=
  if t.isNaN && first ≠ 0 then .nan
  else
    let shown := if t.isNaN then .zero else inZone zone isLocal t
    let fields := Field.all.map (·.value shown)
    let composed :=
      composeFields (fields.take first ++ values ++ fields.drop (first + values.length))
    timeClip (if isLocal then universalTime zone composed else composed)

/-- A time value with fields replaced from the arguments, one of which is always taken. -/
def withFields (field : DateField) (isLocal : Bool) (args : List Value) (t : Double) :
    Run Double := do
  let (first, most) := field.span
  let count := min (max args.length 1) most
  let values ← ((List.range count).map (argumentAt args)).mapM toNumber
  return replaceFields (← get).zone isLocal t first values

/-! ## 3. Texts -/

/-- The text that a method gives for an instant. -/
def DateFunction.write (zone : ZoneReport) (f : DateFunction) (t : Double) : List Char :=
  let shown := Shown.ofTime (localTime zone t)
  match f with
  | .toDateString | .toLocaleDateString => datePart shown
  | .toTimeString => clockPart shown ++ ' ' :: zonePart zone t
  | .toLocaleString => datePart shown ++ ' ' :: clockPart shown
  | .toLocaleTimeString => clockPart shown
  | .toUTCString => formatUtc t
  | _ => formatLocal zone t

/-- The value that stands for an object in JSON text: what `toISOString` gives, null for no date. -/
def dateJson (this : Value) : Run Value := do
  let o ← toObject this
  holding [.object o] do
    let nothingFinite :=
      match ← toPrimitive (.object o) .number with
      | .number x => !x.isFinite
      | _ => false
    if nothingFinite then return .null
    let f ← getNamed o "toISOString"
    if (← getHeap).isCallable f then callValue f (.object o) []
    else raise (.notAFunctionNamed "toISOString")

/-! ## 4. The functions -/

/-- The functions of `Date` and of its prototype. -/
def dateFunction (f : DateFunction) (this : Value) (args : List Value) : Run Value := do
  let zone := (← get).zone.report
  let first := argumentAt args 0
  match f with
  | .call => return .string (.ofChars (formatLocal zone (← presentTime)))
  | .construct =>
    let t ← constructedTime args
    return .object (← newObjectOf (.ofKind "Date" (some Intrinsic.datePrototype.id) (.date t)))
  | .parse => return .number (parseDate zone (← toText first))
  | .utc => return .number (timeClip (← timeOfComponents args))
  | .now => return .number (← presentTime)
  | .toJSON => dateJson this
  | .toISOString =>
    let (_, t) ← thisTime this f
    if t.isFinite then return .string (.ofChars (formatIso t)) else raise .invalidTimeValue
  | .valueOf | .getTime => return .number (← thisTime this f).2
  | .getField field isLocal =>
    let (_, t) ← thisTime this f
    return .number (if t.isNaN then .nan else field.read (inZone zone isLocal t))
  | .getTimezoneOffset =>
    let (_, t) ← thisTime this f
    return .number (if t.isNaN then .nan else (t - localTime zone t) / .ofInt msPerMinute)
  | .setTime => updateTime this f fun _ => return timeClip (← toNumber first)
  | .setField field isLocal => updateTime this f (withFields field isLocal args)
  | f =>
    let (_, t) ← thisTime this f
    return .string (.ofChars (if t.isNaN then invalidDate else f.write zone t))

end Ecma51
