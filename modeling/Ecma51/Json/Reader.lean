import Ecma51.Fault
import Ecma51.Number.Literal

/-!
# Reading JSON text

The parts of a JSON text that have no inner structure, and what stands between them. Reading goes from left to
right over the units of a text and stops at the first place where it is wrong.

* `Json.isBlank`: what may stand between the parts of a text.
* `Json.escapeOf?`, `Json.escaped?`: the escapes of one letter, to be written and to be read.
* `Json.readString`, `Json.readNumber`: strings and numbers; on failure they give what is left of the text
  where it is wrong.
* `Json.ending`, `Json.readName`: what follows a value, and what stands before one.
* `Json.faultAt`: what is wrong at a place.
-/

namespace Ecma51

namespace Json

/-! ## 1. Units -/

/-- The blanks of JSON text: space, tab, line feed and carriage return. -/
def isBlank (u : CodeUnit) : Bool := u == 0x20 || u == 0x09 || u == 0x0A || u == 0x0D

/-- What follows the blanks at the start. -/
def skipBlanks (us : List CodeUnit) : List CodeUnit := us.dropWhile isBlank

/-- The letters of the escapes that stand for one unit, each with that unit. -/
def letterEscapes : List (CodeUnit × CodeUnit) :=
  [(0x22, 0x22), (0x5C, 0x5C), (0x62, 0x08), (0x66, 0x0C), (0x6E, 0x0A), (0x72, 0x0D), (0x74, 0x09)]

/-- The unit that a letter after a backslash stands for; the slash stands for itself. -/
def escaped? (letter : CodeUnit) : Option CodeUnit :=
  if letter == 0x2F then some 0x2F else letterEscapes.lookup letter

/-- The letter that escapes a unit. -/
def escapeOf? (u : CodeUnit) : Option CodeUnit :=
  (letterEscapes.find? fun (_, unit) => unit == u).map (·.1)

/-! ## 2. Faults -/

/-- Why a text is wrong at a place, given by what is left there and the length of the whole. -/
def faultAt (total : Nat) : List CodeUnit → Fault
  | [] => .jsonEnded
  | u :: rest => .jsonUnexpected (.ofUnit u) (total - (rest.length + 1))

/-- A part read and what follows it, or what is left where the text is wrong. -/
abbrev Part (α : Type) := Except (List CodeUnit) (α × List CodeUnit)

/-- What follows given units at the start. -/
def expect : (wanted us : List CodeUnit) → Except (List CodeUnit) (List CodeUnit)
  | [], us => .ok us
  | _ :: _, [] => .error []
  | w :: ws, u :: us => if u == w then expect ws us else .error (u :: us)

/-! ## 3. Strings -/

/-- The value of so many hexadecimal digits at the start. -/
def readHex : (count value : Nat) → List CodeUnit → Except (List CodeUnit) Nat
  | 0, v, _ => .ok v
  | _ + 1, _, [] => .error []
  | n + 1, v, u :: us =>
    match u.hexValue? with
    | some d => readHex n (v * 16 + d) us
    | none => .error (u :: us)

/-- The units of a string up to its closing quote, after those already read, latest first. -/
def readUnits : List CodeUnit → List CodeUnit → Part Text
  | [], _ => .error []
  | u :: us, acc =>
    if u == 0x22 then .ok (.ofList acc.reverse, us)
    else if u < 0x20 then .error (u :: us)
    else if u != 0x5C then readUnits us (u :: acc)
    else
      match us with
      | [] => .error []
      | letter :: rest =>
        if letter == 0x75 then
          match readHex 4 0 rest with
          | .ok v => readUnits (rest.drop 4) (v.toUInt16 :: acc)
          | .error left => .error left
        else
          match escaped? letter with
          | some unit => readUnits rest (unit :: acc)
          | none => .error (letter :: rest)
termination_by us => us.length
decreasing_by all_goals simp_wf; try omega

/-- A string at the start. -/
def readString (us : List CodeUnit) : Part Text :=
  match expect [0x22] us with
  | .ok rest => readUnits rest []
  | .error left => .error left

/-! ## 4. Numbers -/

/-- Decimal digits at the start, at least one. -/
def readDigits (us : List CodeUnit) : Part (List Nat) :=
  match DecimalLiteral.splitDigits us with
  | ([], rest) => .error rest
  | (ds, rest) => .ok (ds, rest)

/-- The whole part of a number: zero alone, or digits. -/
def readWhole (us : List CodeUnit) : Part (List Nat) :=
  match us with
  | u :: rest => if u == 0x30 then .ok ([0], rest) else readDigits us
  | [] => .error []

/-- The digits after a point, if there is one. -/
def readFraction (us : List CodeUnit) : Part (List Nat) :=
  match us with
  | u :: rest => if u == 0x2E then readDigits rest else .ok ([], us)
  | [] => .ok ([], [])

/-- The exponent, if there is one. -/
def readExponent (us : List CodeUnit) : Except (List CodeUnit) (Int × List CodeUnit) :=
  match us with
  | u :: rest =>
    if u == 0x65 || u == 0x45 then do
      let (negative, rest) := Double.splitSign rest
      let (ds, rest) ← readDigits rest
      return (Double.signed negative (Decimal.valueOf ds), rest)
    else .ok (0, us)
  | [] => .ok (0, [])

/-- A minus at the start, and what follows it. -/
def splitMinus : List CodeUnit → Bool × List CodeUnit
  | u :: us => if u == 0x2D then (true, us) else (false, u :: us)
  | [] => (false, [])

/-- A number at the start. -/
def readNumber (us : List CodeUnit) : Except (List CodeUnit) (Double × List CodeUnit) := do
  let (negative, rest) := splitMinus us
  let (whole, rest) ← readWhole rest
  let (fraction, rest) ← readFraction rest
  let (exponent, rest) ← readExponent rest
  return (DecimalLiteral.value ⟨negative, .digits whole fraction exponent⟩, rest)

/-! ## 5. What stands between values -/

/-- After an item: what follows a comma, or what follows the closing unit, or neither. -/
inductive Ending where
  | more (rest : List CodeUnit)
  | closed (rest : List CodeUnit)
  | wrong (left : List CodeUnit)

/-- How an item ends. -/
def ending (close : CodeUnit) (us : List CodeUnit) : Ending :=
  match skipBlanks us with
  | u :: rest =>
    if u == 0x2C then .more rest else if u == close then .closed rest else .wrong (u :: rest)
  | [] => .wrong []

/-- The name of a member, with the colon after it. -/
def readName (us : List CodeUnit) : Except (List CodeUnit) (Text × List CodeUnit) := do
  let (name, rest) ← readString (skipBlanks us)
  let rest ← expect [0x3A] (skipBlanks rest)
  return (name, rest)

/-- What follows the closing unit, if nothing but blanks stands before it. -/
def closedAtOnce? (close : CodeUnit) (us : List CodeUnit) : Option (List CodeUnit) :=
  match skipBlanks us with
  | u :: rest => if u == close then some rest else none
  | [] => none

end Json

end Ecma51
