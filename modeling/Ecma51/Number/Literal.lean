import Ecma51.Number.Radix

/-!
# Numeric literals in text

Reading a number from a string: a decimal literal with an optional sign, `Infinity`, or an unsigned
hexadecimal literal, with white space at the ends.

* `DecimalLiteral.read?`: the longest decimal literal at the start of a list of units.
* `Double.ofText`: the number that a whole string denotes, not-a-number if it denotes none.
* `Double.ofTextStart?`: the number that the start of a string denotes.
-/

namespace Ecma51

/-- A decimal literal without its sign. -/
inductive DecimalBody where
  | infinity
  | digits (whole fraction : List Nat) (exponent : Int)
  deriving DecidableEq, Repr

/-- A decimal literal. -/
structure DecimalLiteral where
  negative : Bool
  body : DecimalBody
  deriving DecidableEq, Repr

namespace DecimalLiteral

/-- The decimal digits at the start of a list of units, and what follows them. -/
def splitDigits (us : List CodeUnit) : List Nat × List CodeUnit :=
  ((us.takeWhile CodeUnit.isDecimalDigit).map fun u => u.toNat - 0x30,
    us.dropWhile CodeUnit.isDecimalDigit)

/-- An exponent part, if a complete one stands here: its value and what follows it. -/
def splitExponent (us : List CodeUnit) : Int × List CodeUnit :=
  match us with
  | e :: rest =>
    if e == 0x65 || e == 0x45 then
      let (negative, rest) := Double.splitSign rest
      match splitDigits rest with
      | ([], _) => (0, us)
      | (ds, rest) => (Double.signed negative (Decimal.valueOf ds), rest)
    else (0, us)
  | [] => (0, us)

/-- A point with the digits after it, if they stand here. -/
def splitFraction (us : List CodeUnit) : Option (List Nat × List CodeUnit) :=
  match us with
  | p :: rest => if p == 0x2E then some (splitDigits rest) else none
  | [] => none

/-- The units of the word for infinity. -/
def infinityUnits : List CodeUnit := (Text.ofString "Infinity").toList

/-- An unsigned decimal literal at the start of a list of units: `Infinity`, digits with an optional
fraction and exponent, or a fraction with an optional exponent. -/
def readBody? (us : List CodeUnit) : Option (DecimalBody × List CodeUnit) :=
  if infinityUnits.isPrefixOf us then some (.infinity, us.drop infinityUnits.length)
  else
    let (whole, rest) := splitDigits us
    let (fraction, rest) := (splitFraction rest).getD ([], rest)
    if whole.isEmpty && fraction.isEmpty then none
    else
      let (exponent, rest) := splitExponent rest
      some (.digits whole fraction exponent, rest)

/-- A decimal literal at the start of a list of units, and what follows it. -/
def read? (us : List CodeUnit) : Option (DecimalLiteral × List CodeUnit) :=
  let (negative, rest) := Double.splitSign us
  (readBody? rest).map fun (body, rest) => (⟨negative, body⟩, rest)

/-- The double nearest to what a literal denotes. -/
def value : DecimalLiteral → Double
  | ⟨s, .infinity⟩ => .infinite s
  | ⟨s, .digits whole fraction exponent⟩ =>
    .ofDecimal s (Decimal.valueOf (whole ++ fraction)) (exponent - fraction.length)

end DecimalLiteral

namespace Double

/-- The value of hexadecimal digits: exact and rounded once up to thirty-two digits, digit by digit
beyond. -/
def ofHexDigits (ds : List Nat) : Double :=
  if ds.length ≤ 32 then ofNat (ds.foldl (fun acc d => acc * 16 + d) 0) else valueOfDigits 16 ds

/-- The value of a list of units that is a numeric literal as a whole. -/
def ofUnits (us : List CodeUnit) : Double :=
  match us with
  | [] => zero
  | _ =>
    match splitHexMark us with
    | some rest =>
      let ds := leadingDigits 16 rest
      if ds.isEmpty || ds.length ≠ rest.length then nan else ofHexDigits ds
    | none =>
      match DecimalLiteral.read? us with
      | some (literal, []) => literal.value
      | _ => nan

/-- The number that a string denotes: white space at the ends is ignored, the empty string is zero,
anything that is no literal is not-a-number. -/
def ofText (t : Text) : Double := ofUnits (t.trim CodeUnit.isTrimmable).toList

/-- The value of the longest decimal literal after white space at the start of a string. -/
def ofTextStart? (t : Text) : Option Double :=
  (DecimalLiteral.read? (t.toList.dropWhile CodeUnit.isTrimmable)).map fun (literal, _) =>
    literal.value

end Double

end Ecma51
