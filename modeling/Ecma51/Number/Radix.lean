import Ecma51.Number.Integral
import Ecma51.Number.Format
import Ecma51.Text.Unit

/-!
# Numbers in other bases

Writing a number with digits up to thirty-six, and reading whole numbers in any base.

* `Double.toRadix`: digits of the whole part, then of the fraction until what remains is below the
  precision of the number.
* `Double.parseInt`: the longest run of digits after white space, a sign and, in base sixteen, `0x`.
-/

namespace Ecma51

namespace Double

/-! ## 1. Writing -/

/-- The characters of digits below thirty-six. -/
def radixChar (d : Nat) : Char := if d < 10 then Char.ofNat (48 + d) else Char.ofNat (87 + d)

/-- The digits of a whole number, least significant first. Each step divides by the base, so the
number of bits bounds the steps. -/
def wholeDigits (base : Double) : Nat → Double → List Nat
  | 0, _ => []
  | n + 1, x =>
    if lt x 1 then []
    else
      let d := x % base
      d.truncInt.toNat :: wholeDigits base n ((x - d) / base).trunc

/-- The digits of a fraction, until the rest is at most the tolerance, which grows with the base
at every digit. The number bounds the digits. -/
def fractionDigits (base : Double) : Nat → (fraction tolerance : Double) → List Nat
  | 0, _, _ => []
  | n + 1, fraction, tolerance =>
    let scaled := fraction * base
    let tolerance := tolerance * base
    let d := scaled.trunc
    let rest := scaled - d
    min d.truncInt.toNat (base.truncInt.toNat - 1) ::
      if le rest tolerance then [] else fractionDigits base n rest tolerance

/-- The most digits that a fraction is written with. -/
def fractionDigitLimit : Nat := 1100

/-- The least positive normal number. -/
def leastNormal : Double := ofQuotient false 1 1 (-1022)

/-- The number in a base from 2 to 36. -/
def toRadix (x : Double) (radix : Nat) : Text :=
  match x with
  | finite s m =>
    if m.isZero then "0"
    else
      let base := ofNat radix
      let size := x.abs
      let whole := size.trunc
      let fraction := size - whole
      let wholeChars :=
        match wholeDigits base 1100 whole with
        | [] => ['0']
        | ds => (ds.map radixChar).reverse
      let tolerance := ofQuotient false 1 2 0 * larger (size.successor - size) leastNormal
      let fractionChars :=
        if lt zero fraction then
          '.' :: (fractionDigits base fractionDigitLimit fraction tolerance).map radixChar
        else []
      Text.ofChars (signChars s ++ wholeChars ++ fractionChars)
  | _ => x.toText

/-! ## 2. Reading -/

/-- The digits below the base at the start of a list of units. -/
def leadingDigits (radix : Nat) : List CodeUnit → List Nat
  | [] => []
  | u :: us =>
    match u.digitValue? with
    | some d => if d < radix then d :: leadingDigits radix us else []
    | none => []

/-- The value of digits in a base, one multiplication and one addition a digit. -/
def valueOfDigits (radix : Nat) (ds : List Nat) : Double :=
  ds.foldl (fun acc d => acc * ofNat radix + ofNat d) zero

/-- A sign at the start of a list of units, and what follows it. -/
def splitSign : List CodeUnit → Bool × List CodeUnit
  | u :: us => if u == 0x2D then (true, us) else if u == 0x2B then (false, us) else (false, u :: us)
  | [] => (false, [])

/-- `0x` at the start of a list of units, and what follows it. -/
def splitHexMark : List CodeUnit → Option (List CodeUnit)
  | z :: x :: us => if z == 0x30 && (x == 0x78 || x == 0x58) then some us else none
  | _ => none

/-- The value of the longest run of digits; base zero means ten, or sixteen after `0x`. Ten is
read exactly and rounded once. -/
def parseInt (t : Text) (radix : Int) : Double :=
  if radix ≠ 0 ∧ (radix < 2 ∨ 36 < radix) then nan
  else
    let (negative, body) := splitSign (t.toList.dropWhile CodeUnit.isTrimmable)
    let stated := if radix = 0 then 10 else radix.toNat
    let (base, body) :=
      match if radix = 0 ∨ radix = 16 then splitHexMark body else none with
      | some rest => (16, rest)
      | none => (stated, body)
    match leadingDigits base body with
    | [] => nan
    | ds =>
      let value := if base = 10 then ofDecimal false (Decimal.valueOf ds) 0 else valueOfDigits base ds
      if negative then value.neg else value

end Double

end Ecma51
