import Ecma51.Number.Arithmetic

/-!
# Whole numbers

Rounding to whole numbers and the conversions to the fixed-width integers of the language and to positions
in a sequence of known length.

* `Double.trunc`, `Double.floor`, `Double.ceil`, `Double.round`: roundings that keep the sign of
  zero.
* `Double.toInteger`: the whole part, with zero for not-a-number.
* `Double.toUint32`, `Double.toInt32`, `Double.toUint16`: the whole part modulo a power of two.
* `Double.remEuclid`: the remainder that is never negative.
* `relativeIndex`: a position where negative numbers count from the end.
* `clampIndex`: a position where negative numbers are the start.
-/

namespace Ecma51

-- powers mean the same whether or not there are other instances in scope
attribute [local instance (high)] instPowNat

namespace Double

/-- The whole part, toward zero. -/
def trunc : Double → Double
  | finite s m => ofQuotient s m.whole 1 0
  | x => x

/-- The largest whole number that is not larger. -/
def floor : Double → Double
  | finite s m =>
    if m.isWhole then finite s m
    else if s then ofQuotient true (m.whole + 1) 1 0 else ofQuotient false m.whole 1 0
  | x => x

/-- The least whole number that is not smaller. -/
def ceil (x : Double) : Double := neg (floor (neg x))

/-- The number is whole. -/
def isWhole : Double → Bool
  | finite _ m => m.isWhole
  | _ => false

/-- The integer that a whole double is. -/
def toInt? : Double → Option Int
  | finite s m => if m.isWhole then some (signed s m.whole) else none
  | _ => none

/-- The integer part; not-a-number and the infinities give zero. -/
def truncInt : Double → Int
  | finite s m => signed s m.whole
  | _ => 0

/-- The whole part, zero for not-a-number, infinities as they are. -/
def toInteger : Double → Double
  | nan => zero
  | x => x.trunc

/-- The whole part modulo `2 ^ bits`; zero for the values that are not finite. -/
def modulo (x : Double) (bits : Nat) : Nat := (x.truncInt % (2 ^ bits : Nat)).toNat

/-- Conversion to an unsigned 32-bit integer. -/
def toUint32 (x : Double) : Nat := x.modulo 32

/-- Conversion to a signed 32-bit integer. -/
def toInt32 (x : Double) : Int :=
  let n := x.toUint32
  if n < 2 ^ (31 : Nat) then n else (n : Int) - 2 ^ (32 : Nat)

/-- Conversion to an unsigned 16-bit integer. -/
def toUint16 (x : Double) : Nat := x.modulo 16

/-- The remainder in `[0, |y|)`, up to one rounding when the truncated remainder is negative. -/
def remEuclid (x y : Double) : Double :=
  let r := x % y
  if lt r zero then r + y.abs else r

/-- The nearest whole number, halves going up; results that are zero keep the sign of the
argument. -/
def round (x : Double) : Double :=
  match x with
  | finite s m =>
    if m.isZero || le (ofNat (2 ^ (52 : Nat))) x.abs then x
    else
      let half := ofQuotient false 1 2 0
      if lt x.abs half || (s && eq x.abs half) then finite s .zero
      else
        let r := x.floor
        if le half (x - r) then r + 1 else r
  | _ => x

end Double

/-- A position relative to a length: negative ones count from the end; all are clamped. -/
def relativeIndex (x : Double) (length : Nat) : Nat :=
  match x with
  | .infinite negative => if negative then 0 else length
  | x =>
    let i := x.truncInt
    if i < 0 then (length + i).toNat else min i.toNat length

/-- A position clamped to the sequence. -/
def clampIndex (x : Double) (length : Nat) : Nat :=
  match x with
  | .infinite negative => if negative then 0 else length
  | x => min x.truncInt.toNat length

end Ecma51
