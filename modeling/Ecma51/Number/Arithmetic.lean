import Ecma51.Number.Double

/-!
# Arithmetic on doubles

Each operation computes its exact result in integers and rounds once.

* `Double.add`, `Double.sub`, `Double.mul`, `Double.div`: the four operations.
* `Double.rem`: the remainder with the sign of the dividend, always exact.
* `Double.eq`, `Double.lt`, `Double.le`: numeric comparison. The two zeros are equal, and
  not-a-number compares false with everything.
-/

namespace Ecma51

namespace Double

/-! ## 1. Sign -/

/-- The number with the opposite sign. -/
def neg : Double → Double
  | nan => nan
  | infinite s => infinite (!s)
  | finite s m => finite (!s) m

/-- The number without its sign. -/
def abs : Double → Double
  | nan => nan
  | infinite _ => infinite false
  | finite _ m => finite false m

/-! ## 2. The four operations and the remainder -/

/-- A natural number with a sign. -/
def signed (negative : Bool) (n : Nat) : Int := if negative then -(n : Int) else n

/-- Sum. An exact zero is negative only if both operands are. -/
def add : Double → Double → Double
  | nan, _ => nan
  | _, nan => nan
  | infinite s, infinite t => if s = t then infinite s else nan
  | infinite s, finite _ _ => infinite s
  | finite _ _, infinite t => infinite t
  | finite s a, finite t b =>
    let e := min a.exponent b.exponent
    let sum := signed s (a.mantissa <<< (a.exponent - e).toNat) +
      signed t (b.mantissa <<< (b.exponent - e).toNat)
    if sum = 0 then finite (s && t) .zero else ofQuotient (decide (sum < 0)) sum.natAbs 1 e

/-- Difference. -/
def sub (x y : Double) : Double := add x (neg y)

/-- Product. -/
def mul : Double → Double → Double
  | nan, _ => nan
  | _, nan => nan
  | infinite s, infinite t => infinite (s != t)
  | infinite s, finite t b => if b.isZero then nan else infinite (s != t)
  | finite s a, infinite t => if a.isZero then nan else infinite (s != t)
  | finite s a, finite t b =>
    ofQuotient (s != t) (a.mantissa * b.mantissa) 1 (a.exponent + b.exponent)

/-- Quotient. -/
def div : Double → Double → Double
  | nan, _ => nan
  | _, nan => nan
  | infinite _, infinite _ => nan
  | infinite s, finite t _ => infinite (s != t)
  | finite s _, infinite t => finite (s != t) .zero
  | finite s a, finite t b =>
    if b.isZero then if a.isZero then nan else infinite (s != t)
    else ofQuotient (s != t) a.mantissa b.mantissa (a.exponent - b.exponent)

/-- Remainder of the division truncated toward zero; it has the sign of the dividend. -/
def rem : Double → Double → Double
  | nan, _ => nan
  | _, nan => nan
  | infinite _, _ => nan
  | finite s a, infinite _ => finite s a
  | finite s a, finite _ b =>
    if b.isZero then nan
    else
      let e := min a.exponent b.exponent
      ofQuotient s ((a.mantissa <<< (a.exponent - e).toNat) % (b.mantissa <<< (b.exponent - e).toNat))
        1 e

instance : Neg Double := ⟨neg⟩
instance : Add Double := ⟨add⟩
instance : Sub Double := ⟨sub⟩
instance : Mul Double := ⟨mul⟩
instance : Div Double := ⟨div⟩
instance : Mod Double := ⟨rem⟩

/-! ## 3. Comparison -/

/-- Numeric order; `none` if an operand is not-a-number. -/
def order? : Double → Double → Option Ordering
  | nan, _ => none
  | _, nan => none
  | infinite s, infinite t => some (if s = t then .eq else if s then .lt else .gt)
  | infinite s, finite _ _ => some (if s then .lt else .gt)
  | finite _ _, infinite t => some (if t then .gt else .lt)
  | finite s a, finite t b =>
    some <|
      if a.isZero && b.isZero then .eq
      else if s != t then if s then .lt else .gt
      else if s then b.compare a else a.compare b

/-- Numeric equality. -/
def eq (x y : Double) : Bool := order? x y == some .eq

/-- Strictly less. -/
def lt (x y : Double) : Bool := order? x y == some .lt

/-- Less or equal. -/
def le (x y : Double) : Bool := lt x y || eq x y

/-- Equality that tells the zeros apart and holds of not-a-number with itself. -/
def same (x y : Double) : Bool := decide (x = y)

/-- The larger of two numbers, the first if they do not compare. -/
def larger (x y : Double) : Double := if lt x y then y else x

end Double

end Ecma51
