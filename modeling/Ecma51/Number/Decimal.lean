import Ecma51.Number.Double

/-!
# Decimal digits of a magnitude

Two decimal forms of a positive magnitude: the shortest one that reads back as the same double, and
the exact one. Both are given in scientific form, and the exact one can be cut to a number of digits
with halves rounded up.

* `Decimal.shortest`: the first of the grids of 1, 2, …, 17 digits that has a point in the interval
  of reals that round to the magnitude; of two points the nearer, of equally near ones the larger.
* `Decimal.exact`: the whole expansion.
* `Decimal.round`: `keep` significant digits, rounding half up.
-/

namespace Ecma51

-- powers mean the same whether or not there are other instances in scope
attribute [local instance (high)] instPowNat

/-- A number in scientific form: the digits `d₀ d₁ d₂ …` stand for `d₀.d₁d₂… * 10 ^ exponent`. -/
structure Decimal where
  digits : List Nat
  exponent : Int
  deriving DecidableEq, Repr

namespace Decimal

/-! ## 1. Digits of natural numbers -/

/-- The decimal digits of a natural number, most significant first. -/
def digitsOf (n : Nat) : List Nat := (Nat.toDigits 10 n).map fun c => c.toNat - 48

/-- The number that decimal digits spell. -/
def valueOf (ds : List Nat) : Nat := ds.foldl (fun acc d => acc * 10 + d) 0

/-- The digits without zeros at the end, at least one being kept. -/
def stripZeros (ds : List Nat) : List Nat :=
  match (ds.reverse.dropWhile (· == 0)).reverse with
  | [] => ds.take 1
  | rest => rest

/-- The natural number `n` times `10 ^ scale`, in scientific form. -/
def ofScaled (n : Nat) (scale : Int) : Decimal :=
  let ds := digitsOf n
  ⟨stripZeros ds, scale + (ds.length - 1 : Nat)⟩

/-! ## 2. Powers of ten against quotients -/

/-- `10 ^ k ≤ n / d`. -/
def powLe (k : Int) (n d : Nat) : Bool := 10 ^ k.toNat * d ≤ n * 10 ^ (-k).toNat

/-- The floor of the decimal logarithm of `n / d`, for positive `n` and `d` within the range of
magnitudes: a guess from the binary logarithm, corrected by one. -/
def order (n d : Nat) : Int :=
  let guess : Int := Magnitude.binaryOrder n d * 1233 / 4096
  if powLe (guess + 1) n d then guess + 1 else if powLe guess n d then guess else guess - 1

/-! ## 3. The shortest form -/

/-- The reals that round to a magnitude, as quotients with one denominator: the value and the two
ends of its interval, and whether the ends belong to it. -/
structure Interval where
  lower : Nat
  value : Nat
  upper : Nat
  denominator : Nat
  closed : Bool

/-- The rounding interval of a magnitude. Below a power of two the gap is half as wide, so its
lower end is half as far. -/
def intervalOf (m : Magnitude) : Interval :=
  let shift : Int := m.exponent - 2
  let scale (n : Nat) : Nat := n <<< shift.toNat
  { lower := scale (4 * m.mantissa - (if m.mantissa = 2 ^ (52 : Nat) ∧ -1074 < m.exponent then 1 else 2))
    value := scale (4 * m.mantissa)
    upper := scale (4 * m.mantissa + 2)
    denominator := 1 <<< (-shift).toNat
    closed := m.mantissa % 2 == 0 }

/-- The point `q * 10 ^ s` lies in the interval. -/
def Interval.holds (i : Interval) (q : Nat) (s : Int) : Bool :=
  let point := q * 10 ^ s.toNat * i.denominator
  let scale := 10 ^ (-s).toNat
  if i.closed then i.lower * scale ≤ point && point ≤ i.upper * scale
  else i.lower * scale < point && point < i.upper * scale

/-- The neighbour of the value on the grid of `10 ^ s` that lies in the interval, if one does; the
nearer of two, the larger of two equally near. -/
def Interval.onGrid? (i : Interval) (s : Int) : Option Nat :=
  let scale := 10 ^ (-s).toNat
  let unit := 10 ^ s.toNat * i.denominator
  let q := i.value * scale / unit
  let r := i.value * scale % unit
  match i.holds q s, i.holds (q + 1) s with
  | true, true => some (if 2 * r < unit then q else q + 1)
  | true, false => some q
  | false, true => some (q + 1)
  | false, false => none

/-- The shortest decimal that reads back as the magnitude. -/
def shortest (m : Magnitude) : Decimal :=
  let i := intervalOf m
  let top := order i.value i.denominator
  let hit := (List.range 17).findSome? fun (n : Nat) =>
    (i.onGrid? (top - n)).map fun q => ofScaled q (top - n)
  hit.getD ⟨[0], 0⟩

/-! ## 4. The exact form -/

/-- The complete decimal expansion of a magnitude: a binary fraction is a decimal one, because
`2 ^ -k = 5 ^ k * 10 ^ -k`. -/
def exact (m : Magnitude) : Decimal :=
  if 0 ≤ m.exponent then ofScaled (m.mantissa <<< m.exponent.toNat) 0
  else ofScaled (m.mantissa * 5 ^ (-m.exponent).toNat) m.exponent

/-! ## 5. Rounding digits -/

/-- One more in the last place; the flag tells a carry out of the first digit. -/
def increment : List Nat → List Nat × Bool
  | [] => ([], true)
  | d :: ds =>
    let (rest, carry) := increment ds
    if carry then if d = 9 then (0 :: rest, true) else ((d + 1) :: rest, false)
    else (d :: rest, false)

/-- `n` digits: the first ones of the list, filled up with zeros. -/
def fit (n : Nat) (ds : List Nat) : List Nat :=
  ds.take n ++ List.replicate (n - ds.length) 0

/-- The decimal with `keep` significant digits, halves rounded up. A carry out of the first digit
raises the exponent. -/
def round (d : Decimal) (keep : Nat) : Decimal :=
  let kept := fit keep d.digits
  if 5 ≤ d.digits.getD keep 0 then
    match increment kept with
    | (ds, false) => ⟨ds, d.exponent⟩
    | (ds, true) => ⟨(1 :: ds).take (max keep 1), d.exponent + 1⟩
  else ⟨kept, d.exponent⟩

end Decimal

end Ecma51
