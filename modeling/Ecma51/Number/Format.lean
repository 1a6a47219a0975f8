import Ecma51.Number.Arithmetic
import Ecma51.Number.Decimal
import Ecma51.Text.Basic

/-!
# Numbers as text

The decimal notations of the language.

* `Double.toText`: the shortest digits that read back, plain for exponents from -7 to 20 and
  scientific otherwise.
* `Double.toFixed`, `Double.toExponential`, `Double.toPrecision`: a given number of digits of the
  exact expansion, halves rounded up.
* `Double.toPlain`, `Double.toDiagnostic`: the notations of messages and of value dumps.
-/

namespace Ecma51

namespace Double

/-! ## 1. Pieces -/

/-- Digits as characters. -/
def digitChars (ds : List Nat) : List Char := ds.map fun d => Char.ofNat (48 + d)

/-- `n` zeros. -/
def zeros (n : Nat) : List Char := List.replicate n ('0')

/-- The characters of an integer without its sign. -/
def natChars (n : Nat) : List Char := Nat.toDigits 10 n

/-- The exponent of scientific notation, always signed. -/
def exponentChars (e : Int) : List Char :=
  'e' :: (if 0 ≤ e then '+' else '-') :: natChars e.natAbs

/-- The digits with a point after the first, unless there is only one. -/
def pointed : List Char → List Char
  | [] => []
  | [d] => [d]
  | d :: ds => d :: '.' :: ds

/-- The digits with a point after the first `n`. -/
def splitPoint (n : Nat) (ds : List Char) : List Char := ds.take n ++ '.' :: ds.drop n

/-- The minus sign of a negative number. -/
def signChars (negative : Bool) : List Char := if negative then ['-'] else []

/-! ## 2. Shortest text -/

/-- The layout of a decimal in shortest text: plain while the point stands at most 21 places after
the first digit or 6 before it, scientific otherwise. -/
def layout (d : Decimal) : List Char :=
  let s := digitChars d.digits
  let k : Int := s.length
  let n := d.exponent + 1
  if k ≤ n ∧ n ≤ 21 then s ++ zeros (n - k).toNat
  else if 0 < n ∧ n ≤ 21 then splitPoint n.toNat s
  else if -6 < n ∧ n ≤ 0 then '0' :: '.' :: zeros (-n).toNat ++ s
  else pointed s ++ exponentChars (n - 1)

/-- The characters of a number in shortest text. -/
def toChars : Double → List Char
  | nan => "NaN".toList
  | infinite s => signChars s ++ "Infinity".toList
  | finite s m => if m.isZero then ['0'] else signChars s ++ layout (Decimal.shortest m)

/-- The text of a number: the fewest digits that read back. -/
def toText (x : Double) : Text := Text.ofChars x.toChars

/-! ## 3. Given numbers of digits -/

/-- The magnitude of a number in exact decimal form; a number that is not finite has no digits. -/
def exactDecimal : Double → Decimal
  | finite _ m => Decimal.exact m
  | _ => ⟨[], 0⟩

/-- A negative number other than zero. -/
def isBelowZero (x : Double) : Bool := lt x zero

/-- The digits of `x * 10 ^ f` rounded half up to a whole number, without leading zeros beyond the
first. -/
def fixedDigits (x : Double) (f : Nat) : List Nat :=
  if x.isZero then [0]
  else
    let d := x.exactDecimal
    let keep := d.exponent + 1 + f
    if keep < 0 then [0]
    else if keep = 0 then [if 5 ≤ d.digits.headD 0 then 1 else 0]
    else
      let r := d.round keep.toNat
      Decimal.fit (max (r.exponent + 1 + f).toNat r.digits.length) r.digits

/-- The number with exactly `f` digits after the point. -/
def toFixed (x : Double) (f : Nat) : Text :=
  let ds := digitChars (fixedDigits x.abs f)
  let padded := zeros (f + 1 - ds.length) ++ ds
  let body := if f = 0 then ds else splitPoint (padded.length - f) padded
  Text.ofChars (signChars x.isBelowZero ++ body)

/-- The shortest decimal of a number that is not zero. -/
def shortestDecimal : Double → Decimal
  | finite _ m => Decimal.shortest m
  | _ => ⟨[], 0⟩

/-- Scientific notation with `f` digits after the point, or as many as needed. -/
def toExponential (x : Double) (f : Option Nat) : Text :=
  let d : Decimal :=
    if x.isZero then ⟨List.replicate (f.getD 0 + 1) 0, 0⟩
    else match f with
      | none => x.shortestDecimal
      | some f => x.exactDecimal.round (f + 1)
  Text.ofChars (signChars x.isBelowZero ++ pointed (digitChars d.digits) ++ exponentChars d.exponent)

/-- The number with `p` significant digits, plain if the exponent is at least -6 and below `p`. -/
def toPrecision (x : Double) (p : Nat) : Text :=
  let d : Decimal :=
    if x.isZero then ⟨List.replicate p 0, 0⟩ else x.exactDecimal.round p
  let s := digitChars d.digits
  let e := d.exponent
  let body :=
    if e < -6 ∨ (p : Int) ≤ e then pointed s ++ exponentChars e
    else if e = (p : Int) - 1 then s
    else if 0 ≤ e then splitPoint (e.toNat + 1) s
    else '0' :: '.' :: zeros (-(e + 1)).toNat ++ s
  Text.ofChars (signChars x.isBelowZero ++ body)

/-! ## 4. Messages and dumps -/

/-- Plain notation at any size, for messages. -/
def toPlainChars : Double → List Char
  | nan => "NaN".toList
  | infinite s => signChars s ++ "inf".toList
  | finite s m =>
    if m.isZero then signChars s ++ ['0']
    else
      let d := Decimal.shortest m
      let ds := digitChars d.digits
      let n := d.exponent + 1
      signChars s ++
        if (ds.length : Int) ≤ n then ds ++ zeros (n - ds.length).toNat
        else if 0 < n then splitPoint n.toNat ds
        else '0' :: '.' :: zeros (-n).toNat ++ ds

/-- Plain notation at any size, for messages. -/
def toPlain (x : Double) : Text := Text.ofChars x.toPlainChars

/-- The notation of value dumps: whole numbers keep a fraction, and sizes from `10 ^ 16` up or
below `10 ^ -4` are scientific. -/
def toDiagnosticChars (x : Double) : List Char :=
  match x with
  | finite s m =>
    if m.isZero then signChars s ++ "0.0".toList
    else
      let d := Decimal.shortest m
      if d.exponent < -4 ∨ 16 ≤ d.exponent then
        signChars s ++ pointed (digitChars d.digits) ++
          'e' :: signChars (decide (d.exponent < 0)) ++ natChars d.exponent.natAbs
      else if m.isWhole then toPlainChars x ++ ['.', '0']
      else toPlainChars x
  | _ => toPlainChars x

end Double

end Ecma51
