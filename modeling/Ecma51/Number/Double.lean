/-!
# Double-precision numbers

The numbers of the language: not-a-number, the two infinities, and signed magnitudes `m * 2^e` with
a mantissa of at most 53 bits. A magnitude has exactly one representation, so equality of values is
equality of terms; the two zeros differ by sign and there is one not-a-number.

* `Magnitude.round?`: the magnitude nearest to a quotient, ties to the even mantissa; `none` when
  the quotient is too large.
* `Double.ofQuotient`: the double nearest to a signed quotient. Every exact operation is followed by
  this one rounding.
* `Double.ofBits`, `Double.toBits`: the 64-bit interchange format.
-/

namespace Ecma51

-- powers mean the same whether or not there are other instances in scope
attribute [local instance (high)] instPowNat

/-! ## 1. Magnitudes -/

/-- The pairs `(m, e)` that stand for a magnitude: 53 bits at most, the exponent in range, and the
top bit set unless the exponent is least. -/
def Canonical (mantissa : Nat) (exponent : Int) : Prop :=
  mantissa < 2 ^ (53 : Nat) ∧ -1074 ≤ exponent ∧ exponent ≤ 971 ∧ (2 ^ (52 : Nat) ≤ mantissa ∨ exponent = -1074)

instance (m : Nat) (e : Int) : Decidable (Canonical m e) := by
  unfold Canonical; infer_instance

/-- A finite number without its sign: `mantissa * 2 ^ exponent`. -/
structure Magnitude where
  mantissa : Nat
  exponent : Int
  canonical : Canonical mantissa exponent
  deriving DecidableEq

namespace Magnitude

/-- The magnitude zero. -/
def zero : Magnitude := ⟨0, -1074, by decide⟩

instance : Inhabited Magnitude := ⟨zero⟩

/-- The magnitude with the given parts, if they are canonical. -/
def ofParts? (m : Nat) (e : Int) : Option Magnitude :=
  if h : Canonical m e then some ⟨m, e, h⟩ else none

/-- The magnitude is zero. -/
def isZero (m : Magnitude) : Bool := m.mantissa == 0

/-- The floor of the binary logarithm of `n / d`, for positive `n` and `d`. -/
def binaryOrder (n d : Nat) : Int :=
  let t : Int := (n.log2 : Int) - d.log2
  if n <<< (-t).toNat < d <<< t.toNat then t - 1 else t

/-- The quotient `n / d` rounded to an integer, a half going to the even neighbour. -/
def divRound (n d : Nat) : Nat :=
  let q := n / d
  let r := 2 * (n % d)
  if d < r || (r == d && q % 2 == 1) then q + 1 else q

/-- The magnitude nearest to `n / d * 2 ^ e`, ties to even; `none` if it is too large. -/
def round? (n d : Nat) (e : Int) : Option Magnitude :=
  if n = 0 then some zero
  else
    let k : Int := max (binaryOrder n d + e - 52) (-1074)
    let s : Int := e - k
    let q := divRound (n <<< s.toNat) (d <<< (-s).toNat)
    if q = 2 ^ (53 : Nat) then ofParts? (2 ^ (52 : Nat)) (k + 1) else ofParts? q k

/-- Order by size; it is lexicographic on exponent and mantissa because the form is canonical. -/
def compare (a b : Magnitude) : Ordering :=
  (Ord.compare a.exponent b.exponent).then (Ord.compare a.mantissa b.mantissa)

/-- The whole part. -/
def whole (m : Magnitude) : Nat :=
  if 0 ≤ m.exponent then m.mantissa <<< m.exponent.toNat else m.mantissa >>> (-m.exponent).toNat

/-- The magnitude is a whole number. -/
def isWhole (m : Magnitude) : Bool :=
  0 ≤ m.exponent || m.mantissa % 2 ^ (-m.exponent).toNat == 0

end Magnitude

/-! ## 2. Doubles -/

/-- A number of the language. -/
inductive Double where
  | nan
  | infinite (negative : Bool)
  | finite (negative : Bool) (magnitude : Magnitude)
  deriving DecidableEq

namespace Double

/-- Positive zero. -/
def zero : Double := finite false .zero

/-- Negative zero. -/
def negZero : Double := finite true .zero

/-- Positive infinity. -/
def infinity : Double := infinite false

instance : Inhabited Double := ⟨zero⟩

/-- The double nearest to `n / d * 2 ^ e` with the given sign; infinite if that is too large. -/
def ofQuotient (negative : Bool) (n d : Nat) (e : Int) : Double :=
  match Magnitude.round? n d e with
  | some m => finite negative m
  | none => infinite negative

/-- The double nearest to a natural number. -/
def ofNat (n : Nat) : Double := ofQuotient false n 1 0

/-- The double nearest to an integer. -/
def ofInt (i : Int) : Double := ofQuotient (decide (i < 0)) i.natAbs 1 0

instance (n : Nat) : OfNat Double n := ⟨ofNat n⟩

/-- The double nearest to `n * 10 ^ k`. Far outside the range the answer is known without
computing the power. -/
def ofDecimal (negative : Bool) (n : Nat) (k : Int) : Double :=
  if n = 0 then finite negative .zero
  else if 400 < k + n.log2 / 4 then infinite negative
  else if k + (n.log2 / 3 + 1 : Nat) < -400 then finite negative .zero
  else ofQuotient negative (n * 10 ^ k.toNat) (10 ^ (-k).toNat) 0

/-! ## 3. Classification -/

/-- The number is not-a-number. -/
def isNaN : Double → Bool
  | nan => true
  | _ => false

/-- The number is neither infinite nor not-a-number. -/
def isFinite : Double → Bool
  | finite _ _ => true
  | _ => false

/-- The number is an infinity. -/
def isInfinite : Double → Bool
  | infinite _ => true
  | _ => false

/-- The number is one of the two zeros. -/
def isZero : Double → Bool
  | finite _ m => m.isZero
  | _ => false

/-- The sign is minus; negative zero has it, not-a-number does not. -/
def isNegative : Double → Bool
  | nan => false
  | infinite s => s
  | finite s _ => s

/-! ## 4. Interchange format -/

/-- The 64-bit pattern of a double; not-a-number has the quiet pattern without payload. -/
def toBits : Double → UInt64
  | nan => 0x7FF8000000000000
  | infinite s => (if s then 0x8000000000000000 else 0) + 0x7FF0000000000000
  | finite s m =>
    let body : Nat :=
      if m.mantissa < 2 ^ (52 : Nat) then m.mantissa
      else (m.exponent + 1075).toNat * 2 ^ (52 : Nat) + (m.mantissa - 2 ^ (52 : Nat))
    (if s then 0x8000000000000000 else 0) + body.toUInt64

/-- The double of a 64-bit pattern; every not-a-number pattern gives `nan`. -/
def ofBits (b : UInt64) : Double :=
  let n := b.toNat
  let s : Bool := 2 ^ (63 : Nat) ≤ n
  let biased : Nat := n / 2 ^ (52 : Nat) % 2048
  let fraction : Nat := n % 2 ^ (52 : Nat)
  if biased = 2047 then if fraction = 0 then infinite s else nan
  else if biased = 0 then ofQuotient s fraction 1 (-1074)
  else ofQuotient s (2 ^ (52 : Nat) + fraction) 1 ((biased : Int) - 1075)

/-- The next pattern up: for a positive finite number, the next larger double. -/
def successor (x : Double) : Double := ofBits (x.toBits + 1)

end Double

end Ecma51
