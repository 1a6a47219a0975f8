import Ecma51.Number.Integral
import Ecma51.Operation.Access

/-!
# Mathematical functions

The functions of `Math`. Those of mathematical analysis go through the machine's own double-precision library, to
which a double goes there and back by its bit pattern.

* `Double.viaMachine`, `Double.viaMachine₂`: a machine function on doubles.
* `Double.pow`: powers, where an exponent of zero gives one and a base of size one with an infinite
  exponent gives not-a-number.
* `mathFunction`: the functions of `Math`.
-/

namespace Ecma51

namespace Double

/-- The machine number with the same bit pattern. -/
def toMachine (x : Double) : Float := Float.ofBits x.toBits

/-- The double with the bit pattern of a machine number. -/
def ofMachine (x : Float) : Double := ofBits x.toBits

/-- A machine function of one argument. -/
def viaMachine (f : Float → Float) (x : Double) : Double := ofMachine (f x.toMachine)

/-- A machine function of two arguments. -/
def viaMachine₂ (f : Float → Float → Float) (x y : Double) : Double :=
  ofMachine (f x.toMachine y.toMachine)

/-- Powers. -/
def pow (x y : Double) : Double :=
  if y.isNaN then nan
  else if y.isZero then 1
  else if eq x.abs 1 && y.isInfinite then nan
  else viaMachine₂ Float.pow x y

end Double

-- powers mean the same whether or not there are other instances in scope
attribute [local instance (high)] instPowNat

/-- The larger of two numbers; positive zero is larger than negative zero. -/
def Double.maximum (x y : Double) : Double :=
  if Double.lt x y || (x.isZero && y.isZero && x.isNegative) then y else x

/-- The smaller of two numbers; negative zero is smaller than positive zero. -/
def Double.minimum (x y : Double) : Double :=
  if Double.lt y x || (x.isZero && y.isZero && y.isNegative) then y else x

/-- The numbers of several values in order. -/
def numbersOf : List Value → Run (List Double)
  | [] => return []
  | v :: rest => do
    let x ← toNumber v
    return x :: (← numbersOf rest)

/-- The extreme of several numbers; not-a-number if one of them is. -/
def extreme (pick : Double → Double → Double) (start : Double) (xs : List Double) : Double :=
  if xs.any Double.isNaN then .nan else xs.foldl pick start

/-- The next state of the generator of random numbers. -/
def nextSeed (seed : Nat) : Nat := (seed * 6364136223846793005 + 1442695040888963407) % 2 ^ (64 : Nat)

/-- Moves the generator of random numbers on, and gives its state. -/
def advanceSeed : Run Nat := modifyGet fun m => (nextSeed m.seed, { m with seed := nextSeed m.seed })

/-- A random number from zero up to, not including, one. -/
def randomNumber : Run Double := do
  let seed ← advanceSeed
  return Double.ofQuotient false (seed / 2 ^ (11 : Nat)) 1 (-53)

/-- The function of one number that a name stands for. -/
def mathOfOne : MathFunction → Double → Double
  | .abs => Double.abs
  | .acos => Double.viaMachine Float.acos
  | .asin => Double.viaMachine Float.asin
  | .atan => Double.viaMachine Float.atan
  | .ceil => Double.ceil
  | .cos => Double.viaMachine Float.cos
  | .exp => Double.viaMachine Float.exp
  | .floor => Double.floor
  | .log => Double.viaMachine Float.log
  | .round => Double.round
  | .sin => Double.viaMachine Float.sin
  | .sqrt => Double.viaMachine Float.sqrt
  | .tan => Double.viaMachine Float.tan
  | _ => id

/-- The functions of `Math`. -/
def mathFunction (f : MathFunction) (args : List Value) : Run Value := do
  match f with
  | .max => return .number (extreme Double.maximum (.infinite true) (← numbersOf args))
  | .min => return .number (extreme Double.minimum (.infinite false) (← numbersOf args))
  | .atan2 =>
    let y ← toNumber (argumentAt args 0)
    let x ← toNumber (argumentAt args 1)
    return .number (Double.viaMachine₂ Float.atan2 y x)
  | .pow =>
    let x ← toNumber (argumentAt args 0)
    let y ← toNumber (argumentAt args 1)
    return .number (Double.pow x y)
  | .random => return .number (← randomNumber)
  | f => return .number (mathOfOne f (← toNumber (argumentAt args 0)))

end Ecma51
