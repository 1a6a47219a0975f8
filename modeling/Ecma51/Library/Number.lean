import Ecma51.Number.Radix
import Ecma51.Operation.Access

/-!
# Numbers and booleans

The constructors `Number` and `Boolean` and their methods.
-/

namespace Ecma51

/-! ## Numbers -/

/-- The number that a method was called on. -/
def thisNumber (this : Value) (method : String) : Run Double := do
  match this with
  | .number x => return x
  | .object o =>
    match ((← getHeap).object o).kind with
    | .number x => return x
    | _ => raise (.incompatibleReceiver "Number" method)
  | _ => raise (.incompatibleReceiver "Number" method)

/-- The number of the first argument; zero if there is none. -/
def firstNumber (args : List Value) : Run Double :=
  match args with
  | v :: _ => toNumber v
  | [] => return .zero

/-- The count that a number gives, if it lies between two bounds. -/
def countBetween? (least most : Nat) (x : Double) : Option Nat :=
  match x with
  | .infinite _ => none
  | x =>
    let i := x.truncInt
    if least ≤ i ∧ i ≤ most then some i.toNat else none

/-- A count between two bounds, or a fault. -/
def requireCount (least most : Nat) (x : Double) (f : Fault) : Run Nat :=
  match countBetween? least most x with
  | some n => return n
  | none => raise f

/-- The functions of `Number` and of its prototype. -/
def numberFunction (f : NumberFunction) (this : Value) (args : List Value) : Run Value := do
  let first := argumentAt args 0
  match f with
  | .call => return .number (← firstNumber args)
  | .construct =>
    let x ← firstNumber args
    return .object (← newObjectOf
      (.ofKind "Number" (some Intrinsic.numberPrototype.id) (.number x)))
  | .toString =>
    let x ← thisNumber this "toString"
    let radix ← if first.isUndefined then pure 10 else toInteger first
    let radix ← requireCount 2 36 radix .badRadix
    return .string (if radix = 10 then x.toText else x.toRadix radix)
  | .toLocaleString => return .string (← thisNumber this "toLocaleString").toText
  | .valueOf => return .number (← thisNumber this "valueOf")
  | .toFixed =>
    let x ← thisNumber this "toFixed"
    let places ← requireCount 0 20 (← toInteger first) .fractionDigits
    if x.isNaN || !Double.lt x.abs (Double.ofDecimal false 1 21) then return .string x.toText
    return .string (x.toFixed places)
  | .toExponential =>
    let x ← thisNumber this "toExponential"
    let places ← toInteger first
    if !x.isFinite then return .string x.toText
    let places ← requireCount 0 20 places .fractionDigits
    return .string (x.toExponential (if first.isUndefined then none else some places))
  | .toPrecision =>
    let x ← thisNumber this "toPrecision"
    if first.isUndefined then return .string x.toText
    let digits ← toInteger first
    if !x.isFinite then return .string x.toText
    let digits ← requireCount 1 21 digits .precision
    return .string (x.toPrecision digits)

/-! ## Booleans -/

/-- The truth value that a method was called on. -/
def thisBoolean (this : Value) (method : String) : Run Bool := do
  match this with
  | .boolean b => return b
  | .object o =>
    match ((← getHeap).object o).kind with
    | .boolean b => return b
    | _ => raise (.incompatibleReceiver "Boolean" method)
  | _ => raise (.incompatibleReceiver "Boolean" method)

/-- The functions of `Boolean` and of its prototype. -/
def booleanFunction (f : BooleanFunction) (this : Value) (args : List Value) : Run Value := do
  let b := (argumentAt args 0).truth
  match f with
  | .call => return .boolean b
  | .construct =>
    return .object (← newObjectOf
      (.ofKind "Boolean" (some Intrinsic.booleanPrototype.id) (.boolean b)))
  | .toString => return .ofString (if ← thisBoolean this "toString" then "true" else "false")
  | .valueOf => return .boolean (← thisBoolean this "valueOf")

end Ecma51
