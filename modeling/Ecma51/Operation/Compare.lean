import Ecma51.Operation.Access

/-!
# Comparison

Equality with conversions, and order.

* `looseEq`: equality that converts between numbers, strings, booleans and objects.
* `lessThan`: order of strings by units, of everything else by number; `none` if a side is
  not-a-number.
-/

namespace Ecma51

/-- A boolean as a number; other values as they are. -/
def booleanAsNumber : Value → Value
  | .boolean b => .number (if b then 1 else .zero)
  | v => v

/-- Two values of one type. -/
def sameType : Value → Value → Bool
  | .nothing, .nothing | .undefined, .undefined | .null, .null => true
  | .boolean _, .boolean _ | .number _, .number _ | .string _, .string _ | .object _, .object _ => true
  | _, _ => false

/-- Equality of values that are no objects, or not both: null and undefined are equal to each other,
and booleans and strings are compared with other types as numbers. -/
def primitiveEq (x y : Value) : Bool :=
  if sameType x y then x.strictEq y
  else if x.isNullish && y.isNullish then true
  else
    match booleanAsNumber x, booleanAsNumber y with
    | .number a, .number b => a.eq b
    | .number a, .string t => a.eq (.ofText t)
    | .string t, .number b => (Double.ofText t).eq b
    | _, _ => false

/-- The value is compared with an object by way of the object's primitive value. -/
def comparesPrimitively : Value → Bool
  | .boolean _ | .number _ | .string _ => true
  | _ => false

/-- Equality with conversions. -/
def looseEq (x y : Value) : Run Bool := do
  match x, y with
  | .object a, .object b => return a == b
  | .object _, y =>
    if comparesPrimitively y then return primitiveEq (← toPrimitive x .default) y else return false
  | x, .object _ =>
    if comparesPrimitively x then return primitiveEq x (← toPrimitive y .default) else return false
  | x, y => return primitiveEq x y

/-- Order of primitive values. -/
def primitiveLess (x y : Value) : Option Bool :=
  match x, y with
  | .string s, .string t => some (s.compare t == .lt)
  | x, y =>
    match (primitiveNumber x).order? (primitiveNumber y) with
    | none => none
    | some o => some (o == .lt)

/-- Whether `x` is less than `y`; the left operand is converted first if `leftFirst`. -/
def lessThan (x y : Value) (leftFirst : Bool) : Run (Option Bool) := do
  if leftFirst then
    let px ← toPrimitive x .number
    let py ← toPrimitive y .number
    return primitiveLess px py
  else
    let py ← toPrimitive y .number
    let px ← toPrimitive x .number
    return primitiveLess px py

end Ecma51
