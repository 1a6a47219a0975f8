import Ecma51.Operation.Compare
import Ecma51.Operation.Construct

/-!
# Operators

The operators of the language on values.

* `Heap.typeOf`, `Heap.typeName`: names of types.
* `unaryOperator`, `binaryOperator`: the operators.
-/

namespace Ecma51

/-- The result of `typeof`. -/
def Heap.typeOf (h : Heap) : Value → String
  | .nothing | .undefined => "undefined"
  | .null => "object"
  | .boolean _ => "boolean"
  | .string _ => "string"
  | .number _ => "number"
  | .object o => if (h.object o).isCallable then "function" else "object"

/-- The name of the type of a value, as messages use it. -/
def Heap.typeName (h : Heap) : Value → String
  | .null => "null"
  | v => h.typeOf v

/-- A signed 32-bit integer as a word. -/
def word (x : Double) : BitVec 32 := BitVec.ofNat 32 x.toUint32

/-- A word as a signed number. -/
def signedWord (w : BitVec 32) : Value := .number (.ofInt w.toInt)

/-- The operators with one operand. -/
def unaryOperator (op : UnaryOperator) (v : Value) : Run Value := do
  match op with
  | .typeOf => return .ofString ((← getHeap).typeOf v)
  | .not => return .boolean (!v.truth)
  | .bitNot => return signedWord (~~~word (← toNumber v))
  | .plus => return .number (← toNumber v)
  | .minus => return .number (← toNumber v).neg

/-- Sum of numbers, or concatenation if a primitive operand is a string. -/
def addValues (l r : Value) : Run Value := do
  match l, r with
  | .number a, .number b => return .number (a + b)
  | l, r =>
    let lp ← toPrimitive l .default
    let rp ← toPrimitive r .default
    match lp, rp with
    | .string s, rp => return .string (s ++ primitiveText rp)
    | lp, .string t => return .string (primitiveText lp ++ t)
    | lp, rp => return .number (primitiveNumber lp + primitiveNumber rp)

/-- An operator on numbers. -/
def numeric (f : Double → Double → Double) (l r : Value) : Run Value := do
  let a ← toNumber l
  let b ← toNumber r
  return .number (f a b)

/-- An operator on 32-bit words. -/
def bitwise (f : BitVec 32 → BitVec 32 → Value) (l r : Value) : Run Value := do
  let a ← toNumber l
  let b ← toNumber r
  return f (word a) (word b)

/-- The number of places that a word shifts by. -/
def shiftCount (w : BitVec 32) : Nat := w.toNat % 32

/-- Whether an object has a property. -/
def isInside (l r : Value) : Run Value := do
  match r with
  | .object o =>
    let k ← toKey l
    return .boolean ((← getHeap).hasProperty o k)
  | _ => raise .inNeedsObject

/-- Whether a value was made by a function. -/
def isInstance (l r : Value) : Run Value := do
  match r with
  | .object f =>
    if (← getHeap).isCallable r then return .boolean (← hasInstance f l) else raise .notAFunction
  | _ => raise .instanceofNeedsObject

/-- The operators with two operands. -/
def binaryOperator (op : BinaryOperator) (l r : Value) : Run Value := do
  match op with
  | .add => addValues l r
  | .sub => numeric (· - ·) l r
  | .mul => numeric (· * ·) l r
  | .div => numeric (· / ·) l r
  | .rem => numeric (· % ·) l r
  | .bitOr => bitwise (fun a b => signedWord (a ||| b)) l r
  | .bitXor => bitwise (fun a b => signedWord (a ^^^ b)) l r
  | .bitAnd => bitwise (fun a b => signedWord (a &&& b)) l r
  | .shiftLeft => bitwise (fun a b => signedWord (a <<< shiftCount b)) l r
  | .shiftRight => bitwise (fun a b => signedWord (a.sshiftRight (shiftCount b))) l r
  | .shiftRightUnsigned => bitwise (fun a b => .ofNat (a >>> shiftCount b).toNat) l r
  | .inside => isInside l r
  | .instanceOf => isInstance l r
  | .eq => return .boolean (← looseEq l r)
  | .ne => return .boolean (!(← looseEq l r))
  | .strictEq => return .boolean (l.strictEq r)
  | .strictNe => return .boolean (!l.strictEq r)
  | .lt => return .boolean ((← lessThan l r true) == some true)
  | .gt => return .boolean ((← lessThan r l false) == some true)
  | .le => return .boolean ((← lessThan r l false) == some false)
  | .ge => return .boolean ((← lessThan l r true) == some false)

end Ecma51
