import Ecma51.Number.Arithmetic
import Ecma51.Text.Basic

/-!
# Values

The values that programs compute with. Objects are named by their place in the heap, so equality of
object values is identity. One value is internal: `nothing` marks an array hole in a literal, an
uninitialised binding, and the absence of a pending exception.

* `Value`: the seven kinds.
* `Value.truth`: conversion to a truth value.
* `Value.same`: identity of values, telling the zeros apart.
* `Value.strictEq`: equality without conversion.
* `ValueTag`: the kinds by name.
-/

namespace Ecma51

/-- The place of an object in the heap. -/
abbrev ObjectId := Nat

/-- The place of an environment in the heap. -/
abbrev EnvironmentId := Nat

/-- A value of the language, or the internal `nothing`. -/
inductive Value where
  | nothing
  | undefined
  | null
  | boolean (b : Bool)
  | number (x : Double)
  | string (t : Text)
  | object (o : ObjectId)
  deriving DecidableEq

namespace Value

instance : Inhabited Value := ⟨undefined⟩

/-! ## 1. Kinds -/

/-- The value is the internal `nothing`. -/
def isNothing : Value → Bool
  | nothing => true
  | _ => false

/-- The value is `undefined`. -/
def isUndefined : Value → Bool
  | undefined => true
  | _ => false

/-- The value is `null` or `undefined`. -/
def isNullish : Value → Bool
  | null | undefined => true
  | _ => false

/-- The value is an object. -/
def isObject : Value → Bool
  | object _ => true
  | _ => false

/-- The object that the value is, if it is one. -/
def object? : Value → Option ObjectId
  | object o => some o
  | _ => none

/-- The text that the value is, if it is a string. -/
def text? : Value → Option Text
  | string t => some t
  | _ => none

/-- A natural number as a value. -/
def ofNat (n : Nat) : Value := number (.ofNat n)

/-- A string as a value. -/
def ofString (s : String) : Value := string (Text.ofString s)

/-- An object or `null`. -/
def ofObject? : Option ObjectId → Value
  | some o => object o
  | none => null

/-! ## 2. Truth and equality -/

/-- Conversion to a truth value. -/
def truth : Value → Bool
  | nothing | undefined | null => false
  | boolean b => b
  | number x => !(x.isZero || x.isNaN)
  | string t => !t.isEmpty
  | object _ => true

/-- Identity of values: not-a-number is the same as itself, the zeros differ. The internal
`nothing` is the same as itself only. -/
def same (a b : Value) : Bool := decide (a = b)

/-- Equality without conversion: numbers compare numerically, all else by identity. -/
def strictEq : Value → Value → Bool
  | number x, number y => x.eq y
  | a, b => same a b

end Value

/-! ## 3. Kinds by name -/

/-- A kind of values. -/
inductive ValueTag where
  | nothing
  | undefined
  | null
  | boolean
  | number
  | string
  | object
  deriving DecidableEq, Repr

/-- The name of a kind. -/
def ValueTag.name : ValueTag → String
  | .nothing => "Nothing"
  | .undefined => "Undefined"
  | .null => "Null"
  | .boolean => "Boolean"
  | .number => "Number"
  | .string => "String"
  | .object => "Object"

/-- The kind of a value. -/
def Value.tag : Value → ValueTag
  | .nothing => .nothing
  | .undefined => .undefined
  | .null => .null
  | .boolean _ => .boolean
  | .number _ => .number
  | .string _ => .string
  | .object _ => .object

end Ecma51
