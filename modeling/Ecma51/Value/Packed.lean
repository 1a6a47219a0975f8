import Ecma51.Value

/-!
# Values in one word

A value fits into 64 bits. A number is its own bit pattern, with a single pattern for not-a-number; all
other values use patterns of not-a-number that are left over, with the kind in the upper sixteen bits
and the rest below.

The numbers that are stored are those of the machine: a not-a-number among them has a sign and a payload
of its own, and it is the test in `PackedValue.ofNumber` that keeps these out of the words.

* `Binary64`: a number of the machine, by its pattern.
* `WordContent`: what a word can hold.
* `PackedValue.pack?`, `PackedValue.content`: storing and reading back.
* `PackedValue.tag` and the predicates: the kind, from the bits alone.
-/

namespace Ecma51

/-- A number as the machine has it: any pattern of 64 bits. -/
structure Binary64 where
  bits : UInt64
  deriving DecidableEq

namespace Binary64

/-- Not-a-number: apart from the sign, the pattern is beyond that of infinity, so the exponent field is
full and the fraction is not zero. -/
def isNaN (x : Binary64) : Bool := 0x7FF0000000000000 < x.bits &&& 0x7FFFFFFFFFFFFFFF

/-- The number that a pattern stands for. -/
def value (x : Binary64) : Double := .ofBits x.bits

/-- The same number: the same pattern, or not-a-number both times. -/
def Alike (x y : Binary64) : Prop := x = y ∨ x.isNaN = true ∧ y.isNaN = true

instance (x y : Binary64) : Decidable (x.Alike y) := inferInstanceAs (Decidable (_ ∨ _))

end Binary64

/-- What a word holds; strings and objects by their address. -/
inductive WordContent where
  | nothing
  | undefined
  | null
  | boolean (b : Bool)
  | number (x : Binary64)
  | string (address : UInt64)
  | object (address : UInt64)
  deriving DecidableEq

/-- The kind of what a word holds. -/
def WordContent.tag : WordContent → ValueTag
  | .nothing => .nothing
  | .undefined => .undefined
  | .null => .null
  | .boolean _ => .boolean
  | .number _ => .number
  | .string _ => .string
  | .object _ => .object

/-- The same content, up to the pattern of a not-a-number. -/
def WordContent.Alike : WordContent → WordContent → Prop
  | .number x, .number y => x.Alike y
  | c, d => c = d

/-- A value in one word. -/
structure PackedValue where
  bits : UInt64
  deriving DecidableEq

namespace PackedValue

/-! ## 1. Layout -/

/-- The lowest bit of the kind. -/
def tagShift : UInt64 := 48

/-- The bits of the kind. -/
def tagMask : UInt64 := 0xFFFF <<< tagShift

/-- The bits below the kind. -/
def payloadMask : UInt64 := (1 <<< tagShift) - 1

/-- The one pattern of not-a-number that is stored. -/
def quietNaN : UInt64 := 0x7FF8000000000000

/-- The word of a kind with nothing below. Numbers have none: theirs are all words that are smaller
than these. -/
def mark : ValueTag → UInt64
  | .number => 0
  | .nothing => 0xFFF9 <<< tagShift
  | .undefined => 0xFFFA <<< tagShift
  | .null => 0xFFFB <<< tagShift
  | .boolean => 0xFFFC <<< tagShift
  | .string => 0xFFFD <<< tagShift
  | .object => 0xFFFE <<< tagShift

/-! ## 2. Storing -/

/-- The word of a number. -/
def ofNumber (x : Binary64) : PackedValue := if x.isNaN then ⟨quietNaN⟩ else ⟨x.bits⟩

/-- The word of a truth value. -/
def ofBoolean (b : Bool) : PackedValue := ⟨mark .boolean ||| b.toUInt64⟩

/-- The word of an address under a kind; `none` if bits of the address are in the way. -/
def ofAddress? (t : ValueTag) (address : UInt64) : Option PackedValue :=
  if address &&& ~~~payloadMask = 0 then some ⟨mark t ||| address⟩ else none

/-- The word of a content. -/
def pack? : WordContent → Option PackedValue
  | .nothing => some ⟨mark .nothing⟩
  | .undefined => some ⟨mark .undefined⟩
  | .null => some ⟨mark .null⟩
  | .boolean b => some (ofBoolean b)
  | .number x => some (ofNumber x)
  | .string a => ofAddress? .string a
  | .object a => ofAddress? .object a

/-! ## 3. Kinds -/

/-- The word holds a number. -/
def isNumber (p : PackedValue) : Bool := p.bits < mark .nothing

/-- The word holds `nothing`. -/
def isNothing (p : PackedValue) : Bool := p.bits == mark .nothing

/-- The word holds undefined. -/
def isUndefined (p : PackedValue) : Bool := p.bits == mark .undefined

/-- The word holds null. -/
def isNull (p : PackedValue) : Bool := p.bits == mark .null

/-- The word holds a truth value. -/
def isBoolean (p : PackedValue) : Bool := p.bits &&& tagMask == mark .boolean

/-- The word holds a string. -/
def isString (p : PackedValue) : Bool := p.bits &&& tagMask == mark .string

/-- The word holds an object. -/
def isObject (p : PackedValue) : Bool := p.bits &&& tagMask == mark .object

/-- The kind of a word. -/
def tag (p : PackedValue) : ValueTag :=
  if p.isNumber then .number
  else if p.bits &&& tagMask = mark .nothing then .nothing
  else if p.bits &&& tagMask = mark .undefined then .undefined
  else if p.bits &&& tagMask = mark .null then .null
  else if p.bits &&& tagMask = mark .boolean then .boolean
  else if p.bits &&& tagMask = mark .string then .string
  else .object

/-! ## 4. Reading -/

/-- The truth value in a word. -/
def asBoolean (p : PackedValue) : Bool := p.bits &&& 1 == 1

/-- The number in a word. -/
def asNumber (p : PackedValue) : Binary64 := ⟨p.bits⟩

/-- The address in a word. -/
def payload (p : PackedValue) : UInt64 := p.bits &&& payloadMask

/-- The address of the string that a word holds, if it holds one. -/
def string? (p : PackedValue) : Option UInt64 := if p.isString then some p.payload else none

/-- The address of the object that a word holds, if it holds one. -/
def object? (p : PackedValue) : Option UInt64 := if p.isObject then some p.payload else none

/-- What a word holds. -/
def content (p : PackedValue) : WordContent :=
  match p.tag with
  | .nothing => .nothing
  | .undefined => .undefined
  | .null => .null
  | .boolean => .boolean p.asBoolean
  | .number => .number p.asNumber
  | .string => .string p.payload
  | .object => .object p.payload

end PackedValue

end Ecma51
