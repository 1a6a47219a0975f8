import Ecma51.Number.Arithmetic
import Ecma51.Property.Descriptor
import Ecma51.Property.Key

/-!
# Keys and properties as they are stored

A stored key has room for every number of 32 bits, also for the one that is no array index. That this number is never
stored depends on the guards of the functions that make keys, each of which tests its number in the width in which it
comes: in 64 bits from digits, in 32 bits, or as a double. The elements of a new array and the arguments of a call are
stored without a guard, under as many of the bits of their position as there is room for.

A stored table is a list of keys and properties in the order in which the keys were first added.

* `StoredKey.parseIndex?`, `StoredKey.ofText`, `StoredKey.ofWord`, `StoredKey.ofNumber`, `StoredKey.ofPosition`: the
  guarded ways to a key.
* `StoredKey.ofItem`: the way without a guard.
* `StoredTable.insert`, `StoredTable.erase`: adding or replacing a property, and removing one.
* `StoredTable.ofItems`, `StoredTable.ofLiteral`, `StoredTable.ofArguments`: the properties of new arrays and arguments
  objects.
-/

namespace Ecma51

/-! ## 1. Keys -/

/-- A property key as it is stored. -/
inductive StoredKey where
  | index (i : UInt32)
  | name (t : Text)
  deriving DecidableEq

namespace StoredKey

/-- The number of 32 bits that is no array index. -/
def largest : UInt32 := 0xFFFFFFFF

/-- A number with one decimal digit more, counted in 64 bits. -/
def addDigit? (n : UInt64) (u : CodeUnit) : Option UInt64 :=
  if u.isDecimalDigit then some (n * 10 + (u - 0x30).toUInt64) else none

/-- The number that decimal digits spell, counted in 64 bits. -/
def wordValue? : List CodeUnit → Option UInt64 := List.foldlM addDigit? 0

/-- The array index that a text spells canonically. -/
def parseIndex? (t : Text) : Option UInt32 :=
  if t.length = 0 ∨ 10 < t.length then none
  else if 1 < t.length ∧ t.get? 0 = some 0x30 then none
  else
    match wordValue? t.toList with
    | some n => if n < largest.toUInt64 then some n.toUInt32 else none
    | none => none

/-- The key of a text. -/
def ofText (t : Text) : StoredKey :=
  match parseIndex? t with
  | some i => index i
  | none => name t

/-- The key of a number of 32 bits. -/
def ofWord (i : UInt32) : StoredKey := if i = largest then name "4294967295" else index i

/-- A number in 32 bits: rounded toward zero, and the nearest number that there is if it is out of range. -/
def word : Double → UInt32
  | .nan => 0
  | .infinite s => if s then 0 else largest
  | .finite s m => UInt32.ofNat (min (Double.finite s m).truncInt.toNat largest.toNat)

/-- The key of a number, without its text if it is an index. -/
def ofNumber (x : Double) : StoredKey :=
  if Double.le .zero x && Double.lt x (.ofNat largest.toNat) && x.isWhole && !(x.isZero && x.isNegative) then
    index (word x)
  else ofText x.toText

/-- The key of a position that was computed as a number. -/
def ofPosition (x : Double) : StoredKey :=
  if Double.le .zero x && Double.lt x (.ofNat largest.toNat) then index (word x) else ofText x.toText

/-- The key under which the item at a position is stored. -/
def ofItem (i : Nat) : StoredKey := index (UInt32.ofNat i)

/-- The text of a key. -/
def toText : StoredKey → Text
  | index i => Text.ofNat i.toNat
  | name t => t

end StoredKey

/-- A key in its stored form. -/
def Key.stored : Key → StoredKey
  | .index i => .index (UInt32.ofNat i.val)
  | .name t => .name t

/-! ## 2. Tables -/

/-- The own properties of an object as they are stored. -/
abbrev StoredTable := List (StoredKey × Property)

namespace StoredTable

/-- The property with the given key. -/
def get? (k : StoredKey) : StoredTable → Option Property
  | [] => none
  | (k', p) :: rest => if k' = k then some p else get? k rest

/-- Replaces the property of a key in its place, or adds one at the end. -/
def insert (k : StoredKey) (p : Property) : StoredTable → StoredTable
  | [] => [(k, p)]
  | (k', q) :: rest => if k' = k then (k', p) :: rest else (k', q) :: insert k p rest

/-- Removes the property of a key. -/
def erase (k : StoredKey) : StoredTable → StoredTable
  | [] => []
  | (k', q) :: rest => if k' = k then rest else (k', q) :: erase k rest

/-- The table has a property with the given key. -/
def Owns (s : StoredTable) (k : StoredKey) : Prop := k ∈ s.map (·.1)

/-- Adds items from a position on. -/
def fill (s : StoredTable) (n : Nat) : List Value → StoredTable
  | [] => s
  | v :: vs => fill (s.insert (.ofItem n) (.plain v)) (n + 1) vs

/-- The number of items, in 32 bits. -/
def count (vs : List Value) : Value := .ofNat (UInt32.ofNat vs.length).toNat

/-- The properties of a new array. -/
def ofItems (vs : List Value) : StoredTable :=
  (fill [] 0 vs).insert (.ofText (Text.ofString "length")) (.data (count vs) true false false)

/-- Removes the elements that a literal leaves out, from a position on. -/
def dropElisions (s : StoredTable) (n : Nat) : List Value → StoredTable
  | [] => s
  | v :: vs => dropElisions (if v.isNothing then s.erase (.ofItem n) else s) (n + 1) vs

/-- The properties of the array that a literal gives. -/
def ofLiteral (vs : List Value) : StoredTable := (ofItems vs).dropElisions 0 vs

/-- The first properties of an arguments object: the number of arguments, and each of them. -/
def ofArguments (vs : List Value) : StoredTable :=
  fill [(.ofText (Text.ofString "length"), .hidden (.ofNat vs.length))] 0 vs

end StoredTable

end Ecma51
