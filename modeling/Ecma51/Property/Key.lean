import Ecma51.Number.Integral
import Ecma51.Number.Format
import Ecma51.Text.Basic

/-!
# Property keys

A property is named by a text; the texts that are canonical array indices (`0` to `2^32 - 2`, no
leading zeros) are kept as numbers, so that a key has exactly one representation.

* `ArrayIndex`: the numbers that are array indices.
* `Key.ofText`, `Key.toText`: between texts and keys.
* `Key.ofNat`, `Key.ofDouble?`, `Key.ofPosition`: short ways for numbers, agreeing with their texts.
-/

namespace Ecma51

-- powers mean the same whether or not there are other instances in scope
attribute [local instance (high)] instPowNat

/-- One more than the largest array index. -/
def indexLimit : Nat := 2 ^ (32 : Nat) - 1

/-- An array index. -/
abbrev ArrayIndex := Fin indexLimit

/-- The array index that a number is. -/
def ArrayIndex.ofNat? (n : Nat) : Option ArrayIndex :=
  if h : n < indexLimit then some ⟨n, h⟩ else none

/-- A property key. -/
inductive Key where
  | index (i : ArrayIndex)
  | name (t : Text)
  deriving DecidableEq

namespace Key

instance : Inhabited Key := ⟨name .empty⟩

/-- The number that decimal digits spell; `none` if a unit is no digit. -/
def decimalValue? : List CodeUnit → Option Nat :=
  List.foldlM (fun acc u => if u.isDecimalDigit then some (acc * 10 + (u.toNat - 0x30)) else none) 0

/-- The array index that a text spells canonically. -/
def arrayIndex? (t : Text) : Option ArrayIndex :=
  if t.length = 0 ∨ 10 < t.length ∨ (1 < t.length ∧ t.get? 0 = some 0x30) then none
  else (decimalValue? t.toList).bind ArrayIndex.ofNat?

/-- The key of a text. -/
def ofText (t : Text) : Key :=
  match arrayIndex? t with
  | some i => index i
  | none => name t

/-- The key of a known name. -/
def ofString (s : String) : Key := ofText (Text.ofString s)

/-- The key of a number's decimal text. -/
def ofNat (n : Nat) : Key :=
  match ArrayIndex.ofNat? n with
  | some i => index i
  | none => name (Text.ofNat n)

/-- The text of a key. -/
def toText : Key → Text
  | index i => Text.ofNat i
  | name t => t

/-- The array index that a key is. -/
def index? : Key → Option Nat
  | index i => some i
  | name _ => none

/-- The key is the given name. -/
def isNamed (k : Key) (s : String) : Bool := k == name (Text.ofString s)

/-- The array index that a number is: whole, not negative, not negative zero and below the limit. -/
def ofDouble? : Double → Option Key
  | .finite false m => if m.isWhole then (ArrayIndex.ofNat? m.whole).map index else none
  | _ => none

/-- The key of a number: that of its text. -/
def ofDouble (x : Double) : Key := (ofDouble? x).getD (ofText x.toText)

/-- The key of a position that was computed as a number and is taken to be whole: its index if it is within the
index range, and the key of its text past it. Negative zero is the index 0. -/
def ofPosition (x : Double) : Key :=
  if Double.le .zero x && Double.lt x (.ofNat indexLimit) then
    ((ArrayIndex.ofNat? x.truncInt.toNat).map index).getD (ofText x.toText)
  else ofText x.toText

/-- The key `length`. -/
def length : Key := name (Text.ofString "length")

end Key

end Ecma51
