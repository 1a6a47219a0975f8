import Ecma51.Text.Basic
import Ecma51.Text.Utf8

/-!
# One character per unit

Pattern matching runs on characters, so a text is shown to it with exactly one character per code
unit: a surrogate moves into a plane of its own, every other unit is itself. Positions are then
unit positions; the octet offsets of the shown text are kept beside them.

* `standIn`, `unstandIn`: a unit as a code point and back; `standInChar`: as a character.
* `Place.of`: where a number stands in an ascending array, by halving the part that is left.
* `Offsets.ofText`: the shown text with the octet offset of every unit.
* `Offsets.toByte`, `Offsets.toUnit`: between unit positions and octet offsets.
-/

namespace Ecma51

/-! ## 1. Stand-ins -/

/-- The first code point of the plane that stands in for surrogates. -/
def surrogatePlane : Nat := 0xF0000

/-- The code point that stands for a unit: surrogates move to `surrogatePlane`. A number that is no
scalar value becomes U+FFFD. -/
def standIn (unit : Nat) : Nat :=
  if 0xD800 ≤ unit ∧ unit ≤ 0xDFFF then surrogatePlane + (unit - 0xD800)
  else if Utf8.isScalarValue unit then unit else 0xFFFD

/-- The unit for which a code point stands. -/
def unstandIn (cp : Nat) : Nat :=
  if surrogatePlane ≤ cp ∧ cp < surrogatePlane + 0x800 then cp - surrogatePlane + 0xD800 else cp

/-- The octets that the stand-in of a unit takes. -/
def standInWidth (u : CodeUnit) : Nat := (Utf8.encode (standIn u.toNat)).length

/-- The character that stands for a unit. -/
def standInChar (u : CodeUnit) : Char := Char.ofNat (standIn u.toNat)

/-! ## 2. Binary search -/

/-- Where a number belongs in an ascending array. -/
inductive Place where
  /-- It stands at this index. -/
  | found (i : Nat)
  /-- It does not stand in the array; put in at this index, it keeps the order. -/
  | missing (i : Nat)
  deriving DecidableEq, Repr

namespace Place

variable (xs : Array Nat) (x : Nat)

/-- The place of `x` among the entries from `lo` up to, not including, `hi`. -/
def between (lo hi : Nat) (h : hi ≤ xs.size) : Place :=
  if hlt : lo < hi then
    let mid := (lo + hi) / 2
    have hmid : lo ≤ mid ∧ mid < hi := by omega
    if xs[mid] < x then between (mid + 1) hi h
    else if x < xs[mid] then between lo mid (by omega)
    else .found mid
  else .missing lo
termination_by hi - lo

/-- The place of `x` in the whole array. -/
def of : Place := between xs x 0 xs.size (Nat.le_refl _)

end Place

/-! ## 3. Shown texts -/

/-- A text as it is shown, and the octet offset of every unit and of the end. -/
structure Offsets where
  shown : String
  starts : Array Nat
  /-- The end has an offset. -/
  starts_pos : 0 < starts.size

namespace Offsets

/-- One more unit: it begins where the characters so far end. -/
def showUnit (shown : String × Array Nat) (u : CodeUnit) : String × Array Nat :=
  (shown.1.push (standInChar u), shown.2.push shown.1.utf8ByteSize)

/-- The units of a text, shown one after the other. -/
def showUnits (us : List CodeUnit) : String × Array Nat := us.foldl showUnit ("", #[])

/-- The offsets of a text. -/
def ofText (t : Text) : Offsets where
  shown := (showUnits t.toList).1
  starts := (showUnits t.toList).2.push (showUnits t.toList).1.utf8ByteSize
  starts_pos := by simp

/-- The octet offset of a unit position; positions past the end give the end. -/
def toByte (o : Offsets) (i : Nat) : Nat :=
  have := o.starts_pos
  o.starts[min i (o.starts.size - 1)]

/-- The unit position of an octet offset: of an offset inside a character, the unit that holds
it; past the end, the end. -/
def toUnit (o : Offsets) (byte : Nat) : Nat :=
  match Place.of o.starts byte with
  | .found i => i
  | .missing i => i - 1

/-- The number of octets of the shown text. -/
def byteLength (o : Offsets) : Nat := o.shown.utf8ByteSize

end Offsets

end Ecma51
