import Ecma51.Text.Basic

/-!
# Code points in UTF-16

Reading a text code point by code point. A high surrogate followed by a low one is one code point;
any other surrogate stands alone.

* `Text.codePointAt`: the code point that starts at a position, and its width in units.
* `Text.scalars`: the whole text as characters and lone surrogates.
* `Text.toWellFormed`: the text as a string, lone surrogates replaced by U+FFFD.
-/

namespace Ecma51

namespace Text

/-- The code point of a surrogate pair. -/
def pairCodePoint (high low : CodeUnit) : Nat :=
  0x10000 + (high.toNat - 0xD800) * 0x400 + (low.toNat - 0xDC00)

/-- The code point at the head of a list of units, and the number of units it takes. A lone
surrogate is its own value. -/
def headCodePoint : CodeUnit → List CodeUnit → Nat × Nat
  | u, v :: _ =>
    if u.isHighSurrogate && v.isLowSurrogate then (pairCodePoint u v, 2) else (u.toNat, 1)
  | u, [] => (u.toNat, 1)

/-- The code point that starts at position `i`, and its width; `none` past the end. -/
def codePointAt (t : Text) (i : Nat) : Option (Nat × Nat) :=
  (t.get? i).map fun u => headCodePoint u ((t.get? (i + 1)).toList)

/-- One item of a decoded text: a character, or a surrogate without partner. -/
inductive Scalar where
  | char (c : Char)
  | lone (u : CodeUnit)
  deriving DecidableEq

/-- The units that spell an item. -/
def Scalar.units : Scalar → List CodeUnit
  | .char c => unitsOfCodePoint c.toNat
  | .lone u => [u]

/-- The items of a list of units, pairs joined. -/
def scalarsOfUnits : List CodeUnit → List Scalar
  | [] => []
  | [u] => [if u.isSurrogate then .lone u else .char (Char.ofNat u.toNat)]
  | u :: v :: rest =>
    if u.isHighSurrogate && v.isLowSurrogate then
      .char (Char.ofNat (pairCodePoint u v)) :: scalarsOfUnits rest
    else
      (if u.isSurrogate then .lone u else .char (Char.ofNat u.toNat)) :: scalarsOfUnits (v :: rest)

/-- The items of a text. -/
def scalars (t : Text) : List Scalar := scalarsOfUnits t.toList

/-- The character that an item shows outside: a lone surrogate becomes U+FFFD. -/
def Scalar.toChar : Scalar → Char
  | .char c => c
  | .lone _ => Char.ofNat 0xFFFD

/-- The characters of a text, lone surrogates replaced by U+FFFD. -/
def chars (t : Text) : List Char := t.scalars.map Scalar.toChar

/-- The text as a string, lone surrogates replaced by U+FFFD. -/
def toWellFormed (t : Text) : String := String.ofList t.chars

/-- The text holds a surrogate that is not half of a pair. -/
def hasLoneSurrogate (t : Text) : Bool :=
  t.scalars.any fun
    | .lone _ => true
    | .char _ => false

end Text

end Ecma51
