/-!
# Code units

A string of the language is a sequence of sixteen-bit code units; this module holds the classes of
single units that conversions, trimming and number reading ask about.

* `CodeUnit.isWhiteSpace`, `CodeUnit.isLineTerminator`, `CodeUnit.isTrimmable`: what `trim` and
  number reading strip.
* `CodeUnit.hexValue?`, `CodeUnit.digitValue?`: digits up to base sixteen and thirty-six.
* `CodeUnit.isHighSurrogate`, `CodeUnit.isLowSurrogate`: the two halves of a surrogate pair.
-/

namespace Ecma51

/-- One UTF-16 code unit. -/
abbrev CodeUnit := UInt16

namespace CodeUnit

/-! ## 1. Construction -/

/-- The code unit of a character below U+10000; others keep their low sixteen bits. -/
def ofChar (c : Char) : CodeUnit := c.toNat.toUInt16

/-- `u` lies between the two bounds, both included. -/
def between (lo hi u : CodeUnit) : Bool := lo ≤ u && u ≤ hi

/-! ## 2. Blanks -/

/-- White space other than line ends: the named controls, the no-break space, the byte order mark
and the space separators. -/
def isWhiteSpace (u : CodeUnit) : Bool :=
  u == 0x0009 || u == 0x000B || u == 0x000C || u == 0x0020 || u == 0x00A0 || u == 0xFEFF ||
    u == 0x1680 || u == 0x180E || between 0x2000 0x200A u || u == 0x202F || u == 0x205F ||
    u == 0x3000

/-- The four units that end a line. -/
def isLineTerminator (u : CodeUnit) : Bool :=
  u == 0x000A || u == 0x000D || u == 0x2028 || u == 0x2029

/-- What is stripped from the ends of a string before it is read as a number. -/
def isTrimmable (u : CodeUnit) : Bool := u.isWhiteSpace || u.isLineTerminator

/-! ## 3. Digits, letters and word characters -/

/-- An ASCII decimal digit. -/
def isDecimalDigit (u : CodeUnit) : Bool := between 0x30 0x39 u

/-- An ASCII letter. -/
def isAlpha (u : CodeUnit) : Bool := between 0x41 0x5A u || between 0x61 0x7A u

/-- A letter, a digit or the low line. -/
def isWordChar (u : CodeUnit) : Bool := u.isAlpha || u.isDecimalDigit || u == 0x5F

/-- The value of `u` as a digit in bases up to thirty-six, letters of either case. -/
def digitValue? (u : CodeUnit) : Option Nat :=
  if u.isDecimalDigit then some (u.toNat - 0x30)
  else if between 0x41 0x5A u then some (u.toNat - 0x41 + 10)
  else if between 0x61 0x7A u then some (u.toNat - 0x61 + 10)
  else none

/-- The value of `u` as a hexadecimal digit. -/
def hexValue? (u : CodeUnit) : Option Nat := u.digitValue?.filter (· < 16)

/-- The unit that writes the digit `d < 36`, letters in lower case. -/
def ofDigit (d : Nat) : CodeUnit :=
  if d < 10 then (0x30 + d).toUInt16 else (0x61 + (d - 10)).toUInt16

/-! ## 4. Surrogates -/

/-- The first half of a surrogate pair. -/
def isHighSurrogate (u : CodeUnit) : Bool := between 0xD800 0xDBFF u

/-- The second half of a surrogate pair. -/
def isLowSurrogate (u : CodeUnit) : Bool := between 0xDC00 0xDFFF u

/-- Either half of a surrogate pair. -/
def isSurrogate (u : CodeUnit) : Bool := between 0xD800 0xDFFF u

end CodeUnit

end Ecma51
