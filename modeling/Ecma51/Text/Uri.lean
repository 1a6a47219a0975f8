import Ecma51.Text.Scalar
import Ecma51.Text.Utf8

/-!
# Escapes in URIs

A character that a URI must not hold is written as its UTF-8 octets, each as a percent sign and two
hexadecimal digits.

* `Uri.encode?`: escapes all characters but some; fails on a surrogate without partner.
* `Uri.decode?`: reads escapes, except those of reserved characters; fails if an escape is not UTF-8.
* `Uri.Scope`: whole URIs keep the characters that divide their parts, components escape them.
-/

namespace Ecma51

namespace Uri

/-! ## 1. Characters -/

/-- A unit is one of the characters of a string. -/
def isOneOf (s : String) (u : CodeUnit) : Bool := s.toList.any fun c => CodeUnit.ofChar c == u

/-- Letters, digits and marks are never escaped. -/
def isUnescaped (u : CodeUnit) : Bool := u.isAlpha || u.isDecimalDigit || isOneOf "-_.!~*'()" u

/-- The characters that divide the parts of a URI. -/
def isReserved (u : CodeUnit) : Bool := isOneOf ";/?:@&=+$,#" u

/-- What is escaped: a whole URI or a component of one. -/
inductive Scope where
  | whole
  | component
  deriving DecidableEq, Repr

/-- The units that encoding leaves as they are. -/
def Scope.keeps (s : Scope) (u : CodeUnit) : Bool :=
  isUnescaped u || (s == .whole && isReserved u)

/-- The units whose escapes decoding leaves as they are. -/
def Scope.reserves (s : Scope) (u : CodeUnit) : Bool := s == .whole && isReserved u

/-! ## 2. Encoding -/

/-- The unit of an upper-case hexadecimal digit. -/
def hexUnit (d : Nat) : CodeUnit := (if d < 10 then 0x30 + d else 0x41 + (d - 10)).toUInt16

/-- The escape of an octet. -/
def escapeByte (b : UInt8) : List CodeUnit := [0x25, hexUnit (b.toNat / 16), hexUnit (b.toNat % 16)]

/-- The escape of a code point. -/
def escape (cp : Nat) : List CodeUnit := (Utf8.encode cp).flatMap escapeByte

/-- The units with all but the kept ones escaped; `none` at a surrogate without partner. -/
def encodeUnits? (keeps : CodeUnit → Bool) : List CodeUnit → Option (List CodeUnit)
  | [] => some []
  | u :: rest =>
    if keeps u then (encodeUnits? keeps rest).map (u :: ·)
    else
      let (cp, width) := Text.headCodePoint u rest
      if 0xD800 ≤ cp ∧ cp ≤ 0xDFFF then none
      else (encodeUnits? keeps (rest.drop (width - 1))).map (escape cp ++ ·)
termination_by us => us.length
decreasing_by all_goals simp only [List.length_cons, List.length_drop]; omega

/-- A text with its characters escaped. -/
def encode? (s : Scope) (t : Text) : Option Text :=
  (encodeUnits? s.keeps t.toList).map Text.ofList

/-! ## 3. Decoding -/

/-- The octet of the escape at the head. -/
def escapedByte? : List CodeUnit → Option UInt8
  | p :: hi :: lo :: _ => do
    if p ≠ 0x25 then none
    let h ← hi.hexValue?
    let l ← lo.hexValue?
    some (h * 16 + l).toUInt8
  | _ => none

/-- The code point of the escapes at the head, and the number of its octets. -/
def escapedCodePoint? (us : List CodeUnit) : Option (Nat × Nat) := do
  let lead ← escapedByte? us
  let n ← Utf8.sequenceLength? lead
  let octets ← (List.range n).mapM fun j => escapedByte? (us.drop (3 * j))
  let cp ← Utf8.decode? octets
  some (cp, n)

/-- The units with escapes read, those of reserved units excepted; `none` at a bad escape. -/
def decodeUnits? (reserved : CodeUnit → Bool) : List CodeUnit → Option (List CodeUnit)
  | [] => some []
  | u :: rest =>
    if u = 0x25 then
      match escapedCodePoint? (u :: rest) with
      | none => none
      | some (cp, n) =>
        let width := 3 * n - 1
        let shown :=
          if cp < 0x10000 && reserved cp.toUInt16 then u :: rest.take width
          else Text.unitsOfCodePoint cp
        (decodeUnits? reserved (rest.drop width)).map (shown ++ ·)
    else (decodeUnits? reserved rest).map (u :: ·)
termination_by us => us.length
decreasing_by all_goals simp only [List.length_cons, List.length_drop]; omega

/-- A text with its escapes read. -/
def decode? (s : Scope) (t : Text) : Option Text :=
  (decodeUnits? s.reserves t.toList).map Text.ofList

end Uri

end Ecma51
