/-!
# UTF-8

The octets of a code point and back. The encoder takes any number, surrogates included; the decoder
accepts exactly one complete, shortest sequence of a Unicode scalar value.

* `Utf8.encode`, `Utf8.decode?`: one code point.
* `Utf8.sequenceLength?`: the length that a lead octet announces.
* `Utf8.decodeAll?`: a whole list of octets.
-/

namespace Ecma51

namespace Utf8

/-- The octets of a code point: one, two, three or four by its size. -/
def encode (cp : Nat) : List UInt8 :=
  if cp < 0x80 then [cp.toUInt8]
  else if cp < 0x800 then [0xC0 ||| (cp / 0x40).toUInt8, 0x80 ||| (cp % 0x40).toUInt8]
  else if cp < 0x10000 then
    [0xE0 ||| (cp / 0x1000).toUInt8, 0x80 ||| (cp / 0x40 % 0x40).toUInt8,
      0x80 ||| (cp % 0x40).toUInt8]
  else
    [0xF0 ||| (cp / 0x40000).toUInt8, 0x80 ||| (cp / 0x1000 % 0x40).toUInt8,
      0x80 ||| (cp / 0x40 % 0x40).toUInt8, 0x80 ||| (cp % 0x40).toUInt8]

/-- The number of octets of a sequence that begins with `lead`; `none` if none does. -/
def sequenceLength? (lead : UInt8) : Option Nat :=
  if lead &&& 0x80 == 0 then some 1
  else if lead &&& 0xE0 == 0xC0 then some 2
  else if lead &&& 0xF0 == 0xE0 then some 3
  else if lead &&& 0xF8 == 0xF0 then some 4
  else none

/-- An octet that continues a sequence. -/
def isContinuation (b : UInt8) : Bool := b &&& 0xC0 == 0x80

/-- The least code point that needs `n` octets. -/
def leastOfLength : Nat → Nat
  | 0 | 1 => 0
  | 2 => 0x80
  | 3 => 0x800
  | _ => 0x10000

/-- A number that is a Unicode scalar value: in range and no surrogate. -/
def isScalarValue (cp : Nat) : Bool := cp ≤ 0x10FFFF && !(0xD800 ≤ cp && cp ≤ 0xDFFF)

/-- The payload of the lead octet of a sequence of `n` octets. -/
def leadPayload (n : Nat) (lead : UInt8) : Nat :=
  match n with
  | 1 => lead.toNat
  | 2 => lead.toNat % 0x20
  | 3 => lead.toNat % 0x10
  | _ => lead.toNat % 0x08

/-- The code point of one complete sequence. Overlong forms, surrogates and values past U+10FFFF
are refused. -/
def decode? : List UInt8 → Option Nat
  | [] => none
  | lead :: rest =>
    if sequenceLength? lead == some (rest.length + 1) && rest.all isContinuation then
      let cp := rest.foldl (fun acc b => acc * 0x40 + b.toNat % 0x40)
        (leadPayload (rest.length + 1) lead)
      if leastOfLength (rest.length + 1) ≤ cp && isScalarValue cp then some cp else none
    else none

/-- The code points of a list of octets, one sequence after the other; `none` if some part is no
sequence. The number bounds the sequences read. -/
def decodeUpTo? : Nat → List UInt8 → Option (List Nat)
  | _, [] => some []
  | 0, _ :: _ => none
  | n + 1, lead :: rest => do
    let len ← sequenceLength? lead
    let cp ← decode? ((lead :: rest).take len)
    let tail ← decodeUpTo? n ((lead :: rest).drop len)
    return cp :: tail

/-- The code points of a list of octets, or `none` if it is not UTF-8. -/
def decodeAll? (bytes : List UInt8) : Option (List Nat) := decodeUpTo? bytes.length bytes

end Utf8

end Ecma51
