import Ecma51.Pattern.Class

/-!
# Sets as octets

An automaton reads a subject octet by octet, so a set of units becomes sequences of octet ranges.
Code points of one length are cut into blocks in which every octet runs through a range of its own.

* `mergeRanges`: ranges in ascending order with gaps between them.
* `UnitSet.codePoints`: the code points of the stand-ins of a set.
* `octetSequences`: ranges of code points as sequences of octet ranges.
-/

namespace Ecma51.Pattern

-- powers mean the same whether or not there are other instances in scope
attribute [local instance (high)] instPowNat

/-- A range of numbers, both ends included. -/
abbrev NumberRange := Nat × Nat

/-- The ranges in ascending order with gaps between them. -/
def mergeRanges (ranges : List NumberRange) : List NumberRange :=
  let sorted := ranges.mergeSort fun a b => a.1 ≤ b.1
  let merged : List NumberRange := sorted.foldl
    (fun merged (lo, hi) =>
      match merged with
      | (first, last) :: rest =>
        if lo ≤ last + 1 then (first, max last hi) :: rest else (lo, hi) :: merged
      | [] => [(lo, hi)]) []
  merged.reverse

/-- The code points of the stand-ins of a set. A set of all surrogates holds every code point beyond
the units. -/
def UnitSet.codePoints (s : UnitSet) : List NumberRange :=
  let pieces := s.flatMap fun (lo, hi) => rangePieces lo hi
  let shown := pieces.map fun (lo, hi) => (standIn lo, standIn hi)
  let full := shown.contains (standIn 0xD800, standIn 0xDFFF)
  mergeRanges (if full then (0x10000, 0x10FFFF) :: shown else shown)

/-- A range of numbers as sequences of ranges of a leading value and `trailing` values of six bits. -/
def digitRanges : (trailing lo hi : Nat) → List (List NumberRange)
  | 0, lo, hi => [[(lo, hi)]]
  | k + 1, lo, hi =>
    let block := 64 ^ (k + 1)
    let first := lo / block
    let last := hi / block
    let under (head : NumberRange) (lo hi : Nat) : List (List NumberRange) :=
      (digitRanges k lo hi).map (head :: ·)
    if first = last then under (first, first) (lo % block) (hi % block)
    else
      let low := if lo % block = 0 then first else first + 1
      let high := if hi % block = block - 1 then last + 1 else last
      (if low = first then [] else under (first, first) (lo % block) (block - 1)) ++
        (if low < high then under (low, high - 1) 0 (block - 1) else []) ++
        (if high = last then under (last, last) 0 (hi % block) else [])

/-- The code points that are written with so many trailing octets, and the octet to which the leading
value is added. -/
structure OctetBlock where
  trailing : Nat
  lead : Nat
  first : Nat
  last : Nat

/-- The blocks of code points, from one octet to four. -/
def octetBlocks : List OctetBlock :=
  [⟨0, 0, 0, 0x7F⟩, ⟨1, 0xC0, 0x80, 0x7FF⟩, ⟨2, 0xE0, 0x800, 0xD7FF⟩, ⟨2, 0xE0, 0xE000, 0xFFFF⟩,
    ⟨3, 0xF0, 0x10000, 0x10FFFF⟩]

/-- A range with a number added to both ends. -/
def NumberRange.shift (n : Nat) (r : NumberRange) : NumberRange := (n + r.1, n + r.2)

/-- The octet ranges of a leading value and trailing values. -/
def OctetBlock.octets (b : OctetBlock) : List NumberRange → List NumberRange
  | [] => []
  | head :: rest => head.shift b.lead :: rest.map (·.shift 0x80)

/-- Ranges of code points as sequences of octet ranges, in ascending order. -/
def octetSequences (ranges : List NumberRange) : List (List NumberRange) :=
  ranges.flatMap fun (lo, hi) =>
    octetBlocks.flatMap fun b =>
      if max lo b.first ≤ min hi b.last then
        (digitRanges b.trailing (max lo b.first) (min hi b.last)).map b.octets
      else []

/-- The octets of a code point. -/
def octetsOfCodePoint (cp : Nat) : List Nat :=
  ((octetSequences [(cp, cp)]).head?.getD []).map (·.1)

end Ecma51.Pattern
