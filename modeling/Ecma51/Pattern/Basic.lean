import Ecma51.Text.Basic

/-!
# Patterns

A regular expression after reading: a tree of sets of code units, anchors, groups, repetitions,
look-arounds and back references, together with its flags. Positions count units.

* `UnitSet`: sets of code units as lists of ranges.
* `Node`: pattern trees.
* `Match`: the spans of a match and of its groups.
* `RegExpFlags`: what the letters after a pattern ask for.
-/

namespace Ecma51

namespace Pattern

/-! ## 1. Sets of units -/

/-- A set of code units: the union of ranges with both ends included. -/
abbrev UnitSet := List (Nat × Nat)

/-- The unit lies in one of the ranges. -/
def UnitSet.holds (s : UnitSet) (u : Nat) : Bool := s.any fun (lo, hi) => lo ≤ u && u ≤ hi

/-- The set of one unit. -/
def UnitSet.single (u : Nat) : UnitSet := [(u, u)]

/-- The set of all units. -/
def UnitSet.all : UnitSet := [(0, 0xFFFF)]

/-- The gaps between ranges in ascending order, from `next` up to the last unit. -/
def UnitSet.gaps : Nat → List (Nat × Nat) → UnitSet
  | next, [] => if next ≤ 0xFFFF then [(next, 0xFFFF)] else []
  | next, (lo, hi) :: rest =>
    if next < lo then (next, lo - 1) :: gaps (max next (hi + 1)) rest
    else gaps (max next (hi + 1)) rest

/-- The units that are not in the set. -/
def UnitSet.complement (s : UnitSet) : UnitSet :=
  gaps 0 (s.mergeSort fun a b => a.1 ≤ b.1)

/-- Decimal digits. -/
def UnitSet.digits : UnitSet := [(0x30, 0x39)]

/-- Letters, digits and the low line. -/
def UnitSet.word : UnitSet := [(0x41, 0x5A), (0x61, 0x7A), (0x30, 0x39), (0x5F, 0x5F)]

/-- White space, line ends included. -/
def UnitSet.space : UnitSet :=
  [(0x9, 0x9), (0xA, 0xA), (0xB, 0xB), (0xC, 0xC), (0xD, 0xD), (0x20, 0x20), (0xA0, 0xA0),
    (0x1680, 0x1680), (0x180E, 0x180E), (0x2000, 0x200A), (0x2028, 0x2028), (0x2029, 0x2029),
    (0x202F, 0x202F), (0x205F, 0x205F), (0x3000, 0x3000), (0xFEFF, 0xFEFF)]

/-- Units that end a line. -/
def UnitSet.lineEnds : UnitSet := [(0xA, 0xA), (0xD, 0xD), (0x2028, 0x2029)]

/-! ## 2. Pattern trees -/

/-- A pattern tree. -/
inductive Node where
  | empty
  /-- One unit of a set. -/
  | unit (s : UnitSet)
  /-- One unit of each set in turn. It counts as one atom, but where an automaton decides it a
  repetition takes hold of its last unit only. -/
  | chain (sets : List UnitSet)
  /-- The start of the subject. -/
  | start
  /-- The end of the subject. -/
  | stop
  /-- Between a unit that is no word character and one that is. -/
  | wordStart
  /-- Between a word character and a unit that is none. -/
  | wordEnd
  /-- A numbered group. -/
  | group (index : Nat) (body : Node)
  | concat (parts : List Node)
  /-- Alternatives in order of preference. -/
  | choice (branches : List Node)
  /-- Between `least` and `most` repetitions, more preferred if `greedy`. -/
  | repeats (body : Node) (least : Nat) (most : Option Nat) (greedy : Bool)
  /-- The body matches, or does not match, what follows or what precedes. -/
  | look (ahead negative : Bool) (body : Node)
  /-- What a group matched last; `folded` ignores case. -/
  | backReference (index : Nat) (folded : Bool)
  /-- The body's first match only. -/
  | atomic (body : Node)

instance : Inhabited Node := ⟨.empty⟩

/-! ## 3. Matches -/

/-- A span of positions, the second not included. -/
abbrev Span := Nat × Nat

/-- A successful match: its span and those of the groups that took part. -/
structure Match where
  span : Span
  groups : List (Option Span)
  deriving DecidableEq, Repr

/-- The text that a match covers. -/
def Match.text (m : Match) (subject : Text) : Text := subject.slice m.span.1 m.span.2

/-- The spans with the whole match first. -/
def Match.spans (m : Match) : List (Option Span) := some m.span :: m.groups

end Pattern

/-- The flags of a regular expression. -/
structure RegExpFlags where
  global : Bool := false
  ignoreCase : Bool := false
  multiline : Bool := false
  deriving DecidableEq, Inhabited, Repr

/-- The flags as text, in the order `g`, `i`, `m`. -/
def RegExpFlags.toText (f : RegExpFlags) : Text :=
  Text.ofChars ((if f.global then ['g'] else []) ++ (if f.ignoreCase then ['i'] else []) ++
    (if f.multiline then ['m'] else []))

end Ecma51
