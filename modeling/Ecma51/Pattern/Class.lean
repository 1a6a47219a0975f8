import Std.Data.HashSet
import Ecma51.Pattern.Basic
import Ecma51.Text.Case
import Ecma51.Text.Offsets

/-!
# Bracketed classes

Reading what stands between `[` and `]`. The text first becomes a list of items; then neighbours
that a dash joins become ranges. Up to case, a unit belongs to a class as soon as one of its units has the
same folding.

* `UnitSet.foldClosed`: a set of units closed under simple case folding.
* `UnitSet.ofItems`: what a bracketed class denotes, closed first and complemented afterwards.
* `hexValue?`, `escapedUnit?`: the unit for which an escape stands.
* `rangePieces`: a range of units as ranges of their stand-ins.
* `ClassItem.scan?`: the items up to the closing bracket, and the rest of the pattern.
* `Node.ofClass?`: the tree that the items denote.
-/

namespace Ecma51.Pattern

/-! ## 1. Sets of units up to case -/

/-- The code points of a run with their images. -/
def runPairs (r : CaseTable.Run) : List (Nat × Nat) :=
  ((List.range (r.last + 1 - r.first)).map (r.first + ·)).filterMap fun cp =>
    (r.image? cp).map (cp, ·)

/-- Every code point that folding changes, with its folding. -/
def foldPairs : List (Nat × Nat) := CaseTable.foldRuns.flatMap runPairs

/-- The foldings that members of the set share with other units. -/
def UnitSet.foldings (s : UnitSet) : Std.HashSet Nat :=
  foldPairs.foldl
    (fun acc (cp, image) => if s.holds cp || s.holds image then acc.insert image else acc) ∅

/-- The set together with all units that differ from a member only in case. -/
def UnitSet.foldClosed (s : UnitSet) : UnitSet :=
  let shared := s.foldings
  s ++ foldPairs.flatMap fun (cp, image) =>
    if shared.contains image then [(cp, cp), (image, image)] else []

/-- The set closed under case if asked, then complemented if asked. -/
def UnitSet.ofItems (s : UnitSet) (folded negated : Bool) : UnitSet :=
  let closed := if folded then s.foldClosed else s
  if negated then closed.complement else closed

/-! ## 2. Escapes that stand for one unit -/

/-- The value of the first `count` units as hexadecimal digits, if they all are. -/
def hexValue? (count : Nat) (us : List CodeUnit) : Option Nat :=
  let digits := us.take count
  if digits.length < count then none
  else digits.foldlM (fun acc u => u.hexValue?.map (acc * 16 + ·)) 0

/-- The next unit is a decimal digit. -/
def startsWithDigit : List CodeUnit → Bool
  | u :: _ => u.isDecimalDigit
  | [] => false

/-- The character of a unit; surrogates have none and give NUL. -/
def charOf (u : CodeUnit) : Char := Char.ofNat u.toNat

/-- The control unit of `\n`, `\r`, `\t`, `\v` and `\f`. -/
def controlOf? : Char → Option Nat
  | 'n' => some 0x0A
  | 'r' => some 0x0D
  | 't' => some 0x09
  | 'v' => some 0x0B
  | 'f' => some 0x0C
  | _ => none

/-- The unit of a hexadecimal or control escape whose letter is the first unit, and the number of
units it takes. -/
def numericEscape? : List CodeUnit → Option (Nat × Nat)
  | u :: rest =>
    match charOf u with
    | 'u' => (hexValue? 4 rest).map (·, 5)
    | 'x' => (hexValue? 2 rest).map (·, 3)
    | 'c' =>
      match rest with
      | l :: _ => if l.isAlpha then some (l.toNat % 32, 2) else none
      | [] => none
    | _ => none
  | [] => none

/-- The set of a class escape: digits, word characters and white space. -/
def classEscape? : Char → Option UnitSet
  | 'd' | 'D' => some .digits
  | 'w' | 'W' => some .word
  | 's' | 'S' => some .space
  | _ => none

/-- The letter of a class escape names the complement. -/
def isNegatedEscape (c : Char) : Bool := c == 'D' || c == 'W' || c == 'S'

/-- The unit for which the escape after a backslash stands in a class, and the number of units it
takes. -/
def escapedUnit? : List CodeUnit → Option (Nat × Nat)
  | [] => none
  | u :: rest =>
    let c := charOf u
    if (classEscape? c).isSome || (u.isDecimalDigit && c != '0') then none
    else if c == '0' && startsWithDigit rest then none
    else if c == 'c' then numericEscape? (u :: rest)
    else match numericEscape? (u :: rest) with
      | some r => some r
      | none =>
        if c == 'b' then some (0x08, 1)
        else if c == '0' then some (0, 1)
        else some ((controlOf? c).getD u.toNat, 1)

/-- The unit at the head of a class, and the number of units that spell it; the closing bracket
and sets have none. -/
def classUnit? : List CodeUnit → Option (Nat × Nat)
  | [] => none
  | u :: rest =>
    if charOf u == ']' then none
    else if charOf u == '\\' then (escapedUnit? rest).map fun (v, n) => (v, n + 1)
    else some (u.toNat, 1)

/-! ## 3. Ranges -/

/-- The pieces of a range of units between which stand-ins do not leave their plane: below the
surrogates, the surrogates, and above them. -/
def rangePieces (lo hi : Nat) : List (Nat × Nat) :=
  if hi < lo ∨ hi < 0xD800 ∨ 0xDFFF < lo then [(lo, hi)]
  else
    (if lo < 0xD800 then [(lo, 0xD7FF)] else []) ++ [(max lo 0xD800, min hi 0xDFFF)] ++
      (if 0xDFFF < hi then [(0xE000, hi)] else [])

/-- The units whose stand-ins lie between those of two units. Surrogates stand above all others. -/
def unitsBetween (lo hi : Nat) : UnitSet :=
  [(0, 0xD7FF), (0xE000, 0xFFFF), (0xD800, 0xDFFF)].filterMap fun (first, last) =>
    let low := max (standIn first) (standIn lo)
    let high := min (standIn last) (standIn hi)
    if low ≤ high then some (unstandIn low, unstandIn high) else none

/-! ## 4. Items -/

/-- What a class is made of before dashes are resolved. -/
inductive ClassItem where
  /-- A unit; `sign` tells that outside a class it would be an operator. -/
  | unit (u : Nat) (sign : Bool)
  /-- A dash that may join its neighbours. -/
  | dash
  /-- All units but those of a set. -/
  | complement (s : UnitSet)

/-- The items of ranges: their ends joined by dashes. -/
def ClassItem.ofRanges (ranges : List (Nat × Nat)) : List ClassItem :=
  ranges.flatMap fun (lo, hi) => [.unit lo false, .dash, .unit hi false]

/-- The items that spell a set; a range of one unit is that unit. -/
def ClassItem.spelled (s : UnitSet) : List ClassItem :=
  s.flatMap fun (lo, hi) =>
    if lo = hi then [.unit lo false] else ClassItem.ofRanges [(lo, hi)]

/-- The items of an escape inside a class, and the number of units after the backslash. -/
def ClassItem.ofEscape : List CodeUnit → List ClassItem × Nat
  | [] => ([.unit 0x5C false], 0)
  | u :: rest =>
    let c := charOf u
    match classEscape? c with
    | some s => (if isNegatedEscape c then [.complement s] else ClassItem.spelled s, 1)
    | none =>
      match numericEscape? (u :: rest) with
      | some (v, n) => ([.unit v false], n)
      | none =>
        if c == 'c' then ([.unit 0x5C false, .unit 0x63 false], 1)
        else if c == 'b' then ([.unit 0x08 false], 1)
        else if c == '0' && !startsWithDigit rest then ([.unit 0 false], 1)
        else ([.unit ((controlOf? c).getD u.toNat) false], 1)

/-- A unit as written that is an operator outside a class. -/
def isSign (u : CodeUnit) : Bool :=
  ['.', '^', '$', '*', '+', '?', '(', ')', '|', '\x7b'].contains (charOf u)

/-- The items up to the closing bracket, and what follows it; `none` if the class is not closed. -/
def ClassItem.scan? : List CodeUnit → Option (List ClassItem × List CodeUnit)
  | [] => none
  | u :: rest =>
    let joined? : Option (List ClassItem × Nat) := do
      let (lo, used) ← classUnit? (u :: rest)
      let after := (u :: rest).drop used
      if after.head?.map charOf == some '-' then
        let (hi, usedHi) ← classUnit? (after.drop 1)
        some (ClassItem.ofRanges (rangePieces lo hi), used + usedHi)
      else none
    match joined? with
    | some (found, n) => do
      let (items, after) ← scan? (rest.drop n)
      some (found ++ items, after)
    | none =>
      if charOf u == '\\' then do
        let (found, n) := ClassItem.ofEscape rest
        let (items, after) ← scan? (rest.drop n)
        some (found ++ items, after)
      else if charOf u == ']' then some ([], rest)
      else do
        let item := if charOf u != '-' then .unit u.toNat (isSign u)
          else if rest.head?.map charOf == some '-' then .unit 0x2D false
          else .dash
        let (items, after) ← scan? rest
        some (item :: items, after)
termination_by us => us.length
decreasing_by all_goals simp only [List.length_cons, List.length_drop]; omega

/-! ## 5. Dashes -/

/-- The unit that an item stands for when it is no set; a dash stands for itself. -/
def ClassItem.ownUnit : ClassItem → Nat
  | .unit u _ => u
  | _ => 0x2D

/-- The set of the items: a dash joins the units on its sides, and is itself at either end. A dash
before a complement joins the bracket that opens the complement, so the class ends where the
complement does; then the items after it are returned as well. -/
def ClassItem.join? (folded : Bool) :
    List ClassItem → Option (UnitSet × Option (List ClassItem))
  | [] => some ([], none)
  | .complement s :: rest =>
    (join? folded rest).map fun (t, after) => (s.ofItems folded true ++ t, after)
  | item :: .dash :: .unit hi _ :: rest =>
    if standIn item.ownUnit ≤ standIn hi then
      (join? folded rest).map fun (t, after) => (unitsBetween item.ownUnit hi ++ t, after)
    else none
  | item :: .dash :: .complement s :: rest =>
    if standIn item.ownUnit ≤ 0x5B then
      some (unitsBetween item.ownUnit 0x5B ++ (0x5E, 0x5E) :: s, some rest)
    else none
  | item :: rest =>
    (join? folded rest).map fun (t, after) => ((item.ownUnit, item.ownUnit) :: t, after)

/-- The set that an item denotes outside a class; an operator denotes none. -/
def ClassItem.piece? (folded : Bool) : ClassItem → Option UnitSet
  | .unit u sign => if sign then none else some ((UnitSet.single u).ofItems folded false)
  | .dash => some (.single 0x2D)
  | .complement s => some (s.ofItems folded true)

/-- The tree of a class. What follows an early end, and the closing bracket, stand for themselves. -/
def Node.ofClass? (folded negated : Bool) (items : List ClassItem) : Option Node := do
  let (s, after) ← ClassItem.join? folded items
  let s := s.ofItems folded negated
  match after with
  | none => some (.unit s)
  | some rest =>
    let pieces ← rest.mapM (ClassItem.piece? folded)
    let sets := s :: pieces ++ [.single 0x5D]
    some (if folded then .concat (sets.map .unit) else .chain sets)

end Ecma51.Pattern
