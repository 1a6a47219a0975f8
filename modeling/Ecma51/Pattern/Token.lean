import Ecma51.Pattern.Class

/-!
# Pattern tokens

The units of a pattern as a list of tokens: finished atoms (sets, assertions that stand for more
than a symbol, back references) and symbols that only the reader interprets.

* `Token.scan?`: the tokens of a pattern.
* `isQuantifier`: where a brace begins a repetition count; any other brace is itself.
-/

namespace Ecma51.Pattern

/-- A token of a pattern. -/
inductive Token where
  /-- A unit as written; the reader decides whether it is an operator. -/
  | symbol (c : Char)
  /-- A finished atom. -/
  | atom (n : Node)

/-- The atom of one unit. -/
def Node.ofUnit (folded : Bool) (u : Nat) : Node :=
  .unit ((UnitSet.single u).ofItems folded false)

/-- A unit of the set stands behind the position (`ahead = false`) or before it. -/
def Node.beside (ahead negative folded : Bool) (s : UnitSet) : Node :=
  .look ahead negative (.unit (s.ofItems folded false))

/-- The start of a line. -/
def Node.lineStart : Node := .choice [.start, .beside false false false .lineEnds]

/-- The end of a line. -/
def Node.lineEnd : Node := .choice [.stop, .beside true false false .lineEnds]

/-- A word character on exactly one side of the position; with `inner`, on both or none. -/
def Node.wordEdge (folded inner : Bool) : Node :=
  .choice
    [.concat [.beside false false folded .word, .beside true (!inner) folded .word],
      .concat [.beside false true folded .word, .beside true inner folded .word]]

/-- The tokens of an escape outside a class, and the number of units after the backslash. -/
def Token.ofEscape (folded : Bool) : List CodeUnit → List Token × Nat
  | [] => ([.atom (.ofUnit folded 0x5C)], 0)
  | u :: rest =>
    let c := charOf u
    let one (v : Nat) : Token := .atom (.ofUnit folded v)
    match classEscape? c with
    | some s => ([.atom (.unit (s.ofItems folded (isNegatedEscape c)))], 1)
    | none =>
      match numericEscape? (u :: rest) with
      | some (v, n) => ([one v], n)
      | none =>
        if c == 'c' then ([one 0x5C, one 0x63], 1)
        else if c == 'b' then ([.atom (.wordEdge folded false)], 1)
        else if c == 'B' then ([.atom (.wordEdge folded true)], 1)
        else if c == '0' && !startsWithDigit rest then ([one 0], 1)
        else if u.isDecimalDigit && c != '0' then
          let digits := (u :: rest).takeWhile (·.isDecimalDigit)
          let index := digits.foldl (fun n d => n * 10 + (d.toNat - 0x30)) 0
          ([.atom (.backReference index folded)], digits.length)
        else if c == '<' then ([.atom .wordStart], 1)
        else if c == '>' then ([.atom .wordEnd], 1)
        else ([one ((controlOf? c).getD u.toNat)], 1)

/-- The units after a brace make it a count: digits, perhaps a comma and more digits, and the closing
brace. -/
def isQuantifier (us : List CodeUnit) : Bool :=
  let afterDigits := us.dropWhile (·.isDecimalDigit)
  startsWithDigit us &&
    match afterDigits with
    | u :: rest =>
      charOf u == '\x7d' ||
        (charOf u == ',' && (rest.dropWhile (·.isDecimalDigit)).head?.map charOf == some '\x7d')
    | [] => false

/-- The tokens of a pattern; `none` if a class in it is malformed. -/
def Token.scan? (folded multiline : Bool) : List CodeUnit → Option (List Token)
  | [] => some []
  | u :: rest =>
    let c := charOf u
    let single (t : Token) (after : List CodeUnit) (_ : after.length ≤ rest.length) :
        Option (List Token) := (scan? folded multiline after).map (t :: ·)
    if c == '\\' then do
      let (found, n) := Token.ofEscape folded rest
      let tokens ← scan? folded multiline (rest.drop n)
      some (found ++ tokens)
    else if c == '[' then
      if (rest.head?.map charOf) == some ']' then
        single (.atom (.unit [])) (rest.drop 1) (by simp)
      else if (rest.take 2).map charOf == ['^', ']'] then
        single (.atom (.unit .all)) (rest.drop 2) (by simp)
      else
        let negated := rest.head?.map charOf == some '^'
        match ClassItem.scan? (if negated then rest.drop 1 else rest) with
        | none => none
        | some (items, after) =>
          if h : after.length ≤ rest.length then
            match Node.ofClass? folded negated items with
            | none => none
            | some n => single (.atom n) after h
          else none
    else if c == '.' then single (.atom (.unit UnitSet.lineEnds.complement)) rest (Nat.le_refl _)
    else if c == '^' && multiline then single (.atom .lineStart) rest (Nat.le_refl _)
    else if c == '$' && multiline then single (.atom .lineEnd) rest (Nat.le_refl _)
    else if c == '\x7b' && isQuantifier rest then
      let count := rest.takeWhile fun v => charOf v != '\x7d'
      (scan? folded multiline (rest.drop (count.length + 1))).map
        (((u :: count).map fun v => .symbol (charOf v)) ++ .symbol '\x7d' :: ·)
    else if 0x80 ≤ u || c == '\x7b' || c == '\x7d' then
      single (.atom (.ofUnit folded u.toNat)) rest (Nat.le_refl _)
    else single (.symbol c) rest (Nat.le_refl _)
termination_by us => us.length
decreasing_by all_goals simp only [List.length_cons, List.length_drop]; omega

end Ecma51.Pattern
