import Ecma51.Pattern.Basic

/-!
# Walking through a text

Everything that repeats a search over a text. The search itself is a parameter: from a position on, it
gives the next match. An empty match does not stop the walk, which then goes on one unit further.

* `matchesFrom`: all matches in turn.
* `splitParts`: the pieces between matches, with the groups of each match.
* `expandTemplate`: what a replacement template stands for.
-/

namespace Ecma51.Pattern

/-- A search: the first match that begins at a position or later. -/
abbrev Finder := Nat → Option Match

/-- Where the search goes on after a match. -/
def Match.next (m : Match) : Nat := if m.span.2 = m.span.1 then m.span.2 + 1 else m.span.2

/-- The match of a plain text at a position. -/
def Match.ofSpan (start stop : Nat) : Match := ⟨(start, stop), []⟩

/-- The search for a plain text. -/
def findText (subject needle : Text) : Finder := fun q =>
  (subject.indexOf? needle q).map fun i => .ofSpan i (i + needle.length)

/-! ## 1. All matches -/

/-- The matches from a position on; the first number bounds how many. -/
def matchesUpTo (find : Finder) (length : Nat) : (n start : Nat) → List Match
  | 0, _ => []
  | n + 1, start =>
    if start ≤ length then
      match find start with
      | some m => m :: matchesUpTo find length n m.next
      | none => []
    else []

/-- All matches in a text of the given length, in turn. -/
def matchesFrom (find : Finder) (length : Nat) : List Match :=
  matchesUpTo find length (length + 1) 0

/-! ## 2. Splitting -/

/-- The text of a span. -/
def spanText (subject : Text) (s : Span) : Text := subject.slice s.1 s.2

/-- The separator with which a split goes on from a position: one that begins before the end. -/
def separator? (find : Finder) (subject : Text) (q : Nat) : Option Match :=
  (if q < subject.length then find q else none).filter fun m => m.span.1 < subject.length

/-- What a separator adds to the pieces: the text before it, from `p` on, and those of its groups; a group
that took no part is `none`. -/
def piecesAt (subject : Text) (p : Nat) (m : Match) : List (Option Text) :=
  some (spanText subject (p, m.span.1)) :: m.groups.map (·.map (spanText subject))

/-- Pieces in turn until there is no more room; what follows them if room is left. -/
def fillUp (room : Nat) : List (Option Text) → (rest : Nat → List (Option Text)) → List (Option Text)
  | [], rest => rest room
  | x :: xs, rest => if room = 1 then [x] else x :: fillUp (room - 1) xs rest

/-- The pieces from `p` on, where the search continues at `q` and there is room for so many more. The
first number bounds the steps. -/
def splitUpTo (find : Finder) (subject : Text) : (n room p q : Nat) → List (Option Text)
  | 0, _, p, _ => [some (subject.drop p)]
  | n + 1, room, p, q =>
    match separator? find subject q with
    | some m =>
      if m.span.2 = p then splitUpTo find subject n room p (m.span.1 + 1)
      else
        fillUp room (piecesAt subject p m) fun room => splitUpTo find subject n room m.span.2 m.span.2
    | none => [some (subject.drop p)]

/-- The pieces of a text between the matches, at most so many. An empty text has no piece if it
matches. -/
def splitParts (find : Finder) (subject : Text) (limit : Nat) : List (Option Text) :=
  if limit = 0 then []
  else if subject.isEmpty then if (find 0).isSome then [] else [some subject]
  else splitUpTo find subject (2 * subject.length + 1) limit 0 0

/-! ## 3. Replacement -/

/-- The decimal digit that a unit is. -/
def decimalDigit? (u : CodeUnit) : Option Nat :=
  if u.isDecimalDigit then some (u.toNat - 0x30) else none

/-- The group that the units after a dollar sign name, and the number of units that name it: two
digits if there is such a group, else one. -/
def groupNumber? (count : Nat) : List CodeUnit → Option (Nat × Nat)
  | u :: rest => do
    let d ← decimalDigit? u
    let two := do
      let e ← decimalDigit? (← rest.head?)
      let n := 10 * d + e
      if 1 ≤ n ∧ n ≤ count then some (n, 2) else none
    let one := if 1 ≤ d ∧ d ≤ count then some (d, 1) else none
    two <|> one
  | [] => none

/-- What the units after a dollar sign stand for, and their number. -/
def template? (subject : Text) (m : Match) (us : List CodeUnit) : Option (Text × Nat) :=
  match us with
  | [] => none
  | u :: _ =>
    if u = 0x24 then some (.ofUnit u, 1)
    else if u = 0x26 then some (m.text subject, 1)
    else if u = 0x60 then some (subject.take m.span.1, 1)
    else if u = 0x27 then some (subject.drop m.span.2, 1)
    else (groupNumber? m.groups.length us).map fun (n, width) =>
      (((m.groups[n - 1]?).join.map (spanText subject)).getD .empty, width)

/-- The units of a template for a match: a dollar sign with what follows stands for parts of the match
and of the subject, or for itself. -/
def expandUnits (subject : Text) (m : Match) : List CodeUnit → List CodeUnit
  | [] => []
  | u :: rest =>
    if u = 0x24 then
      match template? subject m rest with
      | some (t, n) => t.toList ++ expandUnits subject m (rest.drop n)
      | none => u :: expandUnits subject m rest
    else u :: expandUnits subject m rest
termination_by us => us.length
decreasing_by all_goals simp only [List.length_cons, List.length_drop]; omega

/-- A template for a match. -/
def expandTemplate (template subject : Text) (m : Match) : Text :=
  .ofList (expandUnits subject m template.toList)

end Ecma51.Pattern
