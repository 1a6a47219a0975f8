import Ecma51.Json.Reader
import Ecma51.Number.Integral

/-!
# Writing JSON text

The pieces of JSON text. How pieces are laid out depends on a gap: without one everything stands on
one line, otherwise each item has a line of its own, indented by the gap once per level.

* `Json.quote`: a string in quotes.
* `Json.Written`: a text in pieces.
* `Json.layOut`: items between brackets.
* `Json.member`: a name and a value.
-/

namespace Ecma51

namespace Json

/-- A unit below U+0020 as an escape with four digits. -/
def escapeControl (u : CodeUnit) : List CodeUnit :=
  [0x5C, 0x75, 0x30, 0x30, .ofDigit (u.toNat / 16), .ofDigit (u.toNat % 16)]

/-- A unit as it is written inside quotes. -/
def quoteUnit (u : CodeUnit) : List CodeUnit :=
  match escapeOf? u with
  | some letter => [0x5C, letter]
  | none => if u < 0x20 then escapeControl u else [u]

/-- A text in quotes. -/
def quote (t : Text) : Text := .ofList (0x22 :: t.toList.flatMap quoteUnit ++ [0x22])

/-- A text as it is put together: its pieces in order, so that what is nested deep is not copied once
per level. -/
abbrev Written := List Text

/-- Items between brackets. With a gap, each stands on a line of its own after `indent`, and the
closing bracket on one after `outer`. -/
def layOut (left right : String) (gap indent outer : Text) (items : List Written) : Written :=
  if items.isEmpty then [left, right]
  else if gap.isEmpty then
    [.ofString left] ++ List.intercalate [Text.ofString ","] items ++ [.ofString right]
  else
    [.ofString left, .ofString "\n", indent] ++ List.intercalate [.ofString ",\n", indent] items ++
      [.ofString "\n", outer, .ofString right]

/-- A member of an object. -/
def member (gap name : Text) (value : Written) : Written :=
  quote name :: (if gap.isEmpty then ":" else ": ") :: value

/-- The most units of a gap. -/
def maxGap : Nat := 10

/-- The gap of so many spaces, ten at most. -/
def spaces (count : Double) : Text :=
  if Double.le (.ofNat maxGap) count then Text.repeated " " maxGap
  else Text.repeated " " count.truncInt.toNat

end Json

end Ecma51
