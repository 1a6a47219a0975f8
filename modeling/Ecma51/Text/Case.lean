import Ecma51.Text.CaseTable
import Ecma51.Text.Scalar

/-!
# Upper and lower case

Case conversion of whole texts, character by character and without regard to context; surrogates
without partner stay as they are.

* `Text.toLower`, `Text.toUpper`: the conversions.
* `CaseTable.fold`: the folding by which texts are compared without regard to case.
-/

namespace Ecma51

namespace CaseTable

/-- The spelling of a code point in another case: several characters if `spellings` lists it, one
if a run holds it, else itself. -/
def respell (spellings : List (Nat × List Nat)) (runs : List Run) (cp : Nat) : List Nat :=
  match spellings.lookup cp with
  | some cps => cps
  | none => [(image? runs cp).getD cp]

/-- The lower case of a code point; ASCII needs no table. -/
def lower (cp : Nat) : List Nat :=
  if cp < 0x80 then [if 0x41 ≤ cp ∧ cp ≤ 0x5A then cp + 0x20 else cp]
  else respell lowerSpellings lowerRuns cp

/-- The upper case of a code point; ASCII needs no table. -/
def upper (cp : Nat) : List Nat :=
  if cp < 0x80 then [if 0x61 ≤ cp ∧ cp ≤ 0x7A then cp - 0x20 else cp]
  else respell upperSpellings upperRuns cp

/-- The simple case folding of a code point. -/
def fold (cp : Nat) : Nat := (image? foldRuns cp).getD cp

end CaseTable

namespace Text

/-- A text with every character replaced by what `f` spells. -/
def mapChars (f : Nat → List Nat) (t : Text) : Text :=
  ofList (t.scalars.flatMap fun
    | .char c => (f c.toNat).flatMap unitsOfCodePoint
    | .lone u => [u])

/-- The text in lower case. -/
def toLower (t : Text) : Text := t.mapChars CaseTable.lower

/-- The text in upper case. -/
def toUpper (t : Text) : Text := t.mapChars CaseTable.upper

end Text

end Ecma51
