import Ecma51.Heap.Basic
import Ecma51.Number.Format
import Ecma51.Text.Scalar
import Ecma51.Value

/-!
# Dumps of values

How values are shown in diagnostics: the kind and the content, strings in quotes with everything
escaped that could not be told apart in print.

* `Text.quoted`: a string in quotes.
* `Heap.dump`: a value.
-/

namespace Ecma51

/-- The code points that print nothing of their own: controls, format characters, blanks other than
the space, private use, and marks that combine with what precedes them. -/
def invisibleRanges : List (Nat × Nat) :=
  [(0x00, 0x1F), (0x7F, 0xA0), (0xAD, 0xAD), (0x300, 0x36F), (0x483, 0x489), (0x600, 0x605),
    (0x61C, 0x61C), (0x6DD, 0x6DD), (0x70F, 0x70F), (0x1680, 0x1680), (0x180E, 0x180E),
    (0x1AB0, 0x1ACE), (0x1DC0, 0x1DFF), (0x2000, 0x200F), (0x2028, 0x202F), (0x205F, 0x206F),
    (0x20D0, 0x20F0), (0x3000, 0x3000), (0x302A, 0x302F), (0x3099, 0x309A), (0xD800, 0xF8FF),
    (0xFE00, 0xFE0F), (0xFE20, 0xFE2F), (0xFEFF, 0xFEFF), (0xFFF9, 0xFFFB), (0xFFFE, 0xFFFF),
    (0xE0000, 0x10FFFF)]

/-- A character prints nothing of its own. -/
def isInvisible (c : Char) : Bool := invisibleRanges.any fun (lo, hi) => lo ≤ c.toNat && c.toNat ≤ hi

/-- A character inside quotes. -/
def quotedChar (c : Char) : List Char :=
  if c = '"' then ['\\', '"']
  else if c = '\\' then ['\\', '\\']
  else if c = '\n' then ['\\', 'n']
  else if c = '\r' then ['\\', 'r']
  else if c = '\t' then ['\\', 't']
  else if c.toNat = 0 then ['\\', '0']
  else if isInvisible c then
    ['\\', 'u', '\x7b'] ++ Nat.toDigits 16 c.toNat ++ ['\x7d']
  else [c]

/-- A text in quotes; surrogates without partner are replaced. -/
def Text.quoted (t : Text) : String :=
  String.ofList ('"' :: t.toWellFormed.toList.flatMap quotedChar ++ ['"'])

/-- The content of a value in a dump. -/
def Heap.dumpContent? (h : Heap) : Value → Option String
  | .boolean b => some (if b then "true" else "false")
  | .number x => some (String.ofList x.toDiagnosticChars)
  | .string t => some t.quoted
  | .object o => some ("[object " ++ (h.object o).className ++ "]")
  | _ => none

/-- A value with its kind and content. -/
def Heap.dump (h : Heap) (v : Value) : String :=
  "JsValue::" ++ v.tag.name ++
    match h.dumpContent? v with
    | some content => "(" ++ content ++ ")"
    | none => ""

end Ecma51
