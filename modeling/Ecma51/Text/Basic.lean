import Ecma51.Text.Unit

/-!
# Text

Immutable strings of code units. Every sequence of units is a text, well formed or not; all
positions and lengths count units.

* `Text.substr`, `Text.slice`: cuts, clamped to the ends.
* `Text.indexOf?`, `Text.lastIndexOf?`: the first and the last place where another text stands.
* `Text.compare`: unit by unit, the order of relational comparison and of sorting.
-/

namespace Ecma51

/-- A sequence of code units. -/
structure Text where
  units : Array CodeUnit
  deriving DecidableEq, Hashable

namespace Text

/-! ## 1. Construction -/

/-- The text without units. -/
def empty : Text := ⟨#[]⟩

instance : Inhabited Text := ⟨empty⟩

/-- The units of one code point: itself below U+10000, else a surrogate pair. -/
def unitsOfCodePoint (cp : Nat) : List CodeUnit :=
  if cp < 0x10000 then [cp.toUInt16]
  else [0xD800 + ((cp - 0x10000) / 0x400).toUInt16, 0xDC00 + ((cp - 0x10000) % 0x400).toUInt16]

/-- The text that a list of units spells. -/
def ofList (us : List CodeUnit) : Text := ⟨us.toArray⟩

/-- The text of a list of characters. -/
def ofChars (cs : List Char) : Text := ofList (cs.flatMap fun c => unitsOfCodePoint c.toNat)

/-- The UTF-16 form of a string. -/
def ofString (s : String) : Text := ofChars s.toList

instance : Coe String Text := ⟨ofString⟩

/-- The text of one unit. -/
def ofUnit (u : CodeUnit) : Text := ⟨#[u]⟩

/-- The decimal digits of a natural number. -/
def ofNat (n : Nat) : Text := ofString (toString n)

/-! ## 2. Observation -/

/-- The number of units. -/
def length (t : Text) : Nat := t.units.size

/-- The text has no unit. -/
def isEmpty (t : Text) : Bool := t.units.isEmpty

/-- The unit at a position, if there is one. -/
def get? (t : Text) (i : Nat) : Option CodeUnit := t.units[i]?

/-- The units in order. -/
def toList (t : Text) : List CodeUnit := t.units.toList

@[simp] theorem toList_ofList (us : List CodeUnit) : (ofList us).toList = us := by
  simp [ofList, toList]

@[simp] theorem ofList_toList (t : Text) : ofList t.toList = t := by
  simp [ofList, toList]

/-- The hash of a text: `h * 33 + u` over the units, starting from 5381, in 32 bits. -/
def hash32 (t : Text) : UInt32 :=
  t.units.foldl (fun h u => h * 33 + u.toUInt32) 5381

/-! ## 3. Joining and cutting -/

/-- One text after the other. -/
def append (s t : Text) : Text := ⟨s.units ++ t.units⟩

instance : Append Text := ⟨append⟩

/-- All texts of a list, one after the other. -/
def concat (ts : List Text) : Text := ⟨ts.foldl (fun acc t => acc ++ t.units) #[]⟩

/-- All texts of a list with a separator between neighbours. -/
def intercalate (sep : Text) : List Text → Text
  | [] => empty
  | t :: ts => ⟨ts.foldl (fun acc u => acc ++ sep.units ++ u.units) t.units⟩

/-- The units from `start` up to, not including, `stop`, clamped to the text. -/
def slice (t : Text) (start stop : Nat) : Text := ⟨t.units.extract start stop⟩

/-- At most `len` units from `start` on, clamped to the text. -/
def substr (t : Text) (start len : Nat) : Text := t.slice start (start + len)

/-- The first `n` units. -/
def take (t : Text) (n : Nat) : Text := t.slice 0 n

/-- All but the first `n` units. -/
def drop (t : Text) (n : Nat) : Text := t.slice n t.length

/-- The text `n` times over. -/
def repeated (t : Text) (n : Nat) : Text :=
  ⟨n.fold (fun _ _ acc => acc ++ t.units) #[]⟩

/-! ## 4. Searching -/

/-- The text `needle` stands in `t` at position `i`. -/
def matchesAt (t needle : Text) (i : Nat) : Bool :=
  i + needle.length ≤ t.length &&
    needle.length.all fun j _ => t.units[i + j]? == needle.units[j]?

/-- The least of the `n` positions from `i` on that satisfies `p`. -/
def findUp (p : Nat → Bool) : (n i : Nat) → Option Nat
  | 0, _ => none
  | n + 1, i => if p i then some i else findUp p n (i + 1)

/-- The greatest position below `n` that satisfies `p`. -/
def findDown (p : Nat → Bool) : (n : Nat) → Option Nat
  | 0 => none
  | n + 1 => if p n then some n else findDown p n

/-- The least position, from `start` on, at which `needle` stands. -/
def indexOf? (t needle : Text) (start : Nat) : Option Nat :=
  findUp (t.matchesAt needle) (t.length + 1 - start) start

/-- The greatest position, `start` at most, at which `needle` stands. -/
def lastIndexOf? (t needle : Text) (start : Nat) : Option Nat :=
  if t.length < needle.length then none
  else findDown (t.matchesAt needle) (min start (t.length - needle.length) + 1)

/-- The text begins with the units of `head`. -/
def startsWith (t head : Text) : Bool := t.matchesAt head 0

/-! ## 5. Trimming -/

/-- The text without the units that satisfy `p` at its start. -/
def trimStart (p : CodeUnit → Bool) (t : Text) : Text :=
  ofList (t.toList.dropWhile p)

/-- The text without the units that satisfy `p` at either end. -/
def trim (p : CodeUnit → Bool) (t : Text) : Text :=
  ofList ((t.toList.dropWhile p).reverse.dropWhile p).reverse

/-! ## 6. Order -/

/-- Lexicographic order of unit lists, a proper initial part coming first. -/
def compareUnits : List CodeUnit → List CodeUnit → Ordering
  | [], [] => .eq
  | [], _ :: _ => .lt
  | _ :: _, [] => .gt
  | a :: as, b :: bs => if a < b then .lt else if b < a then .gt else compareUnits as bs

/-- Lexicographic order by code units. -/
def compare (s t : Text) : Ordering := compareUnits s.toList t.toList

end Text

end Ecma51
