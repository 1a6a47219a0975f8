import Std.Data.HashMap
import Ecma51.Property.Key

/-!
# Atoms

A table that numbers the texts it has seen, in the order of their first appearance. Numbers stay valid,
so a key can be passed around as one number: an index as itself, a name as the number of its text with
bit 32 set.

* `Atoms.intern`: the number of a text, added if it is new.
* `Atoms.text?`: the text of a number.
* `Atoms.rawOfKey`, `Atoms.keyOfRaw?`: keys as numbers.
-/

namespace Ecma51

-- powers mean the same whether or not there are other instances in scope
attribute [local instance (high)] instPowNat

/-- The numbered texts. -/
structure Atoms where
  byText : Std.HashMap Text Nat
  byNumber : Array Text

namespace Atoms

/-- The table without texts. -/
def empty : Atoms := ⟨∅, #[]⟩

instance : Inhabited Atoms := ⟨empty⟩

/-- The number of a text, if it has one. -/
def find? (a : Atoms) (t : Text) : Option Nat := a.byText[t]?

/-- The number of a text, and the table with the text in it. -/
def intern (a : Atoms) (t : Text) : Atoms × Nat :=
  match a.find? t with
  | some n => (a, n)
  | none => (⟨a.byText.insert t a.byNumber.size, a.byNumber.push t⟩, a.byNumber.size)

/-- The text with a number. -/
def text? (a : Atoms) (n : Nat) : Option Text := a.byNumber[n]?

/-- The bit that tells names from indices. -/
def nameBit : Nat := 2 ^ (32 : Nat)

/-- The number of a key, and the table with its text in it. -/
def rawOfKey (a : Atoms) : Key → Atoms × Nat
  | .index i => (a, i)
  | .name t =>
    let (a, n) := a.intern t
    (a, nameBit + n)

/-- The key with a number. Bit 32 tells names, the bits below it are the index or the number of the
text, and the bits above it do not matter. -/
def keyOfRaw? (a : Atoms) (raw : Nat) : Option Key :=
  let low := raw % nameBit
  if raw / nameBit % 2 = 0 then some (.ofNat low) else (a.text? low).map .name

/-- The table of a list of texts. -/
def ofList (ts : List Text) : Atoms := ts.foldl (fun a t => (a.intern t).1) empty

end Atoms

end Ecma51
