import Ecma51.Pattern.Octets
import Ecma51.Pattern.Shape

/-!
# Simplified trees

Before an automaton is built its tree is simplified: neighbouring literals are joined, sequences and
alternatives are flattened, alternatives that take one code point each become one set, and a
beginning that all alternatives share stands once before them. The size of an automaton is that of
the simplified tree.

* `Form`: simplified trees.
* `Form.ofSequence`, `Form.ofChoice`, `Form.ofRepeats`: trees put together and simplified.
* `Node.form`: the simplified tree of a pattern tree.
-/

namespace Ecma51.Pattern

/-! ## 1. Forms -/

/-- A simplified tree of what automata decide. -/
inductive Form where
  | empty
  /-- Code points one after the other. -/
  | literal (codePoints : List Nat)
  /-- One code point of some ranges. -/
  | set (ranges : List NumberRange)
  /-- The start or the end of the subject. -/
  | anchor
  | group (index : Nat) (body : Form)
  | sequence (parts : List Form)
  | choice (branches : List Form)
  | repeats (body : Form) (least : Nat) (most : Option Nat) (greedy : Bool)
  deriving BEq, Inhabited

namespace Form

mutual

/-- No match takes an octet. -/
def isVoid : Form → Bool
  | .empty | .anchor => true
  | .literal _ | .set _ => false
  | .group _ body => body.isVoid
  | .sequence parts => allVoid parts
  | .choice branches => allVoid branches
  | .repeats body _ most _ => most == some 0 || body.isVoid

/-- No match of any form of the list takes an octet. -/
def allVoid : List Form → Bool
  | [] => true
  | f :: rest => f.isVoid && allVoid rest

end

mutual

/-- It is not certain that every match takes an octet. -/
def isNullable : Form → Bool
  | .empty | .anchor => true
  | .literal _ => false
  | .set ranges => ranges.isEmpty
  | .group _ body => body.isNullable
  | .sequence parts => allNullable parts
  | .choice branches => anyNullable branches
  | .repeats body least _ _ => least == 0 || body.isNullable

/-- Every form of the list is nullable. -/
def allNullable : List Form → Bool
  | [] => true
  | f :: rest => f.isNullable && allNullable rest

/-- Some form of the list is nullable. -/
def anyNullable : List Form → Bool
  | [] => false
  | f :: rest => f.isNullable || anyNullable rest

end

/-! ## 2. Putting forms together -/

/-- One code point of some ranges; a single one is a literal. -/
def ofRanges (ranges : List NumberRange) : Form :=
  match ranges with
  | [(lo, hi)] => if lo = hi then .literal [lo] else .set ranges
  | _ => .set ranges

/-- The code points of a form that takes exactly one. -/
def ranges? : Form → Option (List NumberRange)
  | .set ranges => some ranges
  | .literal [cp] => some [(cp, cp)]
  | _ => none

/-- The parts of a form in a sequence. -/
def parts : Form → List Form
  | .empty => []
  | .sequence fs => fs
  | f => [f]

/-- The forms with neighbouring literals joined. -/
def joinLiterals (fs : List Form) : List Form :=
  fs.foldr
    (fun f joined =>
      match f, joined with
      | .literal cps, .literal more :: rest => .literal (cps ++ more) :: rest
      | _, _ => f :: joined) []

/-- Forms one after the other. -/
def ofSequence (fs : List Form) : Form :=
  match joinLiterals (fs.flatMap parts) with
  | [] => .empty
  | [f] => f
  | fs => .sequence fs

/-- The alternatives of a form among alternatives. -/
def branches : Form → List Form
  | .choice fs => fs
  | f => [f]

/-- Alternatives, of which those of one code point each are a set. -/
def ofAlternatives (fs : List Form) : Form :=
  match fs.flatMap branches with
  | [f] => f
  | fs =>
    match fs.mapM ranges? with
    | some ranges => ofRanges (mergeRanges ranges.flatten)
    | none => .choice fs

/-- The number of leading parts that two lists share. -/
def sharedLength : List Form → List Form → Nat
  | f :: fs, g :: gs => if f == g then sharedLength fs gs + 1 else 0
  | _, _ => 0

/-- The parts of a sequence. -/
def sequence? : Form → Option (List Form)
  | .sequence fs => some fs
  | _ => none

/-- Alternatives, with what they all begin with before them. -/
def ofChoice (fs : List Form) : Form :=
  match ofAlternatives fs with
  | .choice fs =>
    match fs.mapM sequence? with
    | some (first :: rest) =>
      let shared := rest.foldl (fun n parts => min n (sharedLength first parts)) first.length
      if shared = 0 then .choice fs
      else
        let ends := (first :: rest).map fun parts => ofSequence (parts.drop shared)
        ofSequence (first.take shared ++ [ofAlternatives ends])
    | _ => .choice fs
  | f => f

/-- A form between `least` and `most` times. One that takes nothing is not taken more than once. -/
def ofRepeats (body : Form) (least : Nat) (most : Option Nat) (greedy : Bool) : Form :=
  let least := if body.isVoid then min least 1 else least
  let most := if body.isVoid then some (min (most.getD 1) 1) else most
  if most = some 0 then .empty
  else if least = 1 ∧ most = some 1 then body
  else .repeats body least most greedy

end Form

/-! ## 3. Pattern trees as forms -/

/-- One unit of each set in turn. -/
def formsOfSets (sets : List UnitSet) : List Form := sets.map fun s => .ofRanges s.codePoints

mutual

/-- The simplified tree of a pattern tree. -/
def Node.form : Node → Form
  | .unit s => .ofRanges s.codePoints
  | .chain sets => .ofSequence (formsOfSets sets)
  | .start | .stop => .anchor
  | .group i body => .group i body.form
  | .concat parts => .ofSequence (formsOfAll parts)
  | .choice branches => .ofChoice (formsOfAll branches)
  | .repeats body least most greedy =>
    let whole := body.form
    match body with
    | .chain sets =>
      let last := Form.ofSequence (formsOfSets (sets.drop (sets.length - 1)))
      .ofSequence (formsOfSets sets.dropLast ++ [.ofRepeats last least most greedy])
    | _ => .ofRepeats whole least most greedy
  | _ => .empty

/-- The simplified trees of a list of trees. -/
def formsOfAll : List Node → List Form
  | [] => []
  | n :: rest => n.form :: formsOfAll rest

end

end Ecma51.Pattern
