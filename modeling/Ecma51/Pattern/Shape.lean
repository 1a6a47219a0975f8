import Ecma51.Pattern.Basic

/-!
# The shape of pattern trees

What can be said of a tree without a subject: how many units it takes, which groups it holds and
whether an automaton decides it.

* `Node.leastLength`, `Node.isFixed`, `Node.isVoid`: the lengths of its matches.
* `Node.groupIndices`, `Node.references`: the groups it holds and those it refers to.
* `Node.isHard`: it needs look-around, atomic groups, word edges or groups that are referred to.
* `Node.survivors`: the groups that are left when impossible repetitions are dropped.
-/

namespace Ecma51.Pattern

/-! ## 1. Lengths -/

mutual

/-- The least number of units that a match takes. -/
def Node.leastLength : Node → Nat
  | .unit _ | .chain _ => 1
  | .group _ body => body.leastLength
  | .concat parts => leastSum parts
  | .choice branches => leastOfAny branches
  | .repeats body least _ _ => least * body.leastLength
  | .atomic body => body.leastLength
  | _ => 0

/-- The sum of the least lengths. -/
def leastSum : List Node → Nat
  | [] => 0
  | n :: rest => n.leastLength + leastSum rest

/-- The least of the least lengths. -/
def leastOfAny : List Node → Nat
  | [] => 0
  | [n] => n.leastLength
  | n :: rest => min n.leastLength (leastOfAny rest)

end

mutual

/-- All matches take the same number of units. -/
def Node.isFixed : Node → Bool
  | .group _ body => body.isFixed
  | .concat parts => allFixed parts
  | .choice branches => allFixed branches && allLengths branches (leastOfAny branches)
  | .repeats body least most _ => body.isFixed && most == some least
  | .backReference _ _ => false
  | .atomic body => body.isFixed
  | _ => true

/-- Every tree of the list has a fixed length. -/
def allFixed : List Node → Bool
  | [] => true
  | n :: rest => n.isFixed && allFixed rest

/-- Every tree of the list has the given least length. -/
def allLengths : List Node → Nat → Bool
  | [], _ => true
  | n :: rest, len => n.leastLength == len && allLengths rest len

end

mutual

/-- No match takes a unit. -/
def Node.isVoid : Node → Bool
  | .unit _ | .chain _ => false
  | .group _ body => body.isVoid
  | .concat parts => allVoid parts
  | .choice branches => allVoid branches
  | .repeats body _ most _ => most == some 0 || body.isVoid
  | .backReference _ _ => false
  | .atomic body => body.isVoid
  | _ => true

/-- No match of any tree of the list takes a unit. -/
def allVoid : List Node → Bool
  | [] => true
  | n :: rest => n.isVoid && allVoid rest

end

/-! ## 2. Groups -/

mutual

/-- The numbers of the groups in a tree. -/
def Node.groupIndices : Node → List Nat
  | .group i body => i :: body.groupIndices
  | .concat parts => groupsOfAll parts
  | .choice branches => groupsOfAll branches
  | .repeats body _ _ _ => body.groupIndices
  | .look _ _ body => body.groupIndices
  | .atomic body => body.groupIndices
  | _ => []

/-- The numbers of the groups in a list of trees. -/
def groupsOfAll : List Node → List Nat
  | [] => []
  | n :: rest => n.groupIndices ++ groupsOfAll rest

end

mutual

/-- The numbers to which back references refer. -/
def Node.references : Node → List Nat
  | .group _ body => body.references
  | .concat parts => referencesOfAll parts
  | .choice branches => referencesOfAll branches
  | .repeats body _ _ _ => body.references
  | .look _ _ body => body.references
  | .atomic body => body.references
  | .backReference i _ => [i]
  | _ => []

/-- The numbers to which back references of a list of trees refer. -/
def referencesOfAll : List Node → List Nat
  | [] => []
  | n :: rest => n.references ++ referencesOfAll rest

end

mutual

/-- The numbers of the groups in a tree outside repetitions that run zero times. -/
def Node.survivors : Node → List Nat
  | .group i body => i :: body.survivors
  | .concat parts => survivorsOfAll parts
  | .choice branches => survivorsOfAll branches
  | .repeats body _ most _ => if most == some 0 then [] else body.survivors
  | .look _ _ body => body.survivors
  | .atomic body => body.survivors
  | _ => []

/-- The surviving groups of a list of trees. -/
def survivorsOfAll : List Node → List Nat
  | [] => []
  | n :: rest => n.survivors ++ survivorsOfAll rest

end

/-! ## 3. Difficulty -/

mutual

/-- An automaton cannot decide the tree, given the groups that are referred to. -/
def Node.isHard (referred : List Nat) : Node → Bool
  | .wordStart | .wordEnd => true
  | .group i body => referred.contains i || body.isHard referred
  | .concat parts => anyHard referred parts
  | .choice branches => anyHard referred branches
  | .repeats body _ _ _ => body.isHard referred
  | .look _ _ _ | .backReference _ _ | .atomic _ => true
  | _ => false

/-- An automaton cannot decide some tree of the list. -/
def anyHard (referred : List Nat) : List Node → Bool
  | [] => false
  | n :: rest => n.isHard referred || anyHard referred rest

end

end Ecma51.Pattern
