import Ecma51.Pattern.Form

/-!
# The size of automata

How many octets the states of an automaton take is found without building it, from its simplified
tree. Two automata count, one that reads a subject forwards and records groups, and one that reads
it backwards and does not; a tree is refused if either takes more than `maxRoom`.

* `Node.countsFit`: the bounds of repetitions.
* `rangesRoom`, `wordsRoom`: what the states of a set and of alternative words take.
* `Form.room`, `automatonRoom`: what the states of a simplified tree and of a whole automaton take.
-/

namespace Ecma51.Pattern

-- powers and sums mean the same whether or not there are other instances in scope
attribute [local instance (high)] instPowNat Zero.ofOfNat0

/-! ## 1. Counts -/

/-- Repetitions are counted in words of thirty-two bits. -/
def maxCount : Nat := 2 ^ (32 : Nat)

mutual

/-- The bounds of all repetitions are in order and can be counted. -/
def Node.countsFit : Node → Bool
  | .group _ body => body.countsFit
  | .concat parts => allCountsFit parts
  | .choice branches => allCountsFit branches
  | .repeats body least most _ =>
    body.countsFit && least < maxCount && most.all fun m => least ≤ m && m < maxCount
  | _ => true

/-- The bounds of all repetitions in a list of trees are in order and can be counted. -/
def allCountsFit : List Node → Bool
  | [] => true
  | n :: rest => n.countsFit && allCountsFit rest

end

/-! ## 2. States -/

/-- The octets of a state without those of its branches. -/
def stateRoom : Nat := 32

/-- A state with one branch for each of so many octet ranges. -/
def rangeState (ranges : Nat) : Nat := stateRoom + 8 * ranges

/-- A state that leads on to so many others. -/
def forkState (branches : Nat) : Nat := stateRoom + 4 * branches

/-! ## 3. Sets -/

/-- A set of octet sequences by their first octet ranges; no branches where a sequence ends. -/
inductive OctetTree where
  | node (children : List (NumberRange × OctetTree))
  deriving BEq, Inhabited

/-- The sequences that begin with a range, without it. -/
def afterRange (r : NumberRange) (sequences : List (List NumberRange)) : List (List NumberRange) :=
  sequences.filterMap fun q =>
    match q with
    | first :: rest => if first = r then some rest else none
    | [] => none

/-- The tree of sequences that are no longer than the number. -/
def OctetTree.ofSequences : Nat → List (List NumberRange) → OctetTree
  | 0, _ => .node []
  | n + 1, sequences =>
    .node ((sequences.filterMap List.head?).eraseDups.map fun r =>
      (r, ofSequences n (afterRange r sequences)))

mutual

/-- The tree and all trees below it that have branches. -/
def OctetTree.inner : OctetTree → List OctetTree
  | .node children =>
    if children.isEmpty then [] else .node children :: innerOfAll children

/-- All trees with branches below some branches. -/
def innerOfAll : List (NumberRange × OctetTree) → List OctetTree
  | [] => []
  | (_, t) :: rest => t.inner ++ innerOfAll rest

end

/-- The number of branches at the top. -/
def OctetTree.width : OctetTree → Nat
  | .node children => children.length

/-- What the states of a set take. ASCII is one state. Otherwise, forwards, equal trees of octet ranges
are one state; backwards, each sequence is a way of its own, and equal beginnings are shared. -/
def rangesRoom (backward : Bool) (ranges : List NumberRange) : Nat :=
  if ranges.all (·.2 < 0x80) then stateRoom + rangeState ranges.length
  else
    let sequences := octetSequences ranges
    if backward then
      let beginnings := (sequences.flatMap fun q => (List.range q.length).map fun i => q.take (i + 1))
      stateRoom + forkState sequences.length + stateRoom * beginnings.eraseDups.length
    else
      let trees := (OctetTree.ofSequences 4 sequences).inner.eraseDups
      stateRoom + (trees.map fun t => rangeState t.width).sum

/-! ## 4. Alternative words -/

/-- The words in order, cut where one ends. -/
def cutAtEnds : List (List Nat) → List (List (List Nat))
  | [] => [[]]
  | [] :: rest => [] :: cutAtEnds rest
  | w :: rest =>
    match cutAtEnds rest with
    | chunk :: more => (w :: chunk) :: more
    | [] => [[w]]

/-- The words in order, cut where one ends; ends before all other words count once. -/
def chunksOf : List (List Nat) → List (List (List Nat))
  | [] :: rest => [] :: cutAtEnds (rest.dropWhile List.isEmpty)
  | words => cutAtEnds words

/-- The words that begin with an octet, without it. -/
def afterOctet (octet : Nat) (words : List (List Nat)) : List (List Nat) :=
  words.filterMap fun w =>
    match w with
    | first :: rest => if first = octet then some rest else none
    | [] => none

/-- The states of alternative words that are no longer than the number, by their first octets. Words
after one that ends are tried after it. -/
def wordStates : Nat → List (List Nat) → Nat
  | 0, _ => 0
  | n + 1, words =>
    if words.all List.isEmpty then 0
    else
      let chunks := chunksOf words
      let firsts := chunks.map fun chunk => (chunk.filterMap List.head?).eraseDups
      let ways := (firsts.filter fun f => !f.isEmpty).length + (chunks.length - 1)
      let branches := firsts.map fun f =>
        match f.length with
        | 0 => 0
        | 1 => stateRoom
        | k => rangeState k
      let below := (chunks.zip firsts).map fun (chunk, f) =>
        (f.map fun octet => wordStates n (afterOctet octet chunk)).sum
      forkState ways + branches.sum + below.sum

/-- What the states of alternative words take. -/
def wordsRoom (backward : Bool) (words : List (List Nat)) : Nat :=
  let octets := words.map fun w => w.flatMap octetsOfCodePoint
  let read := if backward then octets.map List.reverse else octets
  let longest := read.foldl (fun n w => max n w.length) 0
  stateRoom + wordStates (longest + 1) read

/-! ## 5. Whole automata -/

/-- The words of a list of literals. -/
def literals? (fs : List Form) : Option (List (List Nat)) :=
  fs.mapM fun f =>
    match f with
    | .literal cps => some cps
    | _ => none

mutual

/-- What the states of a simplified tree take. -/
def Form.room (backward : Bool) : Form → Nat
  | .empty | .anchor => stateRoom
  | .literal cps => stateRoom * (cps.flatMap octetsOfCodePoint).length
  | .set ranges => rangesRoom backward ranges
  | .group _ body => (if backward then 0 else 2 * stateRoom) + body.room backward
  | .sequence parts => roomOfAll backward parts
  | .choice branches =>
    match literals? branches with
    | some words => wordsRoom backward words
    | none => stateRoom + forkState branches.length + roomOfAll backward branches
  | .repeats body least most _ =>
    let one := body.room backward
    let ways := forkState 2
    match most with
    | none =>
      if least = 0 ∧ body.isNullable then one + 2 * ways + stateRoom
      else max least 1 * one + ways
    | some m =>
      if least = 0 ∧ m = 1 then one + ways + stateRoom
      else if least = m then least * one
      else (if least = 0 then stateRoom else least * one) + stateRoom + (m - least) * (ways + one)

/-- What the states of a list of simplified trees take. -/
def roomOfAll (backward : Bool) : List Form → Nat
  | [] => 0
  | f :: rest => f.room backward + roomOfAll backward rest

end

/-- The states of an automaton may take ten mebibytes. -/
def maxRoom : Nat := 10 * 2 ^ (20 : Nat)

/-- What the states take that skip octets before a match, and the one that accepts. -/
def frameRoom : Nat := forkState 2 + stateRoom + rangeState 1 + stateRoom

/-- The simplified tree of a sequence of trees; the group of the whole match is not one of its own. -/
def formOfNodes : List Node → Form
  | [.group 0 body] => body.form
  | ns => .ofSequence (formsOfAll ns)

/-- What the larger of the two automata of a sequence of trees takes. -/
def automatonRoom (ns : List Node) : Nat :=
  let f := formOfNodes ns
  frameRoom + max (2 * stateRoom + f.room false) (f.room true)

end Ecma51.Pattern
