import Ecma51.Pattern.Basic

/-!
# Lists of words

Some trees stand for a short list of words and nothing else. Such a tree is looked up as a list, not
run as an automaton, and then says nothing about groups.

* `Node.words?`: the words of a tree.
* `isWordList`: a sequence of trees is looked up as a list of words.
-/

namespace Ecma51.Pattern

-- sums mean the same whether or not there are other instances in scope
attribute [local instance (high)] Zero.ofOfNat0

/-- A set with more units than this is not spelled out. -/
def maxMembers : Nat := 10

/-- A list has at most so many words. -/
def maxWords : Nat := 250

/-- The units of a small set. -/
def UnitSet.members? (s : UnitSet) : Option (List Nat) :=
  if (s.map fun (lo, hi) => hi + 1 - lo).sum ≤ maxMembers then
    some (s.flatMap fun (lo, hi) => (List.range (hi + 1 - lo)).map (lo + ·))
  else none

/-- A list of words that is not too long. -/
def short? (words : List (List Nat)) : Option (List (List Nat)) :=
  if words.length ≤ maxWords then some words else none

/-- Every word of the first list followed by every word of the second. -/
def joinWords? (first second : Option (List (List Nat))) : Option (List (List Nat)) := do
  let first ← first
  let second ← second
  short? (first.flatMap fun w => second.map (w ++ ·))

mutual

/-- The words of a tree that stands for a list of words. -/
def Node.words? : Node → Option (List (List Nat))
  | .empty => some [[]]
  | .unit s => s.members?.map (·.map ([·]))
  | .chain sets => (sets.map fun s => s.members?.map (·.map ([·]))).foldr joinWords? (some [[]])
  | .concat parts => wordsOfAll? parts
  | .choice branches => wordsOfAny? branches
  | .repeats body least most greedy =>
    if most = some 0 then some [[]]
    else if least = 0 ∧ most = some 1 then
      body.words?.map fun ws => if greedy then ws ++ [[]] else [] :: ws
    else if most = some least ∧ least ≤ maxMembers then
      (List.replicate least body.words?).foldr joinWords? (some [[]])
    else none
  | _ => none

/-- The words of trees one after the other. -/
def wordsOfAll? : List Node → Option (List (List Nat))
  | [] => some [[]]
  | n :: rest => joinWords? n.words? (wordsOfAll? rest)

/-- The words of alternatives. -/
def wordsOfAny? : List Node → Option (List (List Nat))
  | [] => some []
  | n :: rest => do short? ((← n.words?) ++ (← wordsOfAny? rest))

end

/-- The trees stand for a list of words, none of them empty. -/
def isWordList (ns : List Node) : Bool :=
  match wordsOfAll? ns with
  | some ws => !ws.isEmpty && ws.all fun w => !w.isEmpty
  | none => false

end Ecma51.Pattern
