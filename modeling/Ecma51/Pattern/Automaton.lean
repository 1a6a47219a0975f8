import Std.Data.HashSet
import Ecma51.Pattern.Size

/-!
# Automata

Trees without look-around and references are run by a nondeterministic automaton whose branches
are ordered. A state is entered at most once at each position, by the most preferred path, so a
run takes time proportional to states times positions.

* `Automaton.ofNodes?`: the automaton of a sequence of trees.
* `Automaton.run`: the preferred match that begins at a position.
* `Automaton.search`: the leftmost of the preferred matches.
-/

namespace Ecma51.Pattern

/-- The text in which a pattern is looked for. -/
abbrev Subject := Array CodeUnit

/-- The positions recorded so far: two places for each group, and two for the whole match. -/
abbrev Slots := Array (Option Nat)

/-- The place of the start of a group; its end stands next to it. -/
def startSlot (group : Nat) : Nat := 2 * group

/-- A state of an automaton. -/
inductive State where
  /-- One unit of the set, then on. -/
  | take (s : UnitSet) (next : Nat)
  /-- Any of the successors, the first preferred. -/
  | split (next : List Nat)
  /-- The position is recorded. -/
  | save (slot : Nat) (next : Nat)
  | atStart (next : Nat)
  | atStop (next : Nat)
  | accept
  deriving Inhabited

/-- The number of arrows out of a state. -/
def State.fanOut : State → Nat
  | .split next => next.length
  | _ => 1

/-- An automaton: its states, where it starts, and a bound on the paths at one position. -/
structure Automaton where
  states : Array State
  start : Nat
  arrows : Nat := states.foldl (fun n s => n + s.fanOut) 1
  deriving Inhabited

namespace Automaton

/-! ## 1. Construction -/

/-- States are added to a growing array. -/
abbrev Build := StateM (Array State)

/-- A new state. -/
def add (s : State) : Build Nat := modifyGet fun states => (states.size, states.push s)

/-- A state gets its content. -/
def patch (i : Nat) (s : State) : Build Unit := modify (·.setIfInBounds i s)

/-- Two successors in order of preference: on into the body, or past it. -/
def prefer (greedy : Bool) (body past : Nat) : State :=
  .split (if greedy then [body, past] else [past, body])

/-- The body `n` times before `next`. -/
def exactly (body : Nat → Build Nat) : Nat → Nat → Build Nat
  | 0, next => pure next
  | n + 1, next => do exactly body n (← body next)

/-- The body at most `n` times before `next`; before each the way `past` all of them is open. -/
def atMost (body : Nat → Build Nat) (greedy : Bool) (past : Nat) : Nat → Nat → Build Nat
  | 0, next => pure next
  | n + 1, next => do
    let first ← body next
    atMost body greedy past n (← add (prefer greedy first past))

/-- The body once or more before `next`: the way back is open after each. -/
def plus (body : Nat → Build Nat) (greedy : Bool) (next : Nat) : Build Nat := do
  let back ← add .accept
  let first ← body back
  patch back (prefer greedy first next)
  return first

/-- The body any number of times before `next`. A body that can be empty runs as an optional
`plus`, which keeps the order of preference. -/
def star (body : Nat → Build Nat) (nullable greedy : Bool) (next : Nat) : Build Nat := do
  if nullable then
    let first ← plus body greedy next
    add (prefer greedy first next)
  else
    let back ← add .accept
    let first ← body back
    patch back (prefer greedy first next)
    return back

/-- The body between `least` and `most` times before `next`. -/
def bounded (body : Nat → Build Nat) (nullable : Bool) (least : Nat) (most : Option Nat)
    (greedy : Bool) (next : Nat) : Build Nat :=
  match most with
  | some 0 => pure next
  | some m => do exactly body least (← atMost body greedy next (m - least) next)
  | none => do
    if least = 0 then star body nullable greedy next
    else exactly body (least - 1) (← plus body greedy next)

/-- One unit of each set in turn before `next`. -/
def takeEach : List UnitSet → Nat → Build Nat
  | [], next => pure next
  | s :: rest, next => do add (.take s (← takeEach rest next))

mutual

/-- The states of a tree before `next`; the entry is returned. A body that takes no unit runs at
most once. -/
def compile : Node → Nat → Build Nat
  | .unit s, next => add (.take s next)
  | .chain sets, next => takeEach sets next
  | .start, next => add (.atStart next)
  | .stop, next => add (.atStop next)
  | .group i body, next => do
    let close ← add (.save (startSlot i + 1) next)
    let first ← compile body close
    add (.save (startSlot i) first)
  | .concat parts, next => compileAll parts next
  | .choice branches, next => do
    let entries ← compileEach branches next
    add (.split entries)
  | .repeats body least most greedy, next =>
    let least := if body.isVoid then min least 1 else least
    let most := if body.isVoid then some (min (most.getD 1) 1) else most
    let whole := compile body
    match body with
    | .chain sets => do
      let last := takeEach (sets.drop (sets.length - 1))
      takeEach sets.dropLast (← bounded last false least most greedy next)
    | _ => bounded whole (body.leastLength == 0) least most greedy next
  | _, next => pure next

/-- The states of trees one after the other. -/
def compileAll : List Node → Nat → Build Nat
  | [], next => pure next
  | n :: rest, next => do compile n (← compileAll rest next)

/-- The entries of alternatives that all lead to `next`. -/
def compileEach : List Node → Nat → Build (List Nat)
  | [], _ => pure []
  | n :: rest, next => do
    let first ← compile n next
    return first :: (← compileEach rest next)

end

/-- The automaton of a sequence of trees. -/
def ofNodes (ns : List Node) : Automaton :=
  let (start, states) := (do compileAll ns (← add .accept) : Build Nat).run #[]
  { states, start }

/-- The automaton of a sequence of trees, unless it would be too large. -/
def ofNodes? (ns : List Node) : Option Automaton :=
  if allCountsFit ns && automatonRoom ns ≤ maxRoom then some (ofNodes ns) else none

/-! ## 2. Running -/

/-- A path that waits for its turn: its state, its position and what it recorded. -/
structure Thread where
  state : Nat
  position : Nat
  slots : Slots

/-- The threads that follow one in a state, the most preferred first. -/
def follow (subject : Subject) (t : Thread) : State → List Thread
  | .take s next =>
    match subject[t.position]? with
    | some u =>
      if s.holds u.toNat then [{ t with state := next, position := t.position + 1 }] else []
    | none => []
  | .split next => next.map fun n => { t with state := n }
  | .save slot next =>
    [{ t with state := next, slots := t.slots.setIfInBounds slot (some t.position) }]
  | .atStart next => if t.position = 0 then [{ t with state := next }] else []
  | .atStop next => if t.position = subject.size then [{ t with state := next }] else []
  | .accept => []

/-- The threads in turn until one accepts; a state is entered once at each position. Without a
match the entered states are returned. -/
def explore (a : Automaton) (subject : Subject) :
    (fuel : Nat) → Std.HashSet Nat → List Thread → Except (Std.HashSet Nat) (Nat × Slots)
  | 0, seen, _ => .error seen
  | _, seen, [] => .error seen
  | fuel + 1, seen, t :: rest =>
    let mark := t.position * a.states.size + t.state
    if seen.contains mark then explore a subject fuel seen rest
    else match a.states[t.state]? with
      | some .accept => .ok (t.position, t.slots)
      | some s => explore a subject fuel (seen.insert mark) (follow subject t s ++ rest)
      | none => explore a subject fuel seen rest

/-- Enough steps for every path through a subject. -/
def fuelFor (a : Automaton) (subject : Subject) : Nat := (a.arrows + 1) * (subject.size + 2)

/-- The end of the preferred match that begins at a position, and what it recorded. -/
def run (a : Automaton) (subject : Subject) (position : Nat) (slots : Slots) :
    Option (Nat × Slots) :=
  (explore a subject (a.fuelFor subject) ∅ [⟨a.start, position, slots⟩]).toOption

/-- The preferred match of the least of `n` start positions: its start, its end and its slots. -/
def searchFrom (a : Automaton) (subject : Subject) (slots : Slots) :
    (n start : Nat) → Std.HashSet Nat → Option (Nat × Nat × Slots)
  | 0, _, _ => none
  | n + 1, start, seen =>
    match explore a subject (a.fuelFor subject) seen [⟨a.start, start, slots⟩] with
    | .ok (stop, found) => some (start, stop, found)
    | .error seen => searchFrom a subject slots n (start + 1) seen

/-- The leftmost match from a position on. -/
def search (a : Automaton) (subject : Subject) (start : Nat) (slots : Slots) :
    Option (Nat × Nat × Slots) :=
  searchFrom a subject slots (subject.size + 1 - start) start ∅

end Automaton

end Ecma51.Pattern
