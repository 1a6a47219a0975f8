import Ecma51.Pattern.Automaton
import Ecma51.Pattern.Words

/-!
# Programs

A tree that automata cannot decide becomes a program: instructions that take units, record
positions, branch and loop, with automata for the parts that can be handed over. The position, the
slots and the open branches are all that a running program has.

* `Instruction`, `Program`: what runs.
* `Program.ofNode?`: the program of a tree.
* `Pattern`, `RegExp`: patterns ready to be looked for, and regular expressions.
-/

namespace Ecma51

namespace Pattern

/-! ## 1. Instructions -/

/-- One instruction. Where nothing else is said the next one follows. -/
inductive Instruction where
  /-- One unit of the set. -/
  | take (s : UnitSet)
  | start
  | stop
  | wordStart
  | wordEnd
  /-- On at `next`; if that fails, at `other`. -/
  | split (next other : Nat)
  | jump (target : Nat)
  /-- The position goes into a slot. -/
  | save (slot : Nat)
  /-- A slot becomes zero. -/
  | clear (slot : Nat)
  /-- The position comes out of a slot. -/
  | restore (slot : Nat)
  /-- One unit back. -/
  | back
  /-- Another repetition, counted in a slot, or `next`. -/
  | again (least : Nat) (most : Option Nat) (greedy : Bool) (counter next : Nat)
  /-- Another repetition, counted in a slot, or `next`; one that took no unit is the last. The slot
  `origin` holds where the latest one began. -/
  | advance (least : Nat) (greedy : Bool) (counter origin next : Nat)
  /-- What must not match has matched: the branches back to the one that goes on after this
  instruction are dropped, that one too. -/
  | refuse
  /-- What a group matched last. -/
  | backReference (group : Nat) (folded : Bool)
  /-- The number of open branches goes into a slot. -/
  | mark (slot : Nat)
  /-- The branches opened since a mark are dropped. -/
  | cut (slot : Nat)
  /-- The preferred match of an automaton that sets the groups; `listed` tells that it is looked up
  as a list of words. -/
  | handOver (a : Automaton) (groups : List Nat) (listed : Bool)
  | accept
  deriving Inhabited

/-- A program: its instructions and the number of its slots. -/
structure Program where
  code : Array Instruction
  slots : Nat
  deriving Inhabited

/-! ## 2. Translation of trees -/

namespace Program

/-- Instructions are added to a growing program; an automaton may be refused. -/
abbrev Build := StateT Program Option

/-- The number of the next instruction. -/
def here : Build Nat := return (← get).code.size

/-- A new instruction; its number is returned. -/
def add (i : Instruction) : Build Nat :=
  modifyGet fun ⟨code, slots⟩ => (code.size, ⟨code.push i, slots⟩)

/-- A new instruction. -/
def emit (i : Instruction) : Build Unit := do
  let _ ← add i
  return

/-- An instruction gets its content. -/
def patch (n : Nat) (i : Instruction) : Build Unit :=
  modify fun p => { p with code := p.code.setIfInBounds n i }

/-- A new slot. -/
def newSlot : Build Nat :=
  modifyGet fun ⟨code, slots⟩ => (slots, ⟨code, slots + 1⟩)

/-- Into the body or past it, as `greedy` prefers. -/
def prefer (greedy : Bool) (body past : Nat) : Instruction :=
  if greedy then .split body past else .split past body

/-- The sets of a list of trees that take one unit of each. -/
def unitsOf? : List Node → Option (List UnitSet)
  | [] => some []
  | .unit s :: rest => (unitsOf? rest).map (s :: ·)
  | .chain sets :: rest => (unitsOf? rest).map (sets ++ ·)
  | _ :: _ => none

/-- A sequence of trees is handed over to an automaton; mere units are taken one by one. -/
def handOver (ns : List Node) : Build Unit := do
  match unitsOf? ns with
  | some sets => sets.forM fun s => emit (.take s)
  | none =>
    let some a := Automaton.ofNodes? ns | failure
    emit (.handOver a (groupsOfAll ns) (isWordList ns))

/-- The number of leading trees of fixed length that automata decide, and how many trees at the end
can be handed over: fixed ones if more follows (`hard`), else any that automata decide. -/
def handedOver (referred : List Nat) (hard : Bool) (parts : List Node) : Nat × Nat :=
  let easy (n : Node) := !n.isHard referred
  let head := (parts.takeWhile fun n => n.isFixed && easy n).length
  let tail := (parts.drop head).reverse.takeWhile fun n => (!hard || n.isFixed) && easy n
  (head, tail.length)

/-- A body between `least` and `most` times. -/
def repeated (body : Build Unit) (nullable : Bool) (least : Nat) (most : Option Nat)
    (greedy : Bool) : Build Unit := do
  if most.isNone && nullable then
    let counter ← newSlot
    let origin ← newSlot
    emit (.clear counter)
    let head ← add .accept
    body
    emit (.jump head)
    patch head (.advance least greedy counter origin (← here))
  else if most.isNone && least == 0 then
    let head ← add .accept
    body
    emit (.jump head)
    patch head (prefer greedy (head + 1) (← here))
  else if most.isNone && least == 1 then
    let head ← here
    body
    emit (prefer greedy head ((← here) + 1))
  else
    let counter ← newSlot
    emit (.clear counter)
    let head ← add .accept
    body
    emit (.jump head)
    patch head (.again least most greedy counter (← here))

mutual

/-- The instructions of a tree; `hard` tells that more of the pattern may follow, so that the tree
has to offer all its matches. -/
def translate (referred : List Nat) (hard : Bool) : Node → Build Unit
  | .empty => return
  | .unit s => emit (.take s)
  | .chain sets => sets.forM fun s => emit (.take s)
  | .start => emit .start
  | .stop => emit .stop
  | .wordStart => emit .wordStart
  | .wordEnd => emit .wordEnd
  | .group i body => do
    if !hard && !(Node.group i body).isHard referred then handOver [.group i body]
    else
      emit (.save (startSlot i))
      translate referred hard body
      emit (.save (startSlot i + 1))
  | .concat parts => do
    if !hard && !(Node.concat parts).isHard referred then handOver parts
    else
      let (head, tail) := handedOver referred hard parts
      handOver (parts.take head)
      translateSome referred head (parts.length - head - tail) parts
      handOver (parts.drop (parts.length - tail))
  | .choice branches => do
    if !hard && !(Node.choice branches).isHard referred then handOver [.choice branches]
    else translateEach referred hard branches
  | .repeats body least most greedy => do
    let node := Node.repeats body least most greedy
    if !hard && !node.isHard referred then handOver [node]
    else if least = 0 ∧ most = some 1 then
      let head ← add .accept
      translate referred hard body
      patch head (prefer greedy (head + 1) (← here))
    else repeated (translate referred true body) (body.leastLength == 0) least most greedy
  | .look ahead negative body => do
    if negative then
      let head ← add .accept
      if !ahead then emit .back
      translate referred false body
      emit .refuse
      patch head (.split (head + 1) (← here))
    else
      let slot ← newSlot
      emit (.save slot)
      if !ahead then emit .back
      translate referred false body
      emit (.restore slot)
  | .backReference i folded => emit (.backReference i folded)
  | .atomic body => do
    let slot ← newSlot
    emit (.mark slot)
    translate referred false body
    emit (.cut slot)

/-- The instructions of `count` trees after the first `skipped`, with more to follow each. -/
def translateSome (referred : List Nat) : (skipped count : Nat) → List Node → Build Unit
  | skipped + 1, count, _ :: rest => translateSome referred skipped count rest
  | 0, count + 1, n :: rest => do
    translate referred true n
    translateSome referred 0 count rest
  | _, _, _ => return

/-- The instructions of alternatives. -/
def translateEach (referred : List Nat) (hard : Bool) : List Node → Build Unit
  | [] => return
  | [n] => translate referred hard n
  | n :: rest => do
    let head ← add .accept
    translate referred hard n
    let leave ← add .accept
    patch head (.split (head + 1) (← here))
    translateEach referred hard rest
    patch leave (.jump (← here))

end

/-- The program of a tree with the given number of groups. Before the tree it skips units one by
one, so that the match that begins first is found. -/
def ofNode? (root : Node) (groups : Nat) : Option Program := do
  let build : Build Unit := do
    emit (.split 3 1)
    emit (.take .all)
    emit (.jump 0)
    translate root.references false root
    emit .accept
  let (_, p) ← build.run { code := #[], slots := 2 * (groups + 1) }
  some p

end Program

/-! ## 3. Patterns -/

/-- How a pattern is looked for. -/
inductive Matcher where
  | automaton (a : Automaton)
  | program (p : Program)
  deriving Inhabited

end Pattern

/-- A readable pattern: what looks for it, the number of groups that a match reports, and the
number of slots for its groups. -/
structure Pattern where
  matcher : Pattern.Matcher
  groups : Nat
  slots : Nat
  deriving Inhabited

/-- A regular expression. -/
structure RegExp where
  source : Text
  flags : RegExpFlags
  pattern : Pattern
  deriving Inhabited

end Ecma51
