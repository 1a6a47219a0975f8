import Ecma51.Pattern.Program
import Ecma51.Text.Case
import Ecma51.Text.WordTable

/-!
# Searching

Programs run with a stack of branches: ways that were left open, each with the position and the slots
to which it goes back. A search that opens or tries too many gives up.

* `Program.step`: what one instruction does.
* `Program.run`: instructions in turn, with the latest branch tried when one fails.
* `Pattern.find?`: the leftmost match from a position on.
-/

namespace Ecma51

-- powers mean the same whether or not there are other instances in scope
attribute [local instance (high)] instPowNat

namespace Pattern

/-! ## 1. What stands at a position -/

/-- A word character stands at the position. -/
def isWordAt (subject : Subject) (position : Nat) : Bool := subject[position]?.any isUnicodeWord

/-- A word character stands before the position. -/
def isWordBefore (subject : Subject) (position : Nat) : Bool :=
  0 < position && isWordAt subject (position - 1)

/-- The octets of the stand-ins of units. -/
def octetsOf (us : Subject) : Nat := us.foldl (fun n u => n + standInWidth u) 0

/-- The number of units from a position on that take exactly so many octets; the first number bounds
them. -/
def unitsWithin (subject : Subject) : (bound position octets : Nat) → Option Nat
  | _, _, 0 => some 0
  | 0, _, _ => none
  | bound + 1, position, octets =>
    match subject[position]? with
    | some u =>
      if standInWidth u ≤ octets then
        (unitsWithin subject bound (position + 1) (octets - standInWidth u)).map (· + 1)
      else none
    | none => none

/-- The units with their case folded. -/
def folding (us : Subject) : Array Nat := us.map fun u => CaseTable.fold u.toNat

/-- The second sequence occurs in the first. -/
def occursIn (us needle : Array Nat) : Bool :=
  (List.range (us.size + 1 - needle.size)).any fun i => us.extract i (i + needle.size) == needle

/-- The length of what stands at `position` and repeats a span. Folded, it takes as many octets as
the span and holds the span's units up to case; ASCII text is no longer than the span. -/
def repeatedLength? (subject : Subject) (folded : Bool) (first last position : Nat) :
    Option Nat := do
  if last < first then none
  let told := subject.extract first last
  if folded then
    let octets := octetsOf told
    let n ← unitsWithin subject octets position octets
    let found := subject.extract position (position + n)
    let fits := found.any (0x80 ≤ ·) || n == told.size
    if fits && occursIn (folding found) (folding told) then some n else none
  else if subject.extract position (position + told.size) == told then some told.size
  else none

/-! ## 2. Steps -/

/-- A way left open: where to go on, with which position and slots. -/
structure Branch where
  pc : Nat
  position : Nat
  slots : Slots

/-- A running search: the present way, the open branches with their number, and the spans that the
latest automaton with groups gave them. -/
structure Attempt extends Branch where
  branches : List Branch := []
  depth : Nat := 0
  inner : List (Option Span) := []

/-- What an instruction leads to. -/
inductive Step where
  | go (a : Attempt)
  /-- The present way fails. -/
  | fail (a : Attempt)
  /-- The search gives up. -/
  | giveUp
  | found (slots : Slots)

/-- At most so many branches are open at once. -/
def maxBranches : Nat := 1000000

/-- At most so many branches are tried. -/
def maxRetreats : Nat := 1000000

/-- The value of a slot. -/
def Slots.value? (s : Slots) (slot : Nat) : Option Nat := s[slot]?.join

/-- The span that the slots hold for a group. -/
def Slots.span? (s : Slots) (group : Nat) : Option Span := do
  return (← s.value? (startSlot group), ← s.value? (startSlot group + 1))

/-- The slots with a group's span. -/
def Slots.setSpan (s : Slots) (group : Nat) (span : Option Span) : Slots :=
  (s.setIfInBounds (startSlot group) (span.map (·.1))).setIfInBounds (startSlot group + 1)
    (span.map (·.2))

namespace Attempt

/-- On at the next instruction. -/
def next (a : Attempt) : Step := .go { a with pc := a.pc + 1 }

/-- On at the next instruction if the condition holds. -/
def require (a : Attempt) (condition : Bool) : Step := if condition then a.next else .fail a

/-- A slot gets a value. -/
def store (a : Attempt) (slot value : Nat) : Attempt :=
  { a with slots := a.slots.setIfInBounds slot (some value) }

/-- On at `pc`, with `other` left open. -/
def fork (a : Attempt) (pc other : Nat) : Step :=
  if a.depth < maxBranches then
    .go { a with
      pc
      branches := ⟨other, a.position, a.slots⟩ :: a.branches
      depth := a.depth + 1 }
  else .giveUp

/-- Only the lowest `n` branches stay open. -/
def cutTo (a : Attempt) (n : Nat) : Attempt :=
  { a with branches := a.branches.drop (a.depth - n), depth := min a.depth n }

/-- The number of branches down to the latest that goes on at `pc`, that one included. -/
def branchesTo (a : Attempt) (pc : Nat) : Nat := (a.branches.takeWhile (·.pc != pc)).length + 1

/-- Another repetition: with the body left open or what follows it. -/
def loop (a : Attempt) (due greedy : Bool) (next : Nat) : Step :=
  if due then a.next
  else if greedy then a.fork (a.pc + 1) next
  else a.fork next (a.pc + 1)

/-- The preferred match of an automaton at the position. One that sets groups also sets those that it
does not reach; a list of words leaves them what the automaton before it gave. -/
def handOver (a : Attempt) (subject : Subject) (m : Automaton) (groups : List Nat)
    (listed : Bool) : Step :=
  if groups.isEmpty then
    match m.run subject a.position a.slots with
    | some (last, _) => .go { a with pc := a.pc + 1, position := last }
    | none => .fail a
  else
    let kept := (List.range groups.length).map fun i => (a.inner[i]?).join
    match m.run subject a.position (groups.foldl (·.setSpan · none) a.slots) with
    | some (last, slots) =>
      let inner := if listed then kept else groups.map slots.span?
      .go { a with
        pc := a.pc + 1
        position := last
        slots := (groups.zip inner).foldl (fun s (g, span) => s.setSpan g span) slots
        inner }
    | none => .fail { a with inner := if listed then kept else [] }

end Attempt

/-- What an instruction does. -/
def Instruction.step (subject : Subject) (a : Attempt) : Instruction → Step
  | .take s =>
    match subject[a.position]? with
    | some u =>
      if s.holds u.toNat then .go { a with pc := a.pc + 1, position := a.position + 1 } else .fail a
    | none => .fail a
  | .start => a.require (a.position == 0)
  | .stop => a.require (a.position == subject.size)
  | .wordStart => a.require (!isWordBefore subject a.position && isWordAt subject a.position)
  | .wordEnd => a.require (isWordBefore subject a.position && !isWordAt subject a.position)
  | .split next other => a.fork next other
  | .jump target => .go { a with pc := target }
  | .save slot => (a.store slot a.position).next
  | .clear slot => (a.store slot 0).next
  | .restore slot => Attempt.next { a with position := (a.slots.value? slot).getD a.position }
  | .back => if a.position = 0 then .fail a else Attempt.next { a with position := a.position - 1 }
  | .again least most greedy counter next =>
    let count := (a.slots.value? counter).getD 0
    if most = some count then .go { a with pc := next }
    else (a.store counter (count + 1)).loop (count < least) greedy next
  | .advance least greedy counter origin next =>
    let count := (a.slots.value? counter).getD 0
    if 0 < count ∧ a.slots.value? origin = some a.position then .go { a with pc := next }
    else
      let a := a.store counter (count + 1)
      if count < least then a.next else (a.store origin a.position).loop false greedy next
  | .refuse => .fail (a.cutTo (a.depth - a.branchesTo (a.pc + 1)))
  | .backReference group folded =>
    match a.slots.span? group with
    | some (first, last) =>
      match repeatedLength? subject folded first last a.position with
      | some n => .go { a with pc := a.pc + 1, position := a.position + n }
      | none => .fail a
    | none => .fail a
  | .mark slot => (a.store slot a.depth).next
  | .cut slot => (a.cutTo ((a.slots.value? slot).getD a.depth)).next
  | .handOver m groups listed => a.handOver subject m groups listed
  | .accept => .found a.slots

/-! ## 3. Runs -/

/-- More steps than any search takes that ends. -/
def maxSteps : Nat := 2 ^ (60 : Nat)

/-- The slots of the first way that is accepted; `retreats` branches were tried before. -/
def Program.run (p : Program) (subject : Subject) : (fuel retreats : Nat) → Attempt → Option Slots
  | 0, _, _ => none
  | fuel + 1, retreats, a =>
    match p.code[a.pc]? with
    | none => none
    | some i =>
      match i.step subject a with
      | .go a => run p subject fuel retreats a
      | .found slots => some slots
      | .giveUp => none
      | .fail a =>
        match a.branches with
        | b :: rest =>
          if retreats < maxRetreats then
            run p subject fuel (retreats + 1)
              { a with toBranch := b, branches := rest, depth := a.depth - 1 }
          else none
        | [] => none

/-- The slots of the leftmost match from a position on. -/
def Program.search (p : Program) (subject : Subject) (start : Nat) : Option Slots :=
  p.run subject maxSteps 0 { pc := 0, position := start, slots := Array.replicate p.slots none }

/-- The slots of the leftmost match from a position on. -/
def Matcher.search (slots : Nat) (subject : Subject) (start : Nat) : Matcher → Option Slots
  | .automaton a => (a.search subject start (Array.replicate slots none)).map (·.2.2)
  | .program p => p.search subject start

/-- The leftmost match that begins at `start` or later. -/
def find? (p : Pattern) (subject : Text) (start : Nat) : Option Match := do
  let units := subject.units
  if units.size < start then none
  let slots ← p.matcher.search p.slots units start
  let span ← slots.span? 0
  some { span, groups := (List.range p.groups).map fun i => slots.span? (i + 1) }

end Pattern

end Ecma51
