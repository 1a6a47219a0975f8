import Ecma51.Value

/-!
# The stacks of calls

What is running, in two stacks. Contexts say in which environments names are looked up and declared, what
`this` is, and whether the code is strict; they are kept in a list, the running one first. One stack of
values serves all activations: the arguments of a call are pushed first, a frame over them adds missing
parameters, the callee, `this` and a slot for the result, and local slots may follow.

    fp                                  vp
    | arguments .. | callee | this | result | locals ..

* `Context`: one context.
* `CallStack.pushFrame`, `CallStack.popFrame`: entering and leaving an activation.
* `CallStack.push`, `CallStack.pop`, `CallStack.alloc`, `CallStack.free`: single slots.
-/

namespace Ecma51

/-! ## 1. Execution contexts -/

/-- What a context runs. -/
inductive ContextKind where
  | global
  | function
  | eval
  | inScopeOf
  | catching
  deriving DecidableEq, Repr

/-- One context. -/
structure Context where
  kind : ContextKind
  function : Option ObjectId
  /-- Where names are looked up. -/
  lexical : EnvironmentId
  /-- Where names are declared. -/
  declarations : EnvironmentId
  this : Value
  strict : Bool

namespace Context

/-- A context inside this one that differs in where names are looked up. -/
def nested (c : Context) (kind : ContextKind) (lexical : EnvironmentId) : Context :=
  { c with kind, lexical }

/-- The values and environments that a context refers to. -/
def references (c : Context) : List Value × List EnvironmentId :=
  (c.this :: c.function.toList.map .object, [c.lexical, c.declarations])

end Context

/-! ## 2. The value stack -/

/-- One activation: its argument count, its first argument and its first local slot. -/
structure Frame where
  argc : Nat
  fp : Nat
  vp : Nat
  deriving DecidableEq, Repr, Inhabited

namespace Frame

/-- The slot of the function that runs. -/
def calleeSlot (f : Frame) : Nat := f.vp - 3

/-- The slot of `this`. -/
def thisSlot (f : Frame) : Nat := f.vp - 2

/-- The slot of the result. -/
def resultSlot (f : Frame) : Nat := f.vp - 1

end Frame

/-- The values of all activations, and their frames with the latest first. -/
structure CallStack where
  slots : Array Value
  frames : List Frame

namespace CallStack

/-- The stack without values. -/
def empty : CallStack := ⟨#[], []⟩

instance : Inhabited CallStack := ⟨empty⟩

/-- The number of slots, which is also the place of the next one. -/
def size (s : CallStack) : Nat := s.slots.size

/-- The number of frames. -/
def depth (s : CallStack) : Nat := s.frames.length

/-- Adds a value. -/
def push (s : CallStack) (v : Value) : CallStack := { s with slots := s.slots.push v }

/-- Adds several values in order. -/
def pushAll (s : CallStack) (vs : List Value) : CallStack :=
  { s with slots := s.slots.appendList vs }

/-- Removes the last value; undefined if there is none. -/
def pop (s : CallStack) : CallStack × Value :=
  ({ s with slots := s.slots.pop }, s.slots.back?.getD .undefined)

/-- Keeps at most the first `n` slots. -/
def truncate (s : CallStack) (n : Nat) : CallStack := { s with slots := s.slots.take n }

/-- Adds `n` undefined slots, and gives the place of the first. -/
def alloc (s : CallStack) (n : Nat) : CallStack × Nat :=
  ({ s with slots := s.slots ++ Array.replicate n .undefined }, s.size)

/-- Removes the last `n` slots, or all. -/
def free (s : CallStack) (n : Nat) : CallStack := s.truncate (s.size - n)

/-- The value of a slot; undefined beyond the end. -/
def get (s : CallStack) (i : Nat) : Value := s.slots.getD i .undefined

/-- Replaces the value of a slot; nothing happens beyond the end. -/
def set (s : CallStack) (i : Nat) (v : Value) : CallStack :=
  { s with slots := s.slots.setIfInBounds i v }

/-- At most `n` values from slot `i` on. -/
def values (s : CallStack) (i n : Nat) : List Value := (s.slots.extract i (i + n)).toList

/-- Enters an activation over the last `argc` values. -/
def pushFrame (s : CallStack) (argc parameterCount : Nat) (callee this : Value) :
    CallStack × Frame :=
  let fp := s.size - argc
  let slots := s.slots ++ Array.replicate (parameterCount - argc) .undefined
  let slots := ((slots.push callee).push this).push .undefined
  let f : Frame := ⟨argc, fp, slots.size⟩
  (⟨slots, f :: s.frames⟩, f)

/-- The frames below the latest one that starts at the given slot; all frames if none does. -/
def framesBelow (fp : Nat) (frames : List Frame) : List Frame :=
  match frames.dropWhile fun f => f.fp != fp with
  | [] => frames
  | _ :: rest => rest

/-- Leaves an activation and everything above it; gives its result. -/
def popFrame (s : CallStack) (f : Frame) : CallStack × Value :=
  ((⟨s.slots, framesBelow f.fp s.frames⟩ : CallStack).truncate f.fp, s.get f.resultSlot)

/-- The latest frame. -/
def current? (s : CallStack) : Option Frame := s.frames.head?

/-- The latest frame with the given slots. -/
def frameAt? (s : CallStack) (fp vp : Nat) : Option Frame :=
  s.frames.find? fun f => f.fp == fp && f.vp == vp

end CallStack

end Ecma51
