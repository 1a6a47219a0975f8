import Ecma51.CallStack
import Ecma51.Calendar.TimeValue
import Ecma51.Config
import Ecma51.Heap.Chain
import Ecma51.Text.Atom

/-!
# The machine

Everything that a running program touches, and the monad in which the operations of the library are
written. An operation reads how functions are run, changes the machine, and returns a value or stops
with a failure; the changes made before a failure remain.

* `Machine`: the state.
* `Run`: operations on it.
* `Machine.reserve`: room for one more object, collecting what can no longer be reached if need be.
* `holding`, `consuming`: values that an operation works with are kept while it runs, or until each is
  done.
* `attempt`: a failure becomes the pending exception.
-/

namespace Ecma51

-- powers mean the same whether or not there are other instances in scope
attribute [local instance (high)] instPowNat

/-! ## 1. State -/

/-- Source text after compilation. -/
structure CompiledSource where
  code : Code
  parameterCount : Nat
  strict : Bool

/-- What turns source text into code: evaluated code, and functions from their parameters and body. -/
structure SourceCompiler where
  evalCode : Text → Except Fault CompiledSource
  functionCode : (parameters body : Text) → Except Fault CompiledSource

/-- The state of a running program. -/
structure Machine where
  heap : Heap
  /-- The most objects that may be alive. -/
  heapLimit : Option Nat
  /-- The number of objects at which the heap is next searched for what can be dropped. -/
  nextCollection : Nat
  /-- The running context first. -/
  contexts : List Context
  stack : CallStack
  /-- The exception that is on its way, `nothing` if none is. -/
  pending : Value
  callDepth : Nat
  maxCallDepth : Nat
  /-- The call depth at which `eval` was called by its name: the next call of `eval` sees the
  environments of its caller. -/
  directEval : Option Nat
  /-- The lines written, the latest first. -/
  output : List Text
  atoms : Atoms
  /-- Values that operations under way work with. -/
  held : List Value
  compiler : Option SourceCompiler
  zone : Calendar.Zone
  /-- The present instant. -/
  clock : Double
  /-- The state of the generator of random numbers. -/
  seed : Nat
  /-- The number of live objects from which `live` counts. -/
  baseline : Nat

namespace Machine

/-- All references into the heap from outside of it. -/
def roots (m : Machine) : List Nat :=
  let contexts := m.contexts.map Context.references
  Heap.nodesOf
    (.object globalObject :: Intrinsic.all.map (fun i => .object i.id) ++ contexts.flatMap (·.1) ++
      m.stack.slots.toList ++ m.pending :: m.held)
    (globalEnvironment :: contexts.flatMap (·.2))

/-- The machine with the heap reduced to what can be reached. -/
def collect (m : Machine) : Machine := { m with heap := m.heap.collect m.roots [] }

/-- Makes room for one more object: the machine after a collection, if one was due, and whether the
object fits. -/
def reserve (m : Machine) : Machine × Bool :=
  let room := m.heap.reserve m.heapLimit m.nextCollection m.roots []
  ({ m with heap := room.heap, nextCollection := room.nextCollection }, room.fits)

/-- The running context. -/
def context? (m : Machine) : Option Context := m.contexts.head?

/-- The running code is strict. -/
def isStrict (m : Machine) : Bool := m.context?.any (·.strict)

/-- Where names are looked up. -/
def lexical (m : Machine) : EnvironmentId := (m.context?.map (·.lexical)).getD globalEnvironment

/-- Where names are declared. -/
def declarations (m : Machine) : EnvironmentId :=
  (m.context?.map (·.declarations)).getD globalEnvironment

/-- The value of `this`. -/
def this (m : Machine) : Value := (m.context?.map (·.this)).getD (.object globalObject)

end Machine

/-! ## 2. Operations -/

/-- A state change that returns a value or stops with a failure. -/
abbrev Step := EStateM Failure Machine

/-- How functions are run: built-in ones on `this` and their arguments, code on its frame. Code tells
whether it succeeded; if not, the exception is pending. -/
structure Bodies where
  native : Builtin → Value → List Value → Step Value
  compiled : Code → Frame → Step Bool

/-- An operation of the library. -/
abbrev Run := ReaderT Bodies Step

/-- Stops with a fault. -/
def raise {α : Type} (f : Fault) : Run α := throw (.fault f)

/-- A result or a fault. -/
def orRaise {α : Type} : Except Fault α → Run α
  | .ok a => pure a
  | .error f => raise f

/-- The heap. -/
def getHeap : Run Heap := return (← get).heap

/-- Replaces the heap. -/
def setHeap (h : Heap) : Run Unit := modify fun m => { m with heap := h }

/-- Changes the heap. -/
def modifyHeap (f : Heap → Heap) : Run Unit := modify fun m => { m with heap := f m.heap }

/-- Keeps values reachable while an operation runs, however it ends. -/
def holding {α : Type} (vs : List Value) (body : Run α) : Run α := fun bodies m =>
  match body bodies { m with held := vs ++ m.held } with
  | .ok a m' => .ok a { m' with held := m.held }
  | .error e m' => .error e { m' with held := m.held }

/-- Keeps a value reachable from now on, until the innermost `holding` ends. -/
def hold (v : Value) : Run Unit := modify fun m => { m with held := v :: m.held }

/-- Lets go of the value that was kept last. -/
def letGo : Run Unit := modify fun m => { m with held := m.held.drop 1 }

/-- Handles values in turn, each with what the one before it gave; the value kept last is let go when
it is done. -/
def handleEach {σ : Type} (step : σ → Value → Run σ) : σ → List Value → Run σ
  | s, [] => return s
  | s, v :: rest => do
    let s ← holding [] (step s v)
    letGo
    handleEach step s rest

/-- Handles values in turn, each with what the one before it gave. All are kept at first, and each is
let go when it is done. -/
def consuming {σ : Type} (step : σ → Value → Run σ) (s : σ) (vs : List Value) : Run σ :=
  holding vs (handleEach step s vs)

/-- Makes room for one more object. -/
def allocate : Run Unit := do
  let (m, fits) := (← get).reserve
  set m
  unless fits do raise .outOfMemory

/-- Adds an object without looking at the limit. -/
def addObject (x : Object) : Run ObjectId := do
  let (h, o) := (← getHeap).add x
  setHeap h
  return o

/-- A new object, if it fits. -/
def newObjectOf (x : Object) : Run ObjectId := do
  allocate
  addObject x

/-- A new ordinary object with a given prototype. -/
def newObjectWith (prototype : Option ObjectId) : Run ObjectId := newObjectOf (.ordinary prototype)

/-- A new ordinary object. -/
def newObject : Run ObjectId := newObjectWith (some Intrinsic.objectPrototype.id)

/-- A number in 32 bits, in which the elements of an array are counted. -/
def wrap32 (n : Nat) : Nat := n % 2 ^ (32 : Nat)

/-- An array with elements at the given indices and with a given length, which can be changed, but not
seen by enumeration or removed. -/
def arrayWith (elements : List (Value × Nat)) (length : Nat) : Object :=
  let table :=
    elements.foldl (fun t (v, i) => t.insert (.ofNat (wrap32 i)) (.plain v)) PropertyTable.empty
  { Object.ofKind "Array" (some Intrinsic.arrayPrototype.id) .array with
    properties := table.insert .length (.data (.ofNat (wrap32 length)) true false false) }

/-- An array with the given elements. -/
def arrayOf (items : List Value) : Object := arrayWith items.zipIdx items.length

/-- An array of the given length without elements. -/
def arrayOfLength (n : Nat) : Object := arrayWith [] n

/-- A new array. -/
def newArray (items : List Value) : Run ObjectId := newObjectOf (arrayOf items)

/-- An error object; an empty message leaves no property. -/
def errorOf (kind : ErrorKind) (message : Text) : Object :=
  let x := Object.ofKind "Error" (some (Intrinsic.errorPrototype kind).id) .error
  if message.isEmpty then x else x.withProperty (.ofString "message") (.hidden (.string message))

/-- The value that a program sees of a failure: a thrown value itself, an error object for a fault.
This never fails, so that a lack of memory can be reported. -/
def failureValue : Failure → Run Value
  | .thrown v => return v
  | .fault f => return .object (← addObject (errorOf f.kind (Text.ofString f.message)))
  | .exhausted => throw .exhausted

/-- Runs an operation; a failure becomes the pending exception. -/
def attempt {α : Type} (body : Run α) : Run (Option α) := do
  try
    let a ← body
    pure (some a)
  catch e =>
    let v ← failureValue e
    modify fun m => { m with pending := v }
    pure none

/-- The pending exception, which is pending no longer. -/
def takePending : Run Value := do
  let m ← get
  set { m with pending := .nothing }
  return m.pending

/-- Counts a call as under way, unless that would be too many. -/
def enterCall : Run Unit := do
  let m ← get
  if m.maxCallDepth ≤ m.callDepth then raise .stackOverflow
  set { m with callDepth := m.callDepth + 1 }

/-- Counts a call as finished. -/
def leaveCall : Run Unit := modify fun m => { m with callDepth := m.callDepth - 1 }

/-- Runs an operation as the rest of a call that is under way: the call is finished however the
operation ends. -/
def leaving {α : Type} (body : Run α) : Run α := do
  try
    let a ← body
    leaveCall
    pure a
  catch e =>
    leaveCall
    throw e

/-- Runs an operation as one more nested call, however it ends. -/
def nestedCall {α : Type} (body : Run α) : Run α := do
  enterCall
  leaving body

/-- The argument with a number, undefined if there are fewer. -/
def argumentAt (args : List Value) (i : Nat) : Value := args.getD i .undefined

/-- The number of a name in the table of atoms is fixed from now on. -/
def internName (t : Text) : Run Unit := modify fun m => { m with atoms := (m.atoms.intern t).1 }

end Ecma51
