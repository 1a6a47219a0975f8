import Ecma51.Machine

/-!
# Calls

Calling a function object. A bound function stands for its target with a fixed `this` and first
arguments; a built-in function runs on the values; code runs on a frame of the stack, in a context and an
environment of its own. However a call ends, the stack, the contexts and the call depth are as before
its arguments were pushed.

* `toObject`: the object for a value, wrapping a primitive one.
* `Heap.unbind`: what a chain of bound functions stands for.
* `callPushed`: a call whose arguments are on the stack.
* `call`, `callValue`: a call with arguments as a list.
-/

namespace Ecma51

/-! ## 1. Wrapping -/

/-- The object that wraps a text, with its length. -/
def stringObject (t : Text) : Object :=
  (Object.ofKind "String" (some Intrinsic.stringPrototype.id) (.string t)).withProperty .length
    (.constant (.ofNat t.length))

/-- The object that wraps a primitive value, if there is one. -/
def wrapperOf? : Value → Option Object
  | .boolean b => some (.ofKind "Boolean" (some Intrinsic.booleanPrototype.id) (.boolean b))
  | .number x => some (.ofKind "Number" (some Intrinsic.numberPrototype.id) (.number x))
  | .string t => some (stringObject t)
  | _ => none

/-- The object for a value: itself, or a new wrapper; nothing wraps null and undefined. -/
def toObject (v : Value) : Run ObjectId :=
  match v with
  | .object o => return o
  | v =>
    match wrapperOf? v with
    | some x => newObjectOf x
    | none => raise .nullToObject

/-! ## 2. Bound functions -/

/-- What a bound function stands for: its target, `this` and all arguments; the number bounds the
length of the chain. -/
def Heap.unbindUpTo (h : Heap) : Nat → ObjectId → Value → List Value → ObjectId × Value × List Value
  | 0, f, this, args => (f, this, args)
  | n + 1, f, this, args =>
    match (h.object f).kind with
    | .bound b => unbindUpTo h n b.target b.this (b.arguments ++ args)
    | _ => (f, this, args)

/-- What a chain of bound functions stands for. -/
def Heap.unbind (h : Heap) (f : ObjectId) (this : Value) (args : List Value) :
    ObjectId × Value × List Value :=
  h.unbindUpTo (h.size + 1) f this args

/-- The data of a function that is not bound. -/
def Heap.function? (h : Heap) (f : ObjectId) : Option FunctionData :=
  match (h.object f).kind with
  | .function d => some d
  | _ => none

/-- The value is a function made of strict code. -/
def Heap.isStrictFunction (h : Heap) (v : Value) : Bool :=
  match v.object?.bind h.function? with
  | some ⟨.compiled _ _ _, strict, _⟩ => strict
  | _ => false

/-! ## 3. Running code -/

/-- The value of `this` for a function: itself in strict code; else the global object for null and
undefined, and an object for everything else. -/
def thisBinding (strict : Bool) (this : Value) : Run Value := do
  if strict then return this
  else if this.isNullish then return .object globalObject
  else return .object (← toObject this)

/-- A new environment without bindings. -/
def newDeclarative (outer : EnvironmentId) : Run EnvironmentId := do
  let (h, e) := (← getHeap).addEnvironment ⟨.declarative [], some outer⟩
  setHeap h
  return e

/-- Removes the last values from the stack. -/
def freeSlots (n : Nat) : Run Unit := modify fun m => { m with stack := m.stack.free n }

/-- Prepares a call whose arguments are on the stack; they are dropped if that fails. -/
def orDiscard {α : Type} (argc : Nat) (prepare : Run α) : Run α := do
  try prepare
  catch e =>
    freeSlots argc
    throw e

/-- Runs code on a frame over the last `argc` values, inside a given context; afterwards frame and
context are gone. Code that fails without an exception gives undefined. -/
def runCode (code : Code) (context : Context) (argc parameterCount : Nat) (callee : Value) :
    Run Value := do
  let m ← get
  let (stack, frame) := m.stack.pushFrame argc parameterCount callee context.this
  set { m with contexts := context :: m.contexts, stack }
  let succeeded ← (← read).compiled code frame
  let m' ← get
  let (stack, result) := m'.stack.popFrame frame
  set { m' with contexts := m'.contexts.drop (m'.contexts.length - m.contexts.length), stack }
  if succeeded then return result
  else
    match ← takePending with
    | .nothing => return .undefined
    | v => throw (.thrown v)

/-- Runs a function made of code over the last `argc` values, which are consumed in any case. -/
def callCompiled (f : ObjectId) (this : Value) (argc : Nat) (code : Code) (scope : EnvironmentId)
    (parameterCount : Nat) (strict : Bool) : Run Value := do
  let this ← orDiscard argc (thisBinding strict this)
  let e ← newDeclarative scope
  runCode code
    { kind := .function, function := some f, lexical := e, declarations := e, this, strict }
    argc parameterCount (.object f)

/-! ## 4. Calling -/

/-- Calls a function made of code whose arguments are on the stack. -/
def enterCompiled (f : ObjectId) (this : Value) (argc : Nat) (code : Code) (scope : EnvironmentId)
    (parameterCount : Nat) (strict : Bool) : Run Value := do
  orDiscard argc enterCall
  leaving (holding [.object f, this] (callCompiled f this argc code scope parameterCount strict))

/-- A built-in function that uses up its arguments while it runs, and keeps those itself that it still
needs. -/
def Builtin.usesUpArguments : Builtin → Bool
  | .array .concat | .array .push | .array .splice | .array .unshift | .function .call => true
  | _ => false

/-- Calls a built-in function. -/
def callNative (f : ObjectId) (b : Builtin) (this : Value) (args : List Value) : Run Value :=
  let kept := if b.usesUpArguments then [] else args
  nestedCall <| holding (.object f :: this :: kept) do (← read).native b this args

/-- Calls a function object. -/
def call (f : ObjectId) (this : Value) (args : List Value) : Run Value := do
  let h ← getHeap
  let (f, this, args) := h.unbind f this args
  match h.function? f with
  | none => raise .notAFunction
  | some ⟨.native b _, _, _⟩ => callNative f b this args
  | some ⟨.compiled code scope parameterCount, strict, _⟩ =>
    modify fun m => { m with stack := m.stack.pushAll args }
    enterCompiled f this args.length code scope parameterCount strict

/-- Takes the last `argc` values off the stack. -/
def takeArguments (argc : Nat) : Run (List Value) := do
  let m ← get
  freeSlots argc
  return m.stack.values (m.stack.size - argc) argc

/-- Calls a function object whose last `argc` values on the stack are the arguments. -/
def callPushed (f : ObjectId) (this : Value) (argc : Nat) : Run Value := do
  match (← getHeap).function? f with
  | some ⟨.compiled code scope parameterCount, strict, _⟩ =>
    enterCompiled f this argc code scope parameterCount strict
  | _ => call f this (← takeArguments argc)

/-- Calls a value, if it can be called. -/
def callValue (f this : Value) (args : List Value) : Run Value := do
  match f with
  | .object o => if (← getHeap).isCallable f then call o this args else raise .notAFunction
  | _ => raise .notAFunction

end Ecma51
