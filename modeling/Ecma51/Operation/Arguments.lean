import Ecma51.Operation.Construct
import Ecma51.Operation.Scope

/-!
# Entering a function

What binds the parameters, variables and functions of an activation, and its arguments object.

* `declareParameter`, `declareVariable`, `declareFunction`: bindings in the variable environment.
* `bindArguments`: the binding of `arguments`.
* `linkParameter`: an index of the arguments object stands for a parameter from now on.
-/

namespace Ecma51

/-! ## 1. Declarations -/

/-- Binds a parameter. -/
def declareParameter (strict : Bool) (name : Text) (v : Value) : Run Unit := do
  let m ← get
  let e := m.declarations
  unless m.heap.hasBinding e name do createBinding e name false
  assignBinding e name v strict

/-- The bindings of evaluated code can be deleted. -/
def Machine.runsEvaluatedCode (m : Machine) : Bool := m.context?.any (·.kind = .eval)

/-- Declares a variable, unless its name is bound already. -/
def declareVariable (name : Text) : Run Unit := do
  let m ← get
  let e := m.declarations
  unless m.heap.hasBinding e name do
    createBinding e name m.runsEvaluatedCode
    assignBinding e name .undefined m.isStrict

/-- Prepares a property of the global object for a function of its name: a configurable one becomes an
ordinary value, another must be one that can be assigned and enumerated. -/
def prepareGlobal (k : Key) (deletable : Bool) : Run Unit := do
  match (← getHeap).getProperty? globalObject k with
  | none => pure ()
  | some p =>
    if p.configurable then
      let _ ← defineOwn globalObject k (.data .undefined true true deletable) true
    else if !(p.writable && p.enumerable) then raise (.globalDeclaration k.toText)

/-- Declares a function. -/
def declareFunction (name : Text) (f : Value) : Run Unit := do
  let m ← get
  let e := m.declarations
  if !m.heap.hasBinding e name then createBinding e name m.runsEvaluatedCode
  else if e = globalEnvironment then prepareGlobal (.ofText name) m.runsEvaluatedCode
  assignBinding e name f m.isStrict

/-! ## 2. Arguments objects -/

/-- An arguments object. Strict code must not ask it for its function. -/
def argumentsObject (callee : Value) (args : List Value) (e : EnvironmentId) (strict : Bool) :
    Object :=
  let x := (Object.ofKind "Arguments" (some Intrinsic.objectPrototype.id)
    (.arguments ⟨e, []⟩)).withProperty .length (.hidden (.ofNat args.length))
  let x := args.zipIdx.foldl (fun x (v, i) => x.withProperty (.ofNat i) (.plain v)) x
  if strict then poisoned ["caller", "callee"] x
  else x.withProperty (.ofString "callee") (.hidden callee)

/-- The name of the arguments object. -/
def argumentsName : Text := "arguments"

/-- Binds the arguments object of a frame; `nothing` if its name is bound already. -/
def bindArguments (frame : Frame) : Run Value := do
  let m ← get
  let e := m.declarations
  if m.heap.hasBinding e argumentsName then return .nothing
  let callee := m.stack.get frame.calleeSlot
  let args := m.stack.values frame.fp frame.argc
  let strict := m.isStrict
  let o ← newObjectOf (argumentsObject callee args e strict)
  modifyHeap fun h => h.modifyBindings e fun b =>
    if strict then (b.createImmutable argumentsName).initialise argumentsName (.object o)
    else b.put argumentsName ⟨.object o, true, false⟩
  return .object o

/-- An argument that was passed stands for the parameter of its place from now on. -/
def linkParameter (arguments : Value) (i : Nat) (name : Text) : Run Unit := do
  let h ← getHeap
  match arguments with
  | .object o =>
    match h.argumentsOf? o with
    | some a =>
      if (h.stored? o (.ofNat i)).isSome then
        setHeap (h.modify o fun x => { x with kind := .arguments (a.link i name) })
    | none => pure ()
  | _ => pure ()

end Ecma51
