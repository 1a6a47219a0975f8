import Ecma51.Operation.Access

/-!
# Scopes and references

Binding, reading and assigning names. A name is resolved from the running environment outwards; what
it resolves to, or a property named by a base value, is a reference.

* `Heap.hasBinding`, `Heap.resolve`: where a name is bound.
* `createBinding`, `assignBinding`, `readBinding`, `deleteBinding`: the bindings of one environment.
* `Reference`: `readReference`, `assignReference`.
-/

namespace Ecma51

/-! ## 1. Bindings of one environment -/

/-- The environment binds the name. -/
def Heap.hasBinding (h : Heap) (e : EnvironmentId) (name : Text) : Bool :=
  match (h.environment e).record with
  | .declarative b => b.has name
  | .object o _ => h.hasProperty o (.ofText name)

/-- Adds a binding that can be assigned. -/
def createBinding (e : EnvironmentId) (name : Text) (deletable : Bool) : Run Unit := do
  match ((← getHeap).environment e).record with
  | .declarative _ => modifyHeap (·.modifyBindings e (·.create name ⟨.undefined, true, deletable⟩))
  | .object o _ =>
    let _ ← defineOwn o (.ofText name) (.data .undefined true true deletable) true

/-- Assigns to a name that the environment binds. -/
def assignBinding (e : EnvironmentId) (name : Text) (v : Value) (strict : Bool) : Run Unit := do
  match ((← getHeap).environment e).record with
  | .declarative b =>
    let b ← orRaise (b.assign name v strict)
    modifyHeap (·.setRecord e (.declarative b))
  | .object o _ => putTo o (.ofText name) v strict

/-- The value of a name that the environment binds. -/
def readBinding (e : EnvironmentId) (name : Text) (strict : Bool) : Run Value := do
  let h ← getHeap
  match (h.environment e).record with
  | .declarative b => orRaise (b.read name strict)
  | .object o _ =>
    let k := Key.ofText name
    if h.hasProperty o k then getFrom o k
    else if strict then raise (.notDefined name)
    else return .undefined

/-- Removes a binding; false if it must stay. -/
def deleteBinding (e : EnvironmentId) (name : Text) : Run Bool := do
  match ((← getHeap).environment e).record with
  | .declarative b =>
    let (b, removed) := b.remove name
    modifyHeap (·.setRecord e (.declarative b))
    return removed
  | .object o _ => deleteOwn o (.ofText name) false

/-- The value of `this` for calls of functions that the environment binds. -/
def Heap.implicitThis (h : Heap) (e : EnvironmentId) : Value :=
  match (h.environment e).record with
  | .object o true => .object o
  | _ => .undefined

/-! ## 2. Resolution -/

/-- The nearest environment that binds the name; the number bounds the steps. -/
def Heap.resolveUpTo (h : Heap) (name : Text) : Nat → Option EnvironmentId → Option EnvironmentId
  | 0, _ => none
  | _, none => none
  | n + 1, some e =>
    if h.hasBinding e name then some e else resolveUpTo h name n (h.environment e).outer

/-- The nearest environment, from one outwards, that binds the name. -/
def Heap.resolve (h : Heap) (e : EnvironmentId) (name : Text) : Option EnvironmentId :=
  h.resolveUpTo name (h.environments.size + 1) (some e)

/-- What a reference starts from. -/
inductive ReferenceBase where
  | unresolvable
  | value (v : Value)
  | environment (e : EnvironmentId)

/-- A name together with where it is looked up. -/
structure Reference where
  base : ReferenceBase
  name : Text
  strict : Bool

/-- The reference of a name in the running context. -/
def resolveName (name : Text) : Run Reference := do
  let m ← get
  let base :=
    match m.heap.resolve m.lexical name with
    | some e => .environment e
    | none => .unresolvable
  return ⟨base, name, m.isStrict⟩

/-- The value that a reference refers to. -/
def readReference (r : Reference) : Run Value :=
  match r.base with
  | .unresolvable => raise (.notDefined r.name)
  | .value v => getProperty v (.ofText r.name)
  | .environment e => readBinding e r.name r.strict

/-- Assigns to a reference. A name that is not bound becomes a property of the global object, unless
the code is strict. -/
def assignReference (r : Reference) (v : Value) : Run Unit :=
  match r.base with
  | .unresolvable =>
    if r.strict then raise (.notDefined r.name) else putTo globalObject (.ofText r.name) v false
  | .value base => putProperty base (.ofText r.name) v r.strict
  | .environment e => assignBinding e r.name v r.strict

end Ecma51
