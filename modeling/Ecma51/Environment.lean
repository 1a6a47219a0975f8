import Ecma51.Fault

/-!
# Environments

Names are bound in environments, which are nested: a declarative environment has bindings of its own,
an object environment has the properties of an object.

* `Bindings`: the names of a declarative environment, each with a value and two flags.
* `Bindings.read`, `Bindings.assign`, `Bindings.remove`: with the failures that a program sees.
* `Environment`: a record and the environment around it.
-/

namespace Ecma51

/-- What a name is bound to. A binding that is not mutable is uninitialised while its value is
`nothing`. -/
structure Binding where
  value : Value
  mutable : Bool
  deletable : Bool
  deriving DecidableEq

/-- The bindings of a declarative environment. -/
abbrev Bindings := List (Text × Binding)

namespace Bindings

/-- The binding of a name. -/
def find? (b : Bindings) (name : Text) : Option Binding := b.lookup name

/-- The name is bound. -/
def has (b : Bindings) (name : Text) : Bool := (b.find? name).isSome

/-- The bindings with one replaced or added. -/
def put : Bindings → Text → Binding → Bindings
  | [], name, x => [(name, x)]
  | (n, y) :: rest, name, x => if n = name then (n, x) :: rest else (n, y) :: put rest name x

/-- The bindings with the value of an existing one replaced. -/
def store (b : Bindings) (name : Text) (v : Value) : Bindings :=
  match b.find? name with
  | some x => b.put name { x with value := v }
  | none => b

/-- Adds a binding unless the name is bound already. -/
def create (b : Bindings) (name : Text) (x : Binding) : Bindings :=
  if b.has name then b else b.put name x

/-- Adds an uninitialised binding that can be initialised once. -/
def createImmutable (b : Bindings) (name : Text) : Bindings := b.create name ⟨.nothing, false, false⟩

/-- Gives an uninitialised binding its value. -/
def initialise (b : Bindings) (name : Text) (v : Value) : Bindings :=
  match b.find? name with
  | some x => if x.value.isNothing then b.put name { x with value := v } else b
  | none => b

/-- Assigns to a name. Assigning to a binding that is not mutable fails in strict code and does
nothing otherwise. -/
def assign (b : Bindings) (name : Text) (v : Value) (strict : Bool) : Except Fault Bindings :=
  match b.find? name with
  | none => .error (.notDefined name)
  | some x =>
    if x.mutable then .ok (b.put name { x with value := v })
    else if strict then .error (.immutableBinding name)
    else .ok b

/-- The value of a name. An uninitialised binding fails in strict code and is undefined
otherwise. -/
def read (b : Bindings) (name : Text) (strict : Bool) : Except Fault Value :=
  match b.find? name with
  | none => .error (.notDefined name)
  | some x =>
    if x.value.isNothing then if strict then .error (.notDefined name) else .ok .undefined
    else .ok x.value

/-- Removes a binding; false if it is there and must stay. -/
def remove (b : Bindings) (name : Text) : Bindings × Bool :=
  match b.find? name with
  | none => (b, true)
  | some x => if x.deletable then (b.filter fun (n, _) => n != name, true) else (b, false)

end Bindings

/-- What an environment binds. -/
inductive Record where
  | declarative (bindings : Bindings)
  /-- The properties of an object, which is also `this` of calls by name if `providesThis`. -/
  | object (subject : ObjectId) (providesThis : Bool)

/-- A record and the environment around it. -/
structure Environment where
  record : Record
  outer : Option EnvironmentId

instance : Inhabited Environment := ⟨⟨.declarative [], none⟩⟩

/-- The values and environments that an environment refers to. -/
def Environment.references (e : Environment) : List Value × List EnvironmentId :=
  let values :=
    match e.record with
    | .declarative bs => bs.map (·.2.value)
    | .object o _ => [.object o]
  (values, e.outer.toList)

end Ecma51
