import Ecma51.Builtin
import Ecma51.Code.Tree
import Ecma51.Pattern.Program
import Ecma51.Property.Table

/-!
# Objects

An object has a class, a prototype, own properties, and the internal state of its kind. Only a few
operations depend on the kind: functions can be called, arrays keep their length, arguments objects
share values with parameters, and strings show their units as properties.

* `FunctionData`: built-in functions and functions made of code.
* `Kind`: the internal state.
* `Object`: all of it together.
-/

namespace Ecma51

/-! ## 1. Internal state -/

/-- What a function does when called. -/
inductive FunctionCode where
  /-- A built-in function, and the one that serves `new`, if any. -/
  | native (call : Builtin) (construct : Option Builtin)
  /-- Code that closes over an environment. -/
  | compiled (code : Code) (scope : EnvironmentId) (parameterCount : Nat)

/-- A function. -/
structure FunctionData where
  code : FunctionCode
  strict : Bool
  name : Text

/-- A function with a fixed `this` and first arguments. -/
structure BoundFunction where
  target : ObjectId
  this : Value
  arguments : List Value

/-- The state of an arguments object: the environment of the activation, and the indices that still
stand for one of its parameters. -/
structure ArgumentsData where
  environment : EnvironmentId
  mapped : List (Nat × Text)

/-- The internal state of an object. -/
inductive Kind where
  | ordinary
  | array
  | function (f : FunctionData)
  | bound (b : BoundFunction)
  | arguments (a : ArgumentsData)
  | string (t : Text)
  | number (x : Double)
  | boolean (b : Bool)
  | date (t : Double)
  | regExp (r : RegExp)
  | error

instance : Inhabited Kind := ⟨.ordinary⟩

/-- The parameter for which an index still stands. -/
def ArgumentsData.nameOf? (a : ArgumentsData) (i : Nat) : Option Text := a.mapped.lookup i

/-- Ends the sharing of an index. -/
def ArgumentsData.unmap (a : ArgumentsData) (i : Nat) : ArgumentsData :=
  { a with mapped := a.mapped.filter fun (j, _) => j != i }

/-- Lets an index stand for a parameter. -/
def ArgumentsData.link (a : ArgumentsData) (i : Nat) (name : Text) : ArgumentsData :=
  { a with mapped := (i, name) :: (a.unmap i).mapped }

/-! ## 2. Objects -/

/-- An object. -/
structure Object where
  className : String
  prototype : Option ObjectId
  extensible : Bool
  properties : PropertyTable
  kind : Kind

namespace Object

/-- An extensible object without properties. -/
def ofKind (className : String) (prototype : Option ObjectId) (kind : Kind) : Object :=
  { className, prototype, extensible := true, properties := .empty, kind }

/-- An extensible ordinary object without properties. -/
def ordinary (prototype : Option ObjectId) : Object := ofKind "Object" prototype .ordinary

instance : Inhabited Object := ⟨ordinary none⟩

/-- The object can be called. -/
def isCallable (o : Object) : Bool :=
  match o.kind with
  | .function _ | .bound _ => true
  | _ => false

/-- The object is an array. -/
def isArray (o : Object) : Bool :=
  match o.kind with
  | .array => true
  | _ => false

/-- The object with a property added or replaced, whatever its kind says. -/
def withProperty (o : Object) (k : Key) (p : Property) : Object :=
  { o with properties := o.properties.insert k p }

/-- The object without a property, whatever its kind says. -/
def withoutProperty (o : Object) (k : Key) : Object :=
  { o with properties := o.properties.erase k }

/-- The objects and environments that an object refers to through its kind. -/
def kindValues (o : Object) : List Value × List EnvironmentId :=
  match o.kind with
  | .function ⟨.compiled _ scope _, _, _⟩ => ([], [scope])
  | .bound b => (.object b.target :: b.this :: b.arguments, [])
  | .arguments a => ([], [a.environment])
  | _ => ([], [])

end Object

end Ecma51
