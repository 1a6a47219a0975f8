import Ecma51.Operation.Access

/-!
# Descriptors as objects

Programs describe properties by objects with the fields `value`, `writable`, `get`, `set`,
`enumerable` and `configurable`, each of which may be absent.

* `toDescriptor`: what an object describes.
* `describe`: the object that describes a property.
-/

namespace Ecma51

/-- The value of a field, if the object or a prototype has it. -/
def field? (o : ObjectId) (name : String) : Run (Option Value) := do
  if (← getHeap).hasProperty o (.ofString name) then return some (← getNamed o name) else return none

/-- The value of a field, kept while the other fields are read. -/
def keptField? (o : ObjectId) (name : String) : Run (Option Value) := do
  let v ← field? o name
  v.forM hold
  return v

/-- A field that must be callable or undefined. -/
def accessorField? (o : ObjectId) (name : String) (refusal : Fault) : Run (Option Value) := do
  match ← keptField? o name with
  | none => return none
  | some f =>
    if f.isUndefined || (← getHeap).isCallable f then return some f else raise refusal

/-- The description that an object gives. -/
def toDescriptor (v : Value) : Run Descriptor := do
  match v with
  | .object o =>
    let enumerable := (← field? o "enumerable").map Value.truth
    let configurable := (← field? o "configurable").map Value.truth
    let value ← keptField? o "value"
    let writable := (← field? o "writable").map Value.truth
    let get ← accessorField? o "get" .getterNotCallable
    let set ← accessorField? o "set" .setterNotCallable
    let d : Descriptor := { value, writable, get, set, enumerable, configurable }
    if d.isAccessor && d.isData then raise .mixedDescriptor
    return d
  | _ => raise .notAnObject

/-- The fields that describe a property. -/
def descriptorFields : Property → List (String × Value)
  | .data v w e c =>
    [("value", v), ("writable", .boolean w), ("enumerable", .boolean e), ("configurable", .boolean c)]
  | .accessor g s e c =>
    [("get", g), ("set", s), ("enumerable", .boolean e), ("configurable", .boolean c)]

/-- The object that describes a property. -/
def descriptorObject (p : Property) : Object :=
  (descriptorFields p).foldl (fun x (n, v) => x.withProperty (.ofString n) (.plain v))
    (.ordinary (some Intrinsic.objectPrototype.id))

/-- A new object that describes a property; undefined for none. -/
def describe (p : Option Property) : Run Value := do
  match p with
  | none => return .undefined
  | some p => return .object (← newObjectOf (descriptorObject p))

end Ecma51
