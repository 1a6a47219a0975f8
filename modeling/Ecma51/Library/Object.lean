import Ecma51.Heap.Own
import Ecma51.Operation.Describe
import Ecma51.Operation.Method

/-!
# Objects

The functions of the constructor `Object`, which look at properties and change them, and the methods
that every object inherits.

* `defineAll`: all descriptions are read before the first is applied.
* `objectFunction`: the functions.
-/

namespace Ecma51

/-- Seals an object, or freezes it; a refusal is an error. -/
def restrictOwn (o : ObjectId) (freeze : Bool) : Run Bool := do
  settle true ((← getHeap).restrict o freeze)

/-- An object takes no new properties from now on. -/
def closeOwn (o : ObjectId) : Run Unit := modifyHeap (·.preventExtensions o)

/-- The object that an argument is. -/
def requireObject (v : Value) : Run ObjectId :=
  match v with
  | .object o => return o
  | _ => raise .notAnObject

/-- An array of the texts of keys. -/
def keysArray (keys : List Key) : Run Value :=
  return .object (← newArray (keys.map fun k => .string k.toText))

/-- The descriptions that properties of an object hold, in order. -/
def readDescriptors (o : ObjectId) : List Key → Run (List (Key × Descriptor))
  | [] => return []
  | k :: rest => do
    let v ← getFrom o k
    let d ← holding [v] (toDescriptor v)
    d.values.forM hold
    return (k, d) :: (← readDescriptors o rest)

/-- Defines properties in order. -/
def defineEach (o : ObjectId) : List (Key × Descriptor) → Run Unit
  | [] => return ()
  | (k, d) :: rest => do
    let _ ← defineOwn o k d true
    defineEach o rest

/-- Defines the properties that the enumerable properties of an object describe. -/
def defineAll (o : ObjectId) (descriptions : Value) : Run Unit := do
  let ds ← toObject descriptions
  hold (.object ds)
  let all ← readDescriptors ds ((← getHeap).ownEnumerableKeys ds)
  defineEach o all

/-- A new object with a given prototype and described properties. -/
def createObject (prototype descriptions : Value) : Run Value := do
  let p ← match prototype with
    | .object p => pure (some p)
    | .null => pure none
    | _ => raise .notAnObject
  let o ← newObjectWith p
  hold (.object o)
  unless descriptions.isUndefined do defineAll o descriptions
  return .object o

/-- The class of a value as `toString` shows it. -/
def classOf (v : Value) : Run String := do
  match v with
  | .undefined => return "Undefined"
  | .null => return "Null"
  | v =>
    let o ← toObject v
    return ((← getHeap).object o).className

/-- The functions of `Object` and of its prototype. -/
def objectFunction (f : ObjectFunction) (this : Value) (args : List Value) : Run Value := do
  let first := argumentAt args 0
  let second := argumentAt args 1
  match f with
  | .construct =>
    if first.isNullish then return .object (← newObject) else return .object (← toObject first)
  | .getPrototypeOf =>
    let o ← requireObject first
    return .ofObject? ((← getHeap).object o).prototype
  | .getOwnPropertyDescriptor =>
    let o ← requireObject first
    let k ← toKey second
    describe ((← getHeap).getOwn? o k)
  | .getOwnPropertyNames =>
    let o ← requireObject first
    keysArray ((← getHeap).ownKeys o)
  | .create => createObject first second
  | .defineProperty =>
    let o ← requireObject first
    let k ← toKey second
    let d ← toDescriptor (argumentAt args 2)
    let _ ← defineOwn o k d true
    return first
  | .defineProperties =>
    let o ← requireObject first
    defineAll o second
    return first
  | .seal =>
    let o ← requireObject first
    let _ ← restrictOwn o false
    return first
  | .freeze =>
    let o ← requireObject first
    let _ ← restrictOwn o true
    return first
  | .preventExtensions =>
    let o ← requireObject first
    closeOwn o
    return first
  | .isSealed =>
    let o ← requireObject first
    return .boolean ((← getHeap).isRestricted o false)
  | .isFrozen =>
    let o ← requireObject first
    return .boolean ((← getHeap).isRestricted o true)
  | .isExtensible =>
    let o ← requireObject first
    return .boolean ((← getHeap).object o).extensible
  | .keys =>
    let o ← requireObject first
    keysArray ((← getHeap).ownEnumerableKeys o)
  | .toString => return .ofString ("[object " ++ (← classOf this) ++ "]")
  | .toLocaleString =>
    let o ← toObject this
    invoke (.object o) "toString" []
  | .valueOf => return .object (← toObject this)
  | .hasOwnProperty =>
    let k ← toKey first
    let o ← toObject this
    return .boolean ((← getHeap).getOwn? o k).isSome
  | .isPrototypeOf =>
    match first with
    | .object v =>
      let o ← toObject this
      return .boolean ((← getHeap).isPrototypeOf o v)
    | _ => return .boolean false
  | .propertyIsEnumerable =>
    let k ← toKey first
    let o ← toObject this
    return .boolean (((← getHeap).getOwn? o k).any (·.enumerable))

end Ecma51
