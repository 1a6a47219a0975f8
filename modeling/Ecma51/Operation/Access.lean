import Ecma51.Number.Literal
import Ecma51.Operation.Call

/-!
# Property access and conversion

Reading and writing properties along prototype chains, running accessors, and the conversions between
values, which may themselves read properties and call functions.

* `getFrom`, `getProperty`: reading; `putTo`, `putProperty`: writing.
* `toPrimitive`, `toNumber`, `toText`, `toKey`: conversions.
* `defineOwn`, `deleteOwn`: own properties, with or without an error when refused.
-/

namespace Ecma51

/-! ## 1. Reading -/

/-- The value of a property for a given receiver: a getter runs with the receiver as `this`. -/
def getFor (o : ObjectId) (k : Key) (receiver : Value) : Run Value := do
  match (← getHeap).getProperty? o k with
  | none => return .undefined
  | some (.data v _ _ _) => return v
  | some (.accessor g s _ _) =>
    if g.isUndefined then return .undefined else holding [g, s] (callValue g receiver [])

/-- Functions and arguments objects do not show a strict function as their caller. -/
def hidesCaller (x : Object) : Bool :=
  match x.kind with
  | .function _ | .bound _ | .arguments _ => true
  | _ => false

/-- The value of a property of an object. -/
def getFrom (o : ObjectId) (k : Key) : Run Value := do
  let v ← getFor o k (.object o)
  let h ← getHeap
  if hidesCaller (h.object o) && k.isNamed "caller" && h.isStrictFunction v then
    raise .strictCaller
  return v

/-- The value of a property of an object with a known name. -/
def getNamed (o : ObjectId) (name : String) : Run Value := getFrom o (.ofString name)

/-- The value of a property of any value; a primitive one is wrapped for the lookup, but remains the
receiver. -/
def getProperty (v : Value) (k : Key) : Run Value := do
  match v with
  | .object o => getFrom o k
  | v =>
    let o ← toObject v
    holding [.object o] (getFor o k v)

/-! ## 2. Conversions -/

/-- The methods that a conversion to a primitive value tries, in order. -/
def conversionMethods (x : Object) (hint : Hint) : List String :=
  let prefersText :=
    match hint, x.kind with
    | .string, _ => true
    | .default, .date _ => true
    | _, _ => false
  if prefersText then ["toString", "valueOf"] else ["valueOf", "toString"]

/-- Calls the methods in turn until one gives a primitive value. -/
def firstPrimitive (o : ObjectId) : List String → Run Value
  | [] => raise .noDefaultValue
  | name :: rest => do
    let f ← getNamed o name
    if (← getHeap).isCallable f then
      let v ← callValue f (.object o) []
      if v.isObject then firstPrimitive o rest else return v
    else firstPrimitive o rest

/-- Conversion to a primitive value. -/
def toPrimitive (v : Value) (hint : Hint) : Run Value := do
  match v with
  | .object o =>
    holding [v] (firstPrimitive o (conversionMethods ((← getHeap).object o) hint))
  | v => return v

/-- The number of a primitive value. -/
def primitiveNumber : Value → Double
  | .null => .zero
  | .boolean b => if b then 1 else .zero
  | .number x => x
  | .string t => .ofText t
  | _ => .nan

/-- Conversion to a number. -/
def toNumber (v : Value) : Run Double := do
  match v with
  | .object _ => return primitiveNumber (← toPrimitive v .number)
  | v => return primitiveNumber v

/-- Conversion to a whole number. -/
def toInteger (v : Value) : Run Double := return (← toNumber v).toInteger

/-- Conversion to an unsigned 32-bit integer. -/
def toUint32 (v : Value) : Run Nat := return (← toNumber v).toUint32

/-- Conversion to a signed 32-bit integer. -/
def toInt32 (v : Value) : Run Int := return (← toNumber v).toInt32

/-- Conversion to an unsigned 16-bit integer. -/
def toUint16 (v : Value) : Run Nat := return (← toNumber v).toUint16

/-- The text of a primitive value. -/
def primitiveText : Value → Text
  | .nothing | .undefined => "undefined"
  | .null => "null"
  | .boolean b => if b then "true" else "false"
  | .number x => x.toText
  | .string t => t
  | .object _ => "[object Object]"

/-- Conversion to a text. -/
def toText (v : Value) : Run Text := do
  match v with
  | .object _ => return primitiveText (← toPrimitive v .string)
  | v => return primitiveText v

/-- Conversion to a property key. -/
def toKey (v : Value) : Run Key := do
  match v with
  | .number x => return .ofDouble x
  | v => return .ofText (← toText v)

/-! ## 3. Defining and deleting -/

/-- Whether an operation was carried out; a refusal is an error if `throws`. -/
def settle (throws : Bool) (r : Heap.Outcome) : Run Bool := do
  setHeap r.heap
  match r.refusal with
  | none => return true
  | some f => if throws then raise f else return false

/-- The length that a value gives, if it gives one. The value is converted twice. -/
def toLength (v : Value) : Run Nat := do
  let n ← toUint32 v
  let x ← toNumber v
  if (Double.ofNat n).eq x then return n else raise (.invalidArrayLength x.toPlain)

/-- Sets the length of an array from any value, which is converted first. The length and its
writability are those from before the conversion. -/
def defineLength (o : ObjectId) (d : Descriptor) (v : Value) (throws : Bool) : Run Bool := do
  let (oldLength, lengthWritable) := (← getHeap).lengthOf o
  let newLength ← toLength v
  settle throws ((← getHeap).setLength o d newLength oldLength lengthWritable)

/-- The value that a description gives to the length of an array. -/
def lengthValue? (x : Object) (k : Key) (d : Descriptor) : Option Value :=
  if x.isArray && k = .length then d.value else none

/-- Defines an own property by the rules of the object's kind. -/
def defineOwn (o : ObjectId) (k : Key) (d : Descriptor) (throws : Bool) : Run Bool := do
  let h ← getHeap
  match lengthValue? (h.object o) k d with
  | some v => holding [.object o, v] (defineLength o d v throws)
  | none => settle throws (h.define o k d)

/-- Defines a property as assignment to a new name does; a refusal is no error. -/
def createData (o : ObjectId) (k : Key) (v : Value) : Run Bool :=
  defineOwn o k (.data v true true true) false

/-- Deletes an own property. -/
def deleteOwn (o : ObjectId) (k : Key) (throws : Bool) : Run Bool := do
  settle throws ((← getHeap).deleteOwn o k)

/-! ## 4. Writing -/

/-- Why an assignment cannot go ahead. -/
def putRefusal (h : Heap) (o : ObjectId) (k : Key) : Fault :=
  match h.getProperty? o k with
  | some (.accessor _ _ _ _) => .accessorWithoutSetter k.toText
  | _ => .cannotPut k.toText

/-- An operation that is refused: an error if `throws`, otherwise nothing. -/
def refuse (throws : Bool) (f : Fault) : Run Unit := if throws then raise f else pure ()

/-- Assigns a property for a given receiver: an own value is replaced, a setter runs with the receiver
as `this`, and otherwise a new property is made. A primitive receiver gets none. -/
def putFor (o : ObjectId) (k : Key) (v receiver : Value) (throws : Bool) : Run Unit := do
  let h ← getHeap
  if !h.canPut o k then refuse throws (putRefusal h o k)
  else
    let isSelf := receiver == .object o
    match h.getOwn? o k with
    | some (.data _ _ _ _) =>
      if isSelf then
        let _ ← defineOwn o k (.ofValue v) throws
      else refuse throws (.cannotPut k.toText)
    | _ =>
      match h.getProperty? o k with
      | some (.accessor g s _ _) =>
        let _ ← holding [g, s] (callValue s receiver [v])
      | _ =>
        if isSelf then
          let _ ← defineOwn o k (.data v true true true) throws
        else refuse throws (.cannotPut k.toText)

/-- Assigns a property of an object. -/
def putTo (o : ObjectId) (k : Key) (v : Value) (throws : Bool) : Run Unit :=
  putFor o k v (.object o) throws

/-- Assigns a property of an object with a known name; a refusal is an error. -/
def putNamed (o : ObjectId) (name : String) (v : Value) : Run Unit := putTo o (.ofString name) v true

/-- Assigns a property of any value. -/
def putProperty (target : Value) (k : Key) (v : Value) (throws : Bool) : Run Unit := do
  match target with
  | .object o => putTo o k v throws
  | target =>
    let o ← toObject target
    holding [.object o] (putFor o k v target throws)

end Ecma51
