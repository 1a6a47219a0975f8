import Ecma51.Heap.Basic

/-!
# Own properties

Reading, defining and deleting the own properties of an object. Three kinds of objects have rules of
their own: the units of a string object are properties that cannot be changed, an index of an arguments
object may stand for a parameter, and an array keeps its length above every index. An object is closed to
new properties; then none is removed or reconfigured, and in a frozen object no value changed.

* `Heap.getOwn?`: an own property as programs see it.
* `Heap.defineOrdinary`, `Heap.defineArguments`, `Heap.defineElement`, `Heap.setLength`: definitions.
* `Heap.deleteOwn`: deletion.
* `Heap.ownKeys`: the own keys in order.
* `Heap.restrict`, `Heap.isRestricted`: sealing and freezing, and whether it was done.
-/

namespace Ecma51

namespace Heap

/-! ## 1. Reading -/

/-- The current value of a parameter that an index of an arguments object stands for. -/
def mappedValue? (h : Heap) (a : ArgumentsData) (k : Key) : Option Value := do
  let i ← k.index?
  let name ← a.nameOf? i
  let b ← (← h.bindings? a.environment).find? name
  return b.value

/-- A property that shows another value. -/
def showing (p : Property) (v : Option Value) : Property :=
  match p, v with
  | .data _ w e c, some v => .data v w e c
  | p, _ => p

/-- The unit of a string object as a property. -/
def unitProperty? (t : Text) (k : Key) : Option Property := do
  let i ← k.index?
  let u ← t.get? i
  return .data (.string (Text.ofUnit u)) false true false

/-- An own property. -/
def getOwn? (h : Heap) (o : ObjectId) (k : Key) : Option Property :=
  let x := h.object o
  match x.kind with
  | .string t => (x.properties.get? k).or (unitProperty? t k)
  | .arguments a => (x.properties.get? k).map fun p => showing p (h.mappedValue? a k)
  | _ => x.properties.get? k

/-- The own keys: indices ascending, the units of a string object among them, then names in order of
insertion. -/
def ownKeys (h : Heap) (o : ObjectId) : List Key :=
  let x := h.object o
  let stored := x.properties.indexKeys
  let indices :=
    match x.kind with
    | .string t =>
      (List.range t.length).map .ofNat ++ (stored.filter fun i => t.length ≤ i.val).map .index
    | _ => stored.map .index
  indices ++ x.properties.nameKeys.map .name

/-- The own keys that enumeration visits. -/
def ownEnumerableKeys (h : Heap) (o : ObjectId) : List Key :=
  (h.ownKeys o).filter fun k => (h.getOwn? o k).any (·.enumerable)

/-! ## 2. Outcomes -/

/-- What a definition or deletion did: the heap after it and, if it was refused, why. A refusal is an
error only if the caller asks for one. -/
structure Outcome where
  heap : Heap
  refusal : Option Fault

/-- The operation was carried out. -/
def Outcome.done (h : Heap) : Outcome := ⟨h, none⟩

/-- The operation was refused. -/
def Outcome.refused (h : Heap) (f : Fault) : Outcome := ⟨h, some f⟩

/-- The operation was carried out. -/
def Outcome.succeeded (r : Outcome) : Bool := r.refusal.isNone

/-! ## 3. Defining -/

/-- Defines a property of an ordinary object: a new one needs an extensible object, an existing one
must admit the change. -/
def defineOrdinary (h : Heap) (o : ObjectId) (k : Key) (d : Descriptor) : Outcome :=
  match h.getOwn? o k with
  | none =>
    if (h.object o).extensible then .done (h.store o k d.fresh)
    else .refused h (.notExtensible k.toText)
  | some p =>
    if d.holdsOf p then .done h
    else
      match d.redefine? p with
      | some q => .done (h.store o k q)
      | none => .refused h (.cannotRedefine k.toText)

/-- The state of an arguments object; none for other objects. -/
def argumentsOf? (h : Heap) (o : ObjectId) : Option ArgumentsData :=
  match (h.object o).kind with
  | .arguments a => some a
  | _ => none

/-- Ends the sharing between an index of an arguments object and a parameter. -/
def unmapArgument (h : Heap) (o : ObjectId) (k : Key) : Heap :=
  match h.argumentsOf? o, k.index? with
  | some a, some i => h.modify o fun x => { x with kind := .arguments (a.unmap i) }
  | _, _ => h

/-- Passes a new value, if there is one, on to a parameter. -/
def passOn (h : Heap) (e : EnvironmentId) (name : Text) : Option Value → Heap
  | some v => h.modifyBindings e (·.store name v)
  | none => h

/-- Defines a property of an arguments object. A shared index passes a new value on to its parameter,
and stops being shared when it becomes an accessor or is no longer writable. -/
def defineArguments (h : Heap) (o : ObjectId) (k : Key) (d : Descriptor) : Outcome :=
  let shared : Option (EnvironmentId × Text) := do
    let a ← h.argumentsOf? o
    return (a.environment, ← a.nameOf? (← k.index?))
  let r := h.defineOrdinary o k d
  match r.refusal, shared with
  | none, some (e, name) =>
    if d.isAccessor then .done (r.heap.unmapArgument o k)
    else
      let h := r.heap.passOn e name d.value
      .done (if d.writable == some false then h.unmapArgument o k else h)
  | _, _ => r

/-- The length of an array and whether it may be changed. -/
def lengthOf (h : Heap) (o : ObjectId) : Nat × Bool :=
  match h.stored? o .length with
  | some (.data (.number x) w _ _) => (x.truncInt.toNat, w)
  | _ => (0, false)

/-- Defines an element of an array, given the length and its writability as they were found: an index
at or beyond the length needs a writable length and raises it. -/
def defineElement (h : Heap) (o : ObjectId) (i : ArrayIndex) (d : Descriptor) (oldLength : Nat)
    (lengthWritable : Bool) : Outcome :=
  if oldLength ≤ i ∧ !lengthWritable then .refused h (.cannotPut (Text.ofNat i))
  else
    let r := h.defineOrdinary o (.index i) d
    if !r.succeeded then .refused r.heap (.cannotRedefine (Text.ofNat i))
    else if oldLength ≤ i then
      .done (r.heap.defineOrdinary o .length (.ofValue (.ofNat (i + 1)))).heap
    else r

/-- Defines a property by the rules of the object's kind, where no conversion is needed: the length of
an array is described without a value. -/
def define (h : Heap) (o : ObjectId) (k : Key) (d : Descriptor) : Outcome :=
  match (h.object o).kind, k with
  | .array, .index i =>
    let (oldLength, lengthWritable) := h.lengthOf o
    h.defineElement o i d oldLength lengthWritable
  | .arguments _, k => h.defineArguments o k d
  | _, k => h.defineOrdinary o k d

/-- Deletes an own property, if it is configurable; a shared index of an arguments object stops being
shared. -/
def deleteOwn (h : Heap) (o : ObjectId) (k : Key) : Outcome :=
  match h.getOwn? o k with
  | none => .done h
  | some p =>
    if p.configurable then .done ((h.modify o (·.withoutProperty k)).unmapArgument o k)
    else .refused h (.cannotDelete k.toText)

/-- Deletes the given elements one after the other; stops at the first that stays, and names it. -/
def deleteElements (h : Heap) (o : ObjectId) : List ArrayIndex → Heap × Option ArrayIndex
  | [] => (h, none)
  | i :: rest =>
    let r := h.deleteOwn o (.index i)
    if r.succeeded then deleteElements r.heap o rest else (r.heap, some i)

/-- Deletes the elements of an array from a new length on, beginning at the end, after the length was
set as described. An element that stays bounds the length from below. If the array `freezes`, its length
cannot be changed afterwards. -/
def cutElements (h : Heap) (o : ObjectId) (d : Descriptor) (newLength : Nat) (freezes : Bool) :
    Outcome :=
  let doomed := (h.object o).properties.indexKeys.filter fun i => newLength ≤ i.val
  match h.deleteElements o doomed.reverse with
  | (h, some i) =>
    let d := { d with
      value := some (.ofNat (i + 1))
      writable := if freezes then some false else d.writable }
    .refused (h.defineOrdinary o .length d).heap (.cannotDelete (Text.ofNat i))
  | (h, none) =>
    .done (if freezes then (h.defineOrdinary o .length { writable := some false }).heap else h)

/-- Sets the length of an array, given the length and its writability as they were found. A smaller
length deletes elements; meanwhile the length remains writable. -/
def setLength (h : Heap) (o : ObjectId) (d : Descriptor) (newLength oldLength : Nat)
    (lengthWritable : Bool) : Outcome :=
  let d := { d with value := some (.ofNat newLength) }
  if oldLength ≤ newLength then h.defineOrdinary o .length d
  else if !lengthWritable then .refused h (.cannotRedefine Key.length.toText)
  else
    let freezes := d.writable == some false
    let d := { d with writable := if freezes then some true else d.writable }
    let r := h.defineOrdinary o .length d
    if r.succeeded then r.heap.cutElements o d newLength freezes else r

end Heap

/-! ## 4. Sealed and frozen objects -/

namespace Heap

/-- What sealing or freezing asks of a property. -/
def restriction (freeze : Bool) (p : Property) : Descriptor :=
  { configurable := some false
    writable := if freeze && p.isData then some false else none }

/-- Restricts the properties with the given keys, up to the first that refuses. -/
def restrictKeys (h : Heap) (o : ObjectId) (freeze : Bool) : List Key → Outcome
  | [] => .done h
  | k :: rest =>
    match h.getOwn? o k with
    | none => restrictKeys h o freeze rest
    | some p =>
      let r := h.define o k (restriction freeze p)
      if r.succeeded then restrictKeys r.heap o freeze rest else r

/-- The object takes no new properties. -/
def preventExtensions (h : Heap) (o : ObjectId) : Heap :=
  h.modify o fun x => { x with extensible := false }

/-- Seals an object, or freezes it. -/
def restrict (h : Heap) (o : ObjectId) (freeze : Bool) : Outcome :=
  let r := h.restrictKeys o freeze (h.ownKeys o)
  if r.succeeded then .done (r.heap.preventExtensions o) else r

/-- A property that cannot be removed and, if `frozen`, whose value cannot be changed. -/
def isFixed (frozen : Bool) : Property → Bool
  | .data _ w _ c => !c && !(frozen && w)
  | .accessor _ _ _ c => !c

/-- The object is sealed or, if `frozen`, frozen. -/
def isRestricted (h : Heap) (o : ObjectId) (frozen : Bool) : Bool :=
  !(h.object o).extensible && (h.ownKeys o).all fun k => (h.getOwn? o k).all (isFixed frozen)

end Heap

end Ecma51
