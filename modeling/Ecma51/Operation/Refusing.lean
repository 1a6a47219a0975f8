import Ecma51.Operation.Access

/-!
# Refusals where they are decided

Definitions, deletions and assignments that are told whether a refusal is an error. Every place that refuses ends the
operation there: with an error, or with the answer that it was refused. An operation that runs another one hands this
on to it, or asks it for an answer and decides itself.

The heap's own operations come to an outcome instead, and it is left to the end whether a refusal among the outcomes is
an error.

* `Refusing.reject`: one refusal.
* `Refusing.defineOrdinary`, `Refusing.defineArguments`, `Refusing.defineElement`, `Refusing.setLength`: definitions by
  the kind of the object.
* `Refusing.defineOwn`, `Refusing.deleteOwn`, `Refusing.putFor`: definition, deletion and assignment.
-/

namespace Ecma51

namespace Refusing

/-- A refusal: an error if `throws`, otherwise an answer. -/
def reject (throws : Bool) (f : Fault) : Run Bool := if throws then raise f else return false

/-- Stores a property. -/
def write (o : ObjectId) (k : Key) (p : Property) : Run Bool := do
  setHeap ((← getHeap).store o k p)
  return true

/-! ## 1. Ordinary objects -/

/-- Changes the content of a property to one of the same kind. What is not configurable keeps a value that is not
writable, and its accessors. -/
def changeContent (o : ObjectId) (k : Key) (d : Descriptor) (p : Property) (throws : Bool) : Run Bool :=
  match p with
  | .data v w _ c =>
    if !c && !w then
      if d.writable == some true then reject throws (.cannotRedefine k.toText)
      else if !Descriptor.agrees d.value v then reject throws (.cannotRedefine k.toText)
      else write o k (d.update p)
    else write o k (d.update p)
  | .accessor g s _ c =>
    if !c && (!Descriptor.agrees d.set s || !Descriptor.agrees d.get g) then
      reject throws (.cannotRedefine k.toText)
    else write o k (d.update p)

/-- Changes an existing property, of which the attributes, the kind and the content are looked at in turn. -/
def change (o : ObjectId) (k : Key) (d : Descriptor) (p : Property) (throws : Bool) : Run Bool :=
  if !p.configurable && d.configurable == some true then reject throws (.cannotRedefine k.toText)
  else if !p.configurable && !Descriptor.agreesFlag d.enumerable p.enumerable then
    reject throws (.cannotRedefine k.toText)
  else if d.isGeneric then write o k (d.update p)
  else if p.isData != d.isData then
    if !p.configurable then reject throws (.cannotRedefine k.toText)
    else write o k (d.update (Descriptor.switched p))
  else changeContent o k d p throws

/-- Defines a property of an ordinary object. -/
def defineOrdinary (o : ObjectId) (k : Key) (d : Descriptor) (throws : Bool) : Run Bool := do
  let h ← getHeap
  match h.getOwn? o k with
  | none =>
    if !(h.object o).extensible then reject throws (.notExtensible k.toText)
    else write o k d.fresh
  | some p => if d.holdsOf p then return true else change o k d p throws

/-- Deletes an own property. -/
def deleteOwn (o : ObjectId) (k : Key) (throws : Bool) : Run Bool := do
  let h ← getHeap
  match h.getOwn? o k with
  | none => return true
  | some p =>
    if !p.configurable then reject throws (.cannotDelete k.toText)
    else
      setHeap ((h.modify o (·.withoutProperty k)).unmapArgument o k)
      return true

/-! ## 2. Arguments objects -/

/-- The parameter that a key of an arguments object stands for. -/
def sharedParameter? (h : Heap) (o : ObjectId) (k : Key) : Option (EnvironmentId × Text) := do
  let a ← h.argumentsOf? o
  return (a.environment, ← a.nameOf? (← k.index?))

/-- Passes what a description says of a shared index on to its parameter, or ends the sharing. -/
def pass (o : ObjectId) (k : Key) (d : Descriptor) : Option (EnvironmentId × Text) → Run Unit
  | none => return
  | some (e, name) => do
    if d.isAccessor then setHeap ((← getHeap).unmapArgument o k)
    else
      setHeap ((← getHeap).passOn e name d.value)
      if d.writable == some false then setHeap ((← getHeap).unmapArgument o k)

/-- Defines a property of an arguments object. -/
def defineArguments (o : ObjectId) (k : Key) (d : Descriptor) (throws : Bool) : Run Bool := do
  let shared := sharedParameter? (← getHeap) o k
  if ← defineOrdinary o k d throws then
    pass o k d shared
    return true
  else return false

/-! ## 3. Arrays -/

/-- Defines an element of an array, given the length and its writability as they were found. The element and the length
are asked for answers. -/
def defineElement (o : ObjectId) (i : ArrayIndex) (d : Descriptor) (oldLength : Nat) (lengthWritable throws : Bool) :
    Run Bool := do
  if oldLength ≤ i ∧ !lengthWritable then reject throws (.cannotPut (Text.ofNat i))
  else if ← defineOrdinary o (.index i) d false then
    if oldLength ≤ i then
      let _ ← defineOrdinary o .length (.ofValue (.ofNat (i + 1))) false
    return true
  else reject throws (.cannotRedefine (Text.ofNat i))

/-- Deletes elements one after the other, and freezes the length afterwards if it is to be. An element that stays bounds
the length, and that is a refusal. -/
def cutElements (o : ObjectId) (d : Descriptor) (freezes throws : Bool) : List ArrayIndex → Run Bool
  | [] => do
    if freezes then
      let _ ← defineOrdinary o .length { writable := some false } false
    return true
  | i :: rest => do
    if ← deleteOwn o (.index i) false then cutElements o d freezes throws rest
    else
      let bounded := { d with
        value := some (.ofNat (i + 1))
        writable := if freezes then some false else d.writable }
      let _ ← defineOrdinary o .length bounded false
      reject throws (.cannotDelete (Text.ofNat i))

/-- Sets the length of an array, given the length and its writability as they were found. The elements that go are those
that are there once the length was set. -/
def setLength (o : ObjectId) (d : Descriptor) (newLength oldLength : Nat) (lengthWritable throws : Bool) :
    Run Bool := do
  let d := { d with value := some (.ofNat newLength) }
  if oldLength ≤ newLength then defineOrdinary o .length d throws
  else if !lengthWritable then reject throws (.cannotRedefine Key.length.toText)
  else
    let freezes := d.writable == some false
    let d := { d with writable := if freezes then some true else d.writable }
    if ← defineOrdinary o .length d throws then
      let doomed := ((← getHeap).object o).properties.indexKeys.filter fun i => newLength ≤ i.val
      cutElements o d freezes throws doomed.reverse
    else return false

/-- Sets the length of an array from a value. -/
def defineLength (o : ObjectId) (d : Descriptor) (v : Value) (throws : Bool) : Run Bool := do
  let (oldLength, lengthWritable) := (← getHeap).lengthOf o
  let newLength ← toLength v
  setLength o d newLength oldLength lengthWritable throws

/-! ## 4. All objects -/

/-- Defines an own property by the rules of the object's kind. -/
def defineOwn (o : ObjectId) (k : Key) (d : Descriptor) (throws : Bool) : Run Bool := do
  let h ← getHeap
  match (h.object o).kind with
  | .array =>
    if k = .length then
      match d.value with
      | none => defineOrdinary o k d throws
      | some v => holding [.object o, v] (defineLength o d v throws)
    else
      match k with
      | .index i =>
        let (oldLength, lengthWritable) := h.lengthOf o
        defineElement o i d oldLength lengthWritable throws
      | k => defineOrdinary o k d throws
  | .arguments _ => defineArguments o k d throws
  | _ => defineOrdinary o k d throws

/-- Assigns a property for a given receiver. -/
def putFor (o : ObjectId) (k : Key) (v receiver : Value) (throws : Bool) : Run Unit := do
  let h ← getHeap
  if !h.canPut o k then
    let _ ← reject throws (putRefusal h o k)
  else
    let isSelf := receiver == .object o
    match h.getOwn? o k, isSelf with
    | some (.data _ _ _ _), true =>
      let _ ← defineOwn o k (.ofValue v) throws
    | _, _ =>
      match h.getProperty? o k with
      | some (.accessor g s _ _) =>
        let _ ← holding [g, s] (callValue s receiver [v])
      | _ =>
        if isSelf then
          let _ ← defineOwn o k (.data v true true true) throws
        else
          let _ ← reject throws (.cannotPut k.toText)

end Refusing

end Ecma51
