import Ecma51.Environment
import Ecma51.Heap.Graph
import Ecma51.Object

/-!
# The heap

All objects and environments, by number. Numbers are never used again, so a reference stays valid for
as long as its object is kept.

* `Heap.object`, `Heap.modify`, `Heap.add`: the objects.
* `Heap.environment`, `Heap.addEnvironment`: the environments.
* `Heap.collect`: the heap without what can no longer be reached.
* `Heap.reserve`: room for one more object, collecting if need be.
-/

namespace Ecma51

/-- All objects and environments. -/
structure Heap where
  objects : Std.TreeMap Nat Object
  environments : Std.TreeMap Nat Environment
  nextObject : Nat
  nextEnvironment : Nat

namespace Heap

/-- The heap without objects. -/
def empty : Heap := ⟨∅, ∅, 0, 0⟩

instance : Inhabited Heap := ⟨empty⟩

/-! ## 1. Objects -/

/-- The object with a number; a number without an object stands for an empty one. -/
def object (h : Heap) (o : ObjectId) : Object := h.objects.getD o default

/-- The heap with an object replaced. -/
def set (h : Heap) (o : ObjectId) (x : Object) : Heap :=
  { h with objects := h.objects.insert o x }

/-- The heap with an object changed. -/
def modify (h : Heap) (o : ObjectId) (f : Object → Object) : Heap := h.set o (f (h.object o))

/-- The heap with a new object, and its number. -/
def add (h : Heap) (x : Object) : Heap × ObjectId :=
  ({ h with objects := h.objects.insert h.nextObject x, nextObject := h.nextObject + 1 },
    h.nextObject)

/-- The number of objects. -/
def size (h : Heap) : Nat := h.objects.size

/-- A property as it is stored, whatever the kind of the object says. -/
def stored? (h : Heap) (o : ObjectId) (k : Key) : Option Property := (h.object o).properties.get? k

/-- Stores a property, whatever the kind of the object says. -/
def store (h : Heap) (o : ObjectId) (k : Key) (p : Property) : Heap :=
  h.modify o (·.withProperty k p)

/-- The value can be called. -/
def isCallable (h : Heap) (v : Value) : Bool :=
  match v with
  | .object o => (h.object o).isCallable
  | _ => false

/-! ## 2. Environments -/

/-- The environment with a number. -/
def environment (h : Heap) (e : EnvironmentId) : Environment := h.environments.getD e default

/-- The heap with the record of an environment replaced. -/
def setRecord (h : Heap) (e : EnvironmentId) (r : Record) : Heap :=
  { h with environments := h.environments.insert e { h.environment e with record := r } }

/-- The heap with a new environment, and its number. -/
def addEnvironment (h : Heap) (x : Environment) : Heap × EnvironmentId :=
  ({ h with
      environments := h.environments.insert h.nextEnvironment x
      nextEnvironment := h.nextEnvironment + 1 },
    h.nextEnvironment)

/-- The bindings of a declarative environment. -/
def bindings? (h : Heap) (e : EnvironmentId) : Option Bindings :=
  match (h.environment e).record with
  | .declarative b => some b
  | .object _ _ => none

/-- The heap with the bindings of a declarative environment changed. -/
def modifyBindings (h : Heap) (e : EnvironmentId) (f : Bindings → Bindings) : Heap :=
  match h.bindings? e with
  | some b => h.setRecord e (.declarative (f b))
  | none => h

/-! ## 3. Collection -/

/-- The node of an object in the reference graph. -/
def objectNode (o : ObjectId) : Nat := 2 * o

/-- The node of an environment in the reference graph. -/
def environmentNode (e : EnvironmentId) : Nat := 2 * e + 1

/-- The nodes that values and environments refer to. -/
def nodesOf (values : List Value) (environments : List EnvironmentId) : List Nat :=
  values.filterMap (fun v => v.object?.map objectNode) ++ environments.map environmentNode

/-- The references that an object holds: its prototype, the values of its properties, and what its
kind keeps. -/
def objectReferences (x : Object) : List Nat :=
  let (values, environments) := x.kindValues
  x.prototype.toList.map objectNode ++ nodesOf (x.properties.values ++ values) environments

/-- The references that an environment holds. -/
def environmentReferences (x : Environment) : List Nat :=
  let (values, environments) := x.references
  nodesOf values environments

/-- The references that each node holds. -/
def references (h : Heap) : Std.TreeMap Nat (List Nat) :=
  h.environments.foldl (fun m e x => m.insert (environmentNode e) (environmentReferences x))
    (h.objects.foldl (fun m o x => m.insert (objectNode o) (objectReferences x)) ∅)

/-- The reference graph of the heap, given all references from outside and the nodes that are borrowed,
whose own references cannot be seen. -/
def graph (h : Heap) (outside borrowed : List Nat) : Graph :=
  let references := h.references
  { edges := references.map fun n targets => if borrowed.contains n then [] else targets
    strong := Graph.countReferences (outside ++ references.toList.flatMap (·.2))
    pinned := borrowed }

/-- The heap without the objects and environments that can no longer be reached. -/
def collect (h : Heap) (outside borrowed : List Nat) : Heap :=
  let live := (h.graph outside borrowed).survivors
  { h with
    objects := h.objects.filter fun o _ => live.contains (objectNode o)
    environments := h.environments.filter fun e _ => live.contains (environmentNode e) }

/-! ## 4. Room -/

/-- The number of objects at which an unlimited heap is first searched. -/
def collectionThreshold : Nat := 10000

/-- The number of objects has reached the limit. -/
def isFull (h : Heap) (limit : Option Nat) : Bool := limit.any (· ≤ h.size)

/-- What asking for room leaves: the heap, the number of objects at which it is next searched, and
whether one more object fits. -/
structure Room where
  heap : Heap
  nextCollection : Nat
  fits : Bool

/-- Makes room for one more object, after a collection if one is due. -/
@[inline]
def reserve (h : Heap) (limit : Option Nat) (nextCollection : Nat) (outside borrowed : List Nat) :
    Room :=
  if nextCollection ≤ h.size || h.isFull limit then
    let h := h.collect outside borrowed
    ⟨h, max (2 * h.size) collectionThreshold, !h.isFull limit⟩
  else ⟨h, nextCollection, true⟩

end Heap

end Ecma51
