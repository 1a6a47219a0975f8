import Ecma51.Library.Catalogue
import Ecma51.Operation.Construct

/-!
# The realm

The objects that exist before a program runs. First come the intrinsic objects, the global object and
the global environment, without members; then the catalogue is installed, one object after the other,
each of which has to fit into the heap.

* `Heap.skeleton`: the objects without members.
* `installCatalogue`: everything else.
* `Machine.start`: a machine on which nothing has run.
-/

namespace Ecma51

/-! ## 1. Skeleton -/

/-- A built-in function without a name and without arguments. -/
def namelessFunction (prototype : ObjectId) (f : Builtin) : Object :=
  (Object.ofKind "Function" (some prototype)
    (.function ⟨.native f none, false, .empty⟩)).withProperty .length (.constant (.ofNat 0))

/-- An intrinsic object without the members that the catalogue adds. -/
def Intrinsic.skeleton (i : Intrinsic) : Object :=
  let root := some Intrinsic.objectPrototype.id
  match i with
  | .objectPrototype => .ordinary none
  | .functionPrototype => namelessFunction Intrinsic.objectPrototype.id .empty
  | .arrayPrototype =>
    (Object.ofKind "Array" root .array).withProperty .length (.data (.ofNat 0) true false false)
  | .stringPrototype =>
    (Object.ofKind "String" root (.string .empty)).withProperty .length (.constant (.ofNat 0))
  | .booleanPrototype => .ofKind "Boolean" root (.boolean false)
  | .numberPrototype => .ofKind "Number" root (.number .zero)
  | .datePrototype => .ofKind "Date" root (.date .nan)
  | .regExpPrototype => .ordinary root
  | .errorPrototype .error => .ofKind "Error" root .error
  | .errorPrototype _ => .ofKind "Error" (some (Intrinsic.errorPrototype .error).id) .error
  | .throwTypeError =>
    { namelessFunction Intrinsic.functionPrototype.id .thrower with extensible := false }

/-- The global object without members. -/
def globalSkeleton : Object :=
  .ofKind "global" (some Intrinsic.objectPrototype.id) .ordinary

/-- The heap with the intrinsic objects, the global object and the global environment. -/
def Heap.skeleton : Heap :=
  let h := Intrinsic.all.foldl (fun h i => (h.add i.skeleton).1) Heap.empty
  let h := (h.add globalSkeleton).1
  (h.addEnvironment ⟨.object globalObject false, none⟩).1

/-! ## 2. Installing -/

/-- Adds a member to an object. -/
def installMember (o : ObjectId) (m : Member) : Run Unit := do
  let put (name : String) (p : Property) : Run Unit := do
    internName name
    modifyHeap (·.store o (.ofString name) p)
  match m with
  | .method name f length =>
    let fo ← newObjectOf (nativeFunction name f none length)
    put name (.hidden (.object fo))
  | .constant name v => put name (.constant v)
  | .hidden name v => put name (.hidden v)

/-- Adds members to an object in order. -/
def installMembers (o : ObjectId) : List Member → Run Unit
  | [] => return ()
  | m :: rest => do
    installMember o m
    installMembers o rest

/-- Adds an entry of the catalogue to the global object. -/
def installEntry (e : GlobalEntry) : Run Unit := holding [] do
  match e with
  | .constructor name prototype call construct length methods statics labels =>
    internName name
    let f ← newObjectOf (nativeFunction name call (some construct) length)
    modifyHeap fun h =>
      let h := h.store f (.ofString "prototype") (.constant (.object prototype.id))
      h.store prototype.id (.ofString "constructor") (.hidden (.object f))
    installMembers prototype.id methods
    installMembers f statics
    installMember globalObject (.hidden name (.object f))
    installMembers prototype.id labels
  | .collection name members =>
    let o ← newObjectOf (.ofKind name (some Intrinsic.objectPrototype.id) .ordinary)
    hold (.object o)
    installMembers o members
    installMember globalObject (.hidden name (.object o))
  | .direct m => installMember globalObject m

/-- Adds entries to the global object in order. -/
def installEntries : List GlobalEntry → Run Unit
  | [] => return ()
  | e :: rest => do
    installEntry e
    installEntries rest

/-- Installs the whole catalogue. -/
def installCatalogue : Run Unit := installEntries catalogue

/-! ## 3. Start -/

/-- What a run gets from its surroundings. -/
structure Surroundings where
  config : Config := {}
  compiler : Option SourceCompiler := none
  zone : Calendar.Zone := .universal
  /-- The present instant. -/
  clock : Double := .zero
  /-- Where the generator of random numbers starts. -/
  seed : Nat := 0

/-- A machine with global code running and nothing installed. -/
def Machine.start (s : Surroundings) : Machine where
  heap := .skeleton
  heapLimit := s.config.heapLimit
  nextCollection := Heap.collectionThreshold
  contexts :=
    [{ kind := .global, function := none, lexical := globalEnvironment,
       declarations := globalEnvironment, this := .object globalObject, strict := s.config.strict }]
  stack := .empty
  pending := .nothing
  callDepth := 0
  maxCallDepth := s.config.maxCallDepth
  directEval := none
  output := []
  atoms := .empty
  held := []
  compiler := s.compiler
  zone := s.zone
  clock := s.clock
  seed := s.seed
  baseline := 0

end Ecma51
