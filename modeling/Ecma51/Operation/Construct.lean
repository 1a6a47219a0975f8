import Ecma51.Operation.Access

/-!
# Functions as objects

Making functions, using them as constructors, and asking whether an object was made by one.

* `construct`: what `new` does, and `Heap.isConstructor`: whether a function serves it.
* `hasInstance`: whether the prototype of a function is among those of an object.
* `nativeFunction`, `newCompiledFunction`, `newBoundFunction`: new functions.
-/

namespace Ecma51

/-! ## 1. Constructing -/

/-- Constructs with a function object. A bound function passes its arguments on to its target; a
built-in function needs a part of its own for this; code runs on a new object, which is the result
unless the code returns another. -/
def construct (f : ObjectId) (args : List Value) : Run Value := do
  let h ← getHeap
  let (f, _, args) := h.unbind f .undefined args
  match h.function? f with
  | none => raise .notAFunction
  | some ⟨.native _ none, _, _⟩ => raise .notAConstructor
  | some ⟨.native _ (some b), _, _⟩ => callNative f b .undefined args
  | some ⟨.compiled _ _ _, _, _⟩ =>
    holding (.object f :: args) do
      let p ← getNamed f "prototype"
      hold p
      let o ← newObjectWith (some (p.object?.getD Intrinsic.objectPrototype.id))
      hold (.object o)
      match ← call f (.object o) args with
      | .object r => return .object r
      | _ => return .object o

/-- The function, or the target of a bound one, serves `new`. -/
def Heap.isConstructor (h : Heap) (f : ObjectId) : Bool :=
  match h.function? (h.unbind f .undefined []).1 with
  | some ⟨.native _ construct, _, _⟩ => construct.isSome
  | some ⟨.compiled _ _ _, _, _⟩ => true
  | none => false

/-- Whether the prototype of a function, or of the target of a bound one, is among those of a
value. -/
def hasInstance (f : ObjectId) (v : Value) : Run Bool := do
  let h ← getHeap
  let (f, _, _) := h.unbind f .undefined []
  match v with
  | .object o =>
    match ← getNamed f "prototype" with
    | .object p => return (← getHeap).isPrototypeOf p o
    | _ => raise .instanceofNeedsObject
  | _ => return false

/-! ## 2. New functions -/

/-- A built-in function as an object. -/
def nativeFunction (name : Text) (call : Builtin) (construct : Option Builtin) (length : Nat) :
    Object :=
  (Object.ofKind "Function" (some Intrinsic.functionPrototype.id)
    (.function ⟨.native call construct, false, name⟩)).withProperty .length
      (.constant (.ofNat length))

/-- The accessor that strict code must not touch, under the given names. -/
def poisoned (names : List String) (x : Object) : Object :=
  let thrower := Value.object Intrinsic.throwTypeError.id
  names.foldl (fun x n => x.withProperty (.ofString n) (.accessor thrower thrower false false)) x

/-- A new function made of code, with a fresh prototype object of its own. -/
def newCompiledFunction (code : Code) (scope : EnvironmentId) (strict : Bool)
    (parameterCount : Nat) : Run ObjectId := do
  let f ← newObjectOf <|
    (Object.ofKind "Function" (some Intrinsic.functionPrototype.id)
      (.function ⟨.compiled code scope parameterCount, strict, .empty⟩)).withProperty .length
        (.constant (.ofNat parameterCount))
  holding [.object f] do
    let p ← newObject
    modifyHeap fun h =>
      let h := h.store p (.ofString "constructor") (.hidden (.object f))
      let h := h.store f (.ofString "prototype") (.data (.object p) true false false)
      if strict then h.modify f (poisoned ["caller", "arguments"]) else h
    return f

/-- The length of a bound function: that of its target less the arguments that are fixed. -/
def boundLength (target : Value) (fixed : Nat) : Double :=
  match target with
  | .number x =>
    let rest := x - .ofNat fixed
    if Double.lt .zero rest then rest else .zero
  | _ => .zero

/-- A function with a fixed `this` and first arguments as an object. -/
def boundFunction (target : ObjectId) (this : Value) (args : List Value) (length : Double) :
    Object :=
  poisoned ["caller", "arguments"]
    ((Object.ofKind "Function" (some Intrinsic.functionPrototype.id)
      (.bound ⟨target, this, args⟩)).withProperty .length (.constant (.number length)))

/-- A new function with a fixed `this` and first arguments. -/
def newBoundFunction (target : ObjectId) (this : Value) (args : List Value) : Run ObjectId := do
  let length ← getNamed target "length"
  newObjectOf (boundFunction target this args (boundLength length args.length))

end Ecma51
