import Ecma51.Operation.Access

/-!
# Methods and array-likes

Methods looked up on any value, and the elements of objects that have a length.

* `getMethod`, `invoke`: a method of a value, and calling it.
* `lengthOfArrayLike`, `listOfArrayLike`: length and elements.
-/

namespace Ecma51

/-- The function that a property of a value holds; undefined if there is none. -/
def getMethod (v : Value) (k : Key) : Run Value := do
  let f ← getProperty v k
  if f.isNullish then return .undefined
  else if (← getHeap).isCallable f then return f
  else raise (.notAFunctionNamed k.toText)

/-- Calls the method of a value with that value as `this`. -/
def invoke (v : Value) (name : Text) (args : List Value) : Run Value := do
  let f ← holding args (getProperty v (.ofText name))
  if (← getHeap).isCallable f then callValue f v args
  else raise (.notAFunctionNamed name)

/-- The length of an object, as an unsigned 32-bit integer. -/
def lengthOfArrayLike (o : ObjectId) : Run Nat := do toUint32 (← getNamed o "length")

/-- The elements of an object from `i` on, `n` of them, in order. -/
def elementsFrom (o : ObjectId) : (n i : Nat) → List Value → Run (List Value)
  | 0, _, acc => return acc.reverse
  | n + 1, i, acc => do
    let v ← getFrom o (.ofNat i)
    hold v
    elementsFrom o n (i + 1) (v :: acc)

/-- The elements of an array-like object; null and undefined have none. -/
def listOfArrayLike (v : Value) : Run (List Value) := do
  if v.isNullish then return []
  else
    match v with
    | .object o =>
      let length ← lengthOfArrayLike o
      elementsFrom o length 0 []
    | _ => raise .notAnObject

end Ecma51
