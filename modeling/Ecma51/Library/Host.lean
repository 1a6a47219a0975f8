import Ecma51.Operation.Compare
import Ecma51.Operation.Method
import Ecma51.Operation.Scope

/-!
# Host functions

What test programs expect of their surroundings: writing lines, reporting failures, and comparing
arrays.
-/

namespace Ecma51

/-- Writes a line. -/
def writeLine (t : Text) : Run Unit := modify fun m => { m with output := t :: m.output }

/-- The elements of an object that a value converts to. -/
def elementsOf (o : ObjectId) : Run (List Value) := do
  let length ← lengthOfArrayLike o
  elementsFrom o length 0 []

/-- A value moves in front of those that it is less than, from the end of a list, which is given in
reverse. -/
def insertByLess (v : Value) : List Value → Run (List Value)
  | [] => return [v]
  | w :: rest => do
    if (← lessThan v w true) == some true then return w :: (← insertByLess v rest)
    else return v :: w :: rest

/-- The values sorted by insertion, in reverse. -/
def sortByLess : List Value → List Value → Run (List Value)
  | [], sorted => return sorted
  | v :: rest, sorted => do sortByLess rest (← insertByLess v sorted)

/-- Both objects hold the same elements, in any order. -/
def compareArrays (a b : Value) : Run Bool := do
  let a ← toObject a
  hold (.object a)
  let b ← toObject b
  hold (.object b)
  let left ← elementsOf a
  let right ← elementsOf b
  if left.length ≠ right.length then return false
  let left ← sortByLess left []
  let right ← sortByLess right []
  return (left.zip right).all fun (x, y) => x.strictEq y

/-- Every element of the second object is an element of the first. -/
def containsArray (a b : Value) : Run Bool := do
  let a ← toObject a
  hold (.object a)
  let b ← toObject b
  hold (.object b)
  let left ← elementsOf a
  let right ← elementsOf b
  return right.all fun x => left.any fun y => x.strictEq y

/-- Runs a test function, which has to return something true. -/
def runTestCase (f : Value) : Run Value := do
  match f with
  | .object o =>
    if (← getHeap).isCallable f then
      let passed := (← call o (← get).this []).truth
      unless passed do raise (.testFailure "runTestCase failed.")
      return .undefined
    else raise (.testFailure "runTestCase failed, no test function.")
  | _ => raise (.testFailure "runTestCase failed, no test function.")

/-- The host functions. -/
def hostFunction (f : HostFunction) (args : List Value) : Run Value := do
  let first := argumentAt args 0
  match f with
  | .print =>
    unless args.isEmpty do writeLine (← toText first)
    return .undefined
  | .error =>
    if args.isEmpty then return .undefined
    raise (.testFailure (← toText first))
  | .runTestCase => runTestCase first
  | .fnGlobalObject => return .object globalObject
  | .fnExists =>
    let name ← toText first
    let m ← get
    return .boolean (m.heap.resolve m.lexical name).isSome
  | .compareArray => return .boolean (← compareArrays first (argumentAt args 1))
  | .arrayContains => return .boolean (← containsArray first (argumentAt args 1))

end Ecma51
