import Ecma51.Number.Integral
import Ecma51.Operation.Method
import Ecma51.Sorting.HeapSort

/-!
# Arrays

The constructor `Array` and its methods. Every method works on any object with a length: it reads the
length once, then the elements by index.

* `sortElements`, `splice`: the longer methods.
* `arrayFunction`: the functions.
-/

namespace Ecma51

/-! ## 1. Elements -/

/-- The element with an index. -/
def getAt (o : ObjectId) (i : Nat) : Run Value := getFrom o (.ofNat i)

/-- Assigns an element. -/
def putAt (o : ObjectId) (i : Nat) (v : Value) : Run Unit := putTo o (.ofNat i) v true

/-- Whether the object, or a prototype, has an element. -/
def hasAt (o : ObjectId) (i : Nat) : Run Bool := return (← getHeap).hasProperty o (.ofNat i)

/-- Deletes an element. -/
def deleteAt (o : ObjectId) (i : Nat) : Run Unit := do
  let _ ← deleteOwn o (.ofNat i) true

/-- Assigns the length. -/
def putLength (o : ObjectId) (n : Nat) : Run Unit := putTo o .length (.ofNat n) true

/-- Adds an element to an array that a method builds. -/
def addAt (a : ObjectId) (i : Nat) (v : Value) : Run Unit := do
  let _ ← createData a (.ofNat i) v

/-- The object and its length; the given values are kept meanwhile. -/
def thisAndLengthWith (waiting : List Value) (this : Value) : Run (ObjectId × Nat) := do
  let o ← holding waiting (toObject this)
  hold (.object o)
  let n ← holding waiting (lengthOfArrayLike o)
  return (o, n)

/-- The object and its length. -/
def thisAndLength (this : Value) : Run (ObjectId × Nat) := thisAndLengthWith [] this

/-- A new empty array, kept while a method builds it; the given values are kept meanwhile. -/
def freshArrayWith (waiting : List Value) : Run ObjectId := do
  let a ← holding waiting (newArray [])
  hold (.object a)
  return a

/-- A new empty array, kept while a method builds it. -/
def freshArray : Run ObjectId := freshArrayWith []

/-- Moves an element, or the absence of one, to another index. -/
def moveElement (o : ObjectId) (source target : Nat) : Run Unit := do
  if ← hasAt o source then
    let v ← getAt o source
    holding [v] (putAt o target v)
  else deleteAt o target

/-- Copies an element that is present to an array. -/
def copyElement (o : ObjectId) (source : Nat) (a : ObjectId) (target : Nat) : Run Unit := do
  if ← hasAt o source then
    let v ← getAt o source
    addAt a target v

/-- The body for `n` indices from `i` upwards. -/
def upward (body : Nat → Run Unit) : (n i : Nat) → Run Unit
  | 0, _ => return ()
  | n + 1, i => do
    body i
    upward body n (i + 1)

/-- The body for the `n` indices below `i + n`, downwards to `i`. -/
def downward (body : Nat → Run Unit) : (n i : Nat) → Run Unit
  | 0, _ => return ()
  | n + 1, i => do
    body (i + n)
    downward body n i

/-- The first of `n` indices from `i` upwards that satisfies a test. -/
def findUpward (test : Nat → Run Bool) : (n i : Nat) → Run (Option Nat)
  | 0, _ => return none
  | n + 1, i => do
    if ← test i then return some i
    findUpward test n (i + 1)

/-- The last of the indices below `n` that satisfies a test. -/
def findDownward (test : Nat → Run Bool) : (n : Nat) → Run (Option Nat)
  | 0 => return none
  | n + 1 => do
    if ← test n then return some n
    findDownward test n

/-! ## 2. Positions -/

/-- The position that an argument gives, or another one if it is undefined. -/
def positionOr (v : Value) (length other : Nat) : Run Nat := do
  if v.isUndefined then return other else return relativeIndex (← toInteger v) length

/-! ## 3. Joining -/

/-- The text of an element; null and undefined have none. -/
def elementText (v : Value) (isLocal : Bool) : Run Text := do
  if v.isNullish then return .empty
  else if isLocal then
    let o := Value.object (← toObject v)
    holding [o] do toText (← invoke o "toLocaleString" [])
  else toText v

/-- The texts of `n` elements from `i` on. -/
def elementTexts (o : ObjectId) (isLocal : Bool) : (n i : Nat) → List Text → Run (List Text)
  | 0, _, acc => return acc.reverse
  | n + 1, i, acc => do
    let v ← getAt o i
    let t ← holding [v] (elementText v isLocal)
    elementTexts o isLocal n (i + 1) (t :: acc)

/-- The texts of all elements with a separator between them. -/
def joinElements (o : ObjectId) (length : Nat) (separator : Text) (isLocal : Bool) : Run Value := do
  return .string (Text.intercalate separator (← elementTexts o isLocal length 0 []))

/-! ## 4. Building and changing arrays -/

/-- An array of a given length, or of the arguments. -/
def constructArray (args : List Value) : Run Value := do
  match args with
  | [.number x] =>
    let n := x.toUint32
    if !(Double.ofNat n).eq x then raise (.invalidArrayLength x.toText)
    return .object (← newObjectOf (arrayOfLength n))
  | args => return .object (← newArray args)

/-- Appends a value to an array from an index on; an array is appended element by element. The index
after it is returned. -/
def appendItem (a : ObjectId) (n : Nat) (v : Value) : Run Nat := do
  match v with
  | .object e =>
    if ((← getHeap).object e).isArray then
      let length ← lengthOfArrayLike e
      upward (fun k => copyElement e k a (n + k)) length 0
      return n + length
    else
      addAt a n v
      return n + 1
  | v =>
    addAt a n v
    return n + 1

/-- Exchanges two elements, or the absence of one. -/
def exchange (o : ObjectId) (lower upper : Nat) : Run Unit := do
  let low ← getAt o lower
  let high ← holding [low] (getAt o upper)
  match ← hasAt o lower, ← hasAt o upper with
  | true, true =>
    holding [low, high] (putAt o lower high)
    holding [low] (putAt o upper low)
  | false, true =>
    holding [low, high] (putAt o lower high)
    deleteAt o upper
  | true, false =>
    deleteAt o lower
    holding [low, high] (putAt o upper low)
  | false, false => pure ()

/-- Assigns values to consecutive indices; each is let go when that is done. -/
def putAll (o : ObjectId) (vs : List Value) (i : Nat) : Run Unit := do
  let putNext (i : Nat) (v : Value) : Run Nat := do
    putAt o i v
    return i + 1
  let _ ← consuming putNext i vs

/-- Removes elements and puts others in their place; the removed ones form an array. -/
def splice (this : Value) (args : List Value) : Run Value := do
  let (o, length) ← thisAndLengthWith args this
  let a ← freshArrayWith args
  let (start, removed) ← holding args do
    let start := relativeIndex (← toInteger (argumentAt args 0)) length
    let removed ← match args with
      | [] => pure 0
      | [_] => pure (length - start)
      | _ :: count :: _ =>
        let x ← toInteger count
        pure (if x.isNegative then 0 else relativeIndex x (length - start))
    upward (fun k => copyElement o (start + k) a k) removed 0
    putLength a removed
    return (start, removed)
  let items := args.drop 2
  let added := items.length
  holding items do
    if added < removed then
      upward (fun k => moveElement o (k + removed) (k + added)) (length - removed - start) start
      downward (deleteAt o) (removed - added) (length - removed + added)
    else if removed < added then
      downward (fun k => moveElement o (k + removed) (k + added)) (length - removed - start) start
  putAll o items start
  putLength o (length - removed + added)
  return .object a

/-! ## 5. Sorting -/

/-- The order of two elements: undefined comes last, then a function or the texts decide. -/
def compareElements (f x y : Value) : Run Ordering := do
  match x.isUndefined, y.isUndefined with
  | true, true => return .eq
  | true, false => return .gt
  | false, true => return .lt
  | false, false =>
    if f.isUndefined then
      let s ← toText x
      let t ← toText y
      return s.compare t
    else
      let x ← toNumber (← callValue f .undefined [x, y])
      return if Double.lt x .zero then .lt else if Double.lt .zero x then .gt else .eq

/-- The elements that are present, in order. -/
def presentElements (o : ObjectId) : (n i : Nat) → List Value → Run (List Value)
  | 0, _, acc => return acc.reverse
  | n + 1, i, acc => do
    if ← hasAt o i then
      let v ← getAt o i
      hold v
      presentElements o n (i + 1) (v :: acc)
    else presentElements o n (i + 1) acc

/-- Sorts the elements that are present to the front. -/
def sortElements (this f : Value) : Run Value := do
  let (o, length) ← thisAndLength this
  if !f.isUndefined && !(← getHeap).isCallable f then raise .parameterNotCallable
  let sorted ← holding [] do
    let items ← presentElements o length 0 []
    let sorted ← heapSort (compareElements f) (⟨items.toArray, rfl⟩ : Vector Value items.toArray.size)
    return sorted.toList
  putAll o sorted 0
  upward (deleteAt o) (length - sorted.length) sorted.length
  return .object o

/-! ## 6. Searching -/

/-- The index of an element, or minus one. -/
def indexOrMinusOne : Option Nat → Value
  | some i => .ofNat i
  | none => .number (.ofInt (-1))

/-- The element at an index is present and equal to a value. -/
def isElement (o : ObjectId) (v : Value) (i : Nat) : Run Bool := do
  if ← hasAt o i then return v.strictEq (← getAt o i) else return false

/-- The first index of an element; a search that begins at negative zero finds it there. -/
def indexOfElement (this : Value) (args : List Value) : Run Value := do
  let (o, length) ← thisAndLength this
  if length = 0 then return indexOrMinusOne none
  let x ← if 1 < args.length then toInteger (argumentAt args 1) else pure .zero
  let start := relativeIndex x length
  match ← findUpward (isElement o (argumentAt args 0)) (length - start) start with
  | some 0 => return .number (if x.isZero then x else .zero)
  | found => return indexOrMinusOne found

/-- The last index of an element. -/
def lastIndexOfElement (this : Value) (args : List Value) : Run Value := do
  let (o, length) ← thisAndLength this
  if length = 0 then return indexOrMinusOne none
  let x ← if 1 < args.length then toInteger (argumentAt args 1) else pure (.ofNat (length - 1))
  let below :=
    match x with
    | .infinite negative => if negative then 0 else length
    | x =>
      let i := x.truncInt
      if i < 0 then (length + i + 1).toNat else min (i.toNat + 1) length
  match ← findDownward (isElement o (argumentAt args 0)) below with
  | some 0 => return .number (if x.isZero then x else .zero)
  | found => return indexOrMinusOne found

/-! ## 7. Iteration -/

/-- The function that an argument is. -/
def requireCallback (v : Value) : Run Unit := do
  unless (← getHeap).isCallable v do raise .parameterNotCallable

/-- Calls a function for each present element, and hands index, element and result on, until told to
stop. -/
def visitFrom (o : ObjectId) (f thisArg : Value) (visit : Nat → Value → Value → Run Bool) :
    (n i : Nat) → Run Unit
  | 0, _ => return ()
  | n + 1, i => do
    let goOn ← if ← hasAt o i then do
        let v ← getAt o i
        holding [v] do
          let result ← callValue f thisArg [v, .ofNat i, .object o]
          holding [result] (visit i v result)
      else pure true
    if goOn then visitFrom o f thisArg visit n (i + 1)

/-- Visits all present elements with the function and `this` that the arguments give. -/
def visitElements (this : Value) (args : List Value) (visit : Nat → Value → Value → Run Bool) :
    Run Unit := do
  let (o, length) ← thisAndLength this
  requireCallback (argumentAt args 0)
  visitFrom o (argumentAt args 0) (argumentAt args 1) visit length 0

/-- Whether the function holds of all elements (`goal = true`) or fails for all; a visit that answers
otherwise ends the search. -/
def searchFrom (o : ObjectId) (f thisArg : Value) (goal : Bool) : (n i : Nat) → Run Bool
  | 0, _ => return goal
  | n + 1, i => do
    let answer ← if ← hasAt o i then do
        let v ← getAt o i
        Value.truth <$> holding [v] (callValue f thisArg [v, .ofNat i, .object o])
      else pure goal
    if answer == goal then searchFrom o f thisArg goal n (i + 1) else return answer

/-- Whether all elements satisfy the function, or with `goal = false` whether one does. -/
def searchElements (this : Value) (args : List Value) (goal : Bool) : Run Value := do
  let (o, length) ← thisAndLength this
  requireCallback (argumentAt args 0)
  return .boolean (← searchFrom o (argumentAt args 0) (argumentAt args 1) goal length 0)

/-- An array of the results of a function. -/
def mapElements (this : Value) (args : List Value) : Run Value := do
  let (o, length) ← thisAndLength this
  let a ← newObjectOf (arrayOfLength length)
  hold (.object a)
  visitElements (.object o) args fun i _ result => do
    addAt a i result
    return true
  return .object a

/-- An array of the elements that satisfy a function. -/
def filterElements (this : Value) (args : List Value) : Run Value := do
  let a ← freshArray
  visitElements this args fun _ v result => do
    if result.truth then addAt a ((← getHeap).lengthOf a).1 v
    return true
  return .object a

/-- Accumulates over the given indices. -/
def accumulate (o : ObjectId) (f : Value) : List Nat → Value → Run Value
  | [], acc => return acc
  | i :: rest, acc => do
    let acc ← holding [acc] do
      if ← hasAt o i then
        let v ← getAt o i
        callValue f .undefined [acc, v, .ofNat i, .object o]
      else return acc
    accumulate o f rest acc

/-- The first of the given indices that is present, its element, and the indices after it. -/
def firstPresent (o : ObjectId) : List Nat → Run (Value × List Nat)
  | [] => raise .reduceEmpty
  | i :: rest => do
    if ← hasAt o i then return (← getAt o i, rest) else firstPresent o rest

/-- Accumulates over all elements, from an initial value or from the first element. -/
def reduceElements (this : Value) (args : List Value) (fromRight : Bool) : Run Value := do
  let (o, length) ← thisAndLength this
  requireCallback (argumentAt args 0)
  let indices := if fromRight then (List.range length).reverse else List.range length
  let (first, rest) ←
    if 1 < args.length then pure (argumentAt args 1, indices) else firstPresent o indices
  accumulate o (argumentAt args 0) rest first

/-! ## 8. All functions -/

/-- The functions of `Array` and of its prototype. -/
def arrayFunction (f : ArrayFunction) (this : Value) (args : List Value) : Run Value := do
  match f with
  | .construct => constructArray args
  | .isArray =>
    match argumentAt args 0 with
    | .object o => return .boolean ((← getHeap).object o).isArray
    | _ => return .boolean false
  | .toString =>
    let o ← toObject this
    hold (.object o)
    let join ← getNamed o "join"
    if (← getHeap).isCallable join then callValue join (.object o) []
    else return .ofString ("[object " ++ ((← getHeap).object o).className ++ "]")
  | .toLocaleString =>
    let (o, length) ← thisAndLength this
    joinElements o length "," true
  | .concat =>
    let items := Value.object (← holding args (toObject this)) :: args
    let a ← freshArrayWith items
    let n ← consuming (appendItem a) 0 items
    putLength a n
    return .object a
  | .join =>
    let (o, length) ← thisAndLength this
    let separator ← match argumentAt args 0 with
      | .undefined => pure (Text.ofString ",")
      | v => toText v
    joinElements o length separator false
  | .pop =>
    let (o, length) ← thisAndLength this
    if length = 0 then
      putLength o 0
      return .undefined
    let v ← getAt o (length - 1)
    hold v
    deleteAt o (length - 1)
    putLength o (length - 1)
    return v
  | .push =>
    let (o, length) ← thisAndLengthWith args this
    putAll o args length
    putLength o (length + args.length)
    return .ofNat (length + args.length)
  | .reverse =>
    let (o, length) ← thisAndLength this
    upward (fun i => exchange o i (length - i - 1)) (length / 2) 0
    return .object o
  | .shift =>
    let (o, length) ← thisAndLength this
    if length = 0 then
      putLength o 0
      return .undefined
    let first ← getAt o 0
    hold first
    upward (fun i => moveElement o i (i - 1)) (length - 1) 1
    deleteAt o (length - 1)
    putLength o (length - 1)
    return first
  | .slice =>
    let (o, length) ← thisAndLength this
    let a ← freshArray
    let start := relativeIndex (← toInteger (argumentAt args 0)) length
    let stop ← positionOr (argumentAt args 1) length length
    upward (fun i => copyElement o (start + i) a i) (stop - start) 0
    putLength a (stop - start)
    return .object a
  | .sort => sortElements this (argumentAt args 0)
  | .splice => splice this args
  | .unshift =>
    let (o, length) ← thisAndLengthWith args this
    holding args (downward (fun i => moveElement o i (i + args.length)) length 0)
    putAll o args 0
    putLength o (length + args.length)
    return .ofNat (length + args.length)
  | .indexOf => indexOfElement this args
  | .lastIndexOf => lastIndexOfElement this args
  | .everyElement => searchElements this args true
  | .someElement => searchElements this args false
  | .forEach =>
    visitElements this args fun _ _ _ => return true
    return .undefined
  | .map => mapElements this args
  | .filter => filterElements this args
  | .reduce => reduceElements this args false
  | .reduceRight => reduceElements this args true

end Ecma51
