import Ecma51.Code.Tree
import Ecma51.Operation.Arguments
import Ecma51.Operation.Describe
import Ecma51.Operation.Method
import Ecma51.Operation.Operator
import Ecma51.Operation.RegExp

/-!
# Primitive operations

What each primitive operation does with its evaluated operands.

* `runPrimitive`: the operations.
* `invokePushed`: calls of `eval` by its name are told apart from other calls.
-/

namespace Ecma51

/-! ## 1. Names -/

/-- Assigns to an identifier. -/
def assignName (name : Text) (v : Value) : Run Unit := do
  let r ← resolveName name
  match r.base, r.strict with
  | .unresolvable, true => raise (.unresolvableReference name)
  | _, _ => assignReference r v

/-- Removes the binding of an identifier. -/
def deleteName (name : Text) : Run Bool := do
  let r ← resolveName name
  match r.base with
  | .environment e => deleteBinding e name
  | _ => if r.strict then raise .strictDelete else return true

/-- The value that a slot holds after it was linked to a name of the variable environment. A function
replaces what the name is bound to; a variable or parameter takes the value that is there. -/
def linkName (kind : LinkKind) (name : Text) (v : Value) : Run Value := do
  let m ← get
  let e := m.declarations
  match m.heap.bindings? e with
  | none => return v
  | some b =>
    match b.find? name, kind with
    | some x, .variable | some x, .parameter => return x.value
    | _, _ =>
      modifyHeap (·.modifyBindings e (·.put name ⟨v, true, false⟩))
      return v

/-! ## 2. Properties -/

/-- The key with a raw number. -/
def rawKey (raw : Nat) : Run Key := do
  match (← get).atoms.keyOfRaw? raw with
  | some k => return k
  | none => raise (.unknownKey raw)

/-- Deletes a property of any value. -/
def deleteProperty (v : Value) (k : Key) : Run Value := do
  let o ← toObject v
  return .boolean (← deleteOwn o k (← get).isStrict)

/-- Assigns a property of any value in the mode of the running code. -/
def assignProperty (target : Value) (k : Key) (v : Value) : Run Value := do
  putProperty target k v (← get).isStrict
  return v

/-- The array of a literal; `nothing` leaves a hole. -/
def literalArray (items : List Value) : Object :=
  arrayWith (items.zipIdx.filter fun (v, _) => !v.isNothing) items.length

/-- The value of an array literal. -/
def arrayLiteral (items : List Value) : Run Value :=
  return .object (← newObjectOf (literalArray items))

/-- Makes an object, or none, the prototype of another, if that is admitted. -/
def setPrototype (o : ObjectId) (p : Option ObjectId) : Run Bool := do
  match (← getHeap).setPrototype? o p with
  | some h =>
    setHeap h
    return true
  | none => return false

/-- Adds one accessor of a property to an object. -/
def addAccessor (isSetter : Bool) (name : Text) (target f : Value) : Run Value := do
  let o ← toObject target
  let d : Descriptor := { enumerable := some true, configurable := some true }
  let d := if isSetter then { d with set := some f } else { d with get := some f }
  let _ ← defineOwn o (.ofText name) d false
  return target

/-- Defines one property of an object literal. -/
def addMember (target k v : Value) : Run Unit := do
  let k ← toKey k
  let o ← toObject target
  let _ ← createData o k v

/-! ## 3. Calls -/

/-- The built-in function that evaluates source text. -/
def Heap.isEval (h : Heap) (f : ObjectId) : Bool :=
  match h.function? f with
  | some ⟨.native (.global .eval) _, _, _⟩ => true
  | _ => false

/-- Calls a value on the last `argc` values of the stack, which are consumed in any case. If the call
names `eval`, the built-in function sees the environments of the caller. -/
def invokePushed (f this : Value) (argc : Nat) (namesEval : Bool) : Run Value := do
  let h ← getHeap
  match f with
  | .object o =>
    if (h.object o).isCallable then
      if namesEval && h.isEval o then modify fun m => { m with directEval := some m.callDepth }
      callPushed o this argc
    else
      freeSlots argc
      raise .notAFunction
  | _ =>
    freeSlots argc
    raise .notAFunction

/-- What a call needs besides its arguments. -/
structure Callee where
  function : Value
  this : Value
  /-- The call names `eval`. -/
  namesEval : Bool

/-- Finds what is called, then calls it on the last `argc` values of the stack. -/
def callFound (find : Run Callee) (argc : Nat) : Run Value := do
  let c ← orDiscard argc find
  invokePushed c.function c.this argc c.namesEval

/-- The method of a value. -/
def findKeyed (target : Value) (key : Run Key) : Run Callee := do
  let k ← key
  return ⟨← getProperty target k, target, k.isNamed "eval"⟩

/-- The value of an identifier, which must be a function. -/
def findNamed (name : Text) : Run Callee := do
  let r ← resolveName name
  match r.base with
  | .environment e =>
    let this := (← getHeap).implicitThis e
    let f ← readReference r
    if (← getHeap).isCallable f then return ⟨f, this, name == "eval"⟩
    else raise (.notAFunctionNamed name)
  | _ => raise (.notDefined name)

/-- Calls a method on the last `argc` values of the stack. -/
def callKeyed (target : Value) (key : Run Key) (argc : Nat) : Run Value :=
  callFound (findKeyed target key) argc

/-- Calls the value of an identifier on the last `argc` values of the stack. -/
def callNamed (name : Text) (argc : Nat) : Run Value := callFound (findNamed name) argc

/-- Constructs with a value. -/
def constructWith (f : Value) (args : List Value) : Run Value := do
  match f with
  | .object o =>
    if (← getHeap).isCallable f then construct o args else raise .notAFunction
  | _ => raise .notAnObject

/-- Constructs with a value on the last `argc` values of the stack. -/
def constructPushed (f : Value) (argc : Nat) : Run Value := do constructWith f (← takeArguments argc)

/-- Pushes arguments and passes on their number. -/
def withArguments (args : List Value) (body : Nat → Run Value) : Run Value := do
  modify fun m => { m with stack := m.stack.pushAll args }
  body args.length

/-! ## 4. Conversions -/

/-- The conversions by name. -/
def convertValue (target : Conversion) (v : Value) : Run Value := do
  match target with
  | .string => return .string (← toText v)
  | .object => return .object (← toObject v)
  | .boolean => return .boolean v.truth
  | .number => return .number (← toNumber v)
  | .integer => return .number (← toInteger v)
  | .int32 => return .number (.ofInt (← toInt32 v))
  | .uint32 => return .ofNat (← toUint32 v)
  | .uint16 => return .ofNat (← toUint16 v)
  | .typeName => return .ofString ((← getHeap).typeName v)
  | .checkCoercible => if v.isNullish then raise .nullToObject else return .undefined

/-- The object that a value is. -/
def objectOf (v : Value) : Run ObjectId :=
  match v with
  | .object o => return o
  | _ => raise .notAnObject

/-- Sets the mode of the running context. -/
def setStrict (strict : Bool) : Run Unit :=
  modify fun m => { m with contexts := m.contexts.modifyHead fun c => { c with strict } }

/-- The number of live objects after a collection, less the baseline. -/
def countLive : Run Value := do
  modify Machine.collect
  let m ← get
  return .number (.ofInt (m.heap.size - m.baseline))

/-! ## 5. All operations -/

/-- The identifier that an operation names. -/
def Primitive.name? : Primitive → Option Text
  | .getName n | .setName n | .deleteName n | .link _ n | .member n | .setMember n
  | .deleteMember n | .accessor _ n | .callMember n | .callName n => some n
  | _ => none

/-- The operands that an operation keeps; the arguments of a call go over to what is called. -/
def Primitive.kept (p : Primitive) (operands : List Value) : List Value :=
  match p with
  | .callName _ => []
  | .call | .callMember _ | .construct => operands.take 1
  | .callElement | .invoke => operands.take 2
  | _ => operands

/-- Performs an operation on its operands; missing operands are undefined. -/
def performPrimitive (frame : Frame) (p : Primitive) (operands : List Value) : Run Value := do
  let m ← get
  let operand (i : Nat) : Value := argumentAt operands i
  let first := operand 0
  match p with
  | .getName name => readReference (← resolveName name)
  | .setName name =>
    assignName name first
    return first
  | .deleteName name => return .boolean (← deleteName name)
  | .link kind name => linkName kind name first
  | .locals count =>
    let args := m.stack.values frame.fp (min frame.argc count)
    return .object (← newArray (args ++ List.replicate (count - args.length) .undefined))
  | .this => return m.this
  | .frameThis => return m.stack.get frame.thisSlot
  | .frameCallee => return m.stack.get frame.calleeSlot
  | .argumentCount => return .ofNat frame.argc
  | .argument i => return if i < frame.argc then m.stack.get (frame.fp + i) else .undefined
  | .member name => getProperty first (.ofText name)
  | .setMember name => assignProperty first (.ofText name) (operand 1)
  | .deleteMember name => deleteProperty first (.ofText name)
  | .element => getProperty first (← toKey (operand 1))
  | .setElement => assignProperty first (← toKey (operand 1)) (operand 2)
  | .deleteElement => deleteProperty first (← toKey (operand 1))
  | .rawMember raw => getProperty first (← rawKey raw)
  | .array => arrayLiteral operands
  | .accessor isSetter name => addAccessor isSetter name first (operand 1)
  | .regExp source flags => return .object (← newRegExp source flags)
  | .call => withArguments (operands.drop 1) (invokePushed first .undefined · false)
  | .callMember name => withArguments (operands.drop 1) (callKeyed first (pure (.ofText name)))
  | .callElement => withArguments (operands.drop 2) (callKeyed first (toKey (operand 1)))
  | .callName name => withArguments operands (callNamed name)
  | .construct => withArguments (operands.drop 1) (constructPushed first)
  | .pending => return m.pending
  | .setStrict strict =>
    setStrict strict
    return .undefined
  | .callDepth => return .ofNat m.callDepth
  | .liveObjects => countLive
  | .unary op => unaryOperator op first
  | .binary op => binaryOperator op first (operand 1)
  | .convert target => convertValue target first
  | .toPrimitive hint => toPrimitive first hint
  | .same => return .boolean (first.same (operand 1))
  | .setPrototype =>
    let o ← objectOf first
    return .boolean (← setPrototype o (operand 1).object?)
  | .canPut =>
    let o ← objectOf first
    let k ← toKey (operand 1)
    return .boolean ((← getHeap).canPut o k)
  | .defineOwn =>
    let o ← objectOf first
    let k ← toKey (operand 1)
    let d ← toDescriptor (operand 2)
    return .boolean (← defineOwn o k d (operand 3).truth)
  | .deleteOwn =>
    let o ← objectOf first
    let k ← toKey (operand 1)
    return .boolean (← deleteOwn o k (operand 2).truth)
  | .referenceGet =>
    readReference ⟨.value first, primitiveText (operand 1), (operand 2).truth⟩
  | .referencePut =>
    assignReference ⟨.value first, primitiveText (operand 1), (operand 3).truth⟩ (operand 2)
    return .undefined
  | .getOfValue => getProperty first (.ofText (primitiveText (operand 1)))
  | .getMethod => getMethod first (.ofText (primitiveText (operand 1)))
  | .invoke => invoke first (primitiveText (operand 1)) (operands.drop 2)
  | .ownKeys =>
    let o ← objectOf first
    return .object (← newArray ((m.heap.ownKeys o).map fun k => .string k.toText))

/-- Performs an operation; the name in it has a number from now on. -/
def runPrimitive (frame : Frame) (p : Primitive) (operands : List Value) : Run Value := do
  match p.name? with
  | some name => internName name
  | none => pure ()
  performPrimitive frame p operands

end Ecma51
