import Ecma51.Code.Primitive

/-!
# Evaluation

Programs run on a frame of the stack. Evaluating a tree gives a value, or ends early: because the
running function is left with a result, or because something failed, in which case the exception is
pending.

* `Abrupt`: the two ways to end early.
* `Tree.eval`: evaluation of a tree.
* `Code.run`: the body of a function, after its parameters and its arguments object are bound.
-/

namespace Ecma51

-- powers mean the same whether or not there are other instances in scope
attribute [local instance (high)] instPowNat

/-! ## 1. Ending early -/

/-- Why evaluation ended before its time. -/
inductive Abrupt where
  /-- The running function is left with a result. -/
  | returned (v : Value)
  /-- An operation failed; the exception is pending. -/
  | failed

/-- Evaluation: an operation that may end early. -/
abbrev Eval := ExceptT Abrupt Run

/-- Performs an operation; if it fails, its exception is pending. -/
def perform {α : Type} (op : Run α) : Eval α := do
  match ← attempt op with
  | some a => return a
  | none => throw .failed

/-- The values, and those kept reachable inside the evaluation, are let go when it ends. -/
def keepingWith {α : Type} (vs : List Value) (body : Eval α) : Eval α :=
  ExceptT.mk (holding vs body.run)

/-- Values kept reachable inside the evaluation are let go when it ends. -/
def keeping {α : Type} (body : Eval α) : Eval α := keepingWith [] body

/-- The value that an early end carries. -/
def Abrupt.value : Abrupt → Value
  | .returned v => v
  | .failed => .undefined

/-- Runs an evaluation in a context of its own, which is left however it ends. -/
def inContext {α : Type} (c : Context) (body : Eval α) : Eval α := do
  modify fun m => { m with contexts := c :: m.contexts }
  let leave : Eval Unit := modify fun m => { m with contexts := m.contexts.drop 1 }
  try
    let a ← body
    leave
    pure a
  catch e =>
    leave
    throw e

/-- The context for a block inside the running code. -/
def Machine.nestedContext (m : Machine) (kind : ContextKind) (lexical : EnvironmentId) : Context :=
  match m.context? with
  | some c => c.nested kind lexical
  | none =>
    { kind, function := none, lexical, declarations := globalEnvironment,
      this := .object globalObject, strict := false }

/-- Runs an evaluation in a context with an environment of its own inside the running one. -/
def inNewEnvironment {α : Type} (record : Record) (kind : ContextKind) (body : Eval α) : Eval α := do
  let m ← get
  let (h, e) := m.heap.addEnvironment ⟨record, some m.lexical⟩
  set { m with heap := h }
  inContext (m.nestedContext kind e) body

/-- Runs an evaluation with the properties of an object in scope. -/
def withScopeOf {α : Type} (o : ObjectId) (body : Eval α) : Eval α :=
  inNewEnvironment (.object o true) .inScopeOf body

/-- Runs a handler with the pending exception, which is pending no longer, bound to a name. -/
def handling {α : Type} (name : Text) (body : Eval α) : Eval α := do
  internName name
  let exception ← takePending
  inNewEnvironment (.declarative [(name, ⟨exception, true, false⟩)]) .catching body

/-- Runs the last part after a body however the body ended. An early end of the last part replaces
that of the body; otherwise the exception is pending again. -/
def finishing (body last : Eval Value) : Eval Value := do
  let ended ← ExceptT.lift body.run
  keeping do
    let saved := (← get).pending
    hold saved
    hold (match ended with | .ok v => v | .error e => e.value)
    modify fun m => { m with pending := .nothing }
    let _ ← last
    modify fun m => { m with pending := saved }
    liftExcept ended
where
  /-- Ends as before. -/
  liftExcept : Except Abrupt Value → Eval Value
    | .ok v => return v
    | .error e => throw e

/-! ## 2. Loops -/

/-- More repetitions than any loop can be waited for. -/
def loopBound : Nat := 2 ^ (63 : Nat)

/-- Runs the body as long as the condition holds. -/
def whileTrue (condition body : Eval Value) : Nat → Eval Unit
  | 0 => fun _ m => .error .exhausted m
  | n + 1 => do
    if (← condition).truth then
      let _ ← body
      whileTrue condition body n

/-- Runs the body for each of the keys that is still a property when its turn comes. -/
def forEachKey (name : Text) (o : ObjectId) (body : Eval Value) : List Key → Eval Unit
  | [] => return ()
  | k :: rest => do
    if (← getHeap).hasProperty o k then
      perform (assignName name (.string k.toText))
      let _ ← body
    forEachKey name o body rest

/-! ## 3. Trees -/

/-- A function made of a body. -/
def makeFunction (signature : Signature) (body : List Tree) (scope : Machine → EnvironmentId) :
    Eval Value := do
  let code : Code := { signature, body, yieldsValue := false }
  return .object (← perform (do
    newCompiledFunction code (scope (← get)) signature.strict signature.parameters.length))

mutual

/-- The value of a tree. -/
def Tree.eval (frame : Frame) : Tree → Eval Value
  | .literal v => return v
  | .apply p operands => do
    let values ← keeping (evalAll frame operands)
    keepingWith (p.kept values) (perform (runPrimitive frame p values))
  | .declare name => do
    internName name
    perform (declareVariable name)
    return .undefined
  | .declareAs name first => keeping do
    internName name
    perform (declareVariable name)
    let v ← first.eval frame
    hold v
    perform (assignName name v)
    return .undefined
  | .declareFunction name signature body => keeping do
    internName name
    let f ← makeFunction signature body Machine.declarations
    hold f
    perform (declareFunction name f)
    return .undefined
  | .function signature body => makeFunction signature body Machine.lexical
  | .object entries => keeping do
    let o := Value.object (← perform newObject)
    hold o
    evalEntries frame o entries
    return o
  | .sequence trees => evalLast frame trees
  | .ite condition consequent alternative => do
    if (← condition.eval frame).truth then consequent.eval frame else alternative.eval frame
  | .and left right => do
    let l ← left.eval frame
    if l.truth then right.eval frame else return l
  | .or left right => do
    let l ← left.eval frame
    if l.truth then return l else right.eval frame
  | .loop condition body => do
    whileTrue (condition.eval frame) (body.eval frame) loopBound
    return .undefined
  | .forIn name subject body => keeping do
    internName name
    let v ← subject.eval frame
    if v.isNullish then return .undefined
    hold v
    let o ← perform (toObject v)
    hold (.object o)
    forEachKey name o (body.eval frame) ((← getHeap).forInKeys o)
    return .undefined
  | .inScopeOf subject body => keeping do
    let v ← subject.eval frame
    let o ← perform (toObject v)
    withScopeOf o (body.eval frame)
  | .leave result => do throw (.returned (← result.eval frame))
  | .throw exception => do
    let v ← exception.eval frame
    modify fun m => { m with pending := v }
    throw .failed
  | .fail => do
    modify fun m => { m with pending := .nothing }
    throw .failed
  | .tryCatch body name handler => do
    try body.eval frame
    catch
      | .failed => handling name (handler.eval frame)
      | e => throw e
  | .tryFinally body last => finishing (body.eval frame) (last.eval frame)

/-- The values of trees from left to right; each is kept while the next are evaluated. -/
def evalAll (frame : Frame) : List Tree → Eval (List Value)
  | [] => return []
  | t :: rest => do
    let v ← t.eval frame
    hold v
    return v :: (← evalAll frame rest)

/-- Keys and values in turn become properties of an object. -/
def evalEntries (frame : Frame) (o : Value) : List Tree → Eval Unit
  | k :: v :: rest => do
    keeping do
      let k ← k.eval frame
      hold k
      let v ← v.eval frame
      hold v
      perform (addMember o k v)
    evalEntries frame o rest
  | _ => return ()

/-- The value of the last of several trees, undefined if there is none. -/
def evalLast (frame : Frame) : List Tree → Eval Value
  | [] => return .undefined
  | [t] => t.eval frame
  | t :: rest => do
    let _ ← t.eval frame
    evalLast frame rest

end

/-! ## 4. Bodies -/

/-- Binds the parameters from the arguments of the frame. -/
def bindParameters (frame : Frame) (strict : Bool) : List Text → Nat → Run Unit
  | [], _ => return ()
  | name :: rest, i => do
    let m ← get
    internName name
    declareParameter strict name
      (if i < frame.argc then m.stack.get (frame.fp + i) else .undefined)
    bindParameters frame strict rest (i + 1)

/-- Lets the indices of the arguments object stand for the parameters. -/
def linkParameters (arguments : Value) : List Text → Nat → Run Unit
  | [], _ => return ()
  | name :: rest, i => do
    linkParameter arguments i name
    linkParameters arguments rest (i + 1)

/-- Binds what the signature of a function names. -/
def Signature.bind (s : Signature) (frame : Frame) : Run Unit := do
  bindParameters frame s.strict s.parameters 0
  if s.bindsArguments then
    let arguments ← bindArguments frame
    unless s.strict do linkParameters arguments s.parameters 0

/-- Runs the body of a function on its frame, and stores its result there. False if it failed; the
exception is then pending. -/
def Code.run (code : Code) (frame : Frame) : Run Bool := do
  let body : Eval Value := do
    perform (code.signature.bind frame)
    let v ← evalLast frame code.body
    return if code.yieldsValue then v else .undefined
  let store (v : Value) : Run Bool := do
    modify fun m => { m with stack := m.stack.set frame.resultSlot v }
    return true
  match ← body.run with
  | .ok v | .error (.returned v) => store v
  | .error .failed => return false

end Ecma51
