import Ecma51.Operation.Construct
import Ecma51.Operation.Method

/-!
# Functions

The constructor `Function`, which compiles source text, and the methods that every function inherits.
-/

namespace Ecma51

/-- The function that a method was called on. -/
def thisFunction (this : Value) (method : String) : Run ObjectId := do
  match this with
  | .object f =>
    if (← getHeap).isCallable this then return f
    else raise (.incompatibleReceiver "Function" method)
  | _ => raise (.incompatibleReceiver "Function" method)

/-- The texts of several values in order. -/
def textsOf : List Value → Run (List Text)
  | [] => return []
  | v :: rest => do
    let t ← toText v
    return t :: (← textsOf rest)

/-- The compiler of source text. -/
def sourceCompiler : Run SourceCompiler := do
  match (← get).compiler with
  | some c => return c
  | none => raise .noSourceCompiler

/-- A function compiled from the text of its parameters and of its body, which comes last. -/
def compileFunction (args : List Value) : Run Value := do
  let body ← match args.getLast? with
    | some b => toText b
    | none => pure .empty
  let parameters := Text.intercalate "," (← textsOf args.dropLast)
  let compiled ← orRaise ((← sourceCompiler).functionCode parameters body)
  return .object (← newCompiledFunction compiled.code globalEnvironment compiled.strict
    compiled.parameterCount)

/-- What `toString` shows of a function. -/
def functionText (k : Kind) : Text :=
  match k with
  | .function ⟨.native _ _, _, name⟩ =>
    Text.ofString ("function " ++ name.toWellFormed ++ "() \x7b [native code] \x7d")
  | .function ⟨.compiled _ _ _, _, _⟩ => "function () \x7b [compiled code] \x7d"
  | _ => "function () \x7b [native code] \x7d"

/-- The functions of `Function` and of its prototype. -/
def functionFunction (f : FunctionFunction) (this : Value) (args : List Value) : Run Value := do
  match f with
  | .construct => compileFunction args
  | .toString =>
    let o ← thisFunction this "toString"
    return .string (functionText ((← getHeap).object o).kind)
  | .apply =>
    let o ← thisFunction this "apply"
    let list ← holding [] (listOfArrayLike (argumentAt args 1))
    call o (argumentAt args 0) list
  | .call =>
    let o ← thisFunction this "call"
    call o (argumentAt args 0) (args.drop 1)
  | .bind =>
    let o ← thisFunction this "bind"
    return .object (← newBoundFunction o (argumentAt args 0) (args.drop 1))

end Ecma51
