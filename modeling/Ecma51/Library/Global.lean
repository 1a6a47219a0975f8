import Ecma51.Library.Function
import Ecma51.Number.Radix
import Ecma51.Text.Uri

/-!
# Global functions

Evaluation of source text, reading of numbers, and the escapes of URIs.

* `evaluate`: a call of `eval` by its name runs in the environments of its caller, any other in the
  global ones.
* `globalFunction`: the functions.
-/

namespace Ecma51

/-- The call of `eval` under way was made by its name; the next one is not, unless it says so. -/
def takeDirectEval : Run Bool := do
  let m ← get
  set { m with directEval := none }
  return m.directEval.isSome

/-- The environments for names and declarations, and `this`, of evaluated code. Strict code declares
in an environment of its own. -/
def evalContext (direct strict : Bool) : Run Context := do
  let m ← get
  let (lexical, declarations, this) :=
    if direct then (m.lexical, m.declarations, m.this)
    else (globalEnvironment, globalEnvironment, .object globalObject)
  if strict then
    let e ← newDeclarative lexical
    return { kind := .eval, function := none, lexical := e, declarations := e, this, strict }
  else return { kind := .eval, function := none, lexical, declarations, this, strict }

/-- Evaluates source text in the environments of the caller, or in the global ones; a value that is no
string is itself. -/
def evaluateIn (direct : Bool) (v : Value) : Run Value := do
  match v with
  | .string source =>
    let compiler ← sourceCompiler
    let callerStrict := direct && (← get).isStrict
    let compiled ← orRaise (compiler.evalCode source)
    let context ← evalContext direct (callerStrict || compiled.strict)
    runCode compiled.code context 0 0 .undefined
  | v => return v

/-- Evaluates source text where the call under way says. -/
def evaluate (v : Value) : Run Value := do evaluateIn (← takeDirectEval) v

/-- A text with its escapes written or read, or a fault. -/
def orFault (f : Fault) (t : Option Text) : Run Value :=
  match t with
  | some t => return .string t
  | none => raise f

/-- The functions of the global object. -/
def globalFunction (f : GlobalFunction) (args : List Value) : Run Value := do
  let first := argumentAt args 0
  match f with
  | .eval => evaluate first
  | .parseInt =>
    let t ← toText first
    let radix ← toInt32 (argumentAt args 1)
    return .number (Double.parseInt t radix)
  | .parseFloat =>
    let t ← toText first
    return .number ((Double.ofTextStart? t).getD .nan)
  | .isNaN => return .boolean (← toNumber first).isNaN
  | .isFinite => return .boolean (← toNumber first).isFinite
  | .decodeURI => orFault .badUri (Uri.decode? .whole (← toText first))
  | .decodeURIComponent => orFault .badUri (Uri.decode? .component (← toText first))
  | .encodeURI => orFault .uriEncode (Uri.encode? .whole (← toText first))
  | .encodeURIComponent => orFault .uriEncode (Uri.encode? .component (← toText first))

end Ecma51
