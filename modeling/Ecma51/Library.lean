import Ecma51.Code.Eval
import Ecma51.Library.Array
import Ecma51.Library.Date
import Ecma51.Library.Error
import Ecma51.Library.Function
import Ecma51.Library.Global
import Ecma51.Library.Host
import Ecma51.Library.Json
import Ecma51.Library.Math
import Ecma51.Library.Number
import Ecma51.Library.Object
import Ecma51.Library.RegExp
import Ecma51.Library.String

/-!
# The library as a whole

Operations are written against an unspecified way to run functions. Here that way is given: built-in
functions by name, code by evaluation. A function runs with the bodies of one level less, so that every
run is finite; the levels are more than the limit on nested calls can use up.

* `Builtin.run`: all built-in functions.
* `bodiesAt`: how functions are run, by levels.
-/

namespace Ecma51

/-- Runs a built-in function. -/
def Builtin.run (b : Builtin) (this : Value) (args : List Value) : Run Value :=
  match b with
  | .empty => return .undefined
  | .thrower => raise .strictPoison
  | .object f => objectFunction f this args
  | .function f => functionFunction f this args
  | .array f => arrayFunction f this args
  | .string f => stringFunction f this args
  | .boolean f => booleanFunction f this args
  | .number f => numberFunction f this args
  | .math f => mathFunction f args
  | .date f => dateFunction f this args
  | .regExp f => regExpFunction f this args
  | .error f => errorFunction f this args
  | .json f => jsonFunction f args
  | .global f => globalFunction f args
  | .host f => hostFunction f args

/-- How functions are run when so many levels are left. Without levels a built-in function only forgets that
`eval` was called by its name. -/
def bodiesAt : Nat → Bodies
  | 0 => ⟨fun _ _ _ m => .error .exhausted { m with directEval := none }, fun _ _ => throw .exhausted⟩
  | n + 1 =>
    ⟨fun b this args => b.run this args (bodiesAt n),
      fun code frame => code.run frame (bodiesAt n)⟩

/-- Enough levels for so many nested calls: each call may evaluate source text, which is a level of its
own but no call. -/
def levelsFor (maxCallDepth : Nat) : Nat := 2 * maxCallDepth + 4

/-- Performs an operation on a machine. -/
def Run.perform {α : Type} (op : Run α) (m : Machine) : EStateM.Result Failure Machine α :=
  op (bodiesAt (levelsFor m.maxCallDepth)) m

end Ecma51
