import Ecma51.Operation.RegExp

/-!
# Regular expressions

The constructor `RegExp` and its methods.
-/

namespace Ecma51

/-- The regular expression that a method was called on. -/
def thisRegExp (this : Value) (method : String) : Run (ObjectId × RegExp) := do
  match (← getHeap).asRegExp? this with
  | some r => return r
  | none => raise (.incompatibleReceiver "RegExp" method)

/-- The text of a value; empty for undefined. -/
def textOrEmpty (v : Value) : Run Text := if v.isUndefined then return .empty else toText v

/-- A new regular expression, from another one or from source and flags. -/
def constructRegExp (pattern flags : Value) : Run Value := do
  match (← getHeap).asRegExp? pattern with
  | some (_, r) =>
    if !flags.isUndefined then raise .flagsWithPatternObject
    return .object (← newRegExp r.source r.flags.toText)
  | none =>
    let source ← textOrEmpty pattern
    let flags ← textOrEmpty flags
    return .object (← newRegExp source flags)

/-- The functions of `RegExp` and of its prototype. -/
def regExpFunction (f : RegExpFunction) (this : Value) (args : List Value) : Run Value := do
  let first := argumentAt args 0
  let second := argumentAt args 1
  match f with
  | .call =>
    if ((← getHeap).asRegExp? first).isSome && second.isUndefined then return first
    else constructRegExp first second
  | .construct => constructRegExp first second
  | .exec =>
    let (o, r) ← thisRegExp this "exec"
    let t ← toText first
    match ← execRegExp o r t with
    | some m => return .object (← matchArray m t)
    | none => return .null
  | .test =>
    let (o, r) ← thisRegExp this "test"
    let t ← toText first
    return .boolean (← execRegExp o r t).isSome
  | .toString =>
    let (o, r) ← thisRegExp this "toString"
    let source ← toText (← getNamed o "source")
    return .string (Text.ofString ("/" ++ source.toWellFormed ++ "/") ++ r.flags.toText)

end Ecma51
