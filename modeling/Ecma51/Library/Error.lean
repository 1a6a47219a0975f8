import Ecma51.Operation.Access

/-!
# Errors

The error constructors, which make an error object whether or not they are called with `new`, and the
text of an error object.
-/

namespace Ecma51

/-- A new error object. -/
def constructError (kind : ErrorKind) (message : Value) : Run Value := do
  let o ← newObjectOf (errorOf kind .empty)
  hold (.object o)
  unless message.isUndefined do
    let t ← toText message
    modifyHeap (·.store o (.ofString "message") (.hidden (.string t)))
  return .object o

/-- The text of a property, or another one if it is undefined. -/
def namedText (o : ObjectId) (name : String) (other : Text) : Run Text := do
  match ← getNamed o name with
  | .undefined => return other
  | v => toText v

/-- The name and the message of an error, with a colon between them if both are there. -/
def errorText (name message : Text) : Text :=
  if name.isEmpty then message
  else if message.isEmpty then name
  else name ++ ": " ++ message

/-- The functions of the error constructors and of their prototypes. -/
def errorFunction (f : ErrorFunction) (this : Value) (args : List Value) : Run Value := do
  match f with
  | .construct kind => constructError kind (argumentAt args 0)
  | .toString =>
    match this with
    | .object o =>
      let name ← namedText o "name" "Error"
      let message ← namedText o "message" .empty
      return .string (errorText name message)
    | _ => raise (.incompatibleReceiver "Error" "toString")

end Ecma51
