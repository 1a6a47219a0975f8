import Ecma51.Number.Format
import Ecma51.Text.Scalar
import Ecma51.Value

/-!
# Faults

The ways in which an operation of the library itself can fail, each with the kind of error object
that stands for it and the wording of its message. Values thrown by programs are no faults.

* `ErrorKind`: the seven kinds of error objects.
* `Fault`: the causes; `Fault.kind` and `Fault.message` say how one is reported.
-/

namespace Ecma51

/-! ## 1. Kinds -/

/-- The kinds of error objects. -/
inductive ErrorKind where
  | error
  | evalError
  | rangeError
  | referenceError
  | syntaxError
  | typeError
  | uriError
  deriving DecidableEq, Repr

/-- All kinds, in the order in which their constructors are installed. -/
def ErrorKind.all : List ErrorKind :=
  [.error, .evalError, .rangeError, .referenceError, .syntaxError, .typeError, .uriError]

/-- The name of a kind, which is also the name of its constructor. -/
def ErrorKind.name : ErrorKind → String
  | .error => "Error"
  | .evalError => "EvalError"
  | .rangeError => "RangeError"
  | .referenceError => "ReferenceError"
  | .syntaxError => "SyntaxError"
  | .typeError => "TypeError"
  | .uriError => "URIError"

/-! ## 2. Causes -/

/-- Why an operation failed. -/
inductive Fault where
  | invalidArrayLength (shown : Text)
  | badRadix
  | fractionDigits
  | precision
  | stackOverflow
  | outOfMemory
  | invalidTimeValue
  | notDefined (name : Text)
  | unresolvableReference (name : Text)
  | strictDelete
  | patternInvalid
  | flagUnknown (flag : Char)
  | flagRepeated (flag : Char)
  | jsonUnexpected (token : Text) (position : Nat)
  | jsonEnded
  | nullToObject
  | noDefaultValue
  | immutableBinding (name : Text)
  | cannotPut (name : Text)
  | accessorWithoutSetter (name : Text)
  | cannotDelete (name : Text)
  | notExtensible (name : Text)
  | cannotRedefine (name : Text)
  | strictCaller
  | strictPoison
  | instanceofNeedsObject
  | inNeedsObject
  | notAFunction
  | notAnObject
  | getterNotCallable
  | setterNotCallable
  | mixedDescriptor
  | globalDeclaration (name : Text)
  | notAFunctionNamed (name : Text)
  | incompatibleReceiver (owner method : String)
  | flagsWithPatternObject
  | notAConstructor
  | parameterNotCallable
  | reduceEmpty
  | unknownKey (raw : Nat)
  | jsonCyclic
  | badUri
  | uriEncode
  | noSourceCompiler
  | sourceRejected
  | globalCodeFailed
  | testFailure (message : Text)
  deriving DecidableEq

namespace Fault

/-- The kind of error object that reports a fault. -/
def kind : Fault → ErrorKind
  | invalidArrayLength _ | badRadix | fractionDigits | precision | stackOverflow | outOfMemory
  | invalidTimeValue => .rangeError
  | notDefined _ | unresolvableReference _ => .referenceError
  | strictDelete | patternInvalid | flagUnknown _ | flagRepeated _ | jsonUnexpected _ _ | jsonEnded
  | sourceRejected => .syntaxError
  | badUri | uriEncode => .uriError
  | noSourceCompiler => .evalError
  | globalCodeFailed | testFailure _ => .error
  | _ => .typeError

/-- A name as it appears in a message: surrogates without partner are replaced. -/
def shown (name : Text) : String := name.toWellFormed

/-- The lower-case hexadecimal digits of a number, after `0x`. -/
def hexText (n : Nat) : String := "0x" ++ String.ofList (Nat.toDigits 16 n)

/-- The wording of a fault. -/
def message : Fault → String
  | invalidArrayLength n => "invalid array length '" ++ shown n ++ "'"
  | badRadix => "radix must be a value between 2 and 36."
  | fractionDigits => "the number of fractional digits must be a value between 0 and 20."
  | precision => "precision must be a value between 1 and 21."
  | stackOverflow => "maximum call stack size exceeded."
  | outOfMemory => "out of memory."
  | invalidTimeValue => "invalid time value."
  | notDefined n => "'" ++ shown n ++ "' is not defined."
  | unresolvableReference n => "unresolvable reference to '" ++ shown n ++ "'."
  | strictDelete => "unqualified identifier cannot be deleted in strict mode."
  | patternInvalid => "could not compile regular expression: invalid pattern."
  | flagUnknown c => "illegal flag '" ++ c.toString ++ "' in regular expression."
  | flagRepeated c => "duplicate flag '" ++ c.toString ++ "' in regular expression."
  | jsonUnexpected t p =>
    "unexpected token '" ++ shown t ++ "' in JSON at position " ++ toString p ++ "."
  | jsonEnded => "unexpected end of JSON input."
  | nullToObject => "cannot convert null or undefined to an object."
  | noDefaultValue => "object cannot be converted to a primitive value."
  | immutableBinding n => "cannot update immutable binding '" ++ shown n ++ "'."
  | cannotPut n => "cannot put property '" ++ shown n ++ "'."
  | accessorWithoutSetter n =>
    "cannot put property '" ++ shown n ++ "', target property is an accessor without a setter."
  | cannotDelete n => "cannot delete property '" ++ shown n ++ "'."
  | notExtensible n => "cannot define property '" ++ shown n ++ "', it is not extensible."
  | cannotRedefine n => "cannot redefine property '" ++ shown n ++ "'."
  | strictCaller => "caller property of an object cannot be accessed in strict mode."
  | strictPoison =>
    "'caller', 'callee' and 'arguments' properties may not be accessed in strict mode."
  | instanceofNeedsObject => "expected object in function instanceof check."
  | inNeedsObject => "expected object in 'in' check."
  | notAFunction => "object is not a function."
  | notAnObject => "element is not an object."
  | getterNotCallable =>
    "getter is not callable or undefined, cannot convert object to property."
  | setterNotCallable =>
    "setter is not callable or undefined, cannot convert object to property."
  | mixedDescriptor =>
    "property descriptor cannot both specify accessors and a value or writable attribute."
  | globalDeclaration n =>
    "function declaration '" ++ shown n ++ "' conflicts with an existing global property."
  | notAFunctionNamed n => "'" ++ shown n ++ "' is not a function."
  | incompatibleReceiver owner method =>
    owner ++ ".prototype." ++ method ++ " called on incompatible receiver."
  | flagsWithPatternObject =>
    "flags cannot be specified when specifying a RegExp object pattern."
  | notAConstructor => "built-in objects cannot be used as constructors."
  | parameterNotCallable => "specified parameter is not callable."
  | reduceEmpty => "cannot reduce without an accumulator or initial value."
  | unknownKey raw => "unknown property key id " ++ hexText raw ++ "."
  | jsonCyclic => "converting circular structure to JSON."
  | badUri => "bad uri format."
  | uriEncode => "couldn't encode string in uri format."
  | noSourceCompiler => "evaluating source text requires a source compiler."
  | sourceRejected => "cannot compile source"
  | globalCodeFailed => "global code failed without an exception"
  | testFailure m => "test262 error: " ++ shown m

end Fault

/-- Why a computation stopped: a fault of an operation, a value thrown by a program, or the bound on
nested evaluation that the call depth keeps out of reach. -/
inductive Failure where
  | fault (f : Fault)
  | thrown (v : Value)
  | exhausted

end Ecma51
