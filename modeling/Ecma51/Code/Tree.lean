import Ecma51.Value

/-!
# Core programs

What runs is a tree of primitive operations and control forms. A primitive operation evaluates its
operands from left to right and then acts on their values; the control forms decide themselves what is
evaluated and when.

* `Primitive`: the operations on evaluated operands.
* `Tree`: programs.
* `Code`: the body of a function, with its parameters and mode.
-/

namespace Ecma51

/-! ## 1. Primitive operations -/

/-- Which declaration a slot of the stack is linked to. -/
inductive LinkKind where
  | function
  | variable
  | parameter
  deriving DecidableEq, Repr

/-- Operators with one operand. -/
inductive UnaryOperator where
  | typeOf | not | bitNot | plus | minus
  deriving DecidableEq, Repr

/-- Operators with two operands. -/
inductive BinaryOperator where
  | add | sub | mul | div | rem | bitOr | bitXor | bitAnd | shiftLeft | shiftRight
  | shiftRightUnsigned | inside | instanceOf | eq | ne | strictEq | strictNe | lt | gt | le | ge
  deriving DecidableEq, Repr

/-- Conversions that a program may ask for by name. -/
inductive Conversion where
  | string | object | boolean | number | integer | int32 | uint32 | uint16 | typeName
  | checkCoercible
  deriving DecidableEq, Repr

/-- What a conversion to a primitive value prefers. -/
inductive Hint where
  | default
  | string
  | number
  deriving DecidableEq, Repr

/-- An operation on evaluated operands. -/
inductive Primitive where
  /-- The value of an identifier. -/
  | getName (name : Text)
  /-- Assigns the operand to an identifier. -/
  | setName (name : Text)
  /-- Removes the binding of an identifier. -/
  | deleteName (name : Text)
  /-- Links a fresh stack slot that holds the operand to a declaration. -/
  | link (kind : LinkKind) (name : Text)
  /-- An array of the first arguments of the frame. -/
  | locals (count : Nat)
  /-- The value of `this` in the running context. -/
  | this
  /-- The value of `this` in the frame. -/
  | frameThis
  /-- The function that the frame runs. -/
  | frameCallee
  /-- The number of arguments of the frame. -/
  | argumentCount
  /-- An argument of the frame. -/
  | argument (i : Nat)
  /-- The property of the operand with a known name. -/
  | member (name : Text)
  /-- Assigns the second operand to a property of the first with a known name. -/
  | setMember (name : Text)
  /-- Deletes a property with a known name. -/
  | deleteMember (name : Text)
  /-- The property of the first operand named by the second. -/
  | element
  /-- Assigns the third operand to the property of the first named by the second. -/
  | setElement
  /-- Deletes the property of the first operand named by the second. -/
  | deleteElement
  /-- The property of the operand with a raw key number. -/
  | rawMember (raw : Nat)
  /-- An array of the operands. -/
  | array
  /-- Adds an accessor to the first operand. -/
  | accessor (isSetter : Bool) (name : Text)
  /-- A regular expression object. -/
  | regExp (source flags : Text)
  /-- Calls the first operand. -/
  | call
  /-- Calls a method of the first operand with a known name. -/
  | callMember (name : Text)
  /-- Calls the method of the first operand named by the second. -/
  | callElement
  /-- Calls the value of an identifier. -/
  | callName (name : Text)
  /-- Constructs with the first operand. -/
  | construct
  /-- The pending exception. -/
  | pending
  /-- Sets the mode of the running context. -/
  | setStrict (strict : Bool)
  /-- The number of calls under way. -/
  | callDepth
  /-- The number of objects that are still reachable, less the baseline. -/
  | liveObjects
  | unary (op : UnaryOperator)
  | binary (op : BinaryOperator)
  | convert (target : Conversion)
  | toPrimitive (hint : Hint)
  /-- Identity of two values. -/
  | same
  /-- Makes the second operand the prototype of the first. -/
  | setPrototype
  /-- Whether a property of the first operand may be assigned. -/
  | canPut
  /-- Defines a property of the first operand from a descriptor object. -/
  | defineOwn
  /-- Deletes an own property of the first operand. -/
  | deleteOwn
  /-- The value of a property reference. -/
  | referenceGet
  /-- Assigns to a property reference. -/
  | referencePut
  /-- The property of any value. -/
  | getOfValue
  /-- The method of any value, undefined if absent. -/
  | getMethod
  /-- Calls a method of any value. -/
  | invoke
  /-- The own keys of an object, as an array of strings. -/
  | ownKeys
  deriving DecidableEq

/-! ## 2. Programs -/

/-- The parameters and the mode of a function. -/
structure Signature where
  parameters : List Text
  /-- The function binds the name `arguments`. -/
  bindsArguments : Bool
  strict : Bool
  deriving DecidableEq, Inhabited

/-- A program. -/
inductive Tree where
  | literal (v : Value)
  /-- Evaluates the operands from left to right, then performs the operation. -/
  | apply (p : Primitive) (operands : List Tree)
  /-- Declares a variable. -/
  | declare (name : Text)
  /-- Declares a variable, then evaluates and assigns its first value. -/
  | declareAs (name : Text) (first : Tree)
  /-- Declares a function. -/
  | declareFunction (name : Text) (signature : Signature) (body : List Tree)
  /-- A function that closes over the running environment. -/
  | function (signature : Signature) (body : List Tree)
  /-- A fresh object with the properties that keys and values, in turn, describe. -/
  | object (entries : List Tree)
  /-- The value of the last of several trees. -/
  | sequence (trees : List Tree)
  | ite (condition consequent alternative : Tree)
  | and (left right : Tree)
  | or (left right : Tree)
  /-- Runs the body as long as the condition holds. -/
  | loop (condition body : Tree)
  /-- Runs the body for each enumerable key, assigned to a name. -/
  | forIn (name : Text) (subject body : Tree)
  /-- Runs the body with the properties of an object in scope. -/
  | inScopeOf (subject body : Tree)
  /-- Leaves the running function. -/
  | leave (result : Tree)
  | throw (exception : Tree)
  /-- Fails without an exception. -/
  | fail
  /-- Runs the handler, with the exception bound to a name, if the body fails. -/
  | tryCatch (body : Tree) (name : Text) (handler : Tree)
  /-- Runs the last part however the body ends. -/
  | tryFinally (body last : Tree)

instance : Inhabited Tree := ⟨.literal .undefined⟩

/-- The body of a function. A body that is global or evaluated code has the value of its last tree as
its result. -/
structure Code where
  signature : Signature
  body : List Tree
  /-- The result is the value of the body, not only of a `leave`. -/
  yieldsValue : Bool

instance : Inhabited Code := ⟨⟨default, [], false⟩⟩

end Ecma51
