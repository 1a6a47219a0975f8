import Ecma51.Fault

/-!
# Built-in functions

The functions that the library itself provides, by name. What each one does is defined where its
object is; here they are only told apart, so that objects can refer to them.

* `Builtin`: all built-in functions, grouped by the object that holds them.
* `Intrinsic`: the objects that the library itself needs, whatever programs do to the global object.
-/

namespace Ecma51

/-! ## 1. Functions by object -/

/-- Functions of the constructor `Object` and of its prototype. -/
inductive ObjectFunction where
  | construct | getPrototypeOf | getOwnPropertyDescriptor | getOwnPropertyNames | create
  | defineProperty | defineProperties | seal | freeze | preventExtensions | isSealed | isFrozen
  | isExtensible | keys | toString | toLocaleString | valueOf | hasOwnProperty | isPrototypeOf
  | propertyIsEnumerable
  deriving DecidableEq, Repr

/-- Functions of the constructor `Function` and of its prototype. -/
inductive FunctionFunction where
  | construct | toString | apply | call | bind
  deriving DecidableEq, Repr

/-- Functions of the constructor `Array` and of its prototype. -/
inductive ArrayFunction where
  | construct | isArray | toString | toLocaleString | concat | join | pop | push | reverse | shift
  | slice | sort | splice | unshift | indexOf | lastIndexOf | everyElement | someElement | forEach
  | map | filter | reduce | reduceRight
  deriving DecidableEq, Repr

/-- Functions of the constructor `String` and of its prototype. -/
inductive StringFunction where
  | call | construct | fromCharCode | toString | valueOf | charAt | charCodeAt | concat | indexOf
  | lastIndexOf | localeCompare | matchPattern | replace | search | slice | split | substr
  | substring | toLowerCase | toUpperCase | trim
  deriving DecidableEq, Repr

/-- Functions of the constructor `Boolean` and of its prototype. -/
inductive BooleanFunction where
  | call | construct | toString | valueOf
  deriving DecidableEq, Repr

/-- Functions of the constructor `Number` and of its prototype. -/
inductive NumberFunction where
  | call | construct | toString | toLocaleString | valueOf | toFixed | toExponential | toPrecision
  deriving DecidableEq, Repr

/-- Functions of `Math`. -/
inductive MathFunction where
  | abs | acos | asin | atan | atan2 | ceil | cos | exp | floor | log | max | min | pow | random
  | round | sin | sqrt | tan
  deriving DecidableEq, Repr

/-- The fields that `Date` methods get and set. -/
inductive DateField where
  | fullYear | month | date | day | hours | minutes | seconds | milliseconds
  deriving DecidableEq, Repr

/-- Functions of the constructor `Date` and of its prototype. Getters and setters work in local time
or in world time. -/
inductive DateFunction where
  | call | construct | parse | utc | now
  | toString | toDateString | toTimeString | toLocaleString | toLocaleDateString
  | toLocaleTimeString | toUTCString | toISOString | toJSON | valueOf | getTime
  | getField (field : DateField) (isLocal : Bool)
  | getTimezoneOffset | setTime
  | setField (field : DateField) (isLocal : Bool)
  deriving DecidableEq, Repr

/-- The name of a field in the names of its methods. -/
def DateField.name : DateField → String
  | .fullYear => "FullYear"
  | .month => "Month"
  | .date => "Date"
  | .day => "Day"
  | .hours => "Hours"
  | .minutes => "Minutes"
  | .seconds => "Seconds"
  | .milliseconds => "Milliseconds"

/-- The name of a method that gets or sets a field. -/
def DateField.methodName (verb : String) (field : DateField) (isLocal : Bool) : String :=
  verb ++ (if isLocal then "" else "UTC") ++ field.name

/-- The name of a function of `Date`. -/
def DateFunction.name : DateFunction → String
  | .call | .construct => "Date"
  | .parse => "parse"
  | .utc => "UTC"
  | .now => "now"
  | .toString => "toString"
  | .toDateString => "toDateString"
  | .toTimeString => "toTimeString"
  | .toLocaleString => "toLocaleString"
  | .toLocaleDateString => "toLocaleDateString"
  | .toLocaleTimeString => "toLocaleTimeString"
  | .toUTCString => "toUTCString"
  | .toISOString => "toISOString"
  | .toJSON => "toJSON"
  | .valueOf => "valueOf"
  | .getTime => "getTime"
  | .getField field isLocal => field.methodName "get" isLocal
  | .getTimezoneOffset => "getTimezoneOffset"
  | .setTime => "setTime"
  | .setField field isLocal => field.methodName "set" isLocal

/-- Functions of the constructor `RegExp` and of its prototype. -/
inductive RegExpFunction where
  | call | construct | exec | test | toString
  deriving DecidableEq, Repr

/-- Functions of the error constructors and of their prototypes. -/
inductive ErrorFunction where
  | construct (kind : ErrorKind)
  | toString
  deriving DecidableEq, Repr

/-- Functions of `JSON`. -/
inductive JsonFunction where
  | parse | stringify
  deriving DecidableEq, Repr

/-- Functions of the global object. -/
inductive GlobalFunction where
  | eval | parseInt | parseFloat | isNaN | isFinite
  | decodeURI | decodeURIComponent | encodeURI | encodeURIComponent
  deriving DecidableEq, Repr

/-- Functions that test programs expect of their surroundings. -/
inductive HostFunction where
  | print | error | runTestCase | fnGlobalObject | fnExists | compareArray | arrayContains
  deriving DecidableEq, Repr

/-! ## 2. All functions -/

/-- A built-in function. -/
inductive Builtin where
  /-- Does nothing: the body of the prototype of functions. -/
  | empty
  /-- Always fails: the accessor of properties that strict code must not touch. -/
  | thrower
  | object (f : ObjectFunction)
  | function (f : FunctionFunction)
  | array (f : ArrayFunction)
  | string (f : StringFunction)
  | boolean (f : BooleanFunction)
  | number (f : NumberFunction)
  | math (f : MathFunction)
  | date (f : DateFunction)
  | regExp (f : RegExpFunction)
  | error (f : ErrorFunction)
  | json (f : JsonFunction)
  | global (f : GlobalFunction)
  | host (f : HostFunction)
  deriving DecidableEq, Repr

/-! ## 3. Intrinsic objects -/

/-- The objects that exist before any program runs. -/
inductive Intrinsic where
  | objectPrototype
  | functionPrototype
  | arrayPrototype
  | stringPrototype
  | booleanPrototype
  | numberPrototype
  | datePrototype
  | regExpPrototype
  | errorPrototype (kind : ErrorKind)
  | throwTypeError
  deriving DecidableEq, Repr

namespace Intrinsic

/-- All intrinsic objects, in the order of their places in the heap. -/
def all : List Intrinsic :=
  [.objectPrototype, .functionPrototype, .arrayPrototype, .stringPrototype, .booleanPrototype,
    .numberPrototype, .datePrototype, .regExpPrototype] ++
    ErrorKind.all.map .errorPrototype ++ [.throwTypeError]

/-- The place of an intrinsic object in the heap. -/
def id : Intrinsic → ObjectId
  | .objectPrototype => 0
  | .functionPrototype => 1
  | .arrayPrototype => 2
  | .stringPrototype => 3
  | .booleanPrototype => 4
  | .numberPrototype => 5
  | .datePrototype => 6
  | .regExpPrototype => 7
  | .errorPrototype .error => 8
  | .errorPrototype .evalError => 9
  | .errorPrototype .rangeError => 10
  | .errorPrototype .referenceError => 11
  | .errorPrototype .syntaxError => 12
  | .errorPrototype .typeError => 13
  | .errorPrototype .uriError => 14
  | .throwTypeError => 15

/-- The name of an intrinsic object. -/
def name : Intrinsic → String
  | .objectPrototype => "ObjectPrototype"
  | .functionPrototype => "FunctionPrototype"
  | .arrayPrototype => "ArrayPrototype"
  | .stringPrototype => "StringPrototype"
  | .booleanPrototype => "BooleanPrototype"
  | .numberPrototype => "NumberPrototype"
  | .datePrototype => "DatePrototype"
  | .regExpPrototype => "RegExpPrototype"
  | .errorPrototype kind => kind.name ++ "Prototype"
  | .throwTypeError => "ThrowTypeError"

/-- The intrinsic object at a place in the heap. -/
def ofId? (o : ObjectId) : Option Intrinsic := all.find? fun i => i.id == o

end Intrinsic

/-- The place of the global object in the heap. -/
def globalObject : ObjectId := 16

/-- The place of the global environment in the heap. -/
def globalEnvironment : EnvironmentId := 0

end Ecma51
