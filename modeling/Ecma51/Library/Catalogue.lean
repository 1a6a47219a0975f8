import Ecma51.Builtin
import Ecma51.Value

/-!
# The catalogue of the library

What programs find on the global object: constructors with their prototypes, the objects `Math` and
`JSON`, and functions and values of the global object itself, all in the order in which they are
installed.

* `Member`: a function or a fixed value, under a name.
* `GlobalEntry`: what stands under one name of the global object.
* `catalogue`: all of it.
-/

namespace Ecma51

/-! ## 1. Entries -/

/-- Something that an object of the library holds. -/
inductive Member where
  | method (name : String) (f : Builtin) (length : Nat)
  /-- A value that cannot be changed. -/
  | constant (name : String) (v : Value)
  /-- A value that can be changed, but is not enumerated. -/
  | hidden (name : String) (v : Value)

/-- What stands under a name of the global object. -/
inductive GlobalEntry where
  /-- A constructor with its prototype. The last members are added to the prototype at the very
  end. -/
  | constructor (name : String) (prototype : Intrinsic) (call construct : Builtin) (length : Nat)
      (methods statics labels : List Member)
  /-- An object that only holds functions and values; its name is also its class. -/
  | collection (name : String) (members : List Member)
  /-- A function or a value of the global object. -/
  | direct (m : Member)

/-- Methods of a group of functions: names, functions and lengths. -/
def methodsOf {α : Type} (group : α → Builtin) (fs : List (String × α × Nat)) : List Member :=
  fs.map fun (name, f, length) => .method name (group f) length

/-! ## 2. Constructors -/

/-- The constructor `Object`. -/
def objectEntry : GlobalEntry :=
  .constructor "Object" .objectPrototype (.object .construct) (.object .construct) 1
    (methodsOf .object
      [("toString", .toString, 0), ("toLocaleString", .toLocaleString, 0), ("valueOf", .valueOf, 0),
        ("hasOwnProperty", .hasOwnProperty, 1), ("isPrototypeOf", .isPrototypeOf, 1),
        ("propertyIsEnumerable", .propertyIsEnumerable, 1)])
    (methodsOf .object
      [("getPrototypeOf", .getPrototypeOf, 1),
        ("getOwnPropertyDescriptor", .getOwnPropertyDescriptor, 2),
        ("getOwnPropertyNames", .getOwnPropertyNames, 1), ("create", .create, 2),
        ("defineProperty", .defineProperty, 3), ("defineProperties", .defineProperties, 2),
        ("seal", .seal, 1), ("freeze", .freeze, 1), ("preventExtensions", .preventExtensions, 1),
        ("isSealed", .isSealed, 1), ("isFrozen", .isFrozen, 1), ("isExtensible", .isExtensible, 1),
        ("keys", .keys, 1)])
    []

/-- The constructor `Function`. -/
def functionEntry : GlobalEntry :=
  .constructor "Function" .functionPrototype (.function .construct) (.function .construct) 1
    (methodsOf .function
      [("toString", .toString, 0), ("apply", .apply, 2), ("call", .call, 1), ("bind", .bind, 1)])
    [] []

/-- The constructor `Array`. -/
def arrayEntry : GlobalEntry :=
  .constructor "Array" .arrayPrototype (.array .construct) (.array .construct) 1
    (methodsOf .array
      [("toString", .toString, 0), ("toLocaleString", .toLocaleString, 0), ("concat", .concat, 1),
        ("join", .join, 1), ("pop", .pop, 0), ("push", .push, 1), ("reverse", .reverse, 0),
        ("shift", .shift, 0), ("slice", .slice, 2), ("sort", .sort, 1), ("splice", .splice, 2),
        ("unshift", .unshift, 1), ("indexOf", .indexOf, 1), ("lastIndexOf", .lastIndexOf, 1),
        ("every", .everyElement, 1), ("some", .someElement, 1), ("forEach", .forEach, 1),
        ("map", .map, 1), ("filter", .filter, 1), ("reduce", .reduce, 1),
        ("reduceRight", .reduceRight, 1)])
    (methodsOf .array [("isArray", .isArray, 1)])
    []

/-- The constructor `String`. -/
def stringEntry : GlobalEntry :=
  .constructor "String" .stringPrototype (.string .call) (.string .construct) 1
    (methodsOf .string
      [("toString", .toString, 0), ("valueOf", .valueOf, 0), ("charAt", .charAt, 1),
        ("charCodeAt", .charCodeAt, 1), ("concat", .concat, 1), ("indexOf", .indexOf, 1),
        ("lastIndexOf", .lastIndexOf, 1), ("localeCompare", .localeCompare, 1),
        ("match", .matchPattern, 1), ("replace", .replace, 2), ("search", .search, 1),
        ("slice", .slice, 2), ("split", .split, 2), ("substr", .substr, 2),
        ("substring", .substring, 2), ("toLowerCase", .toLowerCase, 0),
        ("toLocaleLowerCase", .toLowerCase, 0), ("toUpperCase", .toUpperCase, 0),
        ("toLocaleUpperCase", .toUpperCase, 0), ("trim", .trim, 0)])
    (methodsOf .string [("fromCharCode", .fromCharCode, 1)])
    []

/-- The constructor `Boolean`. -/
def booleanEntry : GlobalEntry :=
  .constructor "Boolean" .booleanPrototype (.boolean .call) (.boolean .construct) 1
    (methodsOf .boolean [("toString", .toString, 0), ("valueOf", .valueOf, 0)])
    [] []

/-- The constructor `Number`. -/
def numberEntry : GlobalEntry :=
  .constructor "Number" .numberPrototype (.number .call) (.number .construct) 1
    (methodsOf .number
      [("toString", .toString, 1), ("toLocaleString", .toLocaleString, 0), ("valueOf", .valueOf, 0),
        ("toFixed", .toFixed, 1), ("toExponential", .toExponential, 1),
        ("toPrecision", .toPrecision, 1)])
    [.constant "MAX_VALUE" (.number (.ofBits 0x7FEFFFFFFFFFFFFF)),
      .constant "MIN_VALUE" (.number (.ofBits 1)), .constant "NaN" (.number .nan),
      .constant "NEGATIVE_INFINITY" (.number (.infinite true)),
      .constant "POSITIVE_INFINITY" (.number (.infinite false))]
    []

/-- A method that gets a field, in local and in world time. -/
def fieldGetters (field : DateField) : List DateFunction :=
  [.getField field true, .getField field false]

/-- A method that sets a field and smaller ones, in local and in world time. -/
def fieldSetters (field : DateField) : List DateFunction :=
  [.setField field true, .setField field false]

/-- The number of arguments that a method of dates expects. -/
def DateFunction.length : DateFunction → Nat
  | .toJSON | .setTime | .parse => 1
  | .utc => 7
  | .setField field _ =>
    match field with
    | .fullYear | .minutes => 3
    | .month | .seconds => 2
    | .hours => 4
    | _ => 1
  | _ => 0

/-- Functions of dates under their own names. -/
def dateMembers (fs : List DateFunction) : List Member :=
  fs.map fun f => .method f.name (.date f) f.length

/-- The constructor `Date`. -/
def dateEntry : GlobalEntry :=
  .constructor "Date" .datePrototype (.date .call) (.date .construct) 7
    (dateMembers
      ([.toString, .toDateString, .toTimeString, .toLocaleString, .toLocaleDateString,
          .toLocaleTimeString, .toUTCString, .toISOString, .toJSON, .valueOf, .getTime] ++
        [.fullYear, .month, .date, .day, .hours, .minutes, .seconds, .milliseconds].flatMap
          fieldGetters ++
        [.getTimezoneOffset, .setTime] ++
        [.milliseconds, .seconds, .minutes, .hours, .date, .month, .fullYear].flatMap fieldSetters))
    (dateMembers [.parse, .utc, .now])
    []

/-- The constructor `RegExp`. -/
def regExpEntry : GlobalEntry :=
  .constructor "RegExp" .regExpPrototype (.regExp .call) (.regExp .construct) 2
    (methodsOf .regExp [("exec", .exec, 1), ("test", .test, 1), ("toString", .toString, 0)])
    [] []

/-- The constructor of a kind of errors. -/
def errorEntry (kind : ErrorKind) : GlobalEntry :=
  .constructor kind.name (.errorPrototype kind) (.error (.construct kind))
    (.error (.construct kind)) 1
    (if kind = .error then methodsOf .error [("toString", .toString, 0)] else [])
    []
    [.hidden "name" (.ofString kind.name), .hidden "message" (.string .empty)]

/-! ## 3. Collections and global functions -/

/-- The object `Math`. -/
def mathEntry : GlobalEntry :=
  .collection "Math"
    (methodsOf .math
        [("abs", .abs, 1), ("acos", .acos, 1), ("asin", .asin, 1), ("atan", .atan, 1),
          ("atan2", .atan2, 2), ("ceil", .ceil, 1), ("cos", .cos, 1), ("exp", .exp, 1),
          ("floor", .floor, 1), ("log", .log, 1), ("max", .max, 2), ("min", .min, 2),
          ("pow", .pow, 2), ("random", .random, 0), ("round", .round, 1), ("sin", .sin, 1),
          ("sqrt", .sqrt, 1), ("tan", .tan, 1)] ++
      [.constant "E" (.number (.ofBits 0x4005BF0A8B145769)),
        .constant "LN10" (.number (.ofBits 0x40026BB1BBB55516)),
        .constant "LN2" (.number (.ofBits 0x3FE62E42FEFA39EF)),
        .constant "LOG10E" (.number (.ofBits 0x3FDBCB7B1526E50E)),
        .constant "LOG2E" (.number (.ofBits 0x3FF71547652B82FE)),
        .constant "PI" (.number (.ofBits 0x400921FB54442D18)),
        .constant "SQRT1_2" (.number (.ofBits 0x3FE6A09E667F3BCD)),
        .constant "SQRT2" (.number (.ofBits 0x3FF6A09E667F3BCD))])

/-- The object `JSON`. -/
def jsonEntry : GlobalEntry :=
  .collection "JSON" (methodsOf .json [("parse", .parse, 2), ("stringify", .stringify, 3)])

/-- Values and functions of the global object. -/
def globalMembers : List Member :=
  [.constant "NaN" (.number .nan), .constant "Infinity" (.number .infinity),
      .constant "undefined" .undefined] ++
    methodsOf .global
      [("eval", .eval, 1), ("parseInt", .parseInt, 2), ("parseFloat", .parseFloat, 1),
        ("isNaN", .isNaN, 1), ("isFinite", .isFinite, 1), ("decodeURI", .decodeURI, 1),
        ("decodeURIComponent", .decodeURIComponent, 1), ("encodeURI", .encodeURI, 1),
        ("encodeURIComponent", .encodeURIComponent, 1)] ++
    methodsOf .host
      [("print", .print, 1), ("PRINT", .print, 1), ("$PRINT", .print, 1), ("error", .error, 1),
        ("ERROR", .error, 1), ("$ERROR", .error, 1), ("$FAIL", .error, 1),
        ("runTestCase", .runTestCase, 1), ("fnGlobalObject", .fnGlobalObject, 0),
        ("fnExists", .fnExists, 1), ("compareArray", .compareArray, 2),
        ("arrayContains", .arrayContains, 2)]

/-! ## 4. Everything -/

/-- All entries, in the order in which they are installed. -/
def catalogue : List GlobalEntry :=
  [objectEntry, functionEntry, arrayEntry, stringEntry, booleanEntry, numberEntry, mathEntry,
      dateEntry, regExpEntry] ++
    ErrorKind.all.map errorEntry ++ [jsonEntry] ++ globalMembers.map .direct

end Ecma51
