import Ecma51.Number.Integral
import Ecma51.Operation.RegExp
import Ecma51.Pattern.Walk
import Ecma51.Text.Case

/-!
# Strings

The constructor `String` and its methods. Positions count code units.

* `thisText`: the text that a method works on, of any value but null and undefined.
* `replaceMatches`, `splitText`: the longer methods.
* `stringFunction`: the functions.
-/

namespace Ecma51

-- powers mean the same whether or not there are other instances in scope
attribute [local instance (high)] instPowNat

/-! ## 1. Receivers and arguments -/

/-- The text of the value that a method was called on. -/
def thisText (this : Value) : Run Text := do
  if this.isNullish then raise .nullToObject
  toText this

/-- The text of a string or of a string object. -/
def thisString (this : Value) (method : String) : Run Text := do
  match this with
  | .string t => return t
  | .object o =>
    match ((← getHeap).object o).kind with
    | .string t => return t
    | _ => raise (.incompatibleReceiver "String" method)
  | _ => raise (.incompatibleReceiver "String" method)

/-- The text of the first argument; empty if there is none. -/
def firstText (args : List Value) : Run Text :=
  match args with
  | v :: _ => toText v
  | [] => return .empty

/-- The units that numbers stand for. -/
def unitsOf : List Value → Run (List CodeUnit)
  | [] => return []
  | v :: rest => do
    let n ← toUint16 v
    return n.toUInt16 :: (← unitsOf rest)

/-- The text followed by those of the values. -/
def appendTexts : Text → List Value → Run Text
  | t, [] => return t
  | t, v :: rest => do appendTexts (t ++ (← toText v)) rest

/-- The unit of a text at a number, if the number is a position in it. -/
def unitAt? (t : Text) (x : Double) : Option CodeUnit :=
  if Double.lt x .zero || !Double.lt x (.ofNat t.length) then none else t.get? x.truncInt.toNat

/-- The position that an argument gives, by a rule for numbers; the end if it is undefined. -/
def positionBy (rule : Double → Nat → Nat) (v : Value) (length : Nat) : Run Nat := do
  if v.isUndefined then return length else return rule (← toInteger v) length

/-- A position that was found, or minus one. -/
def foundAt : Option Nat → Value
  | some i => .ofNat i
  | none => .number (.ofInt (-1))

/-! ## 2. Patterns -/

/-- The regular expression that an argument is or spells. -/
def coerceRegExp (v : Value) : Run (ObjectId × RegExp) := do
  match (← getHeap).asRegExp? v with
  | some r => return r
  | none =>
    let source ← if v.isUndefined then pure .empty else toText v
    let o ← newRegExp source .empty
    hold (.object o)
    return (o, ((← getHeap).regExp? o).getD default)

/-- The match of a regular expression; for a global one, the texts of all its matches. -/
def matchText (t : Text) (v : Value) : Run Value := do
  let (o, r) ← coerceRegExp v
  if !r.flags.global then
    match ← execRegExp o r t with
    | some m => return .object (← matchArray m t)
    | none => return .null
  else
    let found := Pattern.matchesFrom (r.pattern.find? t) t.length
    setLastIndex o 0
    if found.isEmpty then return .null
    else return .object (← newArray (found.map fun m => .string (m.text t)))

/-- The matches that a replacement replaces. -/
def replacedMatches (t : Text) (v : Value) : Run (List Pattern.Match) := do
  match (← getHeap).asRegExp? v with
  | some (o, r) =>
    if r.flags.global then
      setLastIndex o 0
      let found := Pattern.matchesFrom (r.pattern.find? t) t.length
      setLastIndex o 0
      return found
    else return (← execRegExp o r t).toList
  | none =>
    let needle ← toText v
    return (Pattern.findText t needle 0).toList

/-- The text for a match that a function gives. -/
def replacementBy (f : Value) (t : Text) (m : Pattern.Match) : Run Text := do
  let args := matchValues m t ++ [.ofNat m.span.1, .string t]
  let v ← callValue f .undefined args
  holding [v] (toText v)

/-- The text from `last` on with the matches replaced. -/
def replaceFrom (t : Text) (replacement : Pattern.Match → Run Text) :
    List Pattern.Match → Nat → List Text → Run Text
  | [], last, acc => return Text.concat ((t.drop last) :: acc).reverse
  | m :: rest, last, acc => do
    let r ← replacement m
    replaceFrom t replacement rest m.span.2 (r :: t.slice last m.span.1 :: acc)

/-- The text with matches replaced, by a template or by what a function gives. -/
def replaceMatches (t : Text) (pattern replacement : Value) : Run Value := do
  let found ← replacedMatches t pattern
  if (← getHeap).isCallable replacement then
    return .string (← replaceFrom t (replacementBy replacement t) found 0 [])
  else
    let template ← toText replacement
    return .string (← replaceFrom t (fun m => pure (Pattern.expandTemplate template t m)) found 0 [])

/-- A piece of a text as a value. -/
def pieceValue : Option Text → Value
  | some p => .string p
  | none => .undefined

/-- An array of the pieces of a text between separators. -/
def splitText (t : Text) (separator limit : Value) : Run Value := do
  let limit ← if limit.isUndefined then pure (2 ^ (32 : Nat) - 1) else toUint32 limit
  match (← getHeap).asRegExp? separator with
  | some (_, r) =>
    return .object (← newArray ((Pattern.splitParts (r.pattern.find? t) t limit).map pieceValue))
  | none =>
    if separator.isUndefined then return .object (← newArray [.string t])
    let s ← toText separator
    return .object (← newArray ((Pattern.splitParts (Pattern.findText t s) t limit).map pieceValue))

/-! ## 3. All functions -/

/-- The functions of `String` and of its prototype. -/
def stringFunction (f : StringFunction) (this : Value) (args : List Value) : Run Value := do
  let first := argumentAt args 0
  let second := argumentAt args 1
  match f with
  | .call => return .string (← firstText args)
  | .construct =>
    let t ← firstText args
    return .object (← newObjectOf (stringObject t))
  | .fromCharCode => return .string (.ofList (← unitsOf args))
  | .toString => return .string (← thisString this "toString")
  | .valueOf => return .string (← thisString this "valueOf")
  | .charAt =>
    let t ← thisText this
    let x ← toInteger first
    return .string (((unitAt? t x).map Text.ofUnit).getD .empty)
  | .charCodeAt =>
    let t ← thisText this
    let x ← toInteger first
    match unitAt? t x with
    | some u => return .ofNat u.toNat
    | none => return .number .nan
  | .concat =>
    let t ← thisText this
    return .string (← appendTexts t args)
  | .indexOf =>
    let t ← thisText this
    let needle ← toText first
    let start := clampIndex (← toInteger second) t.length
    return foundAt (t.indexOf? needle start)
  | .lastIndexOf =>
    let t ← thisText this
    let needle ← toText first
    let x ← toNumber second
    let start := if x.isNaN then t.length else clampIndex x t.length
    return foundAt (t.lastIndexOf? needle start)
  | .localeCompare =>
    let t ← thisText this
    let other ← toText first
    return .number (match t.compare other with
      | .lt => .ofInt (-1)
      | .eq => .zero
      | .gt => 1)
  | .matchPattern => matchText (← thisText this) first
  | .replace => replaceMatches (← thisText this) first second
  | .search =>
    let t ← thisText this
    let (_, r) ← coerceRegExp first
    return foundAt ((r.pattern.find? t 0).map (·.span.1))
  | .slice =>
    let t ← thisText this
    let start := relativeIndex (← toInteger first) t.length
    let stop ← positionBy relativeIndex second t.length
    return .string (t.slice start stop)
  | .split => splitText (← thisText this) first second
  | .substr =>
    let t ← thisText this
    let x ← toInteger first
    let count ← positionBy clampIndex second t.length
    return .string (t.substr (relativeIndex x t.length) count)
  | .substring =>
    let t ← thisText this
    let start := clampIndex (← toInteger first) t.length
    let stop ← positionBy clampIndex second t.length
    return .string (t.slice (min start stop) (max start stop))
  | .toLowerCase => return .string (← thisText this).toLower
  | .toUpperCase => return .string (← thisText this).toUpper
  | .trim => return .string ((← thisText this).trim CodeUnit.isTrimmable)

end Ecma51
