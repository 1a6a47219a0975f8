import Ecma51.Operation.Access
import Ecma51.Pattern.Reader
import Ecma51.Pattern.Search

/-!
# Regular expression objects

Making regular expression objects and running them. A global one continues where its last match
ended, which its property `lastIndex` remembers.

* `newRegExp`: the object of a source and its flags.
* `execRegExp`: a search that honours and updates `lastIndex`.
* `matchArray`: what programs see of a match.
-/

namespace Ecma51

/-- The source that an object shows: an empty pattern as an empty group. -/
def RegExp.shownSource (r : RegExp) : Text := if r.source.isEmpty then "(?:)" else r.source

/-- A regular expression as an object. -/
def regExpObject (r : RegExp) : Object :=
  { Object.ofKind "RegExp" (some Intrinsic.regExpPrototype.id) (.regExp r) with
    properties := .ofList
      [(.ofString "source", .constant (.string r.shownSource)),
        (.ofString "global", .constant (.boolean r.flags.global)),
        (.ofString "ignoreCase", .constant (.boolean r.flags.ignoreCase)),
        (.ofString "multiline", .constant (.boolean r.flags.multiline)),
        (.ofString "lastIndex", .data (.ofNat 0) true false false)] }

/-- A new regular expression object. -/
def newRegExp (source flags : Text) : Run ObjectId := do
  let r ← orRaise (RegExp.read source flags)
  newObjectOf (regExpObject r)

/-- The regular expression of an object, if it is one. -/
def Heap.regExp? (h : Heap) (o : ObjectId) : Option RegExp :=
  match (h.object o).kind with
  | .regExp r => some r
  | _ => none

/-- The regular expression object that a value is, if it is one. -/
def Heap.asRegExp? (h : Heap) (v : Value) : Option (ObjectId × RegExp) := do
  let o ← v.object?
  let r ← h.regExp? o
  return (o, r)

/-- Where the next search of a global regular expression begins. -/
def setLastIndex (o : ObjectId) (i : Nat) : Run Unit := putNamed o "lastIndex" (.ofNat i)

/-- Searches from `lastIndex` if the expression is global, else from the start; a global expression
remembers the end of its match, and every failure resets it. -/
def execRegExp (o : ObjectId) (r : RegExp) (subject : Text) : Run (Option Pattern.Match) := do
  let lastIndex ← toInteger (← getNamed o "lastIndex")
  let start := if r.flags.global then lastIndex else .zero
  if Double.lt start .zero || Double.lt (.ofNat subject.length) start then
    setLastIndex o 0
    return none
  match r.pattern.find? subject start.truncInt.toNat with
  | none =>
    setLastIndex o 0
    return none
  | some m =>
    if r.flags.global then setLastIndex o m.span.2
    return some m

/-- The texts of the match and of its groups; a group that took no part is undefined. -/
def matchValues (m : Pattern.Match) (subject : Text) : List Value :=
  m.spans.map fun
    | some (start, stop) => .string (subject.slice start stop)
    | none => .undefined

/-- The array that describes a match, with its place and the subject. -/
def matchObject (m : Pattern.Match) (subject : Text) : Object :=
  ((arrayOf (matchValues m subject)).withProperty (.ofString "index")
    (.plain (.ofNat m.span.1))).withProperty (.ofString "input") (.plain (.string subject))

/-- A new array that describes a match. -/
def matchArray (m : Pattern.Match) (subject : Text) : Run ObjectId :=
  newObjectOf (matchObject m subject)

end Ecma51
