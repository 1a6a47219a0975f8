import Ecma51.Json.Reader
import Ecma51.Json.Writer
import Ecma51.Operation.Method

/-!
# JSON

The object `JSON`: values from JSON text, and JSON text from values. Programs can take part in both
directions, by a function that revives what was read and by one that replaces what is written.

* `parseJson`: the value of a text. The text is read from left to right and the value is made on the way.
* `revive`: what the reviving function makes of it, from the inside out.
* `Serializer`: what the further arguments of `stringify` ask for.
* `serialize`: the text of a property.
-/

namespace Ecma51

/-! ## 1. Values from text -/

/-- A part of a text of so many units, or what is wrong where it stops. -/
def takePart {α : Type} (total : Nat) : Except (List CodeUnit) α → Run α
  | .ok a => return a
  | .error left => raise (Json.faultAt total left)

/-- The value of a word, and what follows it. -/
def parseWord (total : Nat) (word : String) (v : Value) (us : List CodeUnit) :
    Run (Value × List CodeUnit) := do
  return (v, ← takePart total (Json.expect (Text.ofString word).toList us))

/-- A value without inner structure, and what follows it. -/
def parseScalar (total : Nat) (us : List CodeUnit) : Run (Value × List CodeUnit) :=
  match us with
  | u :: _ =>
    if u == 0x22 then do
      let (t, rest) ← takePart total (Json.readString us)
      return (.string t, rest)
    else if u == 0x74 then parseWord total "true" (.boolean true) us
    else if u == 0x66 then parseWord total "false" (.boolean false) us
    else if u == 0x6E then parseWord total "null" .null us
    else if u == 0x2D || u.isDecimalDigit then do
      let (x, rest) ← takePart total (Json.readNumber us)
      return (.number x, rest)
    else raise (Json.faultAt total us)
  | [] => raise .jsonEnded

/-- Goes on after an item: behind a comma with more, behind the closing unit with the end. -/
def afterItem {α : Type} (total : Nat) (close : CodeUnit) (more ended : List CodeUnit → Run α)
    (us : List CodeUnit) : Run α :=
  match Json.ending close us with
  | .more rest => more rest
  | .closed rest => ended rest
  | .wrong left => raise (Json.faultAt total left)

/-- The items of an array up to its end; the number bounds how many there are. -/
def parseItems (total : Nat) (value : List CodeUnit → Run (Value × List CodeUnit)) :
    Nat → List CodeUnit → Run (List Value × List CodeUnit)
  | 0, us => raise (Json.faultAt total us)
  | n + 1, us => do
    let (v, rest) ← value us
    hold v
    let (vs, rest) ←
      afterItem total 0x5D (parseItems total value n) (fun rest => return ([], rest)) rest
    return (v :: vs, rest)

/-- An array from behind its bracket on. It is made after its items, which are kept until then. -/
def parseArray (total : Nat) (value : List CodeUnit → Run (Value × List CodeUnit))
    (us : List CodeUnit) : Run (Value × List CodeUnit) :=
  holding [] do
    let (vs, rest) ←
      match Json.closedAtOnce? 0x5D us with
      | some rest => pure ([], rest)
      | none => parseItems total value total us
    return (.object (← newArray vs), rest)

/-- Adds the members up to the end of an object; of two with the same name the last counts. The number
bounds how many there are. -/
def parseMembers (total : Nat) (value : List CodeUnit → Run (Value × List CodeUnit)) (o : ObjectId) :
    Nat → List CodeUnit → Run (List CodeUnit)
  | 0, us => raise (Json.faultAt total us)
  | n + 1, us => do
    let (name, rest) ← takePart total (Json.readName us)
    let (v, rest) ← value rest
    let _ ← createData o (.ofText name) v
    afterItem total 0x7D (parseMembers total value o n) pure rest

/-- An object from behind its bracket on. It is made before its members. -/
def parseObject (total : Nat) (value : List CodeUnit → Run (Value × List CodeUnit))
    (us : List CodeUnit) : Run (Value × List CodeUnit) := do
  let o ← newObject
  let rest ← holding [.object o] <|
    match Json.closedAtOnce? 0x7D us with
    | some rest => pure rest
    | none => parseMembers total value o total us
  return (.object o, rest)

/-- The value at the start of a text, after blanks, and what follows it. What is nested counts as a
call, which is finished however reading it ends. The number bounds how deep this goes. -/
def parseValue (total : Nat) : Nat → List CodeUnit → Run (Value × List CodeUnit)
  | 0, _ => throw .exhausted
  | n + 1, us =>
    match Json.skipBlanks us with
    | u :: rest =>
      if u == 0x5B then nestedCall (parseArray total (parseValue total n) rest)
      else if u == 0x7B then nestedCall (parseObject total (parseValue total n) rest)
      else parseScalar total (u :: rest)
    | [] => parseScalar total []

/-- The value of a text. -/
def parseJson (t : Text) : Run Value := do
  let m ← get
  let (v, rest) ← parseValue t.length (m.maxCallDepth - m.callDepth + 1) t.toList
  match Json.skipBlanks rest with
  | [] => return v
  | left => raise (Json.faultAt t.length left)

/-- How deep the walk over a value that is revived may go. -/
def reviveBound : Nat := 100000

/-- Puts back what became of a property; undefined removes it. -/
def putRevived (o : ObjectId) (k : Key) (v : Value) : Run Unit := do
  if v.isUndefined then
    let _ ← deleteOwn o k false
  else
    let _ ← createData o k v

/-- Does something for each key in order. -/
def forKeys (body : Key → Run Unit) : List Key → Run Unit
  | [] => return ()
  | k :: rest => do
    body k
    forKeys body rest

/-- Does something for each index from `i` on, `n` of them. -/
def forIndices (body : Key → Run Unit) : (n i : Nat) → Run Unit
  | 0, _ => return ()
  | n + 1, i => do
    body (.ofNat i)
    forIndices body n (i + 1)

/-- What a function makes of a property, after all that the value holds has been revived. The number
bounds how deep this goes. -/
def revive (f : Value) : Nat → (holder : ObjectId) → Key → Run Value
  | 0, _, _ => throw .exhausted
  | n + 1, holder, k => do
    let v ← getFrom holder k
    holding [.object holder, v] do
      match v with
      | .object o =>
        let body (k : Key) : Run Unit := do putRevived o k (← revive f n o k)
        let h ← getHeap
        if (h.object o).isArray then forIndices body (← lengthOfArrayLike o) 0
        else forKeys body (h.ownEnumerableKeys o)
      | _ => pure ()
      callValue f (.object holder) [.string k.toText, v]

/-- The value of a text, revived if a function for that is given. -/
def parseAndRevive (t : Text) (f : Value) : Run Value := do
  let v ← parseJson t
  if !(← getHeap).isCallable f then return v
  hold v
  let root ← newObject
  let _ ← createData root (.name .empty) v
  revive f reviveBound root (.name .empty)

/-! ## 2. Text from values -/

/-- What shapes the text of a value. -/
structure Serializer where
  /-- The function that replaces each value. -/
  replacer : Option Value
  /-- The names of members that are written, in order; all of them if not given. -/
  names : Option (List Key)
  gap : Text

/-- The value is a string or a number, or an object that wraps one. -/
def Heap.isNameLike (h : Heap) : Value → Bool
  | .string _ | .number _ => true
  | .object o =>
    match (h.object o).kind with
    | .string _ | .number _ => true
    | _ => false
  | _ => false

/-- The name that an item of a list of names gives. -/
def nameItem? (v : Value) : Run (Option Key) := do
  if (← getHeap).isNameLike v then return some (.ofText (← toText v)) else return none

/-- The names in a list from `i` on, `n` items, after those already found; each counts once. -/
def namesFrom (o : ObjectId) : (n i : Nat) → List Key → Run (List Key)
  | 0, _, found => return found
  | n + 1, i, found => do
    match ← nameItem? (← getFrom o (.ofNat i)) with
    | some k => namesFrom o n (i + 1) (if found.contains k then found else found ++ [k])
    | none => namesFrom o n (i + 1) found

/-- The gap that an argument gives: a number of spaces, or the start of a text. -/
def Heap.gapOf (h : Heap) : Value → Text
  | .number x => Json.spaces x.toInteger
  | .string t => t.take Json.maxGap
  | .object o =>
    match (h.object o).kind with
    | .number x => Json.spaces x.toInteger
    | .string t => t.take Json.maxGap
    | _ => .empty
  | _ => .empty

/-- The shape that the second and third argument of `stringify` ask for. -/
def Serializer.ofArguments (replacer space : Value) : Run Serializer := do
  let h ← getHeap
  let names ←
    match replacer with
    | .object o =>
      if (h.object o).isArray then
        let length ← lengthOfArrayLike o
        some <$> namesFrom o length 0 []
      else pure none
    | _ => pure none
  return {
    replacer := if h.isCallable replacer then some replacer else none
    names
    gap := (← getHeap).gapOf space }

/-- The value to be written for a property: what `toJSON` gives for an object that has it, replaced
by the function if there is one. -/
def writtenValue (s : Serializer) (holder : ObjectId) (k : Key) : Run Value := do
  let v ← getFrom holder k
  let v ←
    match v with
    | .object o => holding [v] do
      let f ← getNamed o "toJSON"
      if (← getHeap).isCallable f then callValue f v [.string k.toText] else pure v
    | v => pure v
  match s.replacer with
  | some f => callValue f (.object holder) [.string k.toText, v]
  | none => return v

/-- The primitive value of a wrapper; other values are themselves. -/
def unwrapValue (v : Value) : Run Value := do
  match v with
  | .object o =>
    match ((← getHeap).object o).kind with
    | .number _ => return .number (← toNumber v)
    | .string _ => return .string (← toText v)
    | .boolean b => return .boolean b
    | _ => return v
  | v => return v

/-- The texts of the members of an object with the given keys; those without a text are left out. -/
def memberTexts (gap : Text) (text : Key → Run (Option Json.Written)) :
    List Key → Run (List Json.Written)
  | [] => return []
  | k :: rest => do
    match ← text k with
    | some t => return Json.member gap k.toText t :: (← memberTexts gap text rest)
    | none => memberTexts gap text rest

/-- The texts of the elements of an array from `i` on, `n` of them; null for those without a text. -/
def itemTexts (text : Key → Run (Option Json.Written)) :
    (n i : Nat) → List Json.Written → Run (List Json.Written)
  | 0, _, acc => return acc.reverse
  | n + 1, i, acc => do
    let t ← text (.ofNat i)
    itemTexts text n (i + 1) (t.getD ["null"] :: acc)

/-- The text of a property, none if it has none. The objects around it are given, innermost first,
and the indentation; the number bounds how deep this goes. -/
def serialize (s : Serializer) :
    Nat → (around : List ObjectId) → (indent : Text) → (holder : ObjectId) → Key →
      Run (Option Json.Written)
  | 0, _, _, _, _ => throw .exhausted
  | n + 1, around, indent, holder, k => do
    let v ← writtenValue s holder k
    holding [v] do
      match ← unwrapValue v with
      | .null => return some ["null"]
      | .boolean b => return some [if b then "true" else "false"]
      | .string t => return some [Json.quote t]
      | .number x => return some [if x.isFinite then x.toText else "null"]
      | .object o =>
        let h ← getHeap
        if (h.object o).isCallable then return none
        if around.contains o then raise .jsonCyclic
        nestedCall do
          let inner := indent ++ s.gap
          let text := serialize s n (o :: around) inner o
          if (h.object o).isArray then
            let texts ← itemTexts text (← lengthOfArrayLike o) 0 []
            return some (Json.layOut "[" "]" s.gap inner indent texts)
          else
            let keys := s.names.getD (h.ownEnumerableKeys o)
            let texts ← memberTexts s.gap text keys
            return some (Json.layOut "\x7b" "\x7d" s.gap inner indent texts)
      | _ => return none

/-- The text of a value, none if it has none. -/
def stringifyJson (s : Serializer) (v : Value) : Run (Option Text) := do
  let wrapper ← newObject
  let _ ← createData wrapper (.name .empty) v
  let m ← get
  let written ← holding [.object wrapper]
    (serialize s (m.maxCallDepth - m.callDepth + 1) [] .empty wrapper (.name .empty))
  return written.map .concat

/-! ## 3. The functions -/

/-- The functions of `JSON`. -/
def jsonFunction (f : JsonFunction) (args : List Value) : Run Value := do
  match f with
  | .parse => parseAndRevive (← toText (argumentAt args 0)) (argumentAt args 1)
  | .stringify =>
    let s ← Serializer.ofArguments (argumentAt args 1) (argumentAt args 2)
    match ← stringifyJson s (argumentAt args 0) with
    | some t => return .string t
    | none => return .undefined

end Ecma51
