import Ecma51.Heap.Own

/-!
# Prototype chains

Properties are looked up along the chain of prototypes. Every loop along it is bounded by the number
of objects, which a chain without repetition cannot exceed.

* `Heap.chain`: the object and its prototypes.
* `Heap.getProperty?`, `Heap.canPut`: lookup, and whether assignment may go ahead.
* `Heap.setPrototype?`: a new prototype, unless the chain would close on itself.
* `Heap.forInKeys`: the keys that enumeration visits.
-/

namespace Ecma51

namespace Heap

/-- The prototypes from an object on, itself first; the number bounds the length. -/
def chainUpTo (h : Heap) : Nat → Option ObjectId → List ObjectId
  | 0, _ => []
  | _, none => []
  | n + 1, some o => o :: chainUpTo h n (h.object o).prototype

/-- The object and its prototypes. -/
def chainFrom (h : Heap) (o : Option ObjectId) : List ObjectId := h.chainUpTo (h.size + 1) o

/-- The object and its prototypes. -/
def chain (h : Heap) (o : ObjectId) : List ObjectId := h.chainFrom (some o)

/-- The first property with the key from an object on; the number bounds the steps. -/
def findUpTo (h : Heap) (k : Key) : Nat → Option ObjectId → Option Property
  | 0, _ => none
  | _, none => none
  | n + 1, some o => (h.getOwn? o k).or (findUpTo h k n (h.object o).prototype)

/-- The property of an object or of the nearest prototype that has one. -/
def getProperty? (h : Heap) (o : ObjectId) (k : Key) : Option Property :=
  h.findUpTo k (h.size + 1) (some o)

/-- The object or one of its prototypes has the property. -/
def hasProperty (h : Heap) (o : ObjectId) (k : Key) : Bool := (h.getProperty? o k).isSome

/-- A property that assignment may use: writable, or with a setter. -/
def acceptsPut : Property → Bool
  | .data _ w _ _ => w
  | .accessor _ s _ _ => !s.isUndefined

/-- Assignment may go ahead: the own property accepts it; else the object is extensible and an
inherited value is writable, or an inherited accessor has a setter. -/
def canPut (h : Heap) (o : ObjectId) (k : Key) : Bool :=
  match h.getOwn? o k with
  | some p => acceptsPut p
  | none =>
    let x := h.object o
    match x.prototype.bind (h.getProperty? · k) with
    | none => x.extensible
    | some p => acceptsPut p && (!p.isData || x.extensible)

/-- The heap with a new prototype for an object. Refused if the object is not extensible and the
prototype differs, or if the object is among the prototypes of the new one. -/
def setPrototype? (h : Heap) (o : ObjectId) (p : Option ObjectId) : Option Heap :=
  let x := h.object o
  if x.prototype = p then some h
  else if !x.extensible then none
  else if (h.chainFrom p).contains o then none
  else some (h.set o { x with prototype := p })

/-- One object is among the prototypes of another. -/
def isPrototypeOf (h : Heap) (p o : ObjectId) : Bool :=
  (h.chainFrom (h.object o).prototype).contains p

/-- The enumerable keys of the given objects in turn, each key only where it occurs first. -/
def visibleKeys (h : Heap) : List ObjectId → List Key → List Key
  | [], _ => []
  | o :: rest, seen =>
    let own := h.ownKeys o
    let fresh := own.filter fun k => !seen.contains k
    fresh.filter (fun k => (h.getOwn? o k).any (·.enumerable)) ++ visibleKeys h rest (seen ++ fresh)

/-- The keys that enumeration of an object visits: enumerable, along the prototypes, keys that a
nearer object also has only there. -/
def forInKeys (h : Heap) (o : ObjectId) : List Key := h.visibleKeys (h.chain o) []

/-- The next key of an enumeration that is still a property, and the keys after it. -/
def nextKey? (h : Heap) (o : ObjectId) : List Key → Option (Key × List Key)
  | [] => none
  | k :: rest => if h.hasProperty o k then some (k, rest) else nextKey? h o rest

end Heap

end Ecma51
