import Ecma51.Value

/-!
# Properties and descriptors

A stored property has every attribute; a descriptor, as passed to an operation that defines a
property, may leave any of them out.

* `Property`: a data property or a pair of accessors.
* `Descriptor`: what a definition asks for.
* `Descriptor.fresh`: the property that a descriptor creates.
* `Descriptor.redefine?`: what a descriptor makes of an existing property, or its refusal.
-/

namespace Ecma51

/-- A stored property. -/
inductive Property where
  | data (value : Value) (writable enumerable configurable : Bool)
  | accessor (get set : Value) (enumerable configurable : Bool)
  deriving DecidableEq

namespace Property

instance : Inhabited Property := ⟨data .undefined false false false⟩

/-- The property is visited by enumeration. -/
def enumerable : Property → Bool
  | data _ _ e _ => e
  | accessor _ _ e _ => e

/-- The property may be deleted and changed in kind. -/
def configurable : Property → Bool
  | data _ _ _ c => c
  | accessor _ _ _ c => c

/-- A data property whose value may be changed. -/
def writable : Property → Bool
  | data _ w _ _ => w
  | accessor _ _ _ _ => false

/-- The property holds a value. -/
def isData : Property → Bool
  | data _ _ _ _ => true
  | accessor _ _ _ _ => false

/-- The value of a data property. -/
def value? : Property → Option Value
  | data v _ _ _ => some v
  | accessor _ _ _ _ => none

/-- The property with the given attributes. -/
def withAttributes (e c : Bool) : Property → Property
  | data v w _ _ => data v w e c
  | accessor g s _ _ => accessor g s e c

/-- The values that a property holds. -/
def values : Property → List Value
  | data v _ _ _ => [v]
  | accessor g s _ _ => [g, s]

/-- A property as assignment creates it. -/
def plain (v : Value) : Property := data v true true true

/-- A property as the library's methods have it: writable, configurable and not enumerated. -/
def hidden (v : Value) : Property := data v true false true

/-- A property that cannot be changed in any way. -/
def constant (v : Value) : Property := data v false false false

end Property

/-- A description of a property in which every part may be missing. -/
structure Descriptor where
  value : Option Value := none
  writable : Option Bool := none
  get : Option Value := none
  set : Option Value := none
  enumerable : Option Bool := none
  configurable : Option Bool := none
  deriving DecidableEq, Inhabited

namespace Descriptor

/-- A complete description of a data property. -/
def data (v : Value) (w e c : Bool) : Descriptor :=
  { value := some v, writable := some w, enumerable := some e, configurable := some c }

/-- The values that a description holds. -/
def values (d : Descriptor) : List Value := d.value.toList ++ d.get.toList ++ d.set.toList

/-- A complete description of an accessor property. -/
def accessor (g s : Value) (e c : Bool) : Descriptor :=
  { get := some g, set := some s, enumerable := some e, configurable := some c }

/-- The description that asks only for a value. -/
def ofValue (v : Value) : Descriptor := { value := some v }

/-- The complete description of a stored property. -/
def ofProperty : Property → Descriptor
  | .data v w e c => data v w e c
  | .accessor g s e c => accessor g s e c

/-- The description speaks of accessors. -/
def isAccessor (d : Descriptor) : Bool := d.get.isSome || d.set.isSome

/-- The description speaks of a value or its writability. -/
def isData (d : Descriptor) : Bool := d.value.isSome || d.writable.isSome

/-- The description speaks of neither. -/
def isGeneric (d : Descriptor) : Bool := !d.isAccessor && !d.isData

/-- The property that a description creates; missing parts take their defaults. -/
def fresh (d : Descriptor) : Property :=
  let e := d.enumerable.getD false
  let c := d.configurable.getD false
  if d.isAccessor then .accessor (d.get.getD .undefined) (d.set.getD .undefined) e c
  else .data (d.value.getD .undefined) (d.writable.getD false) e c

/-- A part is missing or already as described. -/
def agrees (want : Option Value) (got : Value) : Bool := want.all fun v => v.same got

/-- A flag is missing or already as described. -/
def agreesFlag (want : Option Bool) (got : Bool) : Bool := want.all (· == got)

/-- Everything that the description asks for already holds. -/
def holdsOf (d : Descriptor) (p : Property) : Bool :=
  agreesFlag d.enumerable p.enumerable && agreesFlag d.configurable p.configurable &&
    match p with
    | .data v w _ _ => !d.isAccessor && agrees d.value v && agreesFlag d.writable w
    | .accessor g s _ _ => !d.isData && agrees d.get g && agrees d.set s

/-- The property that a change of kind starts from: the other kind with empty content and the same
attributes. -/
def switched : Property → Property
  | .data _ _ e c => .accessor .undefined .undefined e c
  | .accessor _ _ e c => .data .undefined false e c

/-- The content of the property with the described parts replaced. -/
def overwrite (d : Descriptor) : Property → Property
  | .data v w e c => .data (d.value.getD v) (d.writable.getD w) e c
  | .accessor g s e c => .accessor (d.get.getD g) (d.set.getD s) e c

/-- The property with all described parts replaced. -/
def update (d : Descriptor) (p : Property) : Property :=
  (d.overwrite p).withAttributes (d.enumerable.getD p.enumerable)
    (d.configurable.getD p.configurable)

/-- The description changes a property between value and accessors. -/
def switchesKind (d : Descriptor) (p : Property) : Bool := !d.isGeneric && p.isData != d.isData

/-- A property that is not configurable admits the described attributes: it stays so, and its
enumerability is not changed. -/
def keepsAttributes (d : Descriptor) (p : Property) : Bool :=
  p.configurable || (d.configurable != some true && agreesFlag d.enumerable p.enumerable)

/-- A property that is not configurable admits the described content: a value that is not writable
stays, and so do accessors. -/
def keepsContent (d : Descriptor) (p : Property) : Bool :=
  p.configurable ||
    match p with
    | .data v w _ _ => w || (d.writable != some true && agrees d.value v)
    | .accessor g s _ _ => agrees d.get g && agrees d.set s

/-- What a description makes of an existing property; `none` if the property does not admit it. -/
def redefine? (d : Descriptor) (p : Property) : Option Property :=
  if d.holdsOf p then some p
  else if !d.keepsAttributes p then none
  else if d.isGeneric then some (d.update p)
  else if d.switchesKind p then if p.configurable then some (d.update (switched p)) else none
  else if d.keepsContent p then some (d.update p)
  else none

end Descriptor

end Ecma51
