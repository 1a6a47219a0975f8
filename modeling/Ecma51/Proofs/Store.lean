import Mathlib.Logic.Relation
import Ecma51.Heap.Chain
import Ecma51.Heap.Own
import Ecma51.Proofs.PropertyTable

/-!
# What operations on own properties touch

Defining and deleting own properties changes one object, and its properties one at a time. The rules for
the kinds come down to three things: a property is stored that the object admits, a configurable one is
removed, or an index of an arguments object stops being shared.

* `Heap.Touches`: only one object is changed.
* `Object.own?`: an own property without the value of a shared parameter.
* `Heap.Admits`: what may be stored under a key.
* `Heap.defineOrdinary_cases`, `Heap.deleteOwn_cases`: all that these operations can do.
-/

namespace Ecma51

namespace Heap

/-! ## 1. Objects -/

theorem object_set (h : Heap) (o o' : ObjectId) (x : Object) :
    (h.set o x).object o' = if o = o' then x else h.object o' := by
  unfold object set
  rw [Std.TreeMap.getD_insert]
  simp only [Std.LawfulEqCmp.compare_eq_iff_eq]

@[simp] theorem object_set_self (h : Heap) (o : ObjectId) (x : Object) : (h.set o x).object o = x := by
  rw [object_set, if_pos rfl]

theorem object_set_of_ne (h : Heap) {o o' : ObjectId} (x : Object) (ho : o' ≠ o) :
    (h.set o x).object o' = h.object o' := by
  rw [object_set, if_neg ho.symm]

@[simp] theorem object_modify_self (h : Heap) (o : ObjectId) (f : Object → Object) :
    (h.modify o f).object o = f (h.object o) := object_set_self h o _

@[simp] theorem object_store_self (h : Heap) (o : ObjectId) (k : Key) (p : Property) :
    (h.store o k p).object o = (h.object o).withProperty k p := object_modify_self h o _

theorem object_add (h : Heap) (x : Object) (o : ObjectId) :
    (h.add x).1.object o = if h.nextObject = o then x else h.object o :=
  object_set h h.nextObject o x

theorem object_of_objects {h h' : Heap} (hobjects : h'.objects = h.objects) (o : ObjectId) :
    h'.object o = h.object o := by
  unfold object
  rw [hobjects]

/-! ## 2. One object -/

/-- At most the object with the given number is changed, and none is added. -/
structure Touches (o : ObjectId) (h h' : Heap) : Prop where
  other : ∀ o', o' ≠ o → h'.object o' = h.object o'
  nextObject : h'.nextObject = h.nextObject

namespace Touches

variable {o : ObjectId} {h h' h'' : Heap}

theorem refl (o : ObjectId) (h : Heap) : Touches o h h := ⟨fun _ _ => rfl, rfl⟩

theorem trans (h₁ : Touches o h h') (h₂ : Touches o h' h'') : Touches o h h'' :=
  ⟨fun o' ho => (h₂.other o' ho).trans (h₁.other o' ho), h₂.nextObject.trans h₁.nextObject⟩

/-- What relates the one object before and after relates all of them. -/
theorem relates {R : Object → Object → Prop} (ht : Touches o h h') (hR : ∀ x, R x x)
    (hself : R (h.object o) (h'.object o)) (o' : ObjectId) : R (h.object o') (h'.object o') := by
  by_cases ho : o' = o
  · rw [ho]
    exact hself
  · rw [ht.other o' ho]
    exact hR _

end Touches

theorem touches_set (h : Heap) (o : ObjectId) (x : Object) : Touches o h (h.set o x) :=
  ⟨fun _ ho => object_set_of_ne h x ho, rfl⟩

theorem touches_modify (h : Heap) (o : ObjectId) (f : Object → Object) :
    Touches o h (h.modify o f) := touches_set h o _

theorem touches_store (h : Heap) (o : ObjectId) (k : Key) (p : Property) :
    Touches o h (h.store o k p) := touches_modify h o _

theorem object_modifyBindings (h : Heap) (e : EnvironmentId) (f : Bindings → Bindings)
    (o : ObjectId) : (h.modifyBindings e f).object o = h.object o := by
  unfold modifyBindings
  split
  · rfl
  · rfl

theorem touches_modifyBindings (h : Heap) (o : ObjectId) (e : EnvironmentId)
    (f : Bindings → Bindings) : Touches o h (h.modifyBindings e f) := by
  refine ⟨fun o' _ => object_modifyBindings h e f o', ?_⟩
  unfold modifyBindings
  split
  · rfl
  · rfl

theorem object_passOn (h : Heap) (e : EnvironmentId) (name : Text) (v : Option Value)
    (o : ObjectId) : (h.passOn e name v).object o = h.object o := by
  cases v with
  | none => rfl
  | some v => exact object_modifyBindings h e _ o

theorem touches_passOn (h : Heap) (o : ObjectId) (e : EnvironmentId) (name : Text)
    (v : Option Value) : Touches o h (h.passOn e name v) := by
  cases v with
  | none => exact .refl o h
  | some v => exact touches_modifyBindings h o e _

end Heap

/-! ## 3. Own properties -/

theorem Object.kind_of_isArray {x : Object} (h : x.isArray = true) : x.kind = .array := by
  unfold isArray at h
  split at h
  · assumption
  · cases h

/-- An own property, with the value that is stored with it. -/
def Object.own? (x : Object) (k : Key) : Option Property :=
  match x.kind with
  | .string t => (x.properties.get? k).or (Heap.unitProperty? t k)
  | _ => x.properties.get? k

/-- The object after an index of it has stopped being shared. -/
def Object.unmapped (x : Object) (k : Key) : Object :=
  match x.kind, k.index? with
  | .arguments a, some i => { x with kind := .arguments (a.unmap i) }
  | _, _ => x

/-- The kinds differ at most in what an arguments object shares. -/
inductive Kind.Alike : Kind → Kind → Prop where
  | refl (k : Kind) : Alike k k
  | arguments (a a' : ArgumentsData) : Alike (.arguments a) (.arguments a')

theorem Kind.Alike.trans {k k' k'' : Kind} (h : k.Alike k') (h' : k'.Alike k'') : k.Alike k'' := by
  cases h with
  | refl => exact h'
  | arguments a a' =>
    cases h' with
    | refl => exact .arguments a a'
    | arguments _ a'' => exact .arguments a a''

/-- Strings are alike only if they are the same. -/
theorem Kind.Alike.text {k k' : Kind} (h : k.Alike k') (t : Text) : k' = .string t ↔ k = .string t := by
  cases h with
  | refl => exact Iff.rfl
  | arguments a a' => exact ⟨Kind.noConfusion, Kind.noConfusion⟩

theorem Kind.Alike.array {k k' : Kind} (h : k.Alike k') : k' = .array ↔ k = .array := by
  cases h with
  | refl => exact Iff.rfl
  | arguments a a' => exact ⟨Kind.noConfusion, Kind.noConfusion⟩

theorem Kind.Alike.eq {k k' : Kind} (h : k.Alike k') (hk : ∀ a, k ≠ .arguments a) : k' = k := by
  cases h with
  | refl => rfl
  | arguments a a' => exact absurd rfl (hk a)

namespace Object

theorem own?_withProperty (x : Object) (k j : Key) (p : Property) :
    (x.withProperty k p).own? j = if k = j then some p else x.own? j := by
  unfold own? withProperty
  dsimp only
  rw [PropertyTable.get?_insert]
  by_cases hk : k = j
  · rw [if_pos hk, if_pos hk]
    split <;> rfl
  · rw [if_neg hk, if_neg hk]

@[simp] theorem get?_withProperty_self (x : Object) (k : Key) (p : Property) :
    (x.withProperty k p).properties.get? k = some p := PropertyTable.get?_insert_self _ _ _

theorem get?_withProperty_of_ne (x : Object) {k j : Key} (hk : k ≠ j) (p : Property) :
    (x.withProperty k p).properties.get? j = x.properties.get? j :=
  PropertyTable.get?_insert_of_ne _ p hk

@[simp] theorem get?_withoutProperty_self (x : Object) (k : Key) :
    (x.withoutProperty k).properties.get? k = none := PropertyTable.get?_erase_self _ _

theorem get?_withoutProperty_of_ne (x : Object) {k j : Key} (hk : k ≠ j) :
    (x.withoutProperty k).properties.get? j = x.properties.get? j :=
  PropertyTable.get?_erase_of_ne _ hk

theorem own?_withoutProperty_of_ne (x : Object) {k j : Key} (hk : k ≠ j) :
    (x.withoutProperty k).own? j = x.own? j := by
  unfold own? withoutProperty
  dsimp only
  rw [PropertyTable.get?_erase_of_ne _ hk]

@[simp] theorem properties_unmapped (x : Object) (k : Key) :
    (x.unmapped k).properties = x.properties := by
  unfold unmapped
  split <;> rfl

@[simp] theorem extensible_unmapped (x : Object) (k : Key) :
    (x.unmapped k).extensible = x.extensible := by
  unfold unmapped
  split <;> rfl

@[simp] theorem prototype_unmapped (x : Object) (k : Key) : (x.unmapped k).prototype = x.prototype := by
  unfold unmapped
  split <;> rfl

@[simp] theorem own?_unmapped (x : Object) (k : Key) : (x.unmapped k).own? = x.own? := by
  unfold unmapped
  split
  · rename_i hkind _
    unfold own?
    rw [hkind]
  · rfl

theorem alike_unmapped (x : Object) (k : Key) : x.kind.Alike (x.unmapped k).kind := by
  unfold unmapped
  split
  · rename_i hkind _
    rw [hkind]
    exact .arguments _ _
  · exact .refl _

/-- Only indices can be units of a string. -/
theorem own?_name (x : Object) (t : Text) : x.own? (.name t) = x.properties.get? (.name t) := by
  unfold own?
  split
  · exact Option.or_none
  · rfl

theorem own?_of_arguments {x : Object} {a : ArgumentsData} (h : x.kind = .arguments a) (k : Key) :
    x.own? k = x.properties.get? k := by
  unfold own?
  rw [h]

end Object

namespace Heap

/-- The value of the parameter that a key of an object stands for, if it stands for one. -/
def shared? (h : Heap) (o : ObjectId) (k : Key) : Option Value :=
  (h.argumentsOf? o).bind (h.mappedValue? · k)

/-- An own property is seen with the value of the parameter that it stands for. -/
theorem getOwn?_eq (h : Heap) (o : ObjectId) (k : Key) :
    h.getOwn? o k = ((h.object o).own? k).map fun p => showing p (h.shared? o k) := by
  have hnone (p : Property) : showing p none = p := by
    cases p <;> rfl
  unfold getOwn? Object.own? shared? argumentsOf?
  dsimp only
  cases (h.object o).kind with
  | arguments a => rfl
  | _ => simp only [Option.bind_none, hnone, Option.map_id']

/-- What is seen of an object depends on the object and on the environments. -/
theorem getOwn?_of_environments {h h' : Heap} {o : ObjectId} (hobject : h'.object o = h.object o)
    (he : h'.environments = h.environments) (k : Key) : h'.getOwn? o k = h.getOwn? o k := by
  unfold getOwn? mappedValue? bindings? environment
  rw [hobject, he]

/-- Units of strings apart, the own keys are those that are stored. -/
theorem ownKeys_of_stored {h : Heap} {o : ObjectId} (hkind : ∀ t, (h.object o).kind ≠ .string t) :
    h.ownKeys o = (h.object o).properties.keys := by
  unfold ownKeys PropertyTable.keys
  dsimp only
  split
  · rename_i t ht
    exact absurd ht (hkind t)
  · rfl

theorem own?_of_stored {x : Object} (hkind : ∀ t, x.kind ≠ .string t) (k : Key) :
    x.own? k = x.properties.get? k := by
  unfold Object.own?
  split
  · rename_i t ht
    exact absurd ht (hkind t)
  · rfl

theorem exists_own_of_getOwn {h : Heap} {o : ObjectId} {k : Key} {p : Property} (hp : h.getOwn? o k = some p) :
    ∃ q, (h.object o).own? k = some q ∧ showing q (h.shared? o k) = p := by
  rw [getOwn?_eq] at hp
  exact Option.map_eq_some_iff.mp hp

theorem own_of_getOwn_none {h : Heap} {o : ObjectId} {k : Key} (hk : h.getOwn? o k = none) :
    (h.object o).own? k = none := by
  rw [getOwn?_eq] at hk
  exact Option.map_eq_none_iff.mp hk

/-- An own property is what is found. -/
theorem getProperty?_of_own {h : Heap} {o : ObjectId} {k : Key} {q : Property} (hq : h.getOwn? o k = some q) :
    h.getProperty? o k = some q := by
  unfold getProperty? findUpTo
  rw [hq, Option.some_or]

/-! ## 4. Defining -/

/-- A description makes this property of what is there, or creates it in an extensible object. -/
def Admits (h : Heap) (o : ObjectId) (k : Key) (d : Descriptor) (q : Property) : Prop :=
  (h.getOwn? o k = none ∧ (h.object o).extensible = true ∧ q = d.fresh) ∨
    ∃ p, h.getOwn? o k = some p ∧ d.redefine? p = some q

/-- **All that the definition of an ordinary property can do**: it is refused, it has nothing to do, or
it stores what the object admits. -/
theorem defineOrdinary_cases (h : Heap) (o : ObjectId) (k : Key) (d : Descriptor) :
    (∃ f, h.defineOrdinary o k d = .refused h f) ∨
    (h.defineOrdinary o k d = .done h ∧ ∃ p, h.getOwn? o k = some p ∧ d.holdsOf p = true) ∨
    ∃ q, h.defineOrdinary o k d = .done (h.store o k q) ∧ h.Admits o k d q := by
  unfold defineOrdinary
  cases hown : h.getOwn? o k with
  | none =>
    dsimp only
    by_cases he : (h.object o).extensible = true
    · rw [if_pos he]
      exact .inr (.inr ⟨_, rfl, .inl ⟨hown, he, rfl⟩⟩)
    · rw [if_neg he]
      exact .inl ⟨_, rfl⟩
  | some p =>
    dsimp only
    by_cases hd : d.holdsOf p = true
    · rw [if_pos hd]
      exact .inr (.inl ⟨rfl, p, rfl, hd⟩)
    · rw [if_neg hd]
      cases hq : d.redefine? p with
      | none => exact .inl ⟨_, rfl⟩
      | some q => exact .inr (.inr ⟨q, rfl, .inr ⟨p, hown, hq⟩⟩)

theorem touches_defineOrdinary (h : Heap) (o : ObjectId) (k : Key) (d : Descriptor) :
    Touches o h (h.defineOrdinary o k d).heap := by
  rcases h.defineOrdinary_cases o k d with ⟨f, hr⟩ | ⟨hr, _⟩ | ⟨q, hr, _⟩ <;> rw [hr]
  · exact .refl o h
  · exact .refl o h
  · exact touches_store h o k q

theorem object_defineOrdinary (h : Heap) (o : ObjectId) (k : Key) (d : Descriptor) :
    (h.defineOrdinary o k d).heap.object o = h.object o ∨
      ∃ q, (h.defineOrdinary o k d).heap.object o = (h.object o).withProperty k q ∧
        h.Admits o k d q := by
  rcases h.defineOrdinary_cases o k d with ⟨f, hr⟩ | ⟨hr, _⟩ | ⟨q, hr, hq⟩ <;> rw [hr]
  · exact .inl rfl
  · exact .inl rfl
  · exact .inr ⟨q, object_store_self h o k q, hq⟩

theorem argumentsOf?_of_kind {h : Heap} {o : ObjectId} {a : ArgumentsData}
    (hkind : (h.object o).kind = .arguments a) : h.argumentsOf? o = some a := by
  unfold argumentsOf?
  rw [hkind]

theorem kind_of_argumentsOf? {h : Heap} {o : ObjectId} {a : ArgumentsData}
    (ha : h.argumentsOf? o = some a) : (h.object o).kind = .arguments a := by
  unfold argumentsOf? at ha
  split at ha
  · rename_i hkind
    cases ha
    exact hkind
  · cases ha

theorem object_unmapArgument (h : Heap) (o : ObjectId) (k : Key) :
    (h.unmapArgument o k).object o = (h.object o).unmapped k := by
  unfold unmapArgument Object.unmapped argumentsOf?
  cases (h.object o).kind with
  | arguments a =>
    cases k.index? with
    | none => rfl
    | some i => exact object_modify_self h o _
  | _ => rfl

theorem touches_unmapArgument (h : Heap) (o : ObjectId) (k : Key) :
    Touches o h (h.unmapArgument o k) := by
  unfold unmapArgument
  split
  · exact touches_modify h o _
  · exact .refl o h

theorem touches_unmapIf {h h' : Heap} {o : ObjectId} (ht : Touches o h h') (k : Key) (c : Bool) :
    Touches o h (if c then h'.unmapArgument o k else h') := by
  cases c with
  | true => exact ht.trans (touches_unmapArgument h' o k)
  | false => exact ht

theorem object_unmapIf (h : Heap) (o : ObjectId) (k : Key) (c : Bool) :
    (if c then h.unmapArgument o k else h).object o =
      if c then (h.object o).unmapped k else h.object o := by
  cases c with
  | true => exact object_unmapArgument h o k
  | false => rfl

/-- The key stands for a parameter. -/
def IsShared (h : Heap) (o : ObjectId) (k : Key) : Prop :=
  ∃ a i, (h.object o).kind = .arguments a ∧ k.index? = some i ∧ (a.nameOf? i).isSome

/-- **All that the definition of a property of an arguments object can do**: that of an ordinary one,
after which the key may no longer be shared; if it is carried out, the key stays shared only as a value
that remains writable. -/
theorem defineArguments_cases (h : Heap) (o : ObjectId) (k : Key) (d : Descriptor) :
    Touches o h (h.defineArguments o k d).heap ∧
    ((h.defineArguments o k d).heap.object o =
        ((h.defineOrdinary o k d).heap.object o).unmapped k ∨
      (h.defineArguments o k d).heap.object o = (h.defineOrdinary o k d).heap.object o ∧
        ((h.defineOrdinary o k d).refusal = none → h.IsShared o k →
          d.isAccessor = false ∧ d.writable ≠ some false)) := by
  have hordinary := touches_defineOrdinary h o k d
  unfold defineArguments
  dsimp only
  split
  · rename_i e name hrefusal hshared
    split
    · exact ⟨hordinary.trans (touches_unmapArgument _ o k), .inl (object_unmapArgument _ o k)⟩
    · rename_i haccessor
      refine ⟨touches_unmapIf (hordinary.trans (touches_passOn _ o e name _)) k _, ?_⟩
      show (if d.writable == some false then _ else _ : Heap).object o = _ ∨
        (if d.writable == some false then _ else _ : Heap).object o = _ ∧ _
      rw [object_unmapIf, object_passOn]
      by_cases hw : d.writable = some false
      · exact .inl (if_pos (beq_iff_eq.mpr hw))
      · refine .inr ⟨if_neg (fun hb => hw (beq_iff_eq.mp hb)), fun _ _ => ⟨?_, hw⟩⟩
        exact Bool.eq_false_iff.mpr haccessor
  · rename_i hnot
    refine ⟨hordinary, .inr ⟨rfl, fun hdone hshared => ?_⟩⟩
    obtain ⟨a, i, hkind, hi, hname⟩ := hshared
    obtain ⟨name, hname⟩ := Option.isSome_iff_exists.mp hname
    refine absurd ?_ (hnot a.environment name hdone)
    rw [argumentsOf?_of_kind hkind, hi]
    show (a.nameOf? i).bind (fun x => some (a.environment, x)) = _
    rw [hname]
    rfl

/-! ## 5. Deleting -/

/-- **All that a deletion can do**: nothing, or it removes a configurable property. -/
theorem deleteOwn_cases (h : Heap) (o : ObjectId) (k : Key) :
    h.deleteOwn o k = .done h ∧ h.getOwn? o k = none ∨
    (∃ f p, h.deleteOwn o k = .refused h f ∧ h.getOwn? o k = some p ∧ p.configurable = false) ∨
    ∃ p, h.deleteOwn o k = .done ((h.modify o (·.withoutProperty k)).unmapArgument o k) ∧
      h.getOwn? o k = some p ∧ p.configurable = true := by
  unfold deleteOwn
  cases hown : h.getOwn? o k with
  | none => exact .inl ⟨rfl, rfl⟩
  | some p =>
    dsimp only
    by_cases hc : p.configurable = true
    · rw [if_pos hc]
      exact .inr (.inr ⟨p, rfl, rfl, hc⟩)
    · rw [if_neg hc]
      exact .inr (.inl ⟨_, p, rfl, rfl, Bool.eq_false_iff.mpr hc⟩)

theorem object_deleteOwn (h : Heap) (o : ObjectId) (k : Key) :
    (h.deleteOwn o k).heap.object o = h.object o ∨
      ∃ p, (h.deleteOwn o k).heap.object o = ((h.object o).withoutProperty k).unmapped k ∧
        h.getOwn? o k = some p ∧ p.configurable = true := by
  rcases h.deleteOwn_cases o k with ⟨hr, _⟩ | ⟨f, p, hr, _⟩ | ⟨p, hr, hown, hc⟩ <;> rw [hr]
  · exact .inl rfl
  · exact .inl rfl
  · refine .inr ⟨p, ?_, hown, hc⟩
    show (unmapArgument _ o k).object o = _
    rw [object_unmapArgument, object_modify_self]

theorem touches_deleteOwn (h : Heap) (o : ObjectId) (k : Key) :
    Touches o h (h.deleteOwn o k).heap := by
  rcases h.deleteOwn_cases o k with ⟨hr, _⟩ | ⟨f, p, hr, _⟩ | ⟨p, hr, _, _⟩ <;> rw [hr]
  · exact .refl o h
  · exact .refl o h
  · exact (touches_modify h o _).trans (touches_unmapArgument _ o k)

/-! ## 6. Amendments -/

/-- One step of a definition or deletion by the rules of the kinds. -/
inductive Amend (o : ObjectId) : Heap → Heap → Prop where
  | ordinary {h : Heap} (k : Key) (d : Descriptor) : ¬ h.IsShared o k →
      Amend o h (h.defineOrdinary o k d).heap
  | arguments {h : Heap} (k : Key) (d : Descriptor) : Amend o h (h.defineArguments o k d).heap
  | delete {h : Heap} (k : Key) : Amend o h (h.deleteOwn o k).heap

/-- Any number of such steps. -/
abbrev Amends (o : ObjectId) : Heap → Heap → Prop := Relation.ReflTransGen (Amend o)

theorem not_isShared_length (h : Heap) (o : ObjectId) : ¬ h.IsShared o .length := by
  rintro ⟨a, i, _, hi, _⟩
  cases hi

theorem not_isShared_of_kind {h : Heap} {o : ObjectId} (hkind : ∀ a, (h.object o).kind ≠ .arguments a)
    (k : Key) : ¬ h.IsShared o k := fun ⟨a, _, ha, _⟩ => hkind a ha

theorem amends_defineLength (h : Heap) (o : ObjectId) (d : Descriptor) :
    Amends o h (h.defineOrdinary o .length d).heap :=
  .single (.ordinary _ _ (h.not_isShared_length o))

theorem amends_defineElement {h : Heap} {o : ObjectId} (hkind : (h.object o).kind = .array)
    (i : ArrayIndex) (d : Descriptor) (oldLength : Nat) (lengthWritable : Bool) :
    Amends o h (h.defineElement o i d oldLength lengthWritable).heap := by
  have hfirst : Amend o h (h.defineOrdinary o (.index i) d).heap :=
    .ordinary _ _ (not_isShared_of_kind (fun a ha => by rw [hkind] at ha; cases ha) _)
  unfold defineElement
  split
  · exact .refl
  · dsimp only
    split
    · exact .single hfirst
    · split
      · exact .head hfirst (amends_defineLength _ o _)
      · exact .single hfirst

/-- **A definition is a sequence of such steps**, whatever the kind of the object. -/
theorem amends_define (h : Heap) (o : ObjectId) (k : Key) (d : Descriptor) :
    Amends o h (h.define o k d).heap := by
  unfold define
  split
  · rename_i hkind
    exact amends_defineElement hkind _ d _ _
  · exact .single (.arguments _ d)
  · rename_i harguments _
    exact .single (.ordinary _ d (not_isShared_of_kind (fun a ha => harguments a ha) _))

theorem amends_deleteElements (h : Heap) (o : ObjectId) (l : List ArrayIndex) :
    Amends o h (h.deleteElements o l).1 := by
  induction l generalizing h with
  | nil => exact .refl
  | cons i l ih =>
    unfold deleteElements
    dsimp only
    split
    · exact .head (.delete _) (ih _)
    · exact .single (.delete _)

theorem amends_cutElements (h : Heap) (o : ObjectId) (d : Descriptor) (newLength : Nat)
    (freezes : Bool) : Amends o h (h.cutElements o d newLength freezes).heap := by
  unfold cutElements
  dsimp only
  have hcut := amends_deleteElements h o
    (((h.object o).properties.indexKeys.filter fun i => newLength ≤ i.val).reverse)
  split
  · rename_i h' i hdeleted
    have hdone : Amends o h h' := by
      rw [hdeleted] at hcut
      exact hcut
    exact hdone.trans (amends_defineLength h' o _)
  · rename_i h' hdeleted
    have hdone : Amends o h h' := by
      rw [hdeleted] at hcut
      exact hcut
    cases freezes with
    | true => exact hdone.trans (amends_defineLength h' o _)
    | false => exact hdone

/-- **Setting a length is a sequence of such steps**, whatever length was found before. -/
theorem amends_setLength (h : Heap) (o : ObjectId) (d : Descriptor) (newLength oldLength : Nat)
    (lengthWritable : Bool) :
    Amends o h (h.setLength o d newLength oldLength lengthWritable).heap := by
  have hcut (d' : Descriptor) (freezes : Bool) : Amends o h
      (if (h.defineOrdinary o .length d').succeeded then
        (h.defineOrdinary o .length d').heap.cutElements o d' newLength freezes
      else h.defineOrdinary o .length d').heap := by
    split
    · exact (amends_defineLength h o d').trans (amends_cutElements _ o d' newLength freezes)
    · exact amends_defineLength h o d'
  unfold setLength
  dsimp only
  split
  · exact amends_defineLength h o _
  · split
    · exact .refl
    · exact hcut _ _

theorem Amend.touches {o : ObjectId} {h h' : Heap} (ha : Amend o h h') : Touches o h h' := by
  cases ha with
  | ordinary k d _ => exact touches_defineOrdinary h o k d
  | arguments k d => exact (h.defineArguments_cases o k d).1
  | delete k => exact touches_deleteOwn h o k

theorem Amends.touches {o : ObjectId} {h h' : Heap} (ha : Amends o h h') : Touches o h h' := by
  induction ha with
  | refl => exact .refl o h
  | tail _ hstep ih => exact ih.trans hstep.touches

theorem alike_defineOrdinary (h : Heap) (o : ObjectId) (k : Key) (d : Descriptor) :
    (h.object o).kind.Alike ((h.defineOrdinary o k d).heap.object o).kind := by
  rcases h.object_defineOrdinary o k d with hsame | ⟨q, hstored, _⟩
  · rw [hsame]
    exact .refl _
  · rw [hstored]
    exact .refl _

theorem Amend.alike {o : ObjectId} {h h' : Heap} (ha : Amend o h h') :
    (h.object o).kind.Alike (h'.object o).kind := by
  cases ha with
  | ordinary k d _ => exact alike_defineOrdinary h o k d
  | arguments k d =>
    have hordinary := alike_defineOrdinary h o k d
    rcases (h.defineArguments_cases o k d).2 with hobject | ⟨hobject, _⟩ <;> rw [hobject]
    · exact hordinary.trans (Object.alike_unmapped _ k)
    · exact hordinary
  | delete k =>
    rcases h.object_deleteOwn o k with hsame | ⟨p, hremoved, _⟩
    · rw [hsame]
      exact .refl _
    · rw [hremoved]
      exact Object.alike_unmapped ((h.object o).withoutProperty k) k

theorem Amends.alike {o : ObjectId} {h h' : Heap} (ha : Amends o h h') :
    (h.object o).kind.Alike (h'.object o).kind := by
  induction ha with
  | refl => exact .refl _
  | tail _ hstep ih => exact ih.trans hstep.alike

end Heap

end Ecma51
