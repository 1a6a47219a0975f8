import Mathlib.Algebra.Order.Ring.Nat
import Ecma51.Library
import Ecma51.Proofs.PropertyTable
import Ecma51.Realm

/-!
# Objects as they are made

Two kinds of objects have something to show from the start: an array has a length above its indices,
and an arguments object shares nothing yet.

* `Object.LengthIs`, `Object.Below`: the length of an array and the indices below it.
* `Object.Made`: what holds of every object that the library makes.
-/

namespace Ecma51

/-! ## 1. Keys of numbers -/

theorem Key.ofNat_val (i : ArrayIndex) : Key.ofNat i.val = .index i := by
  unfold ofNat ArrayIndex.ofNat?
  rw [dif_pos i.isLt]

theorem Key.eq_of_ofNat_eq_index {n : Nat} {i : ArrayIndex} (h : Key.ofNat n = .index i) :
    n = i.val := by
  unfold ofNat ArrayIndex.ofNat? at h
  by_cases hn : n < indexLimit
  · rw [dif_pos hn] at h
    exact congrArg Fin.val (Key.index.inj h)
  · rw [dif_neg hn] at h
    cases h

/-- A name that is not `length`: a property that says nothing about the elements of an array. -/
def Key.isLabel (k : Key) : Bool := k.index?.isNone && k != .length

/-! ## 2. What is asked -/

namespace Object

/-- The length is a value that cannot be enumerated or removed. -/
def LengthIs (x : Object) (n : Nat) (w : Bool) : Prop :=
  x.properties.get? .length = some (.data (.ofNat n) w false false)

/-- Every index is below a number. -/
def Below (x : Object) (n : Nat) : Prop :=
  ∀ i : ArrayIndex, (x.properties.get? (.index i)).isSome → i.val < n

/-- The indices and the length are the same. -/
def SameElements (x y : Object) : Prop :=
  ∀ k : Key, k.isLabel = false → y.properties.get? k = x.properties.get? k

/-- The elements and the length are those of an array that was made with more elements than 32 bits
count. -/
def Oversize (x : Object) : Prop :=
  ∃ elements n, 2 ^ 32 ≤ n ∧ (arrayWith elements n).SameElements x

/-- What holds of every object that the library makes. -/
structure Made (x : Object) : Prop where
  array : x.kind = .array → ∃ n w, n < 2 ^ 32 ∧ x.LengthIs n w ∧ (x.Below n ∨ x.Oversize)
  arguments : ∀ a, x.kind = .arguments a → a.mapped = []

end Object

/-- The kind asks nothing of an object. -/
def Kind.isPlain : Kind → Bool
  | .array | .arguments _ => false
  | _ => true

theorem Object.made_of_isPlain {x : Object} (h : x.kind.isPlain = true) : x.Made where
  array hk := by
    rw [hk] at h
    cases h
  arguments a hk := by
    rw [hk] at h
    cases h

theorem Object.kind_foldl_withProperty {ι : Type} (k : ι → Key) (p : ι → Property) (l : List ι)
    (x : Object) : (l.foldl (fun x i => x.withProperty (k i) (p i)) x).kind = x.kind := by
  induction l generalizing x with
  | nil => rfl
  | cons i l ih => exact ih _

/-! ## 3. Arrays -/

theorem wrap32_lt (n : Nat) : wrap32 n < 2 ^ 32 := Nat.mod_lt _ (by decide)

theorem wrap32_of_lt {n : Nat} (h : n < 2 ^ 32) : wrap32 n = n := Nat.mod_eq_of_lt h

namespace Object.SameElements

variable {x y z : Object}

theorem trans (h : x.SameElements y) (h' : y.SameElements z) : x.SameElements z :=
  fun k hk => (h' k hk).trans (h k hk)

theorem lengthIs (h : x.SameElements y) {n : Nat} {w : Bool} : y.LengthIs n w ↔ x.LengthIs n w := by
  unfold LengthIs
  rw [h .length rfl]

theorem below (h : x.SameElements y) {n : Nat} : y.Below n ↔ x.Below n := by
  unfold Below
  refine forall_congr' fun i => ?_
  rw [h (.index i) rfl]

end Object.SameElements

theorem Object.sameElements_withProperty (x : Object) {k : Key} (hk : k.isLabel = true)
    (p : Property) : x.SameElements (x.withProperty k p) := by
  intro j hj
  refine PropertyTable.get?_insert_of_ne _ p ?_
  rintro rfl
  rw [hk] at hj
  cases hj

theorem get?_foldl_elements {elements : List (Value × Nat)} {t : PropertyTable} {i : ArrayIndex}
    (h : ((elements.foldl (fun t (v, i) => t.insert (.ofNat (wrap32 i)) (.plain v)) t).get?
      (.index i)).isSome) :
    (∃ e ∈ elements, wrap32 e.2 = i.val) ∨ (t.get? (.index i)).isSome := by
  induction elements generalizing t with
  | nil => exact .inr h
  | cons e elements ih =>
    rcases ih h with ⟨e', he', hi⟩ | hrest
    · exact .inl ⟨e', List.mem_cons_of_mem _ he', hi⟩
    · rw [PropertyTable.get?_insert] at hrest
      split at hrest
      · rename_i hk
        exact .inl ⟨e, List.mem_cons_self, Key.eq_of_ofNat_eq_index hk⟩
      · exact .inr hrest

theorem properties_arrayWith (elements : List (Value × Nat)) (n : Nat) :
    (arrayWith elements n).properties =
      (elements.foldl (fun t (v, i) => t.insert (.ofNat (wrap32 i)) (.plain v))
        PropertyTable.empty).insert .length (.data (.ofNat (wrap32 n)) true false false) := rfl

theorem lengthIs_arrayWith (elements : List (Value × Nat)) (n : Nat) :
    (arrayWith elements n).LengthIs (wrap32 n) true := by
  unfold Object.LengthIs
  rw [properties_arrayWith]
  exact PropertyTable.get?_insert_self _ _ _

/-- Indices that 32 bits count are where they were meant to be. -/
theorem below_arrayWith {elements : List (Value × Nat)} {n : Nat} (h : ∀ e ∈ elements, e.2 < n)
    (hn : n < 2 ^ 32) : (arrayWith elements n).Below n := by
  intro i hi
  rw [properties_arrayWith, PropertyTable.get?_insert_of_ne _ _ (Key.length_ne_index i)] at hi
  rcases get?_foldl_elements hi with ⟨e, he, hei⟩ | hempty
  · have hlt := h e he
    rw [wrap32_of_lt (by omega)] at hei
    omega
  · rw [PropertyTable.get?_empty] at hempty
    cases hempty

/-- An array with elements below its length, and whatever other properties. -/
theorem made_of_sameElements {x : Object} (hkind : x.kind = .array) {elements : List (Value × Nat)}
    {n : Nat} (hx : (arrayWith elements n).SameElements x) (h : ∀ e ∈ elements, e.2 < n) :
    x.Made where
  array _ := by
    refine ⟨wrap32 n, true, wrap32_lt n, hx.lengthIs.mpr (lengthIs_arrayWith elements n), ?_⟩
    by_cases hn : n < 2 ^ 32
    · rw [wrap32_of_lt hn]
      exact .inl (hx.below.mpr (below_arrayWith h hn))
    · exact .inr ⟨elements, n, Nat.le_of_not_lt hn, hx⟩
  arguments a hk := by
    rw [hkind] at hk
    cases hk

theorem made_arrayWith {elements : List (Value × Nat)} {n : Nat} (h : ∀ e ∈ elements, e.2 < n) :
    (arrayWith elements n).Made := made_of_sameElements rfl (fun _ _ => rfl) h

theorem snd_lt_of_mem_zipIdx {items : List Value} {e : Value × Nat} (h : e ∈ items.zipIdx) :
    e.2 < items.length := by
  have := List.snd_lt_of_mem_zipIdx h
  omega

@[grind ←] theorem made_arrayOf (items : List Value) : (arrayOf items).Made :=
  made_arrayWith fun _ => snd_lt_of_mem_zipIdx

@[grind ←] theorem made_arrayOfLength (n : Nat) : (arrayOfLength n).Made :=
  made_arrayWith fun _ h => absurd h List.not_mem_nil

@[grind ←] theorem made_literalArray (items : List Value) : (literalArray items).Made :=
  made_arrayWith fun _ h => snd_lt_of_mem_zipIdx (List.mem_filter.mp h).1

@[grind ←] theorem made_matchObject (m : Pattern.Match) (subject : Text) :
    (matchObject m subject).Made := by
  have h : (arrayOf (matchValues m subject)).SameElements (matchObject m subject) :=
    (Object.sameElements_withProperty _ (by decide) _).trans
      (Object.sameElements_withProperty _ (by decide) _)
  exact made_of_sameElements rfl h fun _ => snd_lt_of_mem_zipIdx

/-! ## 4. Other objects -/

@[grind ←] theorem made_ofKind {className : String} {p : Option ObjectId} {k : Kind}
    (h : k.isPlain = true) : (Object.ofKind className p k).Made := Object.made_of_isPlain h

@[grind ←] theorem made_ordinary (p : Option ObjectId) : (Object.ordinary p).Made :=
  made_ofKind rfl

@[grind ←] theorem made_stringObject (t : Text) : (stringObject t).Made :=
  Object.made_of_isPlain rfl

theorem made_wrapperOf {v : Value} {x : Object} (h : wrapperOf? v = some x) : x.Made := by
  cases v with
  | boolean b => exact Option.some.inj h ▸ made_ofKind rfl
  | number n => exact Option.some.inj h ▸ made_ofKind rfl
  | string t => exact Option.some.inj h ▸ made_stringObject t
  | _ => cases h

@[grind ←] theorem made_errorOf (kind : ErrorKind) (message : Text) : (errorOf kind message).Made := by
  refine Object.made_of_isPlain ?_
  unfold errorOf
  split <;> rfl

@[grind ←] theorem made_regExpObject (r : RegExp) : (regExpObject r).Made :=
  Object.made_of_isPlain rfl

@[grind ←] theorem made_descriptorObject (p : Property) : (descriptorObject p).Made := by
  refine Object.made_of_isPlain ?_
  unfold descriptorObject
  rw [Object.kind_foldl_withProperty]
  rfl

theorem kind_poisoned (names : List String) (x : Object) : (poisoned names x).kind = x.kind :=
  Object.kind_foldl_withProperty _ _ names x

@[grind ←] theorem made_nativeFunction (name : Text) (call : Builtin) (construct : Option Builtin)
    (length : Nat) : (nativeFunction name call construct length).Made :=
  Object.made_of_isPlain rfl

@[grind ←] theorem made_boundFunction (target : ObjectId) (this : Value) (args : List Value)
    (length : Double) : (boundFunction target this args length).Made := by
  refine Object.made_of_isPlain ?_
  unfold boundFunction
  rw [kind_poisoned]
  rfl

theorem kind_argumentsObject (callee : Value) (args : List Value) (e : EnvironmentId)
    (strict : Bool) : (argumentsObject callee args e strict).kind = .arguments ⟨e, []⟩ := by
  unfold argumentsObject
  split
  · rw [kind_poisoned]
    exact Object.kind_foldl_withProperty (fun a : Value × Nat => Key.ofNat a.2) _ _ _
  · exact Object.kind_foldl_withProperty (fun a : Value × Nat => Key.ofNat a.2) _ _ _

@[grind ←] theorem made_argumentsObject (callee : Value) (args : List Value) (e : EnvironmentId)
    (strict : Bool) : (argumentsObject callee args e strict).Made where
  array hk := by
    rw [kind_argumentsObject] at hk
    cases hk
  arguments a hk := by
    rw [kind_argumentsObject] at hk
    cases hk
    rfl

theorem made_skeleton (i : Intrinsic) : i.skeleton.Made := by
  cases i with
  | arrayPrototype =>
    have h : (arrayWith [] 0).SameElements Intrinsic.arrayPrototype.skeleton := fun _ _ => rfl
    exact made_of_sameElements rfl h fun _ h => absurd h List.not_mem_nil
  | errorPrototype kind => cases kind <;> exact Object.made_of_isPlain rfl
  | _ => exact Object.made_of_isPlain rfl

end Ecma51
