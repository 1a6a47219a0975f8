import Ecma51.Proofs.Built
import Ecma51.Proofs.Collection
import Ecma51.Proofs.Store

/-!
# How a heap changes

A heap changes only in a few ways, whatever runs. Objects that are older than a given number are changed
only by the rules for own properties; what is newer may also be completed. What is kept survives every
collection. The length of an array is set given the length that was found before the value for it was
converted, and meanwhile there may be other changes.

* `Heap.Edit`: one change.
* `Heap.Evolves`: any number of changes.
-/

namespace Ecma51

/-! ## 1. Changes -/

/-- At most properties under names other than `length` are added or replaced. -/
structure Object.Completes (x y : Object) : Prop where
  kind : y.kind = x.kind
  elements : x.SameElements y

theorem Object.completes_withProperty (x : Object) {k : Key} (hk : k.isLabel = true) (p : Property) :
    x.Completes (x.withProperty k p) := ⟨rfl, x.sameElements_withProperty hk p⟩

theorem Object.completes_poisoned {names : List String}
    (hnames : ∀ n ∈ names, (Key.ofString n).isLabel = true) (x : Object) :
    x.Completes (poisoned names x) := by
  induction names generalizing x with
  | nil => exact ⟨rfl, fun _ _ => rfl⟩
  | cons n names ih =>
    have hfirst := x.completes_withProperty (hnames n List.mem_cons_self)
      (.accessor (.object Intrinsic.throwTypeError.id) (.object Intrinsic.throwTypeError.id) false
        false)
    have hrest := ih (fun n hn => hnames n (List.mem_cons_of_mem _ hn))
      (x.withProperty (.ofString n) (.accessor (.object Intrinsic.throwTypeError.id)
        (.object Intrinsic.throwTypeError.id) false false))
    exact ⟨hrest.kind.trans hfirst.kind, hfirst.elements.trans hrest.elements⟩

namespace Heap

/-- The object is a date, or ordinary as one that is gone. -/
def MayBeDate (x : Object) : Prop := x.kind = .ordinary ∨ ∃ t, x.kind = .date t

/-- A change of the heap. Objects below `bound` are old, the `kept` values survive, and these are the
lengths of arrays, with their writability, that were `found` before. -/
inductive Edit (bound : ObjectId) (kept : List Value) (found : ObjectId → Nat × Bool) :
    Heap → Heap → Prop where
  /-- A new object. -/
  | add {h : Heap} {x : Object} : x.Made → Edit bound kept found h (h.add x).1
  | environments {h h' : Heap} : h.SameObjects h' → Edit bound kept found h h'
  /-- A definition that gives no length to an array. -/
  | define {h : Heap} (o : ObjectId) (k : Key) (d : Descriptor) :
      lengthValue? (h.object o) k d = none → Edit bound kept found h (h.define o k d).heap
  /-- A new length. -/
  | setLength {h : Heap} (o : ObjectId) (d : Descriptor) (newLength : Nat) : newLength < 2 ^ 32 →
      Edit bound kept found h (h.setLength o d newLength (found o).1 (found o).2).heap
  | delete {h : Heap} (o : ObjectId) (k : Key) : Edit bound kept found h (h.deleteOwn o k).heap
  | close {h : Heap} (o : ObjectId) : Edit bound kept found h (h.preventExtensions o)
  | setPrototype {h h' : Heap} (o : ObjectId) (p : Option ObjectId) :
      h.setPrototype? o p = some h' → Edit bound kept found h h'
  /-- A writable index of an arguments object comes to stand for a parameter. -/
  | link {h : Heap} (o : ObjectId) {a : ArgumentsData} (i : Nat) (name : Text) :
      (h.object o).kind = .arguments a →
      (∀ j : ArrayIndex, j.val = i → ∃ v e c, h.stored? o (.index j) = some (.data v true e c)) →
      Edit bound kept found h (h.modify o fun x => { x with kind := .arguments (a.link i name) })
  /-- A new time for a date. -/
  | setTime {h : Heap} (o : ObjectId) (t : Double) : (o < bound → MayBeDate (h.object o)) →
      Edit bound kept found h (h.modify o fun x => { x with kind := .date t })
  /-- More properties of a new object. -/
  | complete {h : Heap} (o : ObjectId) (f : Object → Object) : bound ≤ o →
      (h.object o).Completes (f (h.object o)) → Edit bound kept found h (h.modify o f)
  /-- A collection. -/
  | collect {h : Heap} (outside : List Nat) :
      (∀ o, .object o ∈ kept → objectNode o ∈ outside) →
      Edit bound kept found h (h.collect outside [])

/-- Any number of changes, each with the lengths that were found at some time before it. -/
inductive Evolves (bound : ObjectId) (kept : List Value) : Heap → Heap → Prop where
  | refl {h : Heap} : Evolves bound kept h h
  | tail {h h₀ h₁ h₂ : Heap} : Evolves bound kept h h₀ → Evolves bound kept h₀ h₁ →
      Edit bound kept h₀.lengthOf h₁ h₂ → Evolves bound kept h h₂

section Monotone

variable {bound bound' : ObjectId} {kept kept' : List Value} {found : ObjectId → Nat × Bool}
  {h h' h'' : Heap}

namespace Evolves

/-- A change with the lengths as they are. -/
theorem single (hstep : Edit bound kept h.lengthOf h h') : Evolves bound kept h h' :=
  .tail .refl .refl hstep

theorem trans (he : Evolves bound kept h h') (he' : Evolves bound kept h' h'') :
    Evolves bound kept h h'' := by
  induction he' with
  | refl => exact he
  | tail _ hwindow hstep ih _ => exact .tail (ih he) hwindow hstep

theorem head (hstep : Edit bound kept h.lengthOf h h') (he : Evolves bound kept h' h'') :
    Evolves bound kept h h'' := (single hstep).trans he

end Evolves

/-- What is done to fewer old objects while more is kept is a change all the more. -/
theorem Edit.mono (he : Edit bound' kept' found h h') (hb : bound ≤ bound') (hk : kept ⊆ kept') :
    Edit bound kept found h h' := by
  cases he with
  | add hx => exact .add hx
  | environments hsame => exact .environments hsame
  | define o k d hd => exact .define o k d hd
  | setLength o d n hn => exact .setLength o d n hn
  | delete o k => exact .delete o k
  | close o => exact .close o
  | setPrototype o p hp => exact .setPrototype o p hp
  | link o i name ha hw => exact .link o i name ha hw
  | setTime o t hkind => exact .setTime o t fun ho => hkind (Nat.lt_of_lt_of_le ho hb)
  | complete o f ho hf => exact .complete o f (Nat.le_trans hb ho) hf
  | collect outside hkept => exact .collect outside fun o ho => hkept o (hk ho)

theorem Evolves.mono (he : Evolves bound' kept' h h') (hb : bound ≤ bound') (hk : kept ⊆ kept') :
    Evolves bound kept h h' := by
  induction he with
  | refl => exact .refl
  | tail _ _ hstep ih ih' => exact .tail ih ih' (hstep.mono hb hk)

/-! ## 2. Which objects a change concerns -/

theorem touches_define (h : Heap) (o : ObjectId) (k : Key) (d : Descriptor) :
    Touches o h (h.define o k d).heap := (amends_define h o k d).touches

theorem touches_setPrototype {o : ObjectId} {p : Option ObjectId} (hp : h.setPrototype? o p = some h') :
    Touches o h h' ∧ (h'.object o = h.object o ∨
      h'.object o = { h.object o with prototype := p } ∧ (h.object o).extensible = true) := by
  unfold setPrototype? at hp
  dsimp only at hp
  split at hp
  · cases hp
    exact ⟨.refl o h, .inl rfl⟩
  · split at hp
    · cases hp
    · rename_i hextensible
      split at hp
      · cases hp
      · cases hp
        refine ⟨touches_set h o _, .inr ⟨object_set_self h o _, ?_⟩⟩
        simpa using hextensible

theorem Edit.nextObject_le (he : Edit bound kept found h h') : h.nextObject ≤ h'.nextObject := by
  cases he with
  | add _ => exact Nat.le_succ _
  | environments hsame => exact Nat.le_of_eq hsame.nextObject.symm
  | define o k d _ => exact Nat.le_of_eq (touches_define h o k d).nextObject.symm
  | setLength o d n _ =>
    exact Nat.le_of_eq (amends_setLength h o d n _ _).touches.nextObject.symm
  | delete o k => exact Nat.le_of_eq (touches_deleteOwn h o k).nextObject.symm
  | setPrototype o p hp => exact Nat.le_of_eq (touches_setPrototype hp).1.nextObject.symm
  | _ => exact Nat.le_refl _

theorem Evolves.nextObject_le (he : Evolves bound kept h h') : h.nextObject ≤ h'.nextObject := by
  induction he with
  | refl => exact Nat.le_refl _
  | tail _ _ hstep ih ih' => exact Nat.le_trans (Nat.le_trans ih ih') hstep.nextObject_le

/-- A collection keeps an object or removes it altogether; it keeps those that are referred to from
outside. -/
theorem object_collect (h : Heap) (outside borrowed : List Nat) (o : ObjectId) :
    (h.collect outside borrowed).object o = h.object o ∨
      (h.collect outside borrowed).object o = default ∧ objectNode o ∉ outside := by
  obtain ⟨hkept, hdropped⟩ := h.collect_objects outside borrowed o
  unfold object
  rw [Std.TreeMap.getD_eq_getD_getElem?, Std.TreeMap.getD_eq_getD_getElem?]
  by_cases hu : h.InUse outside borrowed (objectNode o)
  · exact .inl (by rw [hkept hu])
  · refine .inr ⟨by rw [hdropped hu]; rfl, fun ho => hu (.outside ho)⟩

theorem Amends.mayBeDate {o : ObjectId} (ha : Amends o h h') (hx : MayBeDate (h.object o)) :
    MayBeDate (h'.object o) := by
  have hkind := ha.alike
  unfold MayBeDate
  rcases hx with hx | ⟨t, hx⟩ <;> rw [hx] at hkind
  · exact .inl (hkind.eq fun _ => Kind.noConfusion)
  · exact .inr ⟨t, hkind.eq fun _ => Kind.noConfusion⟩

/-- The object may be a date afterwards if it may be one before. -/
abbrev StaysDate (x y : Object) : Prop := MayBeDate x → MayBeDate y

/-- What may be a date may be one after a change, too. -/
theorem Edit.mayBeDate (he : Edit bound kept found h h') {o : ObjectId} (ho : o < h.nextObject) :
    StaysDate (h.object o) (h'.object o) := by
  have hrefl : ∀ x, StaysDate x x := fun _ hx => hx
  cases he with
  | add _ =>
    rw [object_add, if_neg (Nat.ne_of_gt ho)]
    exact hrefl _
  | environments hsame =>
    rw [object_of_objects hsame.objects]
    exact hrefl _
  | define o' k d _ =>
    exact (touches_define h o' k d).relates hrefl (amends_define h o' k d).mayBeDate o
  | setLength o' d n _ =>
    have ha := amends_setLength h o' d n (found o').1 (found o').2
    exact ha.touches.relates hrefl ha.mayBeDate o
  | delete o' k =>
    have ha : Amends o' h (h.deleteOwn o' k).heap := .single (.delete k)
    exact ha.touches.relates hrefl ha.mayBeDate o
  | close o' =>
    refine (touches_modify h o' _).relates hrefl ?_ o
    rw [object_modify_self]
    exact hrefl _
  | setPrototype o' p hp =>
    obtain ⟨ht, hobject⟩ := touches_setPrototype hp
    refine ht.relates hrefl ?_ o
    rcases hobject with hsame | ⟨hset, _⟩
    · rw [hsame]
      exact hrefl _
    · rw [hset]
      exact hrefl _
  | link o' i name ha _ =>
    refine (touches_modify h o' _).relates hrefl (fun hx => ?_) o
    rcases hx with hx | ⟨t, hx⟩ <;> rw [hx] at ha <;> cases ha
  | setTime o' t _ =>
    refine (touches_modify h o' _).relates hrefl (fun _ => ?_) o
    rw [object_modify_self]
    exact .inr ⟨t, rfl⟩
  | complete o' f _ hf =>
    refine (touches_modify h o' f).relates hrefl ?_ o
    unfold StaysDate MayBeDate
    rw [object_modify_self, hf.kind]
    exact fun hx => hx
  | collect outside _ =>
    rcases h.object_collect outside [] o with hsame | ⟨hgone, _⟩
    · rw [hsame]
      exact hrefl _
    · rw [hgone]
      exact fun _ => .inl rfl

theorem Evolves.mayBeDate (he : Evolves bound kept h h') {o : ObjectId} (ho : o < h.nextObject)
    (hx : MayBeDate (h.object o)) : MayBeDate (h'.object o) := by
  induction he with
  | refl => exact hx
  | tail hto hwindow hstep ih ih' =>
    have ho₀ := Nat.lt_of_lt_of_le ho hto.nextObject_le
    exact hstep.mayBeDate (Nat.lt_of_lt_of_le ho₀ hwindow.nextObject_le) (ih' ho₀ (ih ho hx))

end Monotone

end Heap

end Ecma51
