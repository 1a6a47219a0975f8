import Ecma51.Proofs.Attributes

/-!
# Parameters and indices

An index of an arguments object may stand for a parameter. What is seen of the two depends on three things
only: the property stored under the index, the parameter for which it stands, and the bindings of the
activation. Every operation on the object or on a binding comes down to changes of one of the three.

* `Heap.parameterOf?`: the parameter for which an index stands.
* `Heap.valueOf?`: the value that a name is bound to.
* `Heap.Sharing`: what holds of an arguments object and the bindings of its activation.
* **`Heap.Sharing.shown`**: an index shows the value of its parameter.
-/

namespace Ecma51

/-! ## 1. Bindings -/

theorem lookup_cons_eq {α β : Type} [DecidableEq α] (k j : α) (x : β) (l : List (α × β)) :
    ((k, x) :: l).lookup j = if k = j then some x else l.lookup j := by
  rw [List.lookup_cons]
  by_cases h : k = j
  · rw [if_pos h, beq_iff_eq.mpr h.symm]
  · rw [if_neg h, beq_false_of_ne (Ne.symm h)]

namespace Bindings

theorem find?_put (b : Bindings) (name n : Text) (x : Binding) :
    (b.put name x).find? n = if name = n then some x else b.find? n := by
  unfold find?
  induction b with
  | nil => exact lookup_cons_eq name n x []
  | cons y b ih =>
    obtain ⟨m, y⟩ := y
    unfold put
    by_cases hm : m = name
    · subst hm
      rw [if_pos rfl, lookup_cons_eq, lookup_cons_eq]
      split <;> rfl
    · rw [if_neg hm, lookup_cons_eq, lookup_cons_eq, ih]
      by_cases hn : m = n
      · rw [if_pos hn, if_pos hn, if_neg fun h => hm (hn.trans h.symm)]
      · rw [if_neg hn, if_neg hn]

theorem find?_store (b : Bindings) (name n : Text) (v : Value) :
    (b.store name v).find? n =
      if name = n then (b.find? n).map ({ · with value := v }) else b.find? n := by
  unfold store
  cases hname : b.find? name with
  | some x =>
    show (b.put name { x with value := v }).find? n = _
    rw [find?_put]
    by_cases hn : name = n
    · rw [if_pos hn, if_pos hn, ← hn, hname]
      rfl
    · rw [if_neg hn, if_neg hn]
  | none =>
    show b.find? n = _
    by_cases hn : name = n
    · rw [if_pos hn, ← hn, hname]
      rfl
    · rw [if_neg hn]

end Bindings

/-! ## 2. What an arguments object shares -/

namespace ArgumentsData

theorem lookup_filter_ne (l : List (Nat × Text)) {i j : Nat} (h : i ≠ j) :
    (l.filter fun (k, _) => k != i).lookup j = l.lookup j := by
  induction l with
  | nil => rfl
  | cons x l ih =>
    obtain ⟨k, t⟩ := x
    by_cases hk : k = i
    · rw [List.filter_cons_of_neg (by simp [hk]), ih, lookup_cons_eq, if_neg (by rw [hk]; exact h)]
    · rw [List.filter_cons_of_pos (by simp [hk]), lookup_cons_eq, lookup_cons_eq, ih]

theorem nameOf?_unmap_eq (a : ArgumentsData) (i j : Nat) :
    (a.unmap i).nameOf? j = if i = j then none else a.nameOf? j := by
  by_cases h : i = j
  · rw [if_pos h]
    cases hname : (a.unmap i).nameOf? j with
    | none => rfl
    | some t => exact absurd h.symm (nameOf?_unmap hname).1
  · rw [if_neg h]
    exact lookup_filter_ne a.mapped h

theorem nameOf?_link_eq (a : ArgumentsData) (i j : Nat) (name : Text) :
    (a.link i name).nameOf? j = if i = j then some name else a.nameOf? j := by
  refine (lookup_cons_eq i j name _).trans ?_
  by_cases h : i = j
  · rw [if_pos h, if_pos h]
  · rw [if_neg h, if_neg h]
    exact lookup_filter_ne a.mapped h

end ArgumentsData

namespace Heap

variable (h : Heap) (o : ObjectId) (e : EnvironmentId)

/-- The parameter for which an index of an arguments object stands. -/
def parameterOf? (i : ArrayIndex) : Option Text := (h.argumentsOf? o).bind (·.nameOf? i.val)

/-- The value that a name is bound to in a declarative environment. -/
def valueOf? (name : Text) : Option Value :=
  ((h.bindings? e).bind (·.find? name)).map (·.value)

variable {h o e}

theorem argumentsOf?_of_object {h' : Heap} (hobject : h'.object o = h.object o) :
    h'.argumentsOf? o = h.argumentsOf? o := by
  unfold argumentsOf?
  rw [hobject]

theorem parameterOf?_of_object {h' : Heap} (hobject : h'.object o = h.object o) (i : ArrayIndex) :
    h'.parameterOf? o i = h.parameterOf? o i := by
  unfold parameterOf?
  rw [argumentsOf?_of_object hobject]

theorem valueOf?_of_bindings {h' : Heap} (hbindings : h'.bindings? e = h.bindings? e) (n : Text) :
    h'.valueOf? e n = h.valueOf? e n := by
  unfold valueOf?
  rw [hbindings]

/-! ## 3. Single changes -/

theorem argumentsOf?_store (k : Key) (p : Property) :
    (h.store o k p).argumentsOf? o = h.argumentsOf? o := by
  unfold argumentsOf?
  rw [object_store_self]
  rfl

theorem parameterOf?_store (k : Key) (p : Property) (i : ArrayIndex) :
    (h.store o k p).parameterOf? o i = h.parameterOf? o i := by
  unfold parameterOf?
  rw [argumentsOf?_store]

theorem stored?_store (k j : Key) (p : Property) :
    (h.store o k p).stored? o j = if k = j then some p else h.stored? o j := by
  unfold stored?
  rw [object_store_self]
  exact PropertyTable.get?_insert _ k j p

theorem bindings?_unmapArgument (k : Key) : (h.unmapArgument o k).bindings? e = h.bindings? e := by
  unfold unmapArgument
  split <;> rfl

theorem stored?_unmapArgument (k j : Key) : (h.unmapArgument o k).stored? o j = h.stored? o j := by
  unfold stored?
  rw [object_unmapArgument, Object.properties_unmapped]

/-- The state of an arguments object after the sharing of a key has ended. -/
theorem argumentsOf?_unmapArgument {a : ArgumentsData} (ha : h.argumentsOf? o = some a) (k : Key) :
    ∃ a', (h.unmapArgument o k).argumentsOf? o = some a' ∧ a'.environment = a.environment ∧
      ∀ i : ArrayIndex, a'.nameOf? i.val = if k = .index i then none else a.nameOf? i.val := by
  unfold unmapArgument
  rw [ha]
  cases k with
  | name t => exact ⟨a, ha, rfl, fun i => (if_neg Key.noConfusion).symm⟩
  | index j =>
    have hkind : ((h.modify o fun x => { x with kind := .arguments (a.unmap j.val) }).object o).kind =
        .arguments (a.unmap j.val) := by rw [object_modify_self]
    refine ⟨a.unmap j.val, argumentsOf?_of_kind hkind, rfl, fun i => ?_⟩
    rw [ArgumentsData.nameOf?_unmap_eq]
    exact if_congr (by rw [Key.index.injEq, Fin.ext_iff]) rfl rfl

theorem parameterOf?_unmapArgument (k : Key) (i : ArrayIndex) :
    (h.unmapArgument o k).parameterOf? o i = if k = .index i then none else h.parameterOf? o i := by
  unfold parameterOf?
  cases ha : h.argumentsOf? o with
  | none =>
    have hsame : h.unmapArgument o k = h := by
      unfold unmapArgument
      rw [ha]
    rw [hsame, ha]
    split <;> rfl
  | some a =>
    obtain ⟨a', ha', _, hname⟩ := argumentsOf?_unmapArgument ha k
    rw [ha']
    exact hname i

theorem bindings?_setRecord (b : Bindings) :
    (h.setRecord e (.declarative b)).bindings? e = some b := by
  unfold bindings? environment setRecord
  rw [Std.TreeMap.getD_insert_self]

theorem bindings?_modifyBindings (f : Bindings → Bindings) :
    (h.modifyBindings e f).bindings? e = (h.bindings? e).map f := by
  unfold modifyBindings
  cases hb : h.bindings? e with
  | some b => exact bindings?_setRecord (f b)
  | none => exact hb

theorem bindings?_passOn (name : Text) (v : Option Value) :
    (h.passOn e name v).bindings? e =
      (h.bindings? e).map fun b => v.elim b fun v => b.store name v := by
  cases v with
  | some v => exact bindings?_modifyBindings _
  | none => exact Option.map_id'.symm

theorem stored?_passOn (name : Text) (v : Option Value) (k : Key) :
    (h.passOn e name v).stored? o k = h.stored? o k := by
  unfold stored?
  rw [object_passOn]

theorem parameterOf?_passOn (name : Text) (v : Option Value) (i : ArrayIndex) :
    (h.passOn e name v).parameterOf? o i = h.parameterOf? o i :=
  parameterOf?_of_object (object_passOn h e name v o) i

theorem valueOf?_passOn {name : Text} (hbound : (h.valueOf? e name).isSome) (v : Option Value)
    (n : Text) :
    (h.passOn e name v).valueOf? e n = if name = n then v.or (h.valueOf? e n) else h.valueOf? e n := by
  unfold valueOf? at hbound ⊢
  rw [bindings?_passOn]
  cases hb : h.bindings? e with
  | none =>
    rw [hb] at hbound
    cases hbound
  | some b =>
    cases v with
    | none =>
      show ((b.find? n).map _) = if name = n then (b.find? n).map _ else (b.find? n).map _
      split <;> rfl
    | some v =>
      rw [hb] at hbound
      show ((b.store name v).find? n).map _ = _
      rw [Bindings.find?_store]
      by_cases hn : name = n
      · subst hn
        rw [if_pos rfl, if_pos rfl]
        obtain ⟨w, hw⟩ := Option.isSome_iff_exists.mp hbound
        obtain ⟨x, hx, _⟩ := Option.map_eq_some_iff.mp hw
        have hx : b.find? name = some x := hx
        rw [hx]
        rfl
      · rw [if_neg hn, if_neg hn]
        rfl

/-! ## 4. Sharing -/

/-- An arguments object and the bindings of its activation: an index that stands for a parameter holds a
writable value, and that parameter is bound and can be assigned. -/
structure Sharing (h : Heap) (o : ObjectId) (e : EnvironmentId) : Prop where
  arguments : ∃ a, h.argumentsOf? o = some a ∧ a.environment = e
  linked : ∀ i n, h.parameterOf? o i = some n →
    ∃ v enumerable configurable, h.stored? o (.index i) = some (.data v true enumerable configurable)
  bound : ∃ b, h.bindings? e = some b ∧ ∀ i n, h.parameterOf? o i = some n →
    ∃ v deletable, b.find? n = some ⟨v, true, deletable⟩

namespace Sharing

/-- What is seen of an index: the property that is stored, with the value of the parameter for which the
index stands. -/
theorem getOwn?_eq (hs : h.Sharing o e) (i : ArrayIndex) :
    h.getOwn? o (.index i) = (h.stored? o (.index i)).map fun p =>
      showing p ((h.parameterOf? o i).bind (h.valueOf? e)) := by
  obtain ⟨a, ha, rfl⟩ := hs.arguments
  have hkind := kind_of_argumentsOf? ha
  unfold getOwn? parameterOf? stored?
  rw [ha]
  dsimp only
  rw [hkind]
  dsimp only
  congr 1
  funext p
  congr 1
  unfold mappedValue? valueOf?
  show (a.nameOf? i.val).bind _ = (a.nameOf? i.val).bind _
  cases a.nameOf? i.val with
  | none => rfl
  | some n =>
    show (h.bindings? a.environment).bind _ = ((h.bindings? a.environment).bind _).map _
    cases h.bindings? a.environment with
    | none => rfl
    | some b =>
      show (b.find? n).bind _ = (b.find? n).map _
      cases b.find? n with
      | none => rfl
      | some x => rfl

theorem isSome_valueOf? (hs : h.Sharing o e) {i : ArrayIndex} {n : Text}
    (hi : h.parameterOf? o i = some n) : (h.valueOf? e n).isSome := by
  obtain ⟨b, hb, hbound⟩ := hs.bound
  obtain ⟨v, deletable, hn⟩ := hbound i n hi
  unfold valueOf?
  rw [hb]
  show ((b.find? n).map _).isSome
  rw [hn]
  rfl

/-- **An index shows the value of its parameter**, which can be written. -/
theorem shown (hs : h.Sharing o e) {i : ArrayIndex} {n : Text} (hi : h.parameterOf? o i = some n) :
    ∃ v enumerable configurable,
      h.getOwn? o (.index i) = some (.data v true enumerable configurable) ∧
        h.valueOf? e n = some v := by
  obtain ⟨u, en, c, hstored⟩ := hs.linked i n hi
  obtain ⟨v, hv⟩ := Option.isSome_iff_exists.mp (hs.isSome_valueOf? hi)
  refine ⟨v, en, c, ?_, hv⟩
  rw [hs.getOwn?_eq, hstored, hi]
  show some (showing _ (h.valueOf? e n)) = _
  rw [hv]
  rfl

/-- An index that stands for no parameter shows what is stored. -/
theorem getOwn?_unmapped (hs : h.Sharing o e) {i : ArrayIndex} (hi : h.parameterOf? o i = none) :
    h.getOwn? o (.index i) = h.stored? o (.index i) := by
  rw [hs.getOwn?_eq, hi]
  cases h.stored? o (.index i) with
  | none => rfl
  | some p => cases p <;> rfl

end Sharing

end Heap

end Ecma51
