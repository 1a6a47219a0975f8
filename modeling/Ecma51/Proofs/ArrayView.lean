import Mathlib.Logic.Function.Basic
import Ecma51.Proofs.Assignment

/-!
# Arrays as lists of optional values

An extensible array of plain elements is a list of its length, in which elements that are absent are gaps. If no
prototype has an element, what the methods of arrays do to single elements are the updates of such a list, and nothing
else becomes different.

* `ArrayView`, `Heap.HasElements`, `Heap.IsList`: an array as the list that it shows.
* `Heap.InheritsNoElement`: no prototype has an element.
* `Rewrites`: an operation rewrites one array, from one view to another.
* **`putAt_rewrites`**, **`deleteAt_rewrites`**, **`putLength_rewrites`**, **`moveElement_rewrites`**: single steps.
* `Rewrites.upward`, `Rewrites.downward`, **`putAll_rewrites`**: loops.
-/

namespace Ecma51

open Relation (ReflTransGen TransGen)

/-! ## 1. Views -/

/-- What an array shows: its length, whether that can be written, and its elements, with nothing for those that are
absent. -/
@[ext]
structure ArrayView where
  length : Nat
  writable : Bool
  element : Nat → Option Value

namespace ArrayView

/-- An element is assigned. -/
def put (V : ArrayView) (i : Nat) (v : Value) : ArrayView :=
  { V with length := max V.length (i + 1), element := Function.update V.element i (some v) }

/-- An element is deleted. -/
def delete (V : ArrayView) (i : Nat) : ArrayView := { V with element := Function.update V.element i none }

/-- The length is assigned. -/
def cut (V : ArrayView) (n : Nat) : ArrayView :=
  { V with length := n, element := fun i => if i < n then V.element i else none }

/-- An element is assigned, if there is one. -/
def copy (V : ArrayView) (i : Nat) : Option Value → ArrayView
  | some v => V.put i v
  | none => V

/-- An element is assigned, or deleted if there is none. -/
def move (V : ArrayView) (i : Nat) : Option Value → ArrayView
  | some v => V.put i v
  | none => V.delete i

/-- Consecutive elements are assigned. -/
def putAll (V : ArrayView) : List Value → Nat → ArrayView
  | [], _ => V
  | v :: vs, i => (V.put i v).putAll vs (i + 1)

/-- A list with gaps. -/
def ofList (es : List (Option Value)) (w : Bool) : ArrayView := ⟨es.length, w, fun i => es[i]?.join⟩

variable (V : ArrayView)

theorem element_put (i : Nat) (v : Value) (j : Nat) :
    (V.put i v).element j = if j = i then some v else V.element j := Function.update_apply _ _ _ _

theorem element_delete (i j : Nat) : (V.delete i).element j = if j = i then none else V.element j :=
  Function.update_apply _ _ _ _

theorem element_move (i : Nat) (x : Option Value) (j : Nat) :
    (V.move i x).element j = if j = i then x else V.element j := by
  cases x with
  | none => exact V.element_delete i j
  | some v => exact V.element_put i v j

theorem writable_move (i : Nat) (x : Option Value) : (V.move i x).writable = V.writable := by
  cases x <;> rfl

theorem writable_copy (i : Nat) (x : Option Value) : (V.copy i x).writable = V.writable := by
  cases x <;> rfl

variable {V}

theorem element_copy_of_absent {i : Nat} (hi : V.element i = none) (x : Option Value) (j : Nat) :
    (V.copy i x).element j = if j = i then x else V.element j := by
  cases x with
  | none =>
    split
    · rename_i h
      exact h ▸ hi
    · rfl
  | some v => exact V.element_put i v j

theorem element_putAll (vs : List Value) (i j : Nat) :
    (V.putAll vs i).element j = if i ≤ j ∧ j < i + vs.length then vs[j - i]? else V.element j := by
  induction vs generalizing V i with
  | nil => exact (if_neg (by rw [List.length_nil]; omega)).symm
  | cons v vs ih =>
    rw [putAll, ih, List.length_cons]
    by_cases hj : j = i
    · subst hj
      rw [if_neg (by omega), element_put, if_pos rfl, if_pos (by omega), Nat.sub_self, List.getElem?_cons_zero]
    · rw [element_put, if_neg hj]
      by_cases hin : i + 1 ≤ j ∧ j < i + 1 + vs.length
      · have hsub : j - i = j - (i + 1) + 1 := by omega
        rw [if_pos hin, if_pos (by omega), hsub, List.getElem?_cons_succ]
      · rw [if_neg hin, if_neg (by omega)]

theorem writable_putAll (vs : List Value) (i : Nat) : (V.putAll vs i).writable = V.writable := by
  induction vs generalizing V i with
  | nil => rfl
  | cons v vs ih => exact ih (i + 1)

theorem length_putAll {vs : List Value} {i : Nat} (hi : i + vs.length ≤ V.length) :
    (V.putAll vs i).length = V.length := by
  induction vs generalizing V i with
  | nil => rfl
  | cons v vs ih =>
    rw [List.length_cons] at hi
    have hput : (V.put i v).length = V.length := Nat.max_eq_left (by omega)
    rw [putAll, ih (by omega), hput]

end ArrayView

/-! ## 2. Arrays that show a view -/

namespace Heap

variable {h h' : Heap} {o a : ObjectId} {V W : ArrayView}

/-- The object is an extensible array, with plain elements and a length as in a view. -/
structure HasElements (h : Heap) (o : ObjectId) (V : ArrayView) : Prop extends
    ArrayOfLength h o V.length V.writable where
  extensible : (h.object o).extensible = true
  element : ∀ i : ArrayIndex, h.getOwn? o (.index i) = (V.element i.val).map .plain
  beyond : ∀ i, V.length ≤ i → V.element i = none

/-- The object is an extensible array that shows a list with gaps. -/
def IsList (h : Heap) (o : ObjectId) (es : List (Option Value)) (w : Bool) : Prop := h.HasElements o (.ofList es w)

/-- No prototype of the object has an element. An object that is no prototype of itself is meant. -/
def InheritsNoElement (h : Heap) (o : ObjectId) : Prop :=
  ∀ p, TransGen (LinksTo h.prototypeOf) o p → p ≠ o ∧ ∀ i : ArrayIndex, h.getOwn? p (.index i) = none

namespace HasElements

theorem lt_limit (he : h.HasElements o V) {i : Nat} (hi : i < V.length) : i < indexLimit := by
  have := he.inRange
  unfold indexLimit
  omega

theorem of_object (he : h.HasElements o V) (hobject : h'.object o = h.object o) : h'.HasElements o V := by
  have hkind : (h'.object o).kind = .array := hobject ▸ he.kind
  have hown (k : Key) : h'.getOwn? o k = h.getOwn? o k := by
    rw [getOwn?_of_array hkind, getOwn?_of_array he.kind, hobject]
  exact ⟨⟨hkind, he.inRange, (hown _).trans he.length, fun i hi => he.above i (hown _ ▸ hi)⟩, hobject ▸ he.extensible,
    fun i => (hown _).trans (he.element i), he.beyond⟩

/-- A view of the elements and the length decides about the rest. -/
theorem mk_of_element (hkind : (h.object o).kind = .array) (hextensible : (h.object o).extensible = true)
    (hn : V.length < 2 ^ 32) (hlength : h.getOwn? o .length = some (.data (.ofNat V.length) V.writable false false))
    (helement : ∀ i : ArrayIndex, h.getOwn? o (.index i) = (V.element i.val).map .plain)
    (hbeyond : ∀ i, V.length ≤ i → V.element i = none) : h.HasElements o V := by
  refine ⟨⟨hkind, hn, hlength, fun i hi => Nat.lt_of_not_le fun hle => ?_⟩, hextensible, helement, hbeyond⟩
  rw [helement, hbeyond i hle] at hi
  cases hi

/-- **An array of a length shows a list** if it has the same elements. -/
theorem isList (he : h.HasElements o V) {es : List (Option Value)} (hlength : V.length = es.length)
    (helement : ∀ i, i < es.length → V.element i = es[i]?.join) : h.IsList o es V.writable := by
  have hV : V = .ofList es V.writable := by
    refine ArrayView.ext hlength rfl (funext fun i => ?_)
    by_cases hi : i < es.length
    · exact helement i hi
    · rw [he.beyond i (by omega)]
      show none = es[i]?.join
      rw [List.getElem?_eq_none (Nat.le_of_not_lt hi)]
      rfl
  unfold IsList
  rw [← hV]
  exact he

end HasElements

/-- The value of an element. -/
def elementAt? (h : Heap) (o : ObjectId) (i : Nat) : Option Value :=
  (ArrayIndex.ofNat? i).bind fun i => (h.getOwn? o (.index i)).bind Property.value?

theorem elementAt?_val (h : Heap) (o : ObjectId) (i : ArrayIndex) :
    h.elementAt? o i.val = (h.getOwn? o (.index i)).bind Property.value? := by
  unfold elementAt? ArrayIndex.ofNat?
  rw [dif_pos i.isLt, Option.bind_some]

/-- **Every extensible array of plain elements shows a list.** -/
theorem ArrayOfLength.exists_isList {n : Nat} {w : Bool} (ha : h.ArrayOfLength o n w)
    (hextensible : (h.object o).extensible = true)
    (hplain : ∀ (i : ArrayIndex) p, h.getOwn? o (.index i) = some p → ∃ v, p = .plain v) :
    ∃ es : List (Option Value), es.length = n ∧ h.IsList o es w := by
  obtain ⟨es, hes⟩ : ∃ es, es = (List.range n).map (h.elementAt? o) := ⟨_, rfl⟩
  have hlength : es.length = n := by rw [hes, List.length_map, List.length_range]
  subst hlength
  refine ⟨es, rfl, .mk_of_element ha.kind hextensible ha.inRange ha.length (fun i => ?_) fun i hi => ?_⟩
  · show _ = (es[i.val]?.join).map Property.plain
    by_cases hi : i.val < es.length
    · rw [hes, List.getElem?_map, List.getElem?_range hi, Option.map_some, Option.join_some, elementAt?_val]
      cases hown : h.getOwn? o (.index i) with
      | none => rfl
      | some p =>
        obtain ⟨v, rfl⟩ := hplain i p hown
        rfl
    · rw [List.getElem?_eq_none (by omega)]
      exact Option.not_isSome_iff_eq_none.mp fun hown => hi (ha.above i hown)
  · show es[i]?.join = none
    rw [List.getElem?_eq_none hi]
    rfl

/-! ## 3. Prototypes without elements -/

namespace AltersOnly

variable {K : Key → Prop}

theorem prototypeOf (ha : AltersOnly a K h h') : h'.prototypeOf = h.prototypeOf := by
  funext p
  unfold Heap.prototypeOf
  by_cases hp : p = a
  · subst hp
    rw [ha.rest]
  · rw [ha.other p hp]

theorem getOwn?_other (ha : AltersOnly a K h h') {p : ObjectId} (hp : p ≠ a) (k : Key) :
    h'.getOwn? p k = h.getOwn? p k :=
  getOwn?_of_environments (ha.other p hp) (by rw [ha.others]) k

end AltersOnly

/-- An object other than the prototypes may be altered. -/
theorem InheritsNoElement.altered {K : Key → Prop} (hc : h.InheritsNoElement o) (ha : AltersOnly a K h h')
    (hnot : ∀ p, TransGen (LinksTo h.prototypeOf) o p → p ≠ a) : h'.InheritsNoElement o := by
  intro p hp
  rw [ha.prototypeOf] at hp
  exact ⟨(hc p hp).1, fun i => (ha.getOwn?_other (hnot p hp) _).trans ((hc p hp).2 i)⟩

theorem InheritsNoElement.altered_self {K : Key → Prop} (hc : h.InheritsNoElement o) (ha : AltersOnly o K h h') :
    h'.InheritsNoElement o := hc.altered ha fun p hp => (hc p hp).1

theorem findUpTo_eq_none {k : Key} {start : Option ObjectId}
    (hnone : ∀ q p, start = some q → ReflTransGen (LinksTo h.prototypeOf) q p → h.getOwn? p k = none) (n : Nat) :
    h.findUpTo k n start = none := by
  induction n generalizing start with
  | zero => rfl
  | succ n ih =>
    cases start with
    | none => rfl
    | some q =>
      unfold findUpTo
      rw [hnone q q rfl .refl, Option.none_or]
      exact ih fun r p hr hp => hnone q p rfl (.head hr hp)

/-- **An element is found in the object or not at all.** -/
theorem InheritsNoElement.getProperty?_index (hc : h.InheritsNoElement o) (i : ArrayIndex) :
    h.getProperty? o (.index i) = h.getOwn? o (.index i) := by
  have hnone (n : Nat) : h.findUpTo (.index i) n (h.object o).prototype = none :=
    findUpTo_eq_none (fun q p hq hp => (hc p (.head' hq hp)).2 i) n
  unfold getProperty? findUpTo
  rw [hnone, Option.or_none]

/-- Whether an element can be assigned depends on the object alone. -/
theorem InheritsNoElement.canPut_index (hc : h.InheritsNoElement o) (he : h.HasElements o V) (i : ArrayIndex) :
    h.canPut o (.index i) = true := by
  unfold canPut
  rw [he.element i]
  cases V.element i.val with
  | some v => rfl
  | none =>
    have hnone : (h.object o).prototype.bind (h.getProperty? · (.index i)) = none := by
      cases hp : (h.object o).prototype with
      | none => rfl
      | some p =>
        refine findUpTo_eq_none (fun q r hq hr => ?_) _
        cases hq
        exact (hc r (.head' hp hr)).2 i
    simp only [Option.map_none]
    rw [hnone]
    exact he.extensible

/-! ## 4. Elements and lengths of an array -/

/-- From one heap on, only the elements and the length of an array have become different, and now are as in a view. -/
structure Rewritten (h₀ : Heap) (o : ObjectId) (V : ArrayView) (h : Heap) : Prop where
  alters : AltersOnly o (LengthOrFrom 0) h₀ h
  elements : h.HasElements o V

theorem HasElements.rewritten (he : h.HasElements o V) : h.Rewritten o V h := ⟨.refl o _ h, he⟩

section Definitions

theorem redefine?_ofValue_plain (u v : Value) : (Descriptor.ofValue v).redefine? (.plain u) = some (.plain v) := by
  unfold Descriptor.redefine?
  split
  · rename_i hholds
    have hvalue : v = u := by
      simpa [Descriptor.holdsOf, Descriptor.ofValue, Property.plain, Descriptor.isAccessor, Descriptor.agrees,
        Descriptor.agreesFlag, Value.same] using hholds
    rw [hvalue]
  · rfl

/-- An assignment to an element makes it plain. -/
theorem HasElements.admits_put (he : h.HasElements o V) (i : ArrayIndex) (v : Value) :
    h.Admits o (.index i) (h.putDescriptor o (.index i) v) (.plain v) := by
  have hown := he.element i
  unfold putDescriptor
  cases hi : V.element i.val with
  | none =>
    rw [hi] at hown
    rw [hown]
    exact .inl ⟨hown, he.extensible, rfl⟩
  | some u =>
    rw [hi] at hown
    rw [hown]
    exact .inr ⟨.plain u, hown, redefine?_ofValue_plain u v⟩

/-- An element that is set is the only one that is different. -/
theorem HasElements.elementSet (he : h.HasElements o V) {i : ArrayIndex} {v : Value}
    (hs : ElementSet o i (.plain v) (max V.length (i.val + 1)) V.writable h h') :
    h.Rewritten o (V.put i v) h' := by
  refine ⟨hs.toAltersOnly.mono ?_, .mk_of_element hs.array.kind ?_ hs.array.inRange hs.array.length (fun j => ?_)
    fun j hj => ?_⟩
  · rintro k (rfl | rfl)
    · exact .inl rfl
    · exact .inr ⟨i, rfl, Nat.zero_le _⟩
  · rw [hs.rest]
    exact he.extensible
  · rw [ArrayView.element_put]
    by_cases hj : j = i
    · subst hj
      rw [if_pos rfl]
      exact hs.element
    · rw [if_neg fun heq => hj (Fin.ext heq), hs.own, he.element j]
      rintro (hk | hk)
      · cases hk
      · exact hj (Key.index.inj hk)
  · have hj : max V.length (i.val + 1) ≤ j := hj
    rw [ArrayView.element_put, if_neg (by omega), he.beyond j (by omega)]

/-- An element that is deleted is the only one that is different. -/
theorem HasElements.deleted (he : h.HasElements o V) (i : ArrayIndex) :
    (h.deleteOwn o (.index i)).refusal = none ∧
      h.Rewritten o (V.delete i) (h.deleteOwn o (.index i)).heap := by
  rcases deleteElement_cases he.kind i with ⟨hdone, halters, hgone, _⟩ | ⟨_, _, p, hown, hc⟩
  · refine ⟨Option.isNone_iff_eq_none.mp hdone, halters.mono ?_, .mk_of_element (halters.kind.trans he.kind) ?_
      he.inRange ?_ (fun j => ?_) fun j hj => ?_⟩
    · rintro k rfl
      exact .inr ⟨i, rfl, Nat.zero_le _⟩
    · rw [halters.rest]
      exact he.extensible
    · exact (halters.own _ (Key.length_ne_index i)).trans he.length
    · rw [ArrayView.element_delete]
      by_cases hj : j = i
      · subst hj
        rw [if_pos rfl]
        exact hgone
      · rw [if_neg fun heq => hj (Fin.ext heq), halters.own _ fun hk => hj (Key.index.inj hk)]
        exact he.element j
    · rw [ArrayView.element_delete, he.beyond j hj]
      split <;> rfl
  · rw [he.element i] at hown
    obtain ⟨v, _, rfl⟩ := Option.map_eq_some_iff.mp hown
    cases hc

/-- A length that is set cuts the elements from there on. -/
theorem HasElements.lengthSet (he : h.HasElements o V) {n : Nat} (hs : LengthSet o n V.writable h h') :
    h.Rewritten o (V.cut n) h' := by
  refine ⟨hs.toAltersOnly.mono ?_, .mk_of_element hs.array.kind ?_ hs.array.inRange hs.array.length (fun j => ?_)
    fun j hj => ?_⟩
  · rintro k (hk | ⟨i, hk, _⟩)
    · exact .inl hk
    · exact .inr ⟨i, hk, Nat.zero_le _⟩
  · rw [hs.rest]
    exact he.extensible
  · show _ = (if j.val < n then V.element j.val else none).map Property.plain
    by_cases hj : j.val < n
    · rw [if_pos hj, hs.own, he.element j]
      rintro (hk | ⟨i, hk, hi⟩)
      · cases hk
      · cases hk
        omega
    · rw [if_neg hj]
      exact Option.not_isSome_iff_eq_none.mp fun hown => hj (hs.array.above j hown)
  · exact if_neg (Nat.not_lt.mpr hj)

end Definitions

end Heap

/-! ## 5. Operations that rewrite an array -/

section Runs

variable {bodies : Bodies} {h₀ : Heap} {o a : ObjectId} {m : Machine} {V V' W : ArrayView} {i : Nat}

/-- In whatever machine the operation starts in which the array shows one view, it gives the result and the array then
shows the other; nothing else of the heap, and nothing else of the machine but what it keeps, is different. -/
def Rewrites {α : Type} (bodies : Bodies) (h₀ : Heap) (o : ObjectId) (V : ArrayView) (x : Run α) (r : α)
    (V' : ArrayView) : Prop :=
  ∀ m, h₀.Rewritten o V m.heap →
    ∃ h held, x bodies m = .ok r { m with heap := h, held := held } ∧ h₀.Rewritten o V' h

namespace Rewrites

variable {α β : Type} {x : Run α} {r : α} {s : β}

theorem of_run (hx : ∀ m, h₀.Rewritten o V m.heap → x bodies m = .ok r m) : Rewrites bodies h₀ o V x r V :=
  fun m hm => ⟨m.heap, m.held, hx m hm, hm⟩

theorem pure : Rewrites bodies h₀ o V (pure r : Run α) r V := of_run fun _ _ => rfl

theorem bind {f : α → Run β} (hx : Rewrites bodies h₀ o V x r V') (hf : Rewrites bodies h₀ o V' (f r) s W) :
    Rewrites bodies h₀ o V (x >>= f) s W := by
  intro m hm
  obtain ⟨h, held, hrun, hh⟩ := hx m hm
  obtain ⟨h', held', hrun', hh'⟩ := hf { m with heap := h, held := held } hh
  exact ⟨h', held', (bind_run_ok hrun _).trans hrun', hh'⟩

theorem holding {vs : List Value} (hx : Rewrites bodies h₀ o V x r V') :
    Rewrites bodies h₀ o V (holding vs x) r V' := by
  intro m hm
  obtain ⟨h, held, hrun, hh⟩ := hx { m with held := vs ++ m.held } hm
  exact ⟨h, m.held, holding_ok hrun, hh⟩

/-- An operation that does not read the values that are kept may change them. -/
theorem letGo : Rewrites bodies h₀ o V letGo () V := fun m hm => ⟨m.heap, m.held.drop 1, rfl, hm⟩

/-- **A loop upwards**: each step goes from one condition on the view to the next. -/
theorem upward {body : Nat → Run Unit} {n : Nat} (P : Nat → ArrayView → Prop)
    (hstep : ∀ k < n, ∀ V, P k V → ∃ V', Rewrites bodies h₀ o V (body (i + k)) () V' ∧ P (k + 1) V') (hV : P 0 V) :
    ∃ V', Rewrites bodies h₀ o V (upward body n i) () V' ∧ P n V' := by
  induction n generalizing V i P with
  | zero => exact ⟨V, pure, hV⟩
  | succ n ih =>
    obtain ⟨V', hfirst, hV'⟩ := hstep 0 (Nat.succ_pos n) V hV
    obtain ⟨W, hrest, hW⟩ := ih (i := i + 1) (fun k => P (k + 1)) (fun k hk V hV => by
      have hnext := hstep (k + 1) (Nat.succ_lt_succ hk) V hV
      rwa [show i + (k + 1) = i + 1 + k by omega] at hnext) hV'
    exact ⟨W, hfirst.bind hrest, hW⟩

/-- **A loop downwards.** -/
theorem downward {body : Nat → Run Unit} {n : Nat} (P : Nat → ArrayView → Prop)
    (hstep : ∀ k < n, ∀ V, P (k + 1) V → ∃ V', Rewrites bodies h₀ o V (body (i + k)) () V' ∧ P k V') (hV : P n V) :
    ∃ V', Rewrites bodies h₀ o V (downward body n i) () V' ∧ P 0 V' := by
  induction n generalizing V with
  | zero => exact ⟨V, pure, hV⟩
  | succ n ih =>
    obtain ⟨V', hfirst, hV'⟩ := hstep n (Nat.lt_succ_self n) V hV
    obtain ⟨W, hrest, hW⟩ := ih (fun k hk => hstep k (Nat.lt_succ_of_lt hk)) hV'
    exact ⟨W, hfirst.bind hrest, hW⟩

end Rewrites

/-! ## 6. Single steps -/

theorem Key.ofNat_of_lt (hi : i < indexLimit) : Key.ofNat i = .index ⟨i, hi⟩ := Key.ofNat_val ⟨i, hi⟩

theorem hasAt_run (hc : m.heap.InheritsNoElement o) (he : m.heap.HasElements o V) (hi : i < indexLimit) :
    hasAt o i bodies m = .ok (V.element i).isSome m := by
  have hfound : m.heap.hasProperty o (.ofNat i) = (V.element i).isSome := by
    unfold Heap.hasProperty
    rw [Key.ofNat_of_lt hi, hc.getProperty?_index, he.element, Option.isSome_map]
  unfold hasAt
  rw [getHeap_bind_run, hfound]
  rfl

theorem getAt_run (hc : m.heap.InheritsNoElement o) (he : m.heap.HasElements o V) (hi : i < indexLimit) {v : Value}
    (hv : V.element i = some v) : getAt o i bodies m = .ok v m := by
  have hfound : m.heap.getProperty? o (.ofNat i) = some (.plain v) := by
    rw [Key.ofNat_of_lt hi, hc.getProperty?_index, he.element, hv]
    rfl
  exact getFrom_data (.inl he.kind) hfound

theorem lengthOf_run (he : m.heap.HasElements o V) : lengthOfArrayLike o bodies m = .ok V.length m :=
  lengthOfArrayLike_run he.inRange (.inl he.kind) ⟨_, _, _, he.length⟩

/-- **An element is assigned** where there is room for it, or where room can be made. -/
theorem putAt_rewrites (hc : h₀.InheritsNoElement o) (hi : i < indexLimit)
    (hroom : i < V.length ∨ V.writable = true) (v : Value) :
    Rewrites bodies h₀ o V (putAt o i v) () (V.put i v) := by
  intro m hm
  have hc' := hc.altered_self hm.alters
  have hcan := hc'.canPut_index hm.elements ⟨i, hi⟩
  have hsetter : m.heap.RunsNoSetter o (.index ⟨i, hi⟩) := by
    intro _ g s e c hfound
    rw [hc'.getProperty?_index, hm.elements.element] at hfound
    obtain ⟨u, _, hu⟩ := Option.map_eq_some_iff.mp hfound
    cases hu
  have hputting : m.heap.putting o (.index ⟨i, hi⟩) v (.object o) =
      .ok (m.heap.defineElement o ⟨i, hi⟩ (m.heap.putDescriptor o (.index ⟨i, hi⟩) v) V.length V.writable) := by
    unfold Heap.putting
    rw [hcan, beq_self_eq_true]
    exact hm.elements.defining_index ⟨i, hi⟩ _
  obtain ⟨hdone, hset⟩ := ((Heap.defineElement_exact hm.elements.toArrayOfLength ⟨i, hi⟩ _).2 hroom).2 _
    (hm.elements.admits_put ⟨i, hi⟩ v)
  refine ⟨_, m.held, ?_, hm.alters.trans (hm.elements.elementSet hset).alters, (hm.elements.elementSet hset).elements⟩
  unfold putAt putTo
  rw [Key.ofNat_of_lt hi, putFor_run_of_givesPrimitive (fun _ _ => Heap.givesPrimitive_index _ _) hsetter, hputting]
  exact discarding_done hdone true

/-- **An element is deleted.** -/
theorem deleteAt_rewrites (hi : i < indexLimit) : Rewrites bodies h₀ o V (deleteAt o i) () (V.delete i) := by
  intro m hm
  obtain ⟨hdone, hdeleted⟩ := hm.elements.deleted ⟨i, hi⟩
  refine ⟨_, m.held, ?_, hm.alters.trans hdeleted.alters, hdeleted.elements⟩
  unfold deleteAt
  rw [discarding_run, Key.ofNat_of_lt hi, deleteOwn_run]
  exact discarding_done hdone true

/-- **The length is assigned**, if it can be written. -/
theorem putLength_rewrites (hw : V.writable = true) {n : Nat} (hn : n < 2 ^ 32) :
    Rewrites bodies h₀ o V (putLength o n) () (V.cut n) := by
  intro m hm
  have he := hm.elements
  have hlength := he.length
  have hcan : m.heap.canPut o .length = true := by
    unfold Heap.canPut
    rw [hlength]
    exact hw
  have hsetter : m.heap.RunsNoSetter o .length := by
    intro _ g s e c hfound
    rw [Heap.getProperty?_of_own hlength] at hfound
    cases hfound
  have hnumber : (primitiveNumber (.ofNat n)).toUint32 = n := Double.toUint32_ofNat hn
  have hwhole : (Double.ofNat n).eq (primitiveNumber (.ofNat n)) = true := Double.eq_self (Double.ofNat_ne_nan n)
  have hputting : m.heap.putting o .length (.ofNat n) (.object o) =
      .ok (m.heap.setLength o (.ofValue (.ofNat n)) n V.length V.writable) := by
    unfold Heap.putting Heap.putDescriptor
    rw [hcan, beq_self_eq_true, hlength]
    refine (he.defining_length rfl).trans ?_
    unfold Heap.settingLength
    rw [hnumber, if_pos hwhole, he.lengthOf]
  have hfree : m.heap.Removable o n := by
    intro i p _ hown
    rw [he.element i] at hown
    obtain ⟨v, _, rfl⟩ := Option.map_eq_some_iff.mp hown
    rfl
  obtain ⟨hdone, hset⟩ := ((Heap.setLength_exact he.toArrayOfLength hn (.ofValue (.ofNat n))).2
    ⟨nofun, nofun, nofun⟩ (.inl hw)).1 hfree
  refine ⟨_, m.held, ?_, hm.alters.trans (he.lengthSet hset).alters, (he.lengthSet hset).elements⟩
  unfold putLength putTo
  rw [putFor_run rfl hsetter, hputting]
  exact discarding_done hdone true

/-- An element is added to an array that is built. -/
theorem addAt_rewrites (hi : i < indexLimit) (hw : V.writable = true) (habsent : V.element i = none) (v : Value) :
    Rewrites bodies h₀ o V (addAt o i v) () (V.put i v) := by
  intro m hm
  have he := hm.elements
  have hadmits : m.heap.Admits o (.index ⟨i, hi⟩) (.data v true true true) (.plain v) := by
    refine .inl ⟨?_, he.extensible, rfl⟩
    rw [he.element, habsent]
    rfl
  obtain ⟨hdone, hset⟩ := ((Heap.defineElement_exact he.toArrayOfLength ⟨i, hi⟩ _).2 (.inr hw)).2 _ hadmits
  refine ⟨_, m.held, ?_, hm.alters.trans (he.elementSet hset).alters, (he.elementSet hset).elements⟩
  unfold addAt createData
  rw [discarding_run, Key.ofNat_of_lt hi, defineOwn_run (Heap.givesPrimitive_index _ _), he.defining_index]
  exact discarding_done hdone false

/-- **An element moves**, or its absence does. -/
theorem moveElement_rewrites (hc : h₀.InheritsNoElement o) {source target : Nat} (hs : source < indexLimit)
    (ht : target < indexLimit) (hroom : target < V.length ∨ V.writable = true) :
    Rewrites bodies h₀ o V (moveElement o source target) () (V.move target (V.element source)) := by
  have hhas : Rewrites bodies h₀ o V (hasAt o source) (V.element source).isSome V :=
    .of_run fun m hm => hasAt_run (hc.altered_self hm.alters) hm.elements hs
  unfold moveElement
  refine hhas.bind ?_
  cases hv : V.element source with
  | none => exact deleteAt_rewrites ht
  | some v =>
    have hget : Rewrites bodies h₀ o V (getAt o source) v V :=
      .of_run fun m hm => getAt_run (hc.altered_self hm.alters) hm.elements hs hv
    exact hget.bind (putAt_rewrites hc ht hroom v).holding

/-- **An element is copied** from another array, if it is there. -/
theorem copyElement_rewrites (hsource : h₀.HasElements o W) (hc : h₀.InheritsNoElement o) (hne : o ≠ a)
    (hnot : ∀ p, TransGen (LinksTo h₀.prototypeOf) o p → p ≠ a) {source target : Nat} (hs : source < indexLimit)
    (ht : target < indexLimit) (hw : V.writable = true) (habsent : V.element target = none) :
    Rewrites bodies h₀ a V (copyElement o source a target) () (V.copy target (W.element source)) := by
  have hsame (m : Machine) (hm : h₀.Rewritten a V m.heap) :
      m.heap.InheritsNoElement o ∧ m.heap.HasElements o W :=
    ⟨hc.altered hm.alters hnot, hsource.of_object (hm.alters.other o hne)⟩
  have hhas : Rewrites bodies h₀ a V (hasAt o source) (W.element source).isSome V :=
    .of_run fun m hm => hasAt_run (hsame m hm).1 (hsame m hm).2 hs
  unfold copyElement
  refine hhas.bind ?_
  cases hv : W.element source with
  | none => exact .pure
  | some v =>
    have hget : Rewrites bodies h₀ a V (getAt o source) v V :=
      .of_run fun m hm => getAt_run (hsame m hm).1 (hsame m hm).2 hs hv
    exact hget.bind (addAt_rewrites ht hw habsent v)

/-- **Consecutive elements are assigned.** -/
theorem putAll_rewrites (hc : h₀.InheritsNoElement o) {vs : List Value} (hi : i + vs.length ≤ indexLimit)
    (hroom : i + vs.length ≤ V.length ∨ V.writable = true) :
    Rewrites bodies h₀ o V (putAll o vs i) () (V.putAll vs i) := by
  have heach {vs : List Value} {V : ArrayView} {i : Nat} (hi : i + vs.length ≤ indexLimit)
      (hroom : i + vs.length ≤ V.length ∨ V.writable = true) :
      Rewrites bodies h₀ o V (handleEach (fun i v => do
        putAt o i v
        return i + 1) i vs) (i + vs.length) (V.putAll vs i) := by
    induction vs generalizing V i with
    | nil => exact .pure
    | cons v vs ih =>
      rw [List.length_cons] at hi hroom ⊢
      have hput : Rewrites bodies h₀ o V (putAt o i v) () (V.put i v) :=
        putAt_rewrites hc (by omega) (hroom.imp_left fun h => by omega) v
      have hroom' : i + 1 + vs.length ≤ (V.put i v).length ∨ (V.put i v).writable = true :=
        hroom.imp_left fun h => Nat.le_trans (by omega) (Nat.le_max_left _ _)
      have hrest := ih (V := V.put i v) (i := i + 1) (by omega) hroom'
      rw [show i + (vs.length + 1) = i + 1 + vs.length by omega]
      have hstep : Rewrites bodies h₀ o V (holding [] (do
          putAt o i v
          return i + 1)) (i + 1) (V.put i v) := (hput.bind (f := fun _ => return i + 1) .pure).holding
      exact hstep.bind (Rewrites.letGo.bind hrest)
  exact (heach hi hroom).holding.bind .pure

end Runs

theorem zero_lt_indexLimit : 0 < indexLimit := by decide

theorem two_lt_indexLimit : 2 < indexLimit := by decide

/-- An array of length 4 with two elements and two gaps, and without a prototype. -/
def gappyArray : Object :=
  let element (i : Nat) (hi : i < indexLimit) (v : Value) (x : Object) : Object :=
    x.withProperty (.index ⟨i, hi⟩) (.plain v)
  element 2 two_lt_indexLimit (.ofNat 1) (element 0 zero_lt_indexLimit (.ofNat 3)
    ((Object.ofKind "Array" none .array).withProperty .length (.data (.ofNat 4) true false false)))

/-- A machine with that array as its only object. -/
def gappyMachine : Machine := { Machine.start {} with heap := (Heap.empty.add gappyArray).1 }

theorem object_gappyMachine : gappyMachine.heap.object Heap.empty.nextObject = gappyArray :=
  (Heap.object_add _ _ _).trans (if_pos rfl)

theorem isList_gappyMachine :
    gappyMachine.heap.IsList Heap.empty.nextObject [some (.ofNat 3), none, some (.ofNat 1), none] true := by
  have hkind : (gappyMachine.heap.object Heap.empty.nextObject).kind = .array := by
    rw [object_gappyMachine]
    rfl
  have hown (k : Key) :
      gappyMachine.heap.getOwn? Heap.empty.nextObject k = gappyArray.properties.get? k := by
    rw [Heap.getOwn?_of_array hkind, object_gappyMachine]
  refine .mk_of_element hkind ?_ (by decide) ?_ (fun i => ?_) fun i hi => ?_
  · rw [object_gappyMachine]
    rfl
  · rw [hown]
    decide +kernel
  · obtain ⟨i, hi⟩ := i
    rw [hown]
    unfold gappyArray
    simp only [Object.withProperty, PropertyTable.get?_insert, Key.index.injEq, Key.length_ne_index, Object.ofKind,
      PropertyTable.get?_empty, Fin.mk.injEq, if_false]
    rcases i with _ | _ | _ | _ | i <;> rfl
  · show ([some (.ofNat 3), none, some (.ofNat 1), none] : List (Option Value))[i]?.join = none
    rw [List.getElem?_eq_none hi]
    rfl

theorem inheritsNoElement_gappyMachine : gappyMachine.heap.InheritsNoElement Heap.empty.nextObject := by
  intro p hp
  have hnone : gappyMachine.heap.prototypeOf Heap.empty.nextObject = none := by
    unfold Heap.prototypeOf
    rw [object_gappyMachine]
    rfl
  obtain ⟨q, hq, _⟩ := TransGen.head'_iff.mp hp
  cases hnone.symm.trans hq

end Ecma51
