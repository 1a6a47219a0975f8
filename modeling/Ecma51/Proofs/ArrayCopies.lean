import Ecma51.Proofs.ArrayEnds

/-!
# Arrays copied to new ones

Two methods make a new array and copy elements to it: one a segment, the other all elements of its arrays and its other
arguments as they are. What is copied from stays as it is. The length of the new array is assigned at the end, so that
gaps at its end count. Together with the methods that change an array in place, all of them are operations on lists
with gaps, except that there may be no room for the new array.

* `Machine.Copied`, `CopiesTo`: a new array, and nothing else.
* `sliceStop`, **`slice_copies`**: a segment.
* `Heap.Contributes`, **`appendItem_rewrites`**, **`concat_copies`**: lists one after the other.
* **`arrays_asLists`**: the seven methods as operations on lists.
-/

namespace Ecma51

open Relation (ReflTransGen TransGen)

-- powers mean the same whether or not there are other instances in scope
attribute [local instance (high)] instPowNat

/-! ## 1. New arrays -/

/-- From one machine to another, a new array has come that shows a list. The values that are kept are as before, and so
is whatever is in use while they are kept. -/
structure Machine.Copied (m : Machine) (kept : List Value) (es : List (Option Value)) (m' : Machine) : Prop where
  array : m'.heap.IsList m.heap.nextObject es true
  source : ∀ b, Value.object b ∈ kept → b < m.heap.nextObject → m'.heap.object b = m.heap.object b
  object : ∀ b, m.heap.InUse (m.retaining kept).roots [] (Heap.objectNode b) → b ≠ m.heap.nextObject →
    m'.heap.object b = m.heap.object b
  environment : ∀ e, m.heap.InUse (m.retaining kept).roots [] (Heap.environmentNode e) →
    m'.heap.environment e = m.heap.environment e
  rest : m' = { m with heap := m'.heap, held := m'.held, nextCollection := m'.nextCollection }

/-- The operation gives a new array that shows a list, unless there is no room for it. In neither case is anything else
that is in use different. -/
def CopiesTo (bodies : Bodies) (m : Machine) (kept : List Value) (x : Run Value) (es : List (Option Value)) : Prop :=
  ((m.retaining kept).Crowded →
    ∃ m', x bodies m = .error (.fault .outOfMemory) m' ∧ (m.retaining kept).Intact m'.heap) ∧
  (¬ (m.retaining kept).Crowded →
    ∃ m', x bodies m = .ok (.object m.heap.nextObject) m' ∧ m.Copied kept es m')

section Copies

variable {bodies : Bodies} {m : Machine} {o : ObjectId} {es : List (Option Value)} {w : Bool} {args : List Value}

/-- What is kept is in use. -/
theorem inUse_retaining {vs : List Value} (ho : Value.object o ∈ vs) :
    (m.retaining vs).heap.InUse (m.retaining vs).roots [] (Heap.objectNode o) :=
  .outside (Machine.mem_roots_of_held (List.mem_append_left _ ho))

/-- A new array that is filled is all that there is new. -/
theorem copied_of_alters {vs : List Value} {h : Heap} (held : List Value) (hes : h.IsList m.heap.nextObject es true)
    (ha : Heap.AltersOnly m.heap.nextObject (Heap.LengthOrFrom 0) (m.retaining vs).withArray.heap h) :
    m.Copied vs es { (m.retaining vs).withArray with heap := h, held := held } := by
  have hobject (b : ObjectId) (hb : (m.retaining vs).heap.InUse (m.retaining vs).roots [] (Heap.objectNode b))
      (hne : b ≠ m.heap.nextObject) : h.object b = m.heap.object b :=
    (ha.other b hne).trans (object_withArray (m := m.retaining vs) hb hne)
  refine ⟨hes, fun b hb hlt => hobject b (inUse_retaining hb) (Nat.ne_of_lt hlt), hobject, fun e he => ?_, rfl⟩
  refine Eq.trans ?_ (environment_withArray (m := m.retaining vs) he)
  unfold Heap.environment
  rw [ha.others]

/-! ## 2. A segment -/

/-- Where the arguments say that the copied segment ends: at the end unless they say something else. -/
def sliceStop (args : List Value) (length : Nat) : Nat :=
  if (argumentAt args 1).isUndefined then length
  else relativeIndex (primitiveNumber (argumentAt args 1)).toInteger length

theorem sliceStop_le (args : List Value) (length : Nat) : sliceStop args length ≤ length := by
  unfold sliceStop
  split
  · exact Nat.le_refl _
  · exact relativeIndex_le _ _

/-- The last two of four elements without the last. -/
example : (spliceStart [.number (-.ofNat 2), .number (-.ofNat 1)] 4,
    sliceStop [.number (-.ofNat 2), .number (-.ofNat 1)] 4) = (2, 3) := by decide +kernel

/-- The elements from one position to another; none if the second comes first. -/
def slice {α : Type} (es : List α) (start stop : Nat) : List α := (es.drop start).take (stop - start)

/-- What the method does, in parts. -/
theorem slice_eq (this : Value) (args : List Value) :
    arrayFunction .slice this args = (do
      let (o, length) ← thisAndLengthWith [] this
      let a ← freshArrayWith []
      let x ← toInteger (argumentAt args 0)
      let stop ← positionOr (argumentAt args 1) length length
      let _ ← copySegment o a (relativeIndex x length) (stop - relativeIndex x length)
      return .object a) := by
  unfold copySegment
  simp only [bind_assoc, pure_bind]
  rfl

theorem positionOr_run {v : Value} (hv : v.isObject = false) (length other : Nat) :
    positionOr v length other bodies m =
      .ok (if v.isUndefined then other else relativeIndex (primitiveNumber v).toInteger length) m := by
  unfold positionOr
  split
  · rfl
  · exact (bind_run_ok (toInteger_run hv) _).trans rfl

theorem isObject_secondArgument (hargs : ∀ v ∈ args.take 2, v.isObject = false) :
    (argumentAt args 1).isObject = false := by
  match args with
  | [] => rfl
  | [_] => rfl
  | _ :: v :: _ => exact hargs v (List.mem_cons_of_mem _ List.mem_cons_self)

/-- **A segment of an array is copied** to a new one. -/
theorem slice_copies (bodies : Bodies) (hes : m.heap.IsList o es w) (hc : m.heap.InheritsNoElement o)
    (hlinked : m.heap.WellLinked) (ho : o < m.heap.nextObject) (hargs : ∀ v ∈ args.take 2, v.isObject = false) :
    CopiesTo bodies m [.object o] (arrayFunction .slice (.object o) args)
      (slice es (spliceStart args es.length) (sliceStop args es.length)) := by
  have hread : thisAndLengthWith [] (.object o) bodies m = _ := thisAndLengthWith_run hes []
  have hsame : Machine.retaining { m with held := .object o :: m.held } [] = m.retaining [.object o] := rfl
  refine ⟨fun hm => ?_, fun hm => ?_⟩
  · rw [← hsame] at hm
    have hfresh : freshArrayWith [] bodies { m with held := .object o :: m.held } = _ := freshArrayWith_crowded hm
    rw [hsame] at hfresh
    refine ⟨_, ?_, (m.retaining [.object o]).intact_reserve⟩
    rw [slice_eq, bind_run_ok hread]
    exact bind_run_error hfresh _
  · rw [← hsame] at hm
    have hfresh : freshArrayWith [] bodies { m with held := .object o :: m.held } = _ := freshArrayWith_free hm
    rw [hsame] at hfresh
    have huse : (m.retaining [.object o]).heap.InUse (m.retaining [.object o]).roots [] (Heap.objectNode o) :=
      inUse_retaining List.mem_cons_self
    have hne : o ≠ m.heap.nextObject := Nat.ne_of_lt ho
    obtain ⟨hc₀, hnot⟩ := inheritsNoElement_withArray (m := m.retaining [.object o]) hc hlinked ho huse
    have hsource : (m.retaining [.object o]).withArray.heap.IsList o es w :=
      Heap.HasElements.of_object hes (object_withArray (m := m.retaining [.object o]) huse hne)
    have hcount : spliceStart args es.length + (sliceStop args es.length - spliceStart args es.length) ≤ es.length := by
      have hstart := spliceStart_le args es.length
      have hstop := sliceStop_le args es.length
      omega
    obtain ⟨h, held, hcopy, hsegment, halters⟩ := copySegment_run
      (m := { (m.retaining [.object o]).withArray with held := .object m.heap.nextObject :: .object o :: m.held })
      bodies hsource (isList_withArray (m.retaining [.object o])) hc₀ hne hnot hcount
    refine ⟨_, ?_, copied_of_alters held hsegment halters⟩
    rw [slice_eq, bind_run_ok hread]
    refine (bind_run_ok hfresh _).trans ((bind_run_ok (toInteger_run (isObject_argumentAt hargs)) _).trans ?_)
    exact (bind_run_ok (positionOr_run (isObject_secondArgument hargs) _ _) _).trans
      ((bind_run_ok hcopy _).trans rfl)

/-! ## 3. Lists one after the other -/

/-- What a value adds to the new array: an array its elements, and anything else itself. -/
inductive Heap.Contributes (h : Heap) : Value → List (Option Value) → Prop
  | array {o : ObjectId} {es : List (Option Value)} {w : Bool} (list : h.IsList o es w)
      (inherits : h.InheritsNoElement o) : h.Contributes (.object o) es
  | single {v : Value} (noArray : ∀ o, v = .object o → (h.object o).isArray = false) : h.Contributes v [some v]

section Append

variable {h₀ : Heap} {a : ObjectId} {V : ArrayView} {acc : List (Option Value)} {v : Value}

/-- What is appended to a new array: it is not that array, and does not inherit from it. -/
inductive Heap.Supplies (h : Heap) (a : ObjectId) : Value → List (Option Value) → Prop
  | array {o : ObjectId} {es : List (Option Value)} {w : Bool} (list : h.IsList o es w)
      (inherits : h.InheritsNoElement o) (ne : o ≠ a)
      (beside : ∀ p, TransGen (LinksTo h.prototypeOf) o p → p ≠ a) : h.Supplies a (.object o) es
  | single {v : Value} (noArray : ∀ o, v = .object o → o ≠ a ∧ (h.object o).isArray = false) : h.Supplies a v [some v]

/-- The array has the elements of a list, and no others. -/
def ArrayView.Begins (V : ArrayView) (es : List (Option Value)) : Prop :=
  V.writable = true ∧ ∀ j, V.element j = es[j]?.join

theorem ArrayView.Begins.absent (hV : V.Begins acc) {i : Nat} (hi : acc.length ≤ i) : V.element i = none := by
  rw [hV.2, List.getElem?_eq_none hi]
  rfl

/-- One more element, or a gap. -/
theorem ArrayView.Begins.copy (hV : V.Begins acc) (x : Option Value) : (V.copy acc.length x).Begins (acc ++ [x]) := by
  refine ⟨(V.writable_copy _ _).trans hV.1, fun j => ?_⟩
  rw [ArrayView.element_copy_of_absent (hV.absent (Nat.le_refl _)), hV.2]
  rcases Nat.lt_trichotomy j acc.length with hj | rfl | hj
  · rw [if_neg (by omega), List.getElem?_append_left hj]
  · rw [if_pos rfl, List.getElem?_append_right (Nat.le_refl _), Nat.sub_self]
    rfl
  · rw [if_neg (by omega), List.getElem?_eq_none (by omega), List.getElem?_eq_none]
    rw [List.length_append, List.length_singleton]
    exact hj

/-- What an operation does after it has looked at the heap. -/
theorem Rewrites.getHeap {α : Type} {f : Heap → Run α} {r : α} {W : ArrayView}
    (hf : ∀ h, h₀.Rewritten a V h → Rewrites bodies h₀ a V (f h) r W) :
    Rewrites bodies h₀ a V (do f (← getHeap)) r W := fun m hm => hf m.heap hm m hm

/-- **A value is appended**: an array element by element, with its gaps, and another value as it is. -/
theorem appendItem_rewrites (bodies : Bodies) (hV : V.Begins acc) (hs : h₀.Supplies a v es)
    (hlimit : acc.length + es.length < 2 ^ 32) :
    ∃ V', Rewrites bodies h₀ a V (appendItem a acc.length v) (acc.length + es.length) V' ∧ V'.Begins (acc ++ es) := by
  cases hs with
  | single hno =>
    have hlast : acc.length < indexLimit := lt_indexLimit hlimit
    have hadd : Rewrites bodies h₀ a V (do
        addAt a acc.length v
        return acc.length + 1) (acc.length + 1) (V.put acc.length v) :=
      (addAt_rewrites hlast hV.1 (hV.absent (Nat.le_refl _)) v).bind .pure
    refine ⟨_, ?_, hV.copy (some v)⟩
    cases v with
    | object e =>
      refine Rewrites.getHeap fun h hh => ?_
      have hobject : h.object e = h₀.object e := hh.alters.other e (hno e rfl).1
      rw [hobject, (hno e rfl).2]
      exact hadd
    | undefined | null | nothing | boolean | number | string => exact hadd
  | @array e es w hlist hinherits hne hnot =>
    have hitem : es.length < 2 ^ 32 := hlist.inRange
    -- what has been copied so far
    obtain ⟨V', hcopy, hV'⟩ : ∃ V', Rewrites bodies h₀ a V
        (upward (fun k => copyElement e k a (acc.length + k)) es.length 0) () V' ∧
        V'.Begins (acc ++ es.take es.length) := by
      refine Rewrites.upward (fun k V => V.Begins (acc ++ es.take k)) ?_ ?_
      · intro k hk V hV
        have htarget : (acc ++ es.take k).length = acc.length + k := by
          rw [List.length_append, List.length_take_of_le (Nat.le_of_lt hk)]
        have helement : (ArrayView.ofList es w).element k = es[k] := by
          show es[k]?.join = es[k]
          rw [List.getElem?_eq_getElem hk]
          rfl
        have hnext := hV.copy es[k]
        rw [List.append_assoc, ← List.take_succ_eq_append_getElem hk, htarget, ← helement] at hnext
        rw [Nat.zero_add]
        exact ⟨_, copyElement_rewrites hlist hinherits hne hnot (lt_indexLimit (by omega)) (lt_indexLimit (by omega))
          hV.1 (hV.absent (Nat.le_of_eq htarget)), hnext⟩
      · rw [List.take_zero, List.append_nil]
        exact hV
    rw [List.take_length] at hV'
    refine ⟨V', Rewrites.getHeap fun h hh => ?_, hV'⟩
    have harray : (h.object e).isArray = true := by
      unfold Object.isArray
      rw [hh.alters.other e hne, hlist.kind]
    have hlength : Rewrites bodies h₀ a V (lengthOfArrayLike e) es.length V := by
      refine .of_run fun m hm => ?_
      exact lengthOf_run (Heap.HasElements.of_object hlist (hm.alters.other e hne))
    rw [harray]
    exact hlength.bind (hcopy.bind .pure)

/-- **Values are appended one after the other.** -/
theorem appendItems_rewrites (bodies : Bodies) (hV : V.Begins acc) {vs : List Value} {ess : List (List (Option Value))}
    (hs : List.Forall₂ (h₀.Supplies a) vs ess) (hlimit : (acc ++ ess.flatten).length < 2 ^ 32) :
    ∃ V', Rewrites bodies h₀ a V (handleEach (appendItem a) acc.length vs) (acc ++ ess.flatten).length V' ∧
      V'.Begins (acc ++ ess.flatten) := by
  induction hs generalizing acc V with
  | nil =>
    rw [List.flatten_nil, List.append_nil]
    exact ⟨V, .pure, hV⟩
  | @cons v es vs ess hv hvs ih =>
    rw [List.flatten_cons, ← List.append_assoc] at hlimit ⊢
    have hfirst : acc.length + es.length < 2 ^ 32 := by
      rw [List.length_append, List.length_append] at hlimit
      omega
    obtain ⟨V₁, hitem, hV₁⟩ := appendItem_rewrites bodies hV hv hfirst
    obtain ⟨V', hrest, hV'⟩ := ih hV₁ hlimit
    rw [List.length_append] at hrest
    have hheld : Rewrites bodies h₀ a V (holding [] (appendItem a acc.length _)) _ V₁ := hitem.holding
    exact ⟨V', hheld.bind (Rewrites.letGo.bind hrest), hV'⟩

end Append

/-- What the method does, in parts. -/
theorem concat_eq (o : ObjectId) (args : List Value) :
    arrayFunction .concat (.object o) args = (do
      let o' ← holding args (toObject (.object o))
      let a ← freshArrayWith (.object o' :: args)
      let n ← consuming (appendItem a) 0 (.object o' :: args)
      putLength a n
      return .object a) := rfl

/-- **Arrays and values are put together** in a new array. -/
theorem concat_copies (bodies : Bodies) (hlinked : m.heap.WellLinked) {ess : List (List (Option Value))}
    (hitems : List.Forall₂ m.heap.Contributes (.object o :: args) ess)
    (hbelow : ∀ b, Value.object b ∈ .object o :: args → b < m.heap.nextObject)
    (hlimit : ess.flatten.length < 2 ^ 32) :
    CopiesTo bodies m (.object o :: args) (arrayFunction .concat (.object o) args) ess.flatten := by
  have hthis : holding args (toObject (.object o)) bodies m = .ok o m := holding_run rfl
  refine ⟨fun hm => ?_, fun hm => ?_⟩
  · refine ⟨{ (m.retaining (.object o :: args)).reserve.1 with held := m.held }, ?_,
      (m.retaining (.object o :: args)).intact_reserve⟩
    rw [concat_eq, bind_run_ok hthis]
    exact bind_run_error (freshArrayWith_crowded hm) _
  · -- all that is copied is as it was before the new array
    have hsupplies {v : Value} {es : List (Option Value)} (hv : v ∈ .object o :: args)
        (hes : m.heap.Contributes v es) :
        (m.retaining (.object o :: args)).withArray.heap.Supplies m.heap.nextObject v es := by
      have hsame (b : ObjectId) (hb : v = .object b) : b ≠ m.heap.nextObject ∧
          (m.retaining (.object o :: args)).withArray.heap.object b = m.heap.object b := by
        have hne : b ≠ m.heap.nextObject := Nat.ne_of_lt (hbelow b (hb ▸ hv))
        exact ⟨hne, object_withArray (m := m.retaining (.object o :: args)) (inUse_retaining (hb ▸ hv)) hne⟩
      cases hes with
      | @array b es w hlist hinherits =>
        obtain ⟨hne, hobject⟩ := hsame b rfl
        obtain ⟨hc₀, hnot⟩ := inheritsNoElement_withArray (m := m.retaining (.object o :: args)) hinherits hlinked
          (hbelow b hv) (inUse_retaining hv)
        exact .array (Heap.HasElements.of_object hlist hobject) hc₀ hne hnot
      | single hno => exact .single fun b hb => ⟨(hsame b hb).1, (hsame b hb).2.symm ▸ hno b hb⟩
    have hmem : List.Forall₂ (fun v es => v ∈ .object o :: args ∧ m.heap.Contributes v es) (.object o :: args) ess :=
      (List.forall₂_and_left _ _).mpr ⟨fun _ h => h, hitems⟩
    have hempty : (ArrayView.ofList [] true).Begins [] := ⟨rfl, fun j => rfl⟩
    obtain ⟨V, happend, hV⟩ := appendItems_rewrites bodies hempty
      (hmem.imp fun _ _ h => hsupplies h.1 h.2) hlimit
    have hbuild : Rewrites bodies (m.retaining (.object o :: args)).withArray.heap m.heap.nextObject (.ofList [] true)
        (do
          let n ← consuming (appendItem m.heap.nextObject) 0 (.object o :: args)
          putLength m.heap.nextObject n
          return Value.object m.heap.nextObject) (.object m.heap.nextObject) (V.cut ess.flatten.length) :=
      happend.holding.bind ((putLength_rewrites hV.1 hlimit).bind .pure)
    obtain ⟨h, held, hrun, hh⟩ := hbuild
      { (m.retaining (.object o :: args)).withArray with held := .object m.heap.nextObject :: m.held }
      (Heap.HasElements.rewritten (isList_withArray (m.retaining (.object o :: args))))
    have hlist : h.IsList m.heap.nextObject ess.flatten V.writable :=
      hh.elements.isList rfl fun j hj => (if_pos hj).trans (hV.2 j)
    refine ⟨_, ?_, copied_of_alters held (hV.1 ▸ hlist) hh.alters⟩
    rw [concat_eq, bind_run_ok hthis]
    exact (bind_run_ok (freshArrayWith_free hm) _).trans hrun

end Copies

/-! ## 4. All seven methods -/

/-- **Arrays are lists with gaps, and their methods are operations on lists.** This holds of every extensible array of
plain elements, with any gaps, if no prototype has an element. To add and to remove elements the length must be
writable. An array that becomes too long is left out. The only failure is that there is no room for a new array, and
then everything in use is as it was. -/
theorem arrays_asLists {m : Machine} {o : ObjectId} {es : List (Option Value)} {w : Bool} (bodies : Bodies)
    (hes : m.heap.IsList o es w) (hc : m.heap.InheritsNoElement o) (hlinked : m.heap.WellLinked)
    (ho : o < m.heap.nextObject) (args : List Value) :
    (w = true → es.length + args.length < 2 ^ 32 →
      BecomesList bodies m o true (arrayFunction .push (.object o) args) (.ofNat (es.length + args.length))
        (es ++ args.map some) ∧
      BecomesList bodies m o true (arrayFunction .unshift (.object o) args) (.ofNat (es.length + args.length))
        (args.map some ++ es)) ∧
    (w = true →
      BecomesList bodies m o true (arrayFunction .pop (.object o) args) (valueOrUndefined es.getLast?) es.dropLast ∧
      BecomesList bodies m o true (arrayFunction .shift (.object o) args) (valueOrUndefined es.head?) es.tail) ∧
    BecomesList bodies m o w (arrayFunction .reverse (.object o) args) (.object o) es.reverse ∧
    ((∀ v ∈ args.take 2, v.isObject = false) →
      CopiesTo bodies m [.object o] (arrayFunction .slice (.object o) args)
        (slice es (spliceStart args es.length) (sliceStop args es.length))) ∧
    ∀ ess, List.Forall₂ m.heap.Contributes args ess → (∀ b, Value.object b ∈ args → b < m.heap.nextObject) →
      (es ++ ess.flatten).length < 2 ^ 32 →
      CopiesTo bodies m (.object o :: args) (arrayFunction .concat (.object o) args) (es ++ ess.flatten) := by
  refine ⟨fun hw hlimit => ?_, fun hw => ?_, reverse_becomes bodies hes hc args, slice_copies bodies hes hc hlinked ho,
    fun ess hargs hbelow hlimit => ?_⟩
  · subst hw
    exact ⟨push_becomes bodies hes hc hlimit, unshift_becomes bodies hes hc hlimit⟩
  · subst hw
    exact ⟨pop_becomes bodies hes hc args, shift_becomes bodies hes hc args⟩
  · have hitems : List.Forall₂ m.heap.Contributes (.object o :: args) (es :: ess) := .cons (.array hes hc) hargs
    refine concat_copies bodies hlinked hitems (fun b hb => ?_) hlimit
    rcases List.mem_cons.mp hb with heq | hb
    · exact Value.object.inj heq ▸ ho
    · exact hbelow b hb

/-- Three of the methods on an array that ends in a gap: the gap is removed, is copied, and comes before a value. -/
theorem arrays_asLists_gappy :
    BecomesList (bodiesAt 0) gappyMachine Heap.empty.nextObject true
      (arrayFunction .pop (.object Heap.empty.nextObject) []) .undefined
      [some (.ofNat 3), none, some (.ofNat 1)] ∧
    (∃ m', arrayFunction .slice (.object Heap.empty.nextObject) [.ofNat 1] (bodiesAt 0) gappyMachine =
        .ok (.object gappyMachine.heap.nextObject) m' ∧
      m'.heap.IsList gappyMachine.heap.nextObject [none, some (.ofNat 1), none] true) ∧
    ∃ m', arrayFunction .concat (.object Heap.empty.nextObject) [.ofNat 7] (bodiesAt 0) gappyMachine =
        .ok (.object gappyMachine.heap.nextObject) m' ∧
      m'.heap.IsList gappyMachine.heap.nextObject
        [some (.ofNat 3), none, some (.ofNat 1), none, some (.ofNat 7)] true := by
  have hbelow : Heap.empty.nextObject < gappyMachine.heap.nextObject := by decide
  obtain ⟨_, hpop, _, _, hconcat⟩ := arrays_asLists (bodiesAt 0) isList_gappyMachine inheritsNoElement_gappyMachine
    wellLinked_gappyMachine hbelow [.ofNat 7]
  obtain ⟨_, _, _, hslice, _⟩ := arrays_asLists (bodiesAt 0) isList_gappyMachine inheritsNoElement_gappyMachine
    wellLinked_gappyMachine hbelow [.ofNat 1]
  have hsegment : (spliceStart [.ofNat 1] 4, sliceStop [.ofNat 1] 4) = (1, 4) := by decide +kernel
  obtain ⟨hstart, hstop⟩ := Prod.mk.inj hsegment
  obtain ⟨m₁, hrun₁, hcopied₁⟩ := (hslice (by decide)).2 (Machine.not_crowded_of_unlimited rfl)
  obtain ⟨m₂, hrun₂, hcopied₂⟩ := (hconcat [[some (.ofNat 7)]] (.cons (.single nofun) .nil)
    (fun b hb => nomatch hb) (by decide)).2 (Machine.not_crowded_of_unlimited rfl)
  refine ⟨(hpop rfl).1, ⟨m₁, hrun₁, ?_⟩, m₂, hrun₂, hcopied₂.array⟩
  have hlist := hcopied₁.array
  rw [show ([some (.ofNat 3), none, some (.ofNat 1), none] : List (Option Value)).length = 4 from rfl, hstart,
    hstop] at hlist
  exact hlist

/-- Without room for another object, neither a segment nor a list put together can be made, not even an empty one. -/
theorem copies_fail :
    fullMachine.Reachable ∧ fullMachine.heap.IsList Intrinsic.arrayPrototype.id [] true ∧
      fullMachine.heap.InheritsNoElement Intrinsic.arrayPrototype.id ∧
      faultOf? (arrayFunction .slice (.object Intrinsic.arrayPrototype.id) [] (bodiesAt 0) fullMachine) =
        some .outOfMemory ∧
      faultOf? (arrayFunction .concat (.object Intrinsic.arrayPrototype.id) [] (bodiesAt 0) fullMachine) =
        some .outOfMemory :=
  ⟨.aside (.start {}) rfl, isList_fullMachine, inheritsNoElement_fullMachine, by decide +kernel, by decide +kernel⟩

end Ecma51
