import Mathlib.Data.List.ReduceOption
import Ecma51.Proofs.ArrayView
import Ecma51.Proofs.Restating
import Ecma51.Proofs.Sorting

/-!
# Sorting arrays

The method that sorts an array reads the elements that are present, sorts them, and writes them back to the front. If
the comparison does not touch the array, nothing is written before all comparisons are made. So either all elements are
there afterwards, in some order and before all gaps, or a comparison failed and the array is as it was.

* `Comparison.Leaves`: no comparison touches an array.
* **`presentElements_run`**: what is sorted.
* **`replaceElements_rewrites`**: what is written back.
* **`sort_rearranges`**: all that sorting can do, for every comparison.
-/

namespace Ecma51

-- powers mean the same whether or not there are other instances in scope
attribute [local instance (high)] instPowNat

/-! ## 1. Reading and writing back -/

section Steps

variable {bodies : Bodies} {h₀ : Heap} {o : ObjectId} {m : Machine} {V : ArrayView} {es : List (Option Value)}
  {w : Bool}

theorem thisAndLengthWith_run (he : m.heap.HasElements o V) (waiting : List Value) :
    thisAndLengthWith waiting (.object o) bodies m = .ok (o, V.length) { m with held := .object o :: m.held } := by
  have hobject : holding waiting (toObject (.object o)) bodies m = .ok o m := holding_run rfl
  have hlength : holding waiting (lengthOfArrayLike o) bodies { m with held := .object o :: m.held } =
      .ok V.length { m with held := .object o :: m.held } := holding_run (lengthOf_run he)
  unfold thisAndLengthWith
  rw [bind_run_ok hobject]
  show (holding waiting (lengthOfArrayLike o) >>= fun n => pure (o, n)) bodies
    { m with held := .object o :: m.held } = _
  rw [bind_run_ok hlength]
  rfl

/-- **The elements that are present** are read in order, and kept. -/
theorem presentElements_run (bodies : Bodies) (hc : m.heap.InheritsNoElement o) (he : m.heap.HasElements o V)
    {n i : Nat} (hi : i + n ≤ V.length) (acc : List Value) :
    presentElements o n i acc bodies m =
      .ok (acc.reverse ++ ((List.range' i n).map V.element).reduceOption)
        { m with held := ((List.range' i n).map V.element).reduceOption.reverse ++ m.held } := by
  induction n generalizing i acc m with
  | zero =>
    rw [List.range'_zero, List.map_nil, List.reduceOption_nil, List.append_nil]
    rfl
  | succ n ih =>
    have hlimit : i < indexLimit := he.lt_limit (by omega)
    unfold presentElements
    rw [bind_run_ok (hasAt_run hc he hlimit), List.range'_succ, List.map_cons]
    cases hv : V.element i with
    | none =>
      rw [List.reduceOption_cons_of_none]
      exact ih hc he (by omega) acc
    | some v =>
      rw [List.reduceOption_cons_of_some, List.reverse_cons, List.append_assoc]
      have hrest := ih (m := { m with held := v :: m.held }) (i := i + 1) hc he (by omega) (v :: acc)
      rw [List.reverse_cons, List.append_assoc] at hrest
      exact (bind_run_ok (getAt_run hc he hlimit hv) _).trans hrest

theorem map_element_ofList (es : List (Option Value)) (w : Bool) :
    (List.range' 0 es.length).map (ArrayView.ofList es w).element = es := by
  refine List.ext_getElem? fun i => ?_
  rw [List.getElem?_map]
  by_cases hi : i < es.length
  · rw [List.getElem?_range' hi, List.getElem?_eq_getElem hi]
    show some (es[0 + 1 * i]?.join) = _
    rw [Nat.one_mul, Nat.zero_add, List.getElem?_eq_getElem hi]
    rfl
  · rw [List.getElem?_eq_none (Nat.le_of_not_lt hi),
      List.getElem?_eq_none (by rw [List.length_range']; exact Nat.le_of_not_lt hi)]
    rfl

theorem presentElements_isList (bodies : Bodies) (hes : m.heap.IsList o es w) (hc : m.heap.InheritsNoElement o) :
    presentElements o es.length 0 [] bodies m =
      .ok es.reduceOption { m with held := es.reduceOption.reverse ++ m.held } := by
  have hread := presentElements_run bodies hc hes (Nat.le_of_eq (Nat.zero_add _)) []
  rw [show (ArrayView.ofList es w).length = es.length from rfl, map_element_ofList] at hread
  exact hread

/-- **Values are written to the front, and the rest is deleted**: as many as there are elements at most. -/
theorem replaceElements_rewrites (bodies : Bodies) (w : Bool) (hc : h₀.InheritsNoElement o)
    (hn : es.length < 2 ^ 32) {vs : List Value} (hvs : vs.length ≤ es.length) :
    ∃ V', Rewrites bodies h₀ o (.ofList es w) (do
        putAll o vs 0
        upward (deleteAt o) (es.length - vs.length) vs.length) () V' ∧
      V'.length = es.length ∧ V'.writable = w ∧
      ∀ j, j < es.length → V'.element j = if j < vs.length then vs[j]? else none := by
  have hlimit : es.length ≤ indexLimit := by
    unfold indexLimit
    omega
  have hroom : 0 + vs.length ≤ (ArrayView.ofList es w).length := by
    rw [Nat.zero_add]
    exact hvs
  have hput : Rewrites bodies h₀ o (.ofList es w) (putAll o vs 0) () ((ArrayView.ofList es w).putAll vs 0) :=
    putAll_rewrites hc (by omega) (.inl hroom)
  have hstart : ∀ j, j < vs.length + 0 →
      ((ArrayView.ofList es w).putAll vs 0).element j = if j < vs.length then vs[j]? else none := by
    intro j hj
    rw [ArrayView.element_putAll, if_pos (by omega), if_pos (by omega), Nat.sub_zero]
  -- what has been deleted so far
  obtain ⟨V', hdelete, hlength, hwritable, helement⟩ : ∃ V', Rewrites bodies h₀ o ((ArrayView.ofList es w).putAll vs 0)
      (upward (deleteAt o) (es.length - vs.length) vs.length) () V' ∧ V'.length = es.length ∧ V'.writable = w ∧
      ∀ j, j < vs.length + (es.length - vs.length) → V'.element j = if j < vs.length then vs[j]? else none := by
    refine Rewrites.upward (fun k V => V.length = es.length ∧ V.writable = w ∧
      ∀ j, j < vs.length + k → V.element j = if j < vs.length then vs[j]? else none) ?_
      ⟨ArrayView.length_putAll hroom, ArrayView.writable_putAll vs 0, hstart⟩
    rintro k hk V ⟨hlength, hwritable, helement⟩
    refine ⟨_, deleteAt_rewrites (by omega), hlength, hwritable, fun j hj => ?_⟩
    rw [ArrayView.element_delete]
    split
    · rw [if_neg (by omega)]
    · exact helement j (by omega)
  exact ⟨V', hput.bind hdelete, hlength, hwritable, fun j hj => helement j (by omega)⟩

/-- **What is written back is a list** with all gaps at its end. -/
theorem replaceElements_run (hes : m.heap.IsList o es w) (hc : m.heap.InheritsNoElement o) {vs : List Value}
    (hvs : vs.length ≤ es.length) :
    ∃ h held, (do
        putAll o vs 0
        upward (deleteAt o) (es.length - vs.length) vs.length
        return Value.object o : Run Value) bodies m = .ok (.object o) { m with heap := h, held := held } ∧
      h.IsList o (vs.map some ++ List.replicate (es.length - vs.length) none) w ∧
      Heap.AltersOnly o (Heap.LengthOrFrom 0) m.heap h := by
  obtain ⟨V', hwrite, hlength, rfl, helement⟩ := replaceElements_rewrites bodies w hc hes.inRange hvs
  obtain ⟨h, held, hrun, hh⟩ := hwrite m (Heap.HasElements.rewritten hes)
  refine ⟨h, held, ?_, hh.elements.isList ?_ fun i hi => ?_, hh.alters⟩
  · exact (congrFun (congrFun (bind_assoc _ _ _).symm bodies) m).trans (bind_run_ok hrun _)
  · rw [List.length_append, List.length_map, List.length_replicate, hlength]
    omega
  · rw [List.length_append, List.length_map, List.length_replicate] at hi
    rw [helement i (by omega)]
    split
    · rename_i hin
      rw [List.getElem?_append_left (by rwa [List.length_map]), List.getElem?_map, List.getElem?_eq_getElem hin]
      rfl
    · rename_i hout
      rw [List.getElem?_append_right (by rw [List.length_map]; omega), List.length_map,
        List.getElem?_replicate, if_pos (by omega)]
      rfl

end Steps

/-! ## 2. Comparisons that leave an array alone -/

/-- The machine while it sorts elements of an array. -/
def Machine.sorting (m : Machine) (o : ObjectId) (items : List Value) : Machine :=
  { m with held := items.reverse ++ .object o :: m.held }

/-- However a comparison of the elements ends, the array is as it was, and inherits no element. -/
def Comparison.Leaves (C : Comparison Value) (o : ObjectId) : Prop :=
  ∀ k m, C.Reaches k m → ∀ x ∈ C.items, ∀ y ∈ C.items,
    (endOf (C.compare x y C.bodies m)).heap.object o = C.start.heap.object o ∧
      (endOf (C.compare x y C.bodies m)).heap.InheritsNoElement o

theorem Comparison.Leaves.reached {C : Comparison Value} {o : ObjectId} (hl : C.Leaves o)
    (hc : C.start.heap.InheritsNoElement o) {k : Nat} {m : Machine} (hm : C.Reaches k m) :
    m.heap.object o = C.start.heap.object o ∧ m.heap.InheritsNoElement o := by
  cases hm with
  | start => exact ⟨rfl, hc⟩
  | compared before hx hy answer =>
    have hend := hl _ _ before _ hx _ hy
    rw [answer] at hend
    exact hend

/-- Comparing primitive values by their texts leaves everything alone. -/
theorem leaves_of_primitive {bodies : Bodies} {items : List Value} {m : Machine} {o : ObjectId} {f : Value}
    (hf : f.isUndefined = true) (hprimitive : ∀ x ∈ items, x.isObject = false) (hc : m.heap.InheritsNoElement o) :
    (elementComparison f bodies items m).Leaves o := by
  have hsame (m : Machine) {x y : Value} (hx : x ∈ items) (hy : y ∈ items) :
      compareElements f x y bodies m =
        .ok (undefinedLast (fun x y => (primitiveText x).compare (primitiveText y)) x y) m :=
    compareElements_primitive hf (hprimitive x hx) (hprimitive y hy) bodies m
  intro k m' hm x hx y hy
  obtain rfl : m' = m := hm.eq_start fun x y r m' hx hy hr => by
    cases (hsame m hx hy).symm.trans hr
    rfl
  show (endOf (compareElements f x y bodies m')).heap.object o = _ ∧
    (endOf (compareElements f x y bodies m')).heap.InheritsNoElement o
  rw [hsame m' hx hy]
  exact ⟨rfl, hc⟩

/-- How sorting an array ends: with all elements before the gaps, and everything else as the comparisons left it; or
with the failure of a comparison, and the array as it was. -/
inductive Comparison.SortsArray (C : Comparison Value) (limit : Nat) (o : ObjectId) (es : List (Option Value))
    (w : Bool) : EStateM.Result Failure Machine Value → Prop where
  | sorted {k : Nat} {m m' : Machine} {vs : List Value} (before : C.Reaches k m) (few : k ≤ limit)
      (perm : vs.Perm es.reduceOption)
      (list : m'.heap.IsList o (vs.map some ++ List.replicate (es.length - vs.length) none) w)
      (rest : Heap.AltersOnly o (Heap.LengthOrFrom 0) m.heap m'.heap) : SortsArray C limit o es w (.ok (.object o) m')
  | failed {k : Nat} {m m₁ m' : Machine} {x y : Value} {e : Failure} (before : C.Reaches k m) (few : k < limit)
      (hx : x ∈ C.items) (hy : y ∈ C.items) (failure : C.compare x y C.bodies m = .error e m₁)
      (heap : m'.heap = m₁.heap) (array : m'.heap.object o = C.start.heap.object o) (list : m'.heap.IsList o es w) :
      SortsArray C limit o es w (.error e m')

theorem Heap.MayCall.not_refused {h : Heap} {f : Value} (hf : h.MayCall f) :
    (!f.isUndefined && !h.isCallable f) = false := by
  rcases hf with hf | hf
  · rw [hf]
    rfl
  · rw [hf, Bool.not_true, Bool.and_false]

section SortElements

variable {bodies : Bodies} {m : Machine} {o : ObjectId} {es : List (Option Value)} {w : Bool} {f : Value}

theorem sortElements_ends (hes : m.heap.IsList o es w) (hc : m.heap.InheritsNoElement o) (hf : m.heap.MayCall f)
    (hl : (elementComparison f bodies es.reduceOption (m.sorting o es.reduceOption)).Leaves o) :
    (elementComparison f bodies es.reduceOption (m.sorting o es.reduceOption)).SortsArray
      (3 * es.reduceOption.length * Nat.log 2 es.reduceOption.length) o es w
      (sortElements (.object o) f bodies m) := by
  have hthis : thisAndLength (.object o) bodies m = .ok (o, es.length) { m with held := .object o :: m.held } :=
    thisAndLengthWith_run hes []
  unfold sortElements
  rw [bind_run_ok hthis]
  dsimp only
  rw [getHeap_bind_run]
  dsimp only
  rw [hf.not_refused, if_neg Bool.false_ne_true]
  obtain ⟨items, hitems⟩ : ∃ items, items = es.reduceOption := ⟨_, rfl⟩
  rw [← hitems] at hl ⊢
  have hread : presentElements o es.length 0 [] bodies { m with held := .object o :: m.held } =
      .ok items (m.sorting o items) := hitems ▸ presentElements_isList bodies hes hc
  have hends := heapSort_ends (elementComparison f bodies items (m.sorting o items))
    (v := (⟨items.toArray, rfl⟩ : Vector Value items.toArray.size)) fun x hx => by
      show x ∈ items
      simpa using hx
  cases hr : heapSort (compareElements f) (⟨items.toArray, rfl⟩ : Vector Value items.toArray.size) bodies
    (m.sorting o items) with
  | error e m' =>
    cases hr ▸ hends with
    | failed before few hx hy failure =>
      have hend := hl _ _ before _ hx _ hy
      rw [failure] at hend
      rw [bind_run_error (holding_error ((bind_run_ok hread _).trans (bind_run_error hr _)))]
      exact .failed before few hx hy failure rfl hend.1 (hes.of_object hend.1)
  | ok v m' =>
    cases hr ▸ hends with
    | finished before few result =>
      obtain ⟨hobject, hc'⟩ := hl.reached hc before
      have hperm : v.toList.Perm items := Vector.perm_iff_toList_perm.mp result.1
      have hlength : v.toList.length ≤ es.length := by
        rw [hperm.length_eq, hitems]
        exact List.reduceOption_length_le es
      obtain ⟨h, held, hrun, hlist, halters⟩ := replaceElements_run (m := { m' with held := .object o :: m.held })
        (hes.of_object hobject) hc' hlength
      rw [bind_run_ok (holding_ok ((bind_run_ok hread _).trans ((bind_run_ok hr _).trans rfl)))]
      exact hrun ▸ .sorted before few (hitems ▸ hperm) hlist halters

end SortElements

/-- **Sorting rearranges, whatever the comparison does.** Heap sort ends after at most `3 * n * log n` comparisons with
a rearrangement of its input or with the first failure of a comparison. So the method of arrays, if the array is
extensible and has plain elements and the comparison leaves it alone, either puts all elements that are present to the
front, in some order, with only gaps after them and the same length; or it fails as a comparison did, and the array is
as it was. -/
theorem sort_rearranges (bodies : Bodies) :
    (∀ {α : Type} {n : Nat} (compare : α → α → Run Ordering) (v : Vector α n) (m : Machine),
      Comparison.Ends ⟨compare, bodies, v.toList, m⟩ (3 * n * Nat.log 2 n) (fun w => w.Perm v)
        (heapSort compare v bodies m)) ∧
    ∀ {m : Machine} {o : ObjectId} {es : List (Option Value)} {w : Bool} {args : List Value},
      m.heap.IsList o es w → m.heap.InheritsNoElement o → m.heap.MayCall (argumentAt args 0) →
      let items := es.reduceOption
      let C := elementComparison (argumentAt args 0) bodies items (m.sorting o items)
      C.Leaves o →
      C.SortsArray (3 * items.length * Nat.log 2 items.length) o es w
        (arrayFunction .sort (.object o) args bodies m) := by
  refine ⟨fun {α n} compare v m => ?_, fun hes hc hf hl => sortElements_ends hes hc hf hl⟩
  exact (heapSort_ends ⟨compare, bodies, v.toList, m⟩ fun x hx => Vector.mem_toList_iff.mpr hx).mono
    (Nat.le_refl _) fun w hw => hw.1

/-- The two elements come to the front. -/
theorem sort_rearranges_gappy :
    ∃ (vs : List Value) (m' : Machine), arrayFunction .sort (.object Heap.empty.nextObject) [] (bodiesAt 0)
        gappyMachine = .ok (.object Heap.empty.nextObject) m' ∧ vs.Perm [.ofNat 3, .ofNat 1] ∧
      m'.heap.IsList Heap.empty.nextObject (vs.map some ++ List.replicate (4 - vs.length) none) true := by
  have hprimitive : ∀ x ∈ [Value.ofNat 3, .ofNat 1], x.isObject = false := by decide
  have hends : Comparison.SortsArray _ _ _ _ _ (arrayFunction .sort (.object Heap.empty.nextObject) [] _ _) :=
    (sort_rearranges (bodiesAt 0)).2 isList_gappyMachine inheritsNoElement_gappyMachine (.inl rfl)
      (leaves_of_primitive rfl hprimitive inheritsNoElement_gappyMachine)
  generalize hrun : arrayFunction .sort (.object Heap.empty.nextObject) [] (bodiesAt 0) gappyMachine = r at hends ⊢
  cases hends with
  | sorted before few perm list rest => exact ⟨_, _, rfl, perm, list⟩
  | failed before few hx hy failure heap array list =>
    cases (compareElements_primitive rfl (hprimitive _ hx) (hprimitive _ hy) _ _).symm.trans failure

end Ecma51
