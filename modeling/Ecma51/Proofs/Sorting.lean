import Ecma51.Library
import Ecma51.Realm
import Ecma51.Proofs.HeapSort
import Ecma51.Proofs.Settling

/-!
# Sorting by an order

If a function compares values always in the same way, and as a total preorder does, or if they are compared by their
texts, then sorting puts them in order. Undefined values come last in any case: the function is not asked about them.

* `Text.compare_swap`, `Text.compare_trans`: the order of texts.
* `undefinedLast`: an order of values, extended to undefined.
* **`heapSort_sorts`**: what sorting leaves is in order.
-/

namespace Ecma51

-- powers mean the same whether or not there are other instances in scope
attribute [local instance (high)] instPowNat

/-! ## 1. The order of texts -/

namespace Text

theorem compareUnits_eq (s t : List CodeUnit) : compareUnits s t = Ord.compare s t := by
  induction s generalizing t with
  | nil => cases t <;> rfl
  | cons a s ih =>
    cases t with
    | nil => rfl
    | cons b t =>
      have hunits : Ord.compare a b = if a < b then .lt else if a = b then .eq else .gt := rfl
      unfold compareUnits
      rw [List.compare_cons_cons, hunits, ih]
      by_cases hlt : a < b
      · rw [if_pos hlt, if_pos hlt]
        rfl
      by_cases heq : a = b
      · subst heq
        rw [if_neg hlt, if_neg hlt, if_neg hlt, if_pos rfl]
        rfl
      · have hgt : b < a := Std.lt_of_le_of_ne (Std.not_lt.mp hlt) (Ne.symm heq)
        rw [if_neg hlt, if_neg hlt, if_pos hgt, if_neg heq]
        rfl

theorem compare_swap (s t : Text) : t.compare s = (s.compare t).swap := by
  unfold compare
  rw [compareUnits_eq, compareUnits_eq]
  exact Std.OrientedCmp.eq_swap

theorem compare_trans {s t u : Text} (hst : s.compare t ≠ .gt) (htu : t.compare u ≠ .gt) : s.compare u ≠ .gt := by
  unfold compare at *
  rw [compareUnits_eq] at *
  exact Ordering.isLE_iff_ne_gt.mp
    (Std.TransCmp.isLE_trans (Ordering.isLE_iff_ne_gt.mpr hst) (Ordering.isLE_iff_ne_gt.mpr htu))

end Text

/-! ## 2. Orders of values -/

/-- The answers are those of a total preorder on the values with a property. -/
structure OrdersOn (P : Value → Prop) (c : Value → Value → Ordering) : Prop where
  swap : ∀ x y, P x → P y → c y x = (c x y).swap
  trans : ∀ x y z, P x → P y → P z → c x y ≠ .gt → c y z ≠ .gt → c x z ≠ .gt

/-- The value is one of a list, and is not undefined. -/
def DefinedIn (items : List Value) (x : Value) : Prop := x ∈ items ∧ x.isUndefined = false

/-- Undefined values come after all others, which are compared as before. -/
def undefinedLast (c : Value → Value → Ordering) (x y : Value) : Ordering :=
  if x.isUndefined then if y.isUndefined then .eq else .gt
  else if y.isUndefined then .lt else c x y

theorem undefinedLast_of_defined {x y : Value} (hx : x.isUndefined = false) (hy : y.isUndefined = false)
    (c : Value → Value → Ordering) : undefinedLast c x y = c x y := by
  unfold undefinedLast
  rw [hx, hy, if_neg Bool.false_ne_true, if_neg Bool.false_ne_true]

/-- Something is not after undefined, and undefined is not before anything else. -/
theorem undefinedLast_ne_gt_iff {x y : Value} (c : Value → Value → Ordering) :
    undefinedLast c x y ≠ .gt ↔
      y.isUndefined = true ∨ x.isUndefined = false ∧ y.isUndefined = false ∧ c x y ≠ .gt := by
  unfold undefinedLast
  cases x.isUndefined <;> cases y.isUndefined <;> simp

/-- **With undefined values last, an order of the others is an order of all.** -/
theorem OrdersOn.undefinedLast {items : List Value} {c : Value → Value → Ordering}
    (hc : OrdersOn (DefinedIn items) c) : OrdersOn (· ∈ items) (undefinedLast c) := by
  refine ⟨fun x y hx hy => ?_, fun x y z hx hy hz hxy hyz => ?_⟩
  · cases hxu : x.isUndefined <;> cases hyu : y.isUndefined
    · rw [undefinedLast_of_defined hxu hyu, undefinedLast_of_defined hyu hxu]
      exact hc.swap x y ⟨hx, hxu⟩ ⟨hy, hyu⟩
    all_goals
      unfold Ecma51.undefinedLast
      rw [hxu, hyu]
      rfl
  · rw [undefinedLast_ne_gt_iff] at *
    rcases hyz with hzu | ⟨hyu, hzu, hyz⟩
    · exact .inl hzu
    · rcases hxy with hyu' | ⟨hxu, _, hxy⟩
      · exact absurd (hyu.symm.trans hyu') Bool.false_ne_true
      · exact .inr ⟨hxu, hzu, hc.trans x y z ⟨hx, hxu⟩ ⟨hy, hyu⟩ ⟨hz, hzu⟩ hxy hyz⟩

/-! ## 3. Comparisons that always give the same answers -/

/-- How the elements of a list are compared, with a function or by their texts. -/
def elementComparison (f : Value) (bodies : Bodies) (items : List Value) (m : Machine) : Comparison Value :=
  ⟨compareElements f, bodies, items, m⟩

namespace Comparison

variable (C : Comparison Value)

/-- Wherever comparisons lead, values that are not undefined are compared in the same way. -/
def AnswersAs (c : Value → Value → Ordering) : Prop :=
  ∀ k m, C.Reaches k m → ∀ x y, DefinedIn C.items x → DefinedIn C.items y →
    ∃ m', C.compare x y C.bodies m = .ok (c x y) m'

/-- Wherever comparisons lead, a function gives the same number for the same values. -/
def CallsGive (f : Value) (g : Value → Value → Double) : Prop :=
  ∀ k m, C.Reaches k m → ∀ x y, DefinedIn C.items x → DefinedIn C.items y →
    ∃ v m₁ m₂, callValue f .undefined [x, y] C.bodies m = .ok v m₁ ∧ toNumber v C.bodies m₁ = .ok (g x y) m₂

/-- Wherever comparisons lead, values have the same texts. -/
def TextsAre (t : Value → Text) : Prop :=
  ∀ k m, C.Reaches k m → ∀ x y, DefinedIn C.items x → DefinedIn C.items y →
    ∃ m₁ m₂, toText x C.bodies m = .ok (t x) m₁ ∧ toText y C.bodies m₁ = .ok (t y) m₂

/-- No two of the values are in the wrong order, whenever they are compared, and undefined values are last. -/
structure Sorted {n : Nat} (w : Vector Value n) : Prop where
  inOrder : ∀ (i j : Nat) (hi : i < n) (hj : j < n), i < j → ∀ k m, C.Reaches k m →
    ∃ r m', C.compare w[i] w[j] C.bodies m = .ok r m' ∧ r ≠ .gt
  undefinedLast : ∀ (i j : Nat) (hi : i < n) (hj : j < n), i < j → w[i].isUndefined = true → w[j].isUndefined = true

/-- Sorting comes to an end without a failure, and leaves the values in order. -/
def Sorts {n : Nat} (v : Vector Value n) : Prop :=
  ∃ k w m, heapSort C.compare v C.bodies C.start = .ok w m ∧ C.Reaches k m ∧ k ≤ 3 * n * Nat.log 2 n ∧
    w.Perm v ∧ C.Sorted w

end Comparison

section Elements

variable {f : Value} {bodies : Bodies} {items : List Value} {m₀ m : Machine} {n : Nat}

/-- The order of a number, as of a difference, to zero. -/
def signOrder (x : Double) : Ordering :=
  if Double.lt x .zero then .lt else if Double.lt .zero x then .gt else .eq

/-- Undefined values are compared without asking anyone. -/
theorem compareElements_undefined {x y : Value} (h : x.isUndefined = true ∨ y.isUndefined = true)
    (c : Value → Value → Ordering) :
    compareElements f x y bodies m = .ok (undefinedLast c x y) m := by
  unfold compareElements undefinedLast
  cases hx : x.isUndefined <;> cases hy : y.isUndefined
  · rw [hx, hy] at h
    exact absurd h (by decide)
  all_goals rfl

theorem compareElements_function {x y v : Value} {m₁ m₂ : Machine} {d : Double} (hf : f.isUndefined = false)
    (hx : x.isUndefined = false) (hy : y.isUndefined = false)
    (hcall : callValue f .undefined [x, y] bodies m = .ok v m₁) (hnumber : toNumber v bodies m₁ = .ok d m₂) :
    compareElements f x y bodies m = .ok (signOrder d) m₂ := by
  unfold compareElements
  rw [hx, hy, hf]
  exact (bind_run_ok hcall _).trans ((bind_run_ok hnumber _).trans rfl)

theorem compareElements_texts {x y : Value} {m₁ m₂ : Machine} {s t : Text} (hf : f.isUndefined = true)
    (hx : x.isUndefined = false) (hy : y.isUndefined = false) (hs : toText x bodies m = .ok s m₁)
    (ht : toText y bodies m₁ = .ok t m₂) : compareElements f x y bodies m = .ok (s.compare t) m₂ := by
  unfold compareElements
  rw [hx, hy, hf]
  exact (bind_run_ok hs _).trans ((bind_run_ok ht _).trans rfl)

theorem toText_run {v : Value} (hv : v.isObject = false) : toText v bodies m = .ok (primitiveText v) m := by
  cases v with
  | object o => cases hv
  | _ => rfl

/-- Primitive values are compared by their texts, and nothing happens besides. -/
theorem compareElements_primitive {x y : Value} (hf : f.isUndefined = true) (hx : x.isObject = false)
    (hy : y.isObject = false) (bodies : Bodies) (m : Machine) :
    compareElements f x y bodies m =
      .ok (undefinedLast (fun x y => (primitiveText x).compare (primitiveText y)) x y) m := by
  by_cases h : x.isUndefined = true ∨ y.isUndefined = true
  · exact compareElements_undefined h _
  · obtain ⟨hxu, hyu⟩ := not_or.mp h
    have hxu := Bool.eq_false_iff.mpr hxu
    have hyu := Bool.eq_false_iff.mpr hyu
    rw [undefinedLast_of_defined hxu hyu]
    exact compareElements_texts hf hxu hyu (toText_run hx) (toText_run hy)

variable {c : Value → Value → Ordering}

/-- All elements are compared in the same way if those are that are not undefined. -/
theorem Comparison.AnswersAs.compare_eq (ha : (elementComparison f bodies items m₀).AnswersAs c) {k : Nat}
    (hm : (elementComparison f bodies items m₀).Reaches k m) {x y : Value} (hx : x ∈ items) (hy : y ∈ items) :
    ∃ m', compareElements f x y bodies m = .ok (undefinedLast c x y) m' := by
  by_cases h : x.isUndefined = true ∨ y.isUndefined = true
  · exact ⟨m, compareElements_undefined h c⟩
  · obtain ⟨hxu, hyu⟩ := not_or.mp h
    have hxu := Bool.eq_false_iff.mpr hxu
    have hyu := Bool.eq_false_iff.mpr hyu
    rw [undefinedLast_of_defined hxu hyu]
    exact ha k m hm x y ⟨hx, hxu⟩ ⟨hy, hyu⟩

/-- Nothing that comes before another element is after it. -/
theorem Comparison.AnswersAs.respects (ha : (elementComparison f bodies items m₀).AnswersAs c)
    (hc : OrdersOn (DefinedIn items) c) :
    (elementComparison f bodies items m₀).Respects fun x y =>
      x ∈ items ∧ y ∈ items ∧ undefinedLast c x y ≠ .gt := by
  have hall := hc.undefinedLast
  have hanswer {x y : Value} {r : Ordering} (h : (elementComparison f bodies items m₀).Answers x y r) :
      x ∈ items ∧ y ∈ items ∧ r = undefinedLast c x y := by
    obtain ⟨hx, hy, k, m, m', hm, hr⟩ := h
    obtain ⟨m'', hr'⟩ := ha.compare_eq hm hx hy
    cases hr.symm.trans hr'
    exact ⟨hx, hy, rfl⟩
  refine ⟨fun x y z hxy hyz => ⟨hxy.1, hyz.2.1, hall.trans x y z hxy.1 hxy.2.1 hyz.2.1 hxy.2.2 hyz.2.2⟩,
    fun x y h => ?_, fun x y r h hne => ?_⟩
  · obtain ⟨hx, hy, hr⟩ := hanswer h
    exact ⟨hx, hy, hr ▸ nofun⟩
  · obtain ⟨hx, hy, rfl⟩ := hanswer h
    refine ⟨hy, hx, fun hgt => hne ?_⟩
    rw [hall.swap x y hx hy] at hgt
    exact Ordering.swap_eq_gt.mp hgt

/-- **Sorting by an order**: the comparisons do not fail, and do not contradict the order. -/
theorem Comparison.AnswersAs.sorts {v : Vector Value n}
    (ha : (elementComparison f bodies v.toList m).AnswersAs c) (hc : OrdersOn (DefinedIn v.toList) c) :
    (elementComparison f bodies v.toList m).Sorts v := by
  have hend := heapSort_ends (elementComparison f bodies v.toList m) (v := v) fun x hx => Vector.mem_toList_iff.mpr hx
  cases hr : heapSort (compareElements f) v bodies m with
  | error e m' =>
    cases hr ▸ hend with
    | failed before few hx hy failure =>
      obtain ⟨m'', hok⟩ := ha.compare_eq before hx hy
      cases failure.symm.trans hok
  | ok w m' =>
    cases hr ▸ hend with
    | finished before few result =>
      obtain ⟨hperm, hsorted⟩ := result
      have hsorted := hsorted _ (ha.respects hc)
      refine ⟨_, w, m', hr, before, few, hperm, fun i j hi hj hij k m₁ hm₁ => ?_, fun i j hi hj hij hu => ?_⟩
      · obtain ⟨hx, hy, hle⟩ := hsorted i j hi hj hij (Nat.zero_le j)
        obtain ⟨m'', hr⟩ := ha.compare_eq hm₁ hx hy
        exact ⟨_, m'', hr, hle⟩
      · obtain ⟨_, _, hle⟩ := hsorted i j hi hj hij (Nat.zero_le j)
        rcases (undefinedLast_ne_gt_iff c).mp hle with hju | ⟨hiu, _⟩
        · exact hju
        · exact absurd (hiu.symm.trans hu) Bool.false_ne_true

/-! ## 4. Functions and texts -/

theorem Comparison.CallsGive.answersAs {g : Value → Value → Double} (hf : f.isUndefined = false)
    (hg : (elementComparison f bodies items m₀).CallsGive f g) :
    (elementComparison f bodies items m₀).AnswersAs fun x y => signOrder (g x y) := by
  intro k m hm x y hx hy
  obtain ⟨v, m₁, m₂, hcall, hnumber⟩ := hg k m hm x y hx hy
  exact ⟨m₂, compareElements_function hf hx.2 hy.2 hcall hnumber⟩

theorem Comparison.TextsAre.answersAs {t : Value → Text} (hf : f.isUndefined = true)
    (ht : (elementComparison f bodies items m₀).TextsAre t) :
    (elementComparison f bodies items m₀).AnswersAs fun x y => (t x).compare (t y) := by
  intro k m hm x y hx hy
  obtain ⟨m₁, m₂, hs, ht⟩ := ht k m hm x y hx hy
  exact ⟨m₂, compareElements_texts hf hx.2 hy.2 hs ht⟩

/-- The order of texts is one of the values that have them. -/
theorem ordersOn_texts (P : Value → Prop) (t : Value → Text) : OrdersOn P fun x y => (t x).compare (t y) :=
  ⟨fun x y _ _ => Text.compare_swap (t x) (t y), fun _ _ _ _ _ _ => Text.compare_trans⟩

theorem textsAre_of_primitive (hprimitive : ∀ x ∈ items, x.isObject = false) :
    (elementComparison f bodies items m₀).TextsAre primitiveText :=
  fun _ m _ x y hx hy => ⟨m, m, toText_run (hprimitive x hx.1), toText_run (hprimitive y hy.1)⟩

end Elements

/-- **Sorting puts values in order**: with a function that gives numbers whose signs are those of a total preorder on
the values that are not undefined, and without one, by the texts of the values, if these stay the same. The texts of
primitive values always do. No two values are in the wrong order afterwards, and the undefined ones are last. -/
theorem heapSort_sorts {n : Nat} (f : Value) (v : Vector Value n) (bodies : Bodies) (m : Machine) :
    let C := elementComparison f bodies v.toList m
    (∀ g, f.isUndefined = false → C.CallsGive f g → OrdersOn (DefinedIn v.toList) (fun x y => signOrder (g x y)) →
      C.Sorts v) ∧
    (∀ t, f.isUndefined = true → C.TextsAre t → C.Sorts v) ∧
    (f.isUndefined = true → (∀ x ∈ v.toList, x.isObject = false) → C.Sorts v) := by
  refine ⟨fun g hf hg hc => (hg.answersAs hf).sorts hc, fun t hf ht => (ht.answersAs hf).sorts (ordersOn_texts _ t),
    fun hf hprimitive => ?_⟩
  exact ((textsAre_of_primitive hprimitive).answersAs hf).sorts (ordersOn_texts _ primitiveText)

/-- Comparisons that change nothing lead nowhere. -/
theorem Comparison.Reaches.eq_start {α : Type} {C : Comparison α} {k : Nat} {m : Machine} (hm : C.Reaches k m)
    (hsame : ∀ x y r m', x ∈ C.items → y ∈ C.items → C.compare x y C.bodies C.start = .ok r m' → m' = C.start) :
    m = C.start := by
  induction hm with
  | start => rfl
  | compared _ hx hy answer ih =>
    rw [ih] at answer
    exact hsame _ _ _ _ hx hy answer

/-- Calling a built-in function runs its code. -/
theorem callValue_native {bodies : Bodies} {m : Machine} {f : ObjectId} {b : Builtin} {c : Option Builtin}
    {strict : Bool} {name : Text} (hkind : (m.heap.object f).kind = .function ⟨.native b c, strict, name⟩)
    (this : Value) (args : List Value) : callValue (.object f) this args bodies m = callNative f b this args bodies m := by
  have hcallable : m.heap.isCallable (.object f) = true := by
    show (m.heap.object f).isCallable = true
    unfold Object.isCallable
    rw [hkind]
  have hunbind : m.heap.unbind f this args = (f, this, args) := by
    unfold Heap.unbind Heap.unbindUpTo
    rw [hkind]
  have hfunction : m.heap.function? f = some ⟨.native b c, strict, name⟩ := by
    unfold Heap.function?
    rw [hkind]
  unfold callValue
  dsimp only
  rw [getHeap_bind_run, hcallable, if_pos rfl]
  unfold call
  rw [getHeap_bind_run, hunbind]
  dsimp only
  rw [hfunction]

/-- Every built-in function gives the difference of its first two arguments. -/
def differenceBodies : Bodies where
  native _ _ args m :=
    .ok (.number ((primitiveNumber (argumentAt args 0)).sub (primitiveNumber (argumentAt args 1)))) m
  compiled _ _ m := .ok false m

/-- A machine with a built-in function as its only object. -/
def functionMachine : Machine :=
  { Machine.start {} with
    heap := (Heap.empty.add (.ofKind "Function" none (.function ⟨.native (.number .call) none, false, .empty⟩))).1 }

theorem kind_functionMachine : (functionMachine.heap.object Heap.empty.nextObject).kind =
    .function ⟨.native (.number .call) none, false, .empty⟩ :=
  congrArg Object.kind ((Heap.object_add _ _ _).trans (if_pos rfl))

theorem callValue_difference (x y : Value) :
    callValue (.object Heap.empty.nextObject) .undefined [x, y] differenceBodies functionMachine =
      .ok (.number ((primitiveNumber x).sub (primitiveNumber y))) functionMachine := by
  rw [callValue_native kind_functionMachine]
  rfl

theorem callsGive_difference {items : List Value} :
    (elementComparison (.object Heap.empty.nextObject) differenceBodies items functionMachine).CallsGive
      (.object Heap.empty.nextObject) fun x y => (primitiveNumber x).sub (primitiveNumber y) := by
  intro k m hm x y _ _
  obtain rfl : m = functionMachine := by
    refine hm.eq_start fun x y r m' _ _ hr => ?_
    by_cases h : x.isUndefined = true ∨ y.isUndefined = true
    · cases (compareElements_undefined h fun _ _ => .eq).symm.trans hr
      rfl
    · obtain ⟨hx, hy⟩ := not_or.mp h
      cases (compareElements_function rfl (Bool.eq_false_iff.mpr hx) (Bool.eq_false_iff.mpr hy)
        (callValue_difference x y) rfl).symm.trans hr
      rfl
  exact ⟨_, _, _, callValue_difference x y, rfl⟩

/-- Three numbers, ordered by their differences. -/
theorem ordersOn_difference :
    OrdersOn (DefinedIn [.ofNat 3, .undefined, .ofNat 1, .ofNat 2])
      fun x y => signOrder ((primitiveNumber x).sub (primitiveNumber y)) := by
  have hdefined (x : Value) (hx : DefinedIn [.ofNat 3, .undefined, .ofNat 1, .ofNat 2] x) :
      x ∈ [Value.ofNat 3, .ofNat 1, .ofNat 2] := by
    obtain ⟨hmem, hx⟩ := hx
    simp only [List.mem_cons, List.not_mem_nil, or_false] at hmem ⊢
    rcases hmem with rfl | rfl | rfl | rfl
    · exact .inl rfl
    · cases hx
    · exact .inr (.inl rfl)
    · exact .inr (.inr rfl)
  have hswap : ∀ x ∈ [Value.ofNat 3, .ofNat 1, .ofNat 2], ∀ y ∈ [Value.ofNat 3, .ofNat 1, .ofNat 2],
      signOrder ((primitiveNumber y).sub (primitiveNumber x)) =
        (signOrder ((primitiveNumber x).sub (primitiveNumber y))).swap := by decide +kernel
  have htrans : ∀ x ∈ [Value.ofNat 3, .ofNat 1, .ofNat 2], ∀ y ∈ [Value.ofNat 3, .ofNat 1, .ofNat 2],
      ∀ z ∈ [Value.ofNat 3, .ofNat 1, .ofNat 2],
      signOrder ((primitiveNumber x).sub (primitiveNumber y)) ≠ .gt →
      signOrder ((primitiveNumber y).sub (primitiveNumber z)) ≠ .gt →
      signOrder ((primitiveNumber x).sub (primitiveNumber z)) ≠ .gt := by decide +kernel
  exact ⟨fun x y hx hy => hswap x (hdefined x hx) y (hdefined y hy),
    fun x y z hx hy hz => htrans x (hdefined x hx) y (hdefined y hy) z (hdefined z hz)⟩

/-- Numbers by their differences, with undefined last, and other values by their texts. -/
theorem heapSort_sorts_difference :
    (elementComparison (.object Heap.empty.nextObject) differenceBodies [.ofNat 3, .undefined, .ofNat 1, .ofNat 2]
      functionMachine).Sorts #v[.ofNat 3, .undefined, .ofNat 1, .ofNat 2] ∧
    (elementComparison .undefined differenceBodies [.ofNat 10, .ofNat 9, .null] functionMachine).Sorts
      #v[.ofNat 10, .ofNat 9, .null] := by
  constructor
  · have hsorts := (heapSort_sorts (.object Heap.empty.nextObject) #v[.ofNat 3, .undefined, .ofNat 1, .ofNat 2]
      differenceBodies functionMachine).1
    exact hsorts _ rfl callsGive_difference ordersOn_difference
  · have hsorts := (heapSort_sorts .undefined #v[.ofNat 10, .ofNat 9, .null] differenceBodies functionMachine).2.2
    exact hsorts rfl (by decide)

end Ecma51
