import Ecma51.Proofs.ArraySplice

/-!
# Both ends of an array, and turning it round

The methods that add and remove elements at the ends of an array, and the one that reverses it, change the array in
place. Read as a list with gaps, the array is the list that the methods of a list would give: gaps are moved along, none
is filled and none is opened, and the length is that of the list even if the list ends in gaps.

* `BecomesList`: what an operation makes of a list.
* **`push_becomes`**, **`pop_becomes`**, **`shift_becomes`**, **`unshift_becomes`**: the ends.
* **`exchange_rewrites`**, **`reverse_becomes`**: two elements change places, and all do.
-/

namespace Ecma51

-- powers mean the same whether or not there are other instances in scope
attribute [local instance (high)] instPowNat

/-! ## 1. Lists that become others -/

/-- The operation gives a result, and the array then shows a list; the rest of the heap, and of the machine but what it
keeps, is as before. -/
def BecomesList (bodies : Bodies) (m : Machine) (o : ObjectId) (w : Bool) (x : Run Value) (r : Value)
    (es : List (Option Value)) : Prop :=
  ∃ h held, x bodies m = .ok r { m with heap := h, held := held } ∧ h.IsList o es w ∧
    Heap.AltersOnly o (Heap.LengthOrFrom 0) m.heap h

/-- The value that reading an element gives: undefined for a gap, and where the list has no element. -/
def valueOrUndefined (x : Option (Option Value)) : Value := x.join.getD .undefined

section Ends

variable {bodies : Bodies} {h₀ : Heap} {o : ObjectId} {m : Machine} {V V' : ArrayView} {es es' : List (Option Value)}
  {w : Bool} {i : Nat}

theorem Rewrites.becomesList {x : Run Value} {r : Value} (hx : Rewrites bodies m.heap o (.ofList es w) x r V)
    (hes : m.heap.IsList o es w) (hw : V.writable = w) (hlength : V.length = es'.length)
    (helement : ∀ j, j < es'.length → V.element j = es'[j]?.join) : BecomesList bodies m o w x r es' := by
  obtain ⟨h, held, hrun, hh⟩ := hx m (Heap.HasElements.rewritten hes)
  exact ⟨h, held, hrun, hw ▸ hh.elements.isList hlength helement, hh.alters⟩

namespace Rewrites

theorem hold (v : Value) : Rewrites bodies h₀ o V (hold v) () V := fun m hm => ⟨m.heap, v :: m.held, rfl, hm⟩

theorem thisAndLengthWith (waiting : List Value) :
    Rewrites bodies h₀ o V (thisAndLengthWith waiting (.object o)) (o, V.length) V :=
  fun m hm => ⟨m.heap, _, thisAndLengthWith_run hm.elements waiting, hm⟩

/-- **An element is read**; a gap gives undefined. -/
theorem getAt (hc : h₀.InheritsNoElement o) (hi : i < indexLimit) :
    Rewrites bodies h₀ o V (getAt o i) ((V.element i).getD .undefined) V := by
  refine of_run fun m hm => ?_
  have hc' := hc.altered_self hm.alters
  cases hv : V.element i with
  | some v => exact getAt_run hc' hm.elements hi hv
  | none =>
    have hfound : m.heap.getProperty? o (.ofNat i) = none := by
      rw [Key.ofNat_of_lt hi, hc'.getProperty?_index, hm.elements.element, hv]
      rfl
    exact getFrom_plain (.inl hm.elements.kind) (getFor_absent hfound _)

theorem hasAt (hc : h₀.InheritsNoElement o) (hi : i < indexLimit) :
    Rewrites bodies h₀ o V (hasAt o i) (V.element i).isSome V :=
  of_run fun _ hm => hasAt_run (hc.altered_self hm.alters) hm.elements hi

end Rewrites

/-! ## 2. The end -/

/-- **Values are added at the end.** -/
theorem push_becomes (bodies : Bodies) (hes : m.heap.IsList o es true) (hc : m.heap.InheritsNoElement o)
    {args : List Value} (hlimit : es.length + args.length < 2 ^ 32) :
    BecomesList bodies m o true (arrayFunction .push (.object o) args) (.ofNat (es.length + args.length))
      (es ++ args.map some) := by
  have hroom : es.length + args.length ≤ indexLimit := by
    unfold indexLimit
    omega
  have hput : Rewrites bodies m.heap o (.ofList es true) (putAll o args es.length) ()
      ((ArrayView.ofList es true).putAll args es.length) := putAll_rewrites hc hroom (.inr rfl)
  have hwritable := (ArrayView.ofList es true).writable_putAll args es.length
  have htotal : (es ++ args.map some).length = es.length + args.length := by
    rw [List.length_append, List.length_map]
  refine Rewrites.becomesList ((Rewrites.thisAndLengthWith args).bind
    (hput.bind ((putLength_rewrites hwritable hlimit).bind .pure))) hes hwritable htotal.symm fun j hj => ?_
  rw [htotal] at hj
  refine (if_pos hj).trans ((ArrayView.element_putAll args es.length j).trans ?_)
  by_cases hin : es.length ≤ j
  · rw [if_pos ⟨hin, hj⟩, List.getElem?_append_right hin, List.getElem?_map]
    cases args[j - es.length]? <;> rfl
  · rw [if_neg fun h => hin h.1, List.getElem?_append_left (by omega)]
    rfl

/-- A method that removes an element finds none in an empty list, and is described by what it does otherwise. -/
theorem removal_becomes (remove : ObjectId → Nat → Run Value) {r : Value} (hes : m.heap.IsList o es true)
    (hnone : es.length = 0 → r = .undefined ∧ es' = [])
    (hremove : es.length ≠ 0 → ∃ V, Rewrites bodies m.heap o (.ofList es true) (remove o es.length) r V ∧
      V.writable = true ∧ V.length = es'.length ∧ ∀ j, j < es'.length → V.element j = es'[j]?.join) :
    BecomesList bodies m o true (do
      let (o, length) ← thisAndLength (.object o)
      if length = 0 then
        putLength o 0
        return .undefined
      remove o length) r es' := by
  by_cases hempty : es.length = 0
  · obtain ⟨rfl, rfl⟩ := hnone hempty
    obtain rfl := List.length_eq_zero_iff.mp hempty
    exact Rewrites.becomesList ((Rewrites.thisAndLengthWith []).bind
      ((putLength_rewrites (V := .ofList [] true) rfl (by decide)).bind .pure)) hes rfl rfl fun j hj => nomatch hj
  · obtain ⟨V, hrest, hwritable, hlength, helement⟩ := hremove hempty
    refine Rewrites.becomesList ((Rewrites.thisAndLengthWith []).bind ?_) hes hwritable hlength helement
    show Rewrites bodies m.heap o _ (if es.length = 0 then _ else _) _ _
    rw [if_neg hempty]
    exact hrest

/-- **The last element is removed.** -/
theorem pop_becomes (bodies : Bodies) (hes : m.heap.IsList o es true) (hc : m.heap.InheritsNoElement o)
    (args : List Value) :
    BecomesList bodies m o true (arrayFunction .pop (.object o) args) (valueOrUndefined es.getLast?) es.dropLast := by
  have hn : es.length < 2 ^ 32 := hes.inRange
  have hlength : es.dropLast.length = es.length - 1 := List.length_dropLast
  refine removal_becomes (fun o length => do
    let v ← getAt o (length - 1)
    hold v
    deleteAt o (length - 1)
    putLength o (length - 1)
    return v) hes (fun hempty => ?_) fun hempty => ?_
  · obtain rfl := List.length_eq_zero_iff.mp hempty
    exact ⟨rfl, rfl⟩
  · have hlast : es.length - 1 < indexLimit := hes.lt_limit (Nat.sub_one_lt hempty)
    have hcut : es.length - 1 < 2 ^ 32 := by omega
    rw [List.getLast?_eq_getElem?]
    refine ⟨_, (Rewrites.getAt hc hlast).bind ((Rewrites.hold _).bind ((deleteAt_rewrites hlast).bind
      ((putLength_rewrites rfl hcut).bind .pure))), rfl, hlength.symm, fun j hj => ?_⟩
    rw [hlength] at hj
    refine (if_pos hj).trans ((ArrayView.element_delete _ _ _).trans ((if_neg (by omega)).trans ?_))
    rw [List.getElem?_dropLast, if_pos hj]
    rfl

/-! ## 3. The start -/

/-- A loop that starts one later. -/
theorem upward_succ (body : Nat → Run Unit) (n i : Nat) :
    upward body n (i + 1) = upward (fun k => body (k + 1)) n i := by
  induction n generalizing i with
  | zero => rfl
  | succ n ih =>
    unfold upward
    rw [ih]

/-- **The first element is removed**, and the others move up. -/
theorem shift_becomes (bodies : Bodies) (hes : m.heap.IsList o es true) (hc : m.heap.InheritsNoElement o)
    (args : List Value) :
    BecomesList bodies m o true (arrayFunction .shift (.object o) args) (valueOrUndefined es.head?) es.tail := by
  have hn : es.length < 2 ^ 32 := hes.inRange
  have hlength : es.tail.length = es.length - 1 := List.length_tail
  refine removal_becomes (fun o length => do
    let first ← getAt o 0
    hold first
    upward (fun i => moveElement o i (i - 1)) (length - 1) 1
    deleteAt o (length - 1)
    putLength o (length - 1)
    return first) hes (fun hempty => ?_) fun hempty => ?_
  · obtain rfl := List.length_eq_zero_iff.mp hempty
    exact ⟨rfl, rfl⟩
  · have hfirst : 0 < indexLimit := hes.lt_limit (Nat.pos_of_ne_zero hempty)
    have hlast : es.length - 1 < indexLimit := hes.lt_limit (Nat.sub_one_lt hempty)
    have hcut : es.length - 1 < 2 ^ 32 := by omega
    have hall : 0 + (es.length - 1) + 1 < 2 ^ 32 := by omega
    obtain ⟨V, hmove, hshifted⟩ := moveLeft_rewrites (V := .ofList es true) bodies hc rfl Nat.zero_lt_one hall
    have hupward : Rewrites bodies m.heap o (.ofList es true)
        (upward (fun i => moveElement o i (i - 1)) (es.length - 1) 1) () V := by
      rw [upward_succ]
      exact hmove
    rw [List.head?_eq_getElem?]
    refine ⟨_, (Rewrites.getAt hc hfirst).bind ((Rewrites.hold _).bind (hupward.bind ((deleteAt_rewrites hlast).bind
      ((putLength_rewrites (V := V.delete (es.length - 1)) hshifted.writable hcut).bind .pure)))), hshifted.writable,
      hlength.symm, fun j hj => ?_⟩
    rw [hlength] at hj
    refine (if_pos hj).trans ((ArrayView.element_delete _ _ _).trans ((if_neg (by omega)).trans ?_))
    rw [hshifted.element, if_pos (by omega), List.getElem?_tail]
    rfl

/-- **Values are added at the start**, and the others move down. -/
theorem unshift_becomes (bodies : Bodies) (hes : m.heap.IsList o es true) (hc : m.heap.InheritsNoElement o)
    {args : List Value} (hlimit : es.length + args.length < 2 ^ 32) :
    BecomesList bodies m o true (arrayFunction .unshift (.object o) args) (.ofNat (es.length + args.length))
      (args.map some ++ es) := by
  have hroom : 0 + args.length ≤ indexLimit := by
    unfold indexLimit
    omega
  have hall : 0 + es.length + args.length < 2 ^ 32 := by omega
  obtain ⟨V, hmove, hshifted⟩ := moveRight_rewrites (V := .ofList es true) bodies hc rfl
    (Nat.zero_le args.length) hall
  have hput : Rewrites bodies m.heap o V (putAll o args 0) () (V.putAll args 0) :=
    putAll_rewrites hc hroom (.inr hshifted.writable)
  have hwritable : (V.putAll args 0).writable = true := (V.writable_putAll args 0).trans hshifted.writable
  have htotal : (args.map some ++ es).length = es.length + args.length := by
    rw [List.length_append, List.length_map, Nat.add_comm]
  refine Rewrites.becomesList ((Rewrites.thisAndLengthWith args).bind (hmove.holding.bind
    (hput.bind ((putLength_rewrites hwritable hlimit).bind .pure)))) hes hwritable htotal.symm fun j hj => ?_
  rw [htotal] at hj
  refine (if_pos hj).trans ((ArrayView.element_putAll args 0 j).trans ?_)
  by_cases hin : j < args.length
  · rw [if_pos (by omega), List.getElem?_append_left (by rwa [List.length_map]), List.getElem?_map, Nat.sub_zero,
      List.getElem?_eq_getElem hin]
    rfl
  · have hafter : (args.map some).length ≤ j := by
      rw [List.length_map]
      exact Nat.le_of_not_lt hin
    rw [if_neg (by omega), hshifted.element, if_pos (by omega), List.getElem?_append_right hafter, List.length_map]
    rfl

/-! ## 4. Turning round -/

theorem ArrayView.length_move (V : ArrayView) {i : Nat} (hi : i < V.length) (x : Option Value) :
    (V.move i x).length = V.length := by
  cases x with
  | none => rfl
  | some v => exact Nat.max_eq_left hi

/-- **Two elements change places**, each of which can be a gap. -/
theorem exchange_rewrites (bodies : Bodies) (hc : h₀.InheritsNoElement o) (hlimit : V.length < 2 ^ 32)
    {lower upper : Nat} (hne : lower ≠ upper) (hlower : lower < V.length) (hupper : upper < V.length) :
    ∃ V', Rewrites bodies h₀ o V (exchange o lower upper) () V' ∧ V'.length = V.length ∧ V'.writable = V.writable ∧
      ∀ j, V'.element j =
        if j = lower then V.element upper else if j = upper then V.element lower else V.element j := by
  have hlower' : lower < indexLimit := lt_indexLimit (by omega)
  have hupper' : upper < indexLimit := lt_indexLimit (by omega)
  -- unless there is nothing to exchange, each moves to where the other was
  have hmoved : ((V.move lower (V.element upper)).move upper (V.element lower)).length = V.length ∧
      ((V.move lower (V.element upper)).move upper (V.element lower)).writable = V.writable ∧
      ∀ j, ((V.move lower (V.element upper)).move upper (V.element lower)).element j =
        if j = lower then V.element upper else if j = upper then V.element lower else V.element j := by
    have hlength := V.length_move hlower (V.element upper)
    refine ⟨(ArrayView.length_move _ (hlength.symm ▸ hupper) _).trans hlength,
      (ArrayView.writable_move _ _ _).trans (V.writable_move _ _), fun j => ?_⟩
    rw [ArrayView.element_move, ArrayView.element_move]
    by_cases hj : j = lower
    · rw [if_neg fun h => hne (hj.symm.trans h), if_pos hj, if_pos hj]
    · rw [if_neg hj, if_neg hj]
  have hread {V' : ArrayView} {f : Value → Value → Bool → Bool → Run Unit} (hf : Rewrites bodies h₀ o V
      (f ((V.element lower).getD .undefined) ((V.element upper).getD .undefined) (V.element lower).isSome
        (V.element upper).isSome) () V') :
      Rewrites bodies h₀ o V (do
        let low ← getAt o lower
        let high ← holding [low] (getAt o upper)
        let hasLower ← hasAt o lower
        let hasUpper ← hasAt o upper
        f low high hasLower hasUpper) () V' :=
    (Rewrites.getAt hc hlower').bind ((Rewrites.getAt hc hupper').holding.bind ((Rewrites.hasAt hc hlower').bind
      ((Rewrites.hasAt hc hupper').bind hf)))
  have hputLower (v : Value) : Rewrites bodies h₀ o V (putAt o lower v) () (V.move lower (some v)) :=
    putAt_rewrites hc hlower' (.inl hlower) v
  have hputUpper (x : Option Value) (v : Value) :
      Rewrites bodies h₀ o (V.move lower x) (putAt o upper v) () ((V.move lower x).move upper (some v)) :=
    putAt_rewrites hc hupper' (.inl ((V.length_move hlower x).symm ▸ hupper)) v
  cases hlow : V.element lower with
  | some low =>
    cases hhigh : V.element upper with
    | some high =>
      rw [hlow, hhigh] at hmoved
      refine ⟨_, hread ?_, hmoved⟩
      rw [hlow, hhigh]
      exact (hputLower high).holding.bind (hputUpper _ low).holding
    | none =>
      rw [hlow, hhigh] at hmoved
      refine ⟨_, hread ?_, hmoved⟩
      rw [hlow, hhigh]
      exact (deleteAt_rewrites hlower').bind (hputUpper none low).holding
  | none =>
    cases hhigh : V.element upper with
    | some high =>
      rw [hlow, hhigh] at hmoved
      refine ⟨_, hread ?_, hmoved⟩
      rw [hlow, hhigh]
      exact (hputLower high).holding.bind (deleteAt_rewrites hupper')
    | none =>
      refine ⟨V, hread ?_, rfl, rfl, fun j => ?_⟩
      · rw [hlow, hhigh]
        exact .pure
      · split
        · rename_i hj
          exact hj ▸ hlow
        · split
          · rename_i hj
            exact hj ▸ hhigh
          · rfl

/-- **All elements change places**, and gaps with them. The length is not assigned, and need not be writable. -/
theorem reverse_becomes (bodies : Bodies) (hes : m.heap.IsList o es w) (hc : m.heap.InheritsNoElement o)
    (args : List Value) :
    BecomesList bodies m o w (arrayFunction .reverse (.object o) args) (.object o) es.reverse := by
  have hn : es.length < 2 ^ 32 := hes.inRange
  -- those outside have changed places, and those between have not yet
  obtain ⟨V, hexchange, hlength, hwritable, helement⟩ : ∃ V, Rewrites bodies m.heap o (.ofList es w)
      (upward (fun i => exchange o i (es.length - i - 1)) (es.length / 2) 0) () V ∧ V.length = es.length ∧
      V.writable = w ∧ ∀ j, j < es.length → V.element j =
        if j < es.length / 2 ∨ es.length - es.length / 2 ≤ j then es[es.length - 1 - j]?.join else es[j]?.join := by
    refine Rewrites.upward (fun k V => V.length = es.length ∧ V.writable = w ∧ ∀ j, j < es.length → V.element j =
      if j < k ∨ es.length - k ≤ j then es[es.length - 1 - j]?.join else es[j]?.join) ?_
      ⟨rfl, rfl, fun j hj => (if_neg (by omega)).symm⟩
    rintro k hk V ⟨hlength, hwritable, helement⟩
    have hne : k ≠ es.length - k - 1 := by omega
    obtain ⟨V', hexchange, hlength', hwritable', helement'⟩ := exchange_rewrites (V := V) bodies hc (by omega) hne
      (by omega) (by omega)
    rw [Nat.zero_add]
    refine ⟨V', hexchange, hlength'.trans hlength, hwritable'.trans hwritable, fun j hj => ?_⟩
    have hk' : es.length - k - 1 < es.length := by omega
    by_cases hlow : j = k
    · rw [helement', if_pos hlow, helement _ hk', if_neg (by omega), if_pos (by omega), hlow, Nat.sub_right_comm]
    · by_cases hhigh : j = es.length - k - 1
      · rw [helement', if_neg hlow, if_pos hhigh, helement k (by omega), if_neg (by omega), if_pos (by omega),
          show es.length - 1 - j = k by omega]
      · rw [helement', if_neg hlow, if_neg hhigh, helement j hj]
        exact if_congr (by omega) rfl rfl
  refine Rewrites.becomesList ((Rewrites.thisAndLengthWith []).bind (hexchange.bind .pure)) hes hwritable
    (hlength.trans List.length_reverse.symm) fun j hj => ?_
  rw [List.length_reverse] at hj
  rw [helement j hj, List.getElem?_reverse hj]
  split
  · rfl
  · rw [show es.length - 1 - j = j by omega]

end Ends

end Ecma51
