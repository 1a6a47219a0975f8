import Ecma51.Proofs.Parameters

/-!
# Arguments objects share values with parameters

While an index of an arguments object stands for a parameter, a value written on one side is what the other
side shows. The property that is stored under the index is out of date meanwhile, so every way in which the
sharing ends has to bring it up to date or remove it; afterwards neither side has any effect on the other.

* `Heap.Exchange`: what a step on the object does to what is shared.
* `Heap.SharedStep`: a step under an index that stands for a parameter, before the sharing may end.
* **`Heap.Sharing.exchange_define`**, `Heap.Sharing.exchange_delete`, `Heap.Sharing.exchange_restrict`: a
  definition, a deletion, and sealing or freezing do that.
* `Heap.Inward`, **`Heap.Sharing.inward_assign`**: what an assignment to a parameter does.
-/

namespace Ecma51

/-! ## 1. Descriptions -/

namespace Descriptor

/-- The description does not speak of a value and of accessors at once. -/
def Coherent (d : Descriptor) : Prop := d.isAccessor = true → d.isData = false

/-- A value that is described by accessors is replaced by them. -/
theorem redefine?_accessor {d : Descriptor} {v : Value} {w en c : Bool} {q : Property}
    (haccessor : d.isAccessor = true) (hd : d.Coherent)
    (h : d.redefine? (.data v w en c) = some q) : q.writable = false ∧ q.isData = false := by
  have hdata := hd haccessor
  have hholds : d.holdsOf (.data v w en c) = false := by
    unfold holdsOf
    rw [haccessor]
    exact Bool.and_false _
  have hgeneric : d.isGeneric = false := by
    unfold isGeneric
    rw [haccessor]
    rfl
  have hswitch : d.switchesKind (.data v w en c) = true := by
    unfold switchesKind
    rw [hgeneric, hdata]
    rfl
  unfold redefine? at h
  rw [hholds, hgeneric, hswitch, if_neg Bool.false_ne_true, if_neg Bool.false_ne_true,
    if_pos rfl] at h
  split at h
  · cases h
  split at h
  · cases h
    exact ⟨rfl, rfl⟩
  · cases h

theorem isAccessor_of_holdsOf {d : Descriptor} {v : Value} {w en c : Bool}
    (h : d.holdsOf (.data v w en c) = true) :
    d.isAccessor = false ∧ d.value.getD v = v ∧ d.writable.getD w = w := by
  unfold holdsOf at h
  simp only [Bool.and_eq_true, Bool.not_eq_true'] at h
  exact ⟨h.2.1.1, getD_of_agrees h.2.1.2, getD_of_agreesFlag h.2.2⟩

end Descriptor

/-! ## 2. What a step on the object does -/

namespace Heap

/-- What a step on an arguments object, which writes the given values under its indices, does to what the
object shares with the bindings of its activation. -/
structure Exchange (o : ObjectId) (e : EnvironmentId) (written : ArrayIndex → Option Value)
    (h h' : Heap) : Prop where
  /-- An index stops standing for its parameter exactly if it is gone, has become an accessor or can no
  longer be written. -/
  mapped : ∀ i n, h.parameterOf? o i = some n → h'.parameterOf? o i =
    if (h'.getOwn? o (.index i)).any (·.writable) then some n else none
  /-- No index comes to stand for a parameter. -/
  unmapped : ∀ i, h.parameterOf? o i = none → h'.parameterOf? o i = none
  /-- An index that stops standing for its parameter and is still there with a value has the one that was
  written, or else the one that it showed. -/
  kept : ∀ i n p, h.parameterOf? o i = some n → h'.parameterOf? o i = none →
    h.getOwn? o (.index i) = some p → ∀ v w en c, h'.getOwn? o (.index i) = some (.data v w en c) →
    some v = (written i).or p.value?
  /-- What is written under an index reaches the parameter for which it stands. -/
  outward : ∀ i n v, h.parameterOf? o i = some n → written i = some v → h'.valueOf? e n = some v
  /-- No other parameter changes. -/
  others : ∀ n, (∀ i, h.parameterOf? o i = some n → written i = none) →
    h'.valueOf? e n = h.valueOf? e n

variable {h h' : Heap} {o : ObjectId} {e : EnvironmentId}

/-- A step that concerns nothing that is shared. -/
theorem Sharing.exchange_aside (hs : h.Sharing o e) (h' : Heap)
    (harguments : ∃ a, h'.argumentsOf? o = some a ∧ a.environment = e)
    (hparameter : ∀ i, h'.parameterOf? o i = h.parameterOf? o i)
    (hbindings : h'.bindings? e = h.bindings? e)
    (hstored : ∀ i n, h.parameterOf? o i = some n → h'.stored? o (.index i) = h.stored? o (.index i))
    {written : ArrayIndex → Option Value}
    (hwritten : ∀ i n, h.parameterOf? o i = some n → written i = none) :
    h'.Sharing o e ∧ Exchange o e written h h' := by
  have hs' : h'.Sharing o e := by
    obtain ⟨b, hb, hbound⟩ := hs.bound
    refine ⟨harguments, fun i n hi => ?_, b, hbindings.trans hb, fun i n hi => ?_⟩
    · rw [hparameter] at hi
      rw [hstored i n hi]
      exact hs.linked i n hi
    · rw [hparameter] at hi
      exact hbound i n hi
  refine ⟨hs', ⟨fun i n hi => ?_, fun i hi => (hparameter i).trans hi, fun i n p hi hnone => ?_,
    fun i n v hi hw => ?_, fun n _ => valueOf?_of_bindings hbindings n⟩⟩
  · obtain ⟨v, en, c, hown, _⟩ := hs'.shown ((hparameter i).trans hi)
    rw [hparameter, hi, hown]
    rfl
  · rw [hparameter, hi] at hnone
    cases hnone
  · rw [hwritten i n hi] at hw
    cases hw

/-- A step under an index that stands for a parameter, and goes on to do so: it may pass a value on to the
parameter. -/
structure SharedStep (o : ObjectId) (e : EnvironmentId) (i₀ : ArrayIndex) (n₀ : Text) (passed : Option Value)
    (h h' : Heap) : Prop where
  arguments : ∃ a, h'.argumentsOf? o = some a ∧ a.environment = e
  parameter : ∀ i, h'.parameterOf? o i = h.parameterOf? o i
  bindings : h'.bindings? e = (h.passOn e n₀ passed).bindings? e
  other : ∀ i, i₀ ≠ i → h'.stored? o (.index i) = h.stored? o (.index i)

section SharedStep

variable {i₀ : ArrayIndex} {n₀ : Text} {passed : Option Value}

/-- The values of the bindings afterwards. -/
theorem SharedStep.value (hp : SharedStep o e i₀ n₀ passed h h') (hs : h.Sharing o e)
    (h₀ : h.parameterOf? o i₀ = some n₀) (n : Text) :
    h'.valueOf? e n = if n₀ = n then passed.or (h.valueOf? e n) else h.valueOf? e n :=
  (valueOf?_of_bindings hp.bindings n).trans (valueOf?_passOn (hs.isSome_valueOf? h₀) passed n)

/-- Every parameter is still bound, and can be assigned. -/
theorem SharedStep.bound (hp : SharedStep o e i₀ n₀ passed h h') (hs : h.Sharing o e) :
    ∃ b, h'.bindings? e = some b ∧ ∀ i n, h.parameterOf? o i = some n →
      ∃ v deletable, b.find? n = some ⟨v, true, deletable⟩ := by
  obtain ⟨b, hb, hbound⟩ := hs.bound
  have hbindings := hp.bindings
  rw [bindings?_passOn, hb] at hbindings
  refine ⟨_, hbindings, fun i n hi => ?_⟩
  obtain ⟨v, deletable, hn⟩ := hbound i n hi
  cases passed with
  | none => exact ⟨v, deletable, hn⟩
  | some u =>
    show ∃ v deletable, (b.store n₀ u).find? n = _
    rw [Bindings.find?_store]
    by_cases hname : n₀ = n
    · rw [if_pos hname, hn]
      exact ⟨u, deletable, rfl⟩
    · rw [if_neg hname]
      exact ⟨v, deletable, hn⟩

/-- What is passed on reaches the parameter. -/
theorem SharedStep.outward (hp : SharedStep o e i₀ n₀ passed h h') (hs : h.Sharing o e)
    (h₀ : h.parameterOf? o i₀ = some n₀) {i : ArrayIndex} {n : Text} {v : Value}
    (hi : h.parameterOf? o i = some n) (hw : (if i₀ = i then passed else none) = some v) :
    h'.valueOf? e n = some v := by
  by_cases hi₀ : i₀ = i
  · subst hi₀
    rw [if_pos rfl] at hw
    cases hi.symm.trans h₀
    rw [hp.value hs h₀, if_pos rfl, hw]
    rfl
  · rw [if_neg hi₀] at hw
    cases hw

/-- No other parameter changes. -/
theorem SharedStep.others (hp : SharedStep o e i₀ n₀ passed h h') (hs : h.Sharing o e)
    (h₀ : h.parameterOf? o i₀ = some n₀) {n : Text}
    (hn : ∀ i, h.parameterOf? o i = some n → (if i₀ = i then passed else none) = none) :
    h'.valueOf? e n = h.valueOf? e n := by
  rw [hp.value hs h₀]
  by_cases hname : n₀ = n
  · subst hname
    have hpassed := hn i₀ h₀
    rw [if_pos rfl] at hpassed
    rw [if_pos rfl, hpassed]
    rfl
  · rw [if_neg hname]

/-- The index goes on to stand for its parameter, as long as it is left with a writable value. -/
theorem Sharing.exchange_kept (hs : h.Sharing o e) (h₀ : h.parameterOf? o i₀ = some n₀)
    (hp : SharedStep o e i₀ n₀ passed h h')
    (hstays : ∃ v en c, h'.stored? o (.index i₀) = some (.data v true en c)) :
    h'.Sharing o e ∧ Exchange o e (fun i => if i₀ = i then passed else none) h h' := by
  have hs' : h'.Sharing o e := by
    obtain ⟨b, hb, hbound⟩ := hp.bound hs
    refine ⟨hp.arguments, fun i n hi => ?_, b, hb, fun i n hi => ?_⟩
    · by_cases hi₀ : i₀ = i
      · subst hi₀
        exact hstays
      · rw [hp.other i hi₀]
        exact hs.linked i n ((hp.parameter i).symm.trans hi)
    · exact hbound i n ((hp.parameter i).symm.trans hi)
  refine ⟨hs', ⟨fun i n hi => ?_, fun i hi => (hp.parameter i).trans hi, fun i n p hi hnone => ?_,
    fun i n v => hp.outward hs h₀, fun n => hp.others hs h₀⟩⟩
  · obtain ⟨v, en, c, hown, _⟩ := hs'.shown ((hp.parameter i).trans hi)
    rw [hp.parameter, hi, hown]
    rfl
  · rw [hp.parameter, hi] at hnone
    cases hnone

/-- The sharing ends with the step. Then the index must not be left with a writable value, and if it is left with
a value, this is the one passed on or the one shown before. -/
theorem Sharing.exchange_ended (hs : h.Sharing o e) (h₀ : h.parameterOf? o i₀ = some n₀)
    (hp : SharedStep o e i₀ n₀ passed h h')
    (hfixed : (h'.stored? o (.index i₀)).any (·.writable) = false)
    (hlast : ∀ v w en c, h'.stored? o (.index i₀) = some (.data v w en c) →
      some v = passed.or (h.valueOf? e n₀)) :
    (h'.unmapArgument o (.index i₀)).Sharing o e ∧
      Exchange o e (fun i => if i₀ = i then passed else none) h (h'.unmapArgument o (.index i₀)) := by
  have hparameter (i : ArrayIndex) : (h'.unmapArgument o (.index i₀)).parameterOf? o i =
      if i₀ = i then none else h.parameterOf? o i := by
    rw [parameterOf?_unmapArgument, hp.parameter]
    exact if_congr (iff_of_eq (Key.index.injEq ..)) rfl rfl
  have hbindings : (h'.unmapArgument o (.index i₀)).bindings? e = h'.bindings? e := bindings?_unmapArgument _
  have hs' : (h'.unmapArgument o (.index i₀)).Sharing o e := by
    obtain ⟨a, ha, hae⟩ := hp.arguments
    obtain ⟨a', ha', hae', _⟩ := argumentsOf?_unmapArgument ha (.index i₀)
    obtain ⟨b, hb, hbound⟩ := hp.bound hs
    refine ⟨⟨a', ha', hae'.trans hae⟩, fun i n hi => ?_, b, hbindings.trans hb, fun i n hi => ?_⟩
    · rw [hparameter] at hi
      split at hi
      · cases hi
      rename_i hi₀
      rw [stored?_unmapArgument, hp.other i hi₀]
      exact hs.linked i n hi
    · rw [hparameter] at hi
      split at hi
      · cases hi
      exact hbound i n hi
  -- an index that is no longer shared is seen as it is stored
  have hunshared : (h'.unmapArgument o (.index i₀)).getOwn? o (.index i₀) = h'.stored? o (.index i₀) :=
    (hs'.getOwn?_unmapped (by rw [hparameter, if_pos rfl])).trans (stored?_unmapArgument _ _)
  refine ⟨hs', ⟨fun i n hi => ?_, fun i hi => ?_, fun i n p hi hnone hown v w en c hv => ?_,
    fun i n v hi hw => ?_, fun n hn => ?_⟩⟩
  · by_cases hi₀ : i₀ = i
    · subst hi₀
      rw [hparameter, if_pos rfl, hunshared, hfixed, if_neg Bool.false_ne_true]
    · have hi' : (h'.unmapArgument o (.index i₀)).parameterOf? o i = some n := by
        rw [hparameter, if_neg hi₀, hi]
      obtain ⟨v, en, c, hown, _⟩ := hs'.shown hi'
      rw [hi', hown]
      rfl
  · rw [hparameter, hi, ite_self]
  · rw [hparameter] at hnone
    split at hnone
    · rename_i hi₀
      subst hi₀
      rw [hunshared] at hv
      rw [if_pos rfl, hlast v w en c hv]
      obtain ⟨u, en', c', hown', hu⟩ := hs.shown hi
      cases hown'.symm.trans hown
      cases hi.symm.trans h₀
      rw [hu]
      rfl
    · rw [hi] at hnone
      cases hnone
  · exact (valueOf?_of_bindings hbindings n).trans (hp.outward hs h₀ hi hw)
  · exact (valueOf?_of_bindings hbindings n).trans (hp.others hs h₀ hn)

end SharedStep

/-! ## 3. Defining -/

/-- The definition of a property that stands for no parameter, or one that is refused, is ordinary. -/
theorem defineArguments_ordinary {k : Key} {d : Descriptor}
    (hk : (h.defineOrdinary o k d).refusal = none → ∀ i, k = .index i → h.parameterOf? o i = none) :
    h.defineArguments o k d = h.defineOrdinary o k d := by
  unfold defineArguments
  dsimp only
  split
  · rename_i e name hrefusal hshared
    cases k with
    | name t =>
      cases ha : h.argumentsOf? o with
      | none =>
        rw [ha] at hshared
        cases hshared
      | some a =>
        rw [ha] at hshared
        cases hshared
    | index i =>
      have hi := hk hrefusal i rfl
      unfold parameterOf? at hi
      cases ha : h.argumentsOf? o with
      | none =>
        rw [ha] at hshared
        cases hshared
      | some a =>
        rw [ha] at hi hshared
        have hi : a.nameOf? i.val = none := hi
        have hshared : (a.nameOf? i.val).bind (fun x => some (a.environment, x)) = some (e, name) :=
          hshared
        rw [hi] at hshared
        cases hshared
  · rfl

theorem refusal_defineArguments (h : Heap) (o : ObjectId) (k : Key) (d : Descriptor) :
    (h.defineArguments o k d).refusal = (h.defineOrdinary o k d).refusal := by
  unfold defineArguments
  dsimp only
  split
  · rename_i hrefusal _
    rw [hrefusal]
    split <;> rfl
  · rfl

/-- The definition of a property that stands for a parameter. -/
theorem defineArguments_parameter {a : ArgumentsData} (ha : h.argumentsOf? o = some a) {i : ArrayIndex}
    {n : Text} (hi : a.nameOf? i.val = some n) {d : Descriptor} {h₁ : Heap}
    (hr : h.defineOrdinary o (.index i) d = .done h₁) :
    h.defineArguments o (.index i) d =
      if d.isAccessor then .done (h₁.unmapArgument o (.index i))
      else .done (if d.writable == some false then
        (h₁.passOn a.environment n d.value).unmapArgument o (.index i)
      else h₁.passOn a.environment n d.value) := by
  have hshared : (do
      let a ← h.argumentsOf? o
      return (a.environment, ← a.nameOf? (← (Key.index i).index?)) : Option (EnvironmentId × Text)) =
        some (a.environment, n) := by
    rw [ha]
    show (a.nameOf? i.val).bind _ = _
    rw [hi]
    rfl
  unfold defineArguments
  dsimp only
  rw [hshared, hr]
  rfl

theorem Sharing.defineArguments_shared (hs : h.Sharing o e) {i : ArrayIndex} {n : Text}
    (hi : h.parameterOf? o i = some n) {d : Descriptor} {h₁ : Heap}
    (hr : h.defineOrdinary o (.index i) d = .done h₁) :
    h.defineArguments o (.index i) d =
      if d.isAccessor then .done (h₁.unmapArgument o (.index i))
      else .done (if d.writable == some false then
        (h₁.passOn e n d.value).unmapArgument o (.index i) else h₁.passOn e n d.value) := by
  obtain ⟨a, ha, rfl⟩ := hs.arguments
  refine defineArguments_parameter ha ?_ hr
  unfold parameterOf? at hi
  rw [ha] at hi
  exact hi

/-- One key of an object has a given property, and nothing else has changed. -/
structure Stores (o : ObjectId) (k : Key) (p : Property) (h h' : Heap) : Prop where
  here : h'.stored? o k = some p
  other : ∀ j, k ≠ j → h'.stored? o j = h.stored? o j
  arguments : h'.argumentsOf? o = h.argumentsOf? o
  bindings : ∀ e, h'.bindings? e = h.bindings? e

theorem stores_store (h : Heap) (o : ObjectId) (k : Key) (p : Property) :
    Stores o k p h (h.store o k p) where
  here := (stored?_store k k p).trans (if_pos rfl)
  other j hj := (stored?_store k j p).trans (if_neg hj)
  arguments := argumentsOf?_store k p
  bindings _ := rfl

theorem stores_same {k : Key} {p : Property} (hp : h.stored? o k = some p) : Stores o k p h h :=
  ⟨hp, fun _ _ => rfl, rfl, fun _ => rfl⟩

theorem Stores.parameterOf? {k : Key} {p : Property} (ht : Stores o k p h h') (i : ArrayIndex) :
    h'.parameterOf? o i = h.parameterOf? o i := by
  unfold Heap.parameterOf?
  rw [ht.arguments]

/-- What a carried-out definition of a property that stands for a parameter stores, by a description that
does not speak of accessors. The value of a property that remains writable may be out of date. -/
theorem Sharing.defineOrdinary_shared (hs : h.Sharing o e) {i : ArrayIndex} {n : Text}
    (hi : h.parameterOf? o i = some n) {d : Descriptor} (haccessor : d.isAccessor = false)
    (hr : (h.defineOrdinary o (.index i) d).refusal = none) :
    ∃ h₁ v u en c, h.defineOrdinary o (.index i) d = .done h₁ ∧ h.valueOf? e n = some v ∧
      h.Admits o (.index i) d (.data (d.value.getD v) (d.writable.getD true) en c) ∧
      Stores o (.index i) (.data u (d.writable.getD true) en c) h h₁ ∧
      (d.writable = some false → u = d.value.getD v) := by
  obtain ⟨v, en, c, hown, hv⟩ := hs.shown hi
  obtain ⟨u, en', c', hu⟩ := hs.linked i n hi
  rcases h.defineOrdinary_cases o (.index i) d with
    ⟨f, hrefused⟩ | ⟨hsame, p, hp, hholds⟩ | ⟨q, hstored, hadmits⟩
  · rw [hrefused] at hr
    cases hr
  · cases hown.symm.trans hp
    obtain ⟨_, hvalue, hwritable⟩ := Descriptor.isAccessor_of_holdsOf hholds
    have hredefine : d.redefine? (.data v true en c) = some (.data v true en c) := if_pos hholds
    have hattributes : Property.data v true en c = .data v true en' c' := by
      rw [hs.getOwn?_eq, hu, hi] at hown
      have hown : some (showing (.data u true en' c') (h.valueOf? e n)) = _ := hown
      rw [hv] at hown
      exact (Option.some.inj hown).symm
    cases hattributes
    refine ⟨h, v, u, en, c, hsame, hv, .inr ⟨_, hown, ?_⟩, ?_, fun hw => ?_⟩
    · rw [hvalue, hwritable]
      exact hredefine
    · rw [hwritable]
      exact stores_same hu
    · rw [hw] at hwritable
      cases hwritable
  · rcases hadmits with ⟨hnone, _⟩ | ⟨p, hp, hq⟩
    · rw [hown] at hnone
      cases hnone
    cases hown.symm.trans hp
    have hdata : ∃ en c, q = .data (d.value.getD v) (d.writable.getD true) en c := by
      rcases Descriptor.redefine?_of_data haccessor hq with ⟨hholds, rfl⟩ | rfl
      · obtain ⟨_, hvalue, hwritable⟩ := Descriptor.isAccessor_of_holdsOf hholds
        exact ⟨en, c, by rw [hvalue, hwritable]⟩
      · exact ⟨_, _, rfl⟩
    obtain ⟨en, c, rfl⟩ := hdata
    exact ⟨_, v, _, en, c, hstored, hv, .inr ⟨_, hown, hq⟩, stores_store h o _ _, fun _ => rfl⟩

/-- What is stored under an index that stands for a parameter, and passed on. -/
theorem Stores.sharedStep {i₀ : ArrayIndex} {p : Property} {h₁ : Heap} (ht : Stores o (.index i₀) p h h₁)
    (hs : h.Sharing o e) (n₀ : Text) (v : Option Value) :
    SharedStep o e i₀ n₀ v h (h₁.passOn e n₀ v) ∧ (h₁.passOn e n₀ v).stored? o (.index i₀) = some p := by
  refine ⟨⟨?_, fun i => ?_, ?_, fun i hne => ?_⟩, (stored?_passOn n₀ v _).trans ht.here⟩
  · obtain ⟨a, ha, hae⟩ := hs.arguments
    refine ⟨a, ?_, hae⟩
    rw [argumentsOf?_of_object (object_passOn _ _ _ _ _), ht.arguments, ha]
  · rw [parameterOf?_passOn, ht.parameterOf?]
  · rw [bindings?_passOn, bindings?_passOn, ht.bindings]
  · rw [stored?_passOn, ht.other _ fun hk => hne (Key.index.inj hk)]

/-- A definition under an index that stands for a parameter, by a description that does not speak of
accessors. -/
theorem Sharing.exchange_value (hs : h.Sharing o e) {i₀ : ArrayIndex} {n₀ : Text}
    (h₀ : h.parameterOf? o i₀ = some n₀) {d : Descriptor} (haccessor : d.isAccessor = false)
    (hr : (h.defineOrdinary o (.index i₀) d).refusal = none) :
    (h.defineArguments o (.index i₀) d).heap.Sharing o e ∧
      Exchange o e (fun i => if i₀ = i then d.value else none) h
        (h.defineArguments o (.index i₀) d).heap ∧
      ∃ q, h.Admits o (.index i₀) d q ∧
        (h.defineArguments o (.index i₀) d).heap.getOwn? o (.index i₀) = some q := by
  obtain ⟨h₁, v, u, en, c, hdone, hv, hadmits, hstores, hfixed⟩ :=
    hs.defineOrdinary_shared h₀ haccessor hr
  -- the value is passed on before the sharing may end
  obtain ⟨hstep, hlast⟩ := hstores.sharedStep hs n₀ d.value
  have hdescribed : some (d.value.getD v) = d.value.or (h.valueOf? e n₀) := by
    rw [hv]
    cases d.value <;> rfl
  rw [hs.defineArguments_shared h₀ hdone, if_neg (Bool.eq_false_iff.mp haccessor)]
  by_cases hw : d.writable = some false
  · rw [if_pos (beq_iff_eq.mpr hw)]
    rw [hfixed hw] at hlast
    have hnot : d.writable.getD true = false := by rw [hw]; rfl
    obtain ⟨hs', hexchange⟩ := hs.exchange_ended h₀ hstep (by rw [hlast]; exact hnot)
      fun v' w' en' c' hv' => by
        rw [hlast] at hv'
        cases hv'
        exact hdescribed
    refine ⟨hs', hexchange, _, hadmits, ?_⟩
    refine (hs'.getOwn?_unmapped ?_).trans ((stored?_unmapArgument _ _).trans hlast)
    rw [parameterOf?_unmapArgument, if_pos rfl]
  · rw [if_neg fun hb => hw (beq_iff_eq.mp hb)]
    have hwritable : d.writable.getD true = true := by
      cases hd : d.writable with
      | none => rfl
      | some b =>
        cases b with
        | true => rfl
        | false => exact absurd hd hw
    obtain ⟨hs', hexchange⟩ := hs.exchange_kept h₀ hstep ⟨u, en, c, by rw [hlast, hwritable]⟩
    refine ⟨hs', hexchange, _, hadmits, ?_⟩
    show (h₁.passOn e n₀ d.value).getOwn? o (.index i₀) = _
    rw [hs'.getOwn?_eq, hlast, hstep.parameter, h₀]
    show some (showing _ ((h₁.passOn e n₀ d.value).valueOf? e n₀)) = _
    rw [hstep.value hs h₀, if_pos rfl, ← hdescribed]
    rfl

/-- A carried-out definition of accessors under an index that stands for a parameter stores what can neither be
written nor holds a value. -/
theorem Sharing.defineOrdinary_accessor (hs : h.Sharing o e) {i₀ : ArrayIndex} {n₀ : Text}
    (h₀ : h.parameterOf? o i₀ = some n₀) {d : Descriptor} (haccessor : d.isAccessor = true)
    (hd : d.Coherent) (hr : (h.defineOrdinary o (.index i₀) d).refusal = none) :
    ∃ q, h.defineOrdinary o (.index i₀) d = .done (h.store o (.index i₀) q) ∧
      h.Admits o (.index i₀) d q ∧ q.writable = false ∧ q.isData = false := by
  obtain ⟨v, en, c, hown, _⟩ := hs.shown h₀
  rcases h.defineOrdinary_cases o (.index i₀) d with
    ⟨f, hrefused⟩ | ⟨_, p, hp, hholds⟩ | ⟨q, hstored, hadmits⟩
  · rw [hrefused] at hr
    cases hr
  · cases hown.symm.trans hp
    have hnot := (Descriptor.isAccessor_of_holdsOf hholds).1
    rw [haccessor] at hnot
    cases hnot
  · rcases hadmits with ⟨hnone, _⟩ | ⟨p, hp, hq⟩
    · rw [hown] at hnone
      cases hnone
    cases hown.symm.trans hp
    exact ⟨q, hstored, .inr ⟨_, hown, hq⟩, Descriptor.redefine?_accessor haccessor hd hq⟩

/-- A definition of accessors under an index that stands for a parameter. -/
theorem Sharing.exchange_accessor (hs : h.Sharing o e) {i₀ : ArrayIndex} {n₀ : Text}
    (h₀ : h.parameterOf? o i₀ = some n₀) {d : Descriptor} (haccessor : d.isAccessor = true)
    (hd : d.Coherent) (hr : (h.defineOrdinary o (.index i₀) d).refusal = none) :
    (h.defineArguments o (.index i₀) d).heap.Sharing o e ∧
      Exchange o e (fun i => if i₀ = i then d.value else none) h
        (h.defineArguments o (.index i₀) d).heap ∧
      ∃ q, h.Admits o (.index i₀) d q ∧
        (h.defineArguments o (.index i₀) d).heap.getOwn? o (.index i₀) = some q := by
  obtain ⟨q, hdone, hadmits, hwritable, hdata⟩ := hs.defineOrdinary_accessor h₀ haccessor hd hr
  have hvalue : d.value = none := by
    have hnot := hd haccessor
    unfold Descriptor.isData at hnot
    rw [Bool.or_eq_false_iff] at hnot
    exact Option.isSome_eq_false_iff.mp hnot.1 |> Option.isNone_iff_eq_none.mp
  -- no value is passed on, so what is stored is all that happens before the sharing ends
  obtain ⟨hstep, hlast⟩ := (stores_store h o (.index i₀) q).sharedStep hs n₀ none
  rw [hs.defineArguments_shared h₀ hdone, if_pos haccessor, hvalue]
  obtain ⟨hs', hexchange⟩ := hs.exchange_ended h₀ hstep (by rw [hlast]; exact hwritable)
    fun v' w' en' c' hv' => by
      rw [hlast] at hv'
      cases hv'
      cases hdata
  refine ⟨hs', hexchange, q, hadmits, ?_⟩
  refine (hs'.getOwn?_unmapped ?_).trans ((stored?_unmapArgument _ _).trans hlast)
  rw [parameterOf?_unmapArgument, if_pos rfl]

/-- **What a definition does**: under an index that stands for a parameter, its value is passed on. What is
shown afterwards is what the description makes of what was shown before. -/
theorem Sharing.exchange_define (hs : h.Sharing o e) (k : Key) {d : Descriptor} (hd : d.Coherent) :
    (h.defineArguments o k d).heap.Sharing o e ∧
      Exchange o e
        (fun i => if k = .index i ∧ (h.defineArguments o k d).refusal = none then d.value else none) h
        (h.defineArguments o k d).heap ∧
      ∀ i, k = .index i → (h.defineArguments o k d).refusal = none →
        ∃ q, h.Admits o k d q ∧ (h.defineArguments o k d).heap.getOwn? o k = some q := by
  by_cases hshared : (h.defineOrdinary o k d).refusal = none ∧
      ∃ i n, k = .index i ∧ h.parameterOf? o i = some n
  · obtain ⟨hr, i₀, n₀, rfl, h₀⟩ := hshared
    have hcases : (h.defineArguments o (.index i₀) d).refusal = none := by
      rw [refusal_defineArguments, hr]
    have hwritten : (fun i => if Key.index i₀ = .index i ∧
        (h.defineArguments o (.index i₀) d).refusal = none then d.value else none) =
        fun i => if i₀ = i then d.value else none := by
      funext i
      exact if_congr (by simp [hcases]) rfl rfl
    rw [hwritten]
    cases haccessor : d.isAccessor with
    | true =>
      obtain ⟨hs', hexchange, hshown⟩ := hs.exchange_accessor h₀ haccessor hd hr
      exact ⟨hs', hexchange, fun _ _ _ => hshown⟩
    | false =>
      obtain ⟨hs', hexchange, hshown⟩ := hs.exchange_value h₀ haccessor hr
      exact ⟨hs', hexchange, fun _ _ _ => hshown⟩
  · have hunshared (hr : (h.defineOrdinary o k d).refusal = none) (i : ArrayIndex) (hk : k = .index i) :
        h.parameterOf? o i = none := by
      cases hi : h.parameterOf? o i with
      | none => rfl
      | some n => exact absurd ⟨hr, i, n, hk, hi⟩ hshared
    rw [defineArguments_ordinary hunshared]
    have hquiet (i : ArrayIndex) (n : Text) (hi : h.parameterOf? o i = some n) :
        (if k = .index i ∧ (h.defineOrdinary o k d).refusal = none then d.value else none) = none := by
      refine if_neg fun hc => ?_
      rw [hunshared hc.2 i hc.1] at hi
      cases hi
    have hsame := hs.exchange_aside h hs.arguments (fun _ => rfl) rfl (fun _ _ _ => rfl) hquiet
    rcases h.defineOrdinary_cases o k d with ⟨f, hr⟩ | ⟨hr, p, hp, hholds⟩ | ⟨q, hr, hadmits⟩
    · rw [hr] at hsame ⊢
      exact ⟨hsame.1, hsame.2, fun _ _ hc => by cases hc⟩
    · rw [hr] at hsame ⊢
      exact ⟨hsame.1, hsame.2, fun _ _ _ => ⟨p, .inr ⟨p, hp, if_pos hholds⟩, hp⟩⟩
    · obtain ⟨a, ha, hae⟩ := hs.arguments
      have hr' : (h.defineOrdinary o k d).refusal = none := by rw [hr]; rfl
      obtain ⟨hs', hexchange⟩ := hs.exchange_aside (h.store o k q)
        ⟨a, (argumentsOf?_store k q).trans ha, hae⟩ (parameterOf?_store k q) rfl
        (fun i n hi => (stores_store h o k q).other _ fun hk => by
          rw [hunshared hr' i hk] at hi
          cases hi)
        hquiet
      rw [hr] at hexchange ⊢
      refine ⟨hs', hexchange, fun i hk _ => ⟨q, hadmits, ?_⟩⟩
      subst hk
      exact (hs'.getOwn?_unmapped ((parameterOf?_store _ q i).trans (hunshared hr' i rfl))).trans
        (stores_store h o _ q).here

/-! ## 4. Deleting -/

theorem stored?_withoutProperty (k j : Key) :
    (h.modify o (·.withoutProperty k)).stored? o j = if k = j then none else h.stored? o j := by
  unfold stored?
  rw [object_modify_self]
  exact PropertyTable.get?_erase _ k j

theorem argumentsOf?_modify {f : Object → Object} (hf : (f (h.object o)).kind = (h.object o).kind) :
    (h.modify o f).argumentsOf? o = h.argumentsOf? o := by
  unfold argumentsOf?
  rw [object_modify_self, hf]

theorem parameterOf?_modify {f : Object → Object} (hf : (f (h.object o)).kind = (h.object o).kind)
    (i : ArrayIndex) : (h.modify o f).parameterOf? o i = h.parameterOf? o i := by
  unfold parameterOf?
  rw [argumentsOf?_modify hf]

/-- **What a deletion does**: an index that is deleted no longer stands for its parameter. -/
theorem Sharing.exchange_delete (hs : h.Sharing o e) (k : Key) :
    (h.deleteOwn o k).heap.Sharing o e ∧
      Exchange o e (fun _ => none) h (h.deleteOwn o k).heap := by
  have hsame : h.Sharing o e ∧ Exchange o e (fun _ => none) h h :=
    hs.exchange_aside h hs.arguments (fun _ => rfl) rfl (fun _ _ _ => rfl) (fun _ _ _ => rfl)
  rcases h.deleteOwn_cases o k with ⟨hr, _⟩ | ⟨f, p, hr, _⟩ | ⟨p, hr, _⟩ <;> rw [hr]
  · exact hsame
  · exact hsame
  obtain ⟨a, ha, hae⟩ := hs.arguments
  have ha' : (h.modify o (·.withoutProperty k)).argumentsOf? o = some a := (argumentsOf?_modify rfl).trans ha
  by_cases hshared : ∃ i n, k = .index i ∧ h.parameterOf? o i = some n
  · obtain ⟨i₀, n₀, rfl, h₀⟩ := hshared
    have hstep : SharedStep o e i₀ n₀ none h (h.modify o (·.withoutProperty (.index i₀))) :=
      ⟨⟨a, ha', hae⟩, parameterOf?_modify rfl, rfl,
        fun i hne => (stored?_withoutProperty _ _).trans (if_neg fun hk => hne (Key.index.inj hk))⟩
    have hgone : (h.modify o (·.withoutProperty (.index i₀))).stored? o (.index i₀) = none :=
      (stored?_withoutProperty _ _).trans (if_pos rfl)
    have hended := hs.exchange_ended h₀ hstep (by rw [hgone]; rfl) fun v w en c hv => by
      rw [hgone] at hv
      cases hv
    simp only [ite_self] at hended
    exact hended
  · have hk (i : ArrayIndex) (n : Text) (hi : h.parameterOf? o i = some n) : k ≠ .index i :=
      fun hk => hshared ⟨i, n, hk, hi⟩
    obtain ⟨a', hlast, hae', _⟩ := argumentsOf?_unmapArgument ha' k
    refine hs.exchange_aside _ ⟨a', hlast, hae'.trans hae⟩ (fun i => ?_) (bindings?_unmapArgument k)
      (fun i n hi => ?_) (fun _ _ _ => rfl)
    · rw [parameterOf?_unmapArgument, parameterOf?_modify rfl]
      cases hi : h.parameterOf? o i with
      | none => exact ite_self none
      | some n => exact if_neg (hk i n hi)
    · rw [stored?_unmapArgument, stored?_withoutProperty, if_neg (hk i n hi)]

/-! ## 5. Sealing and freezing -/

/-- What is shown of an arguments object can be written less than before, but is otherwise the same. -/
structure Narrows (o : ObjectId) (e : EnvironmentId) (h h' : Heap) : Prop where
  value : ∀ i, (h'.getOwn? o (.index i)).bind (·.value?) = (h.getOwn? o (.index i)).bind (·.value?)
  writable : ∀ i, (h'.getOwn? o (.index i)).any (·.writable) = true →
    (h.getOwn? o (.index i)).any (·.writable) = true
  mapped : ∀ i n, h.parameterOf? o i = some n → h'.parameterOf? o i =
    if (h'.getOwn? o (.index i)).any (·.writable) then some n else none
  unmapped : ∀ i, h.parameterOf? o i = none → h'.parameterOf? o i = none
  bindings : ∀ n, h'.valueOf? e n = h.valueOf? e n

theorem Sharing.narrows_refl (hs : h.Sharing o e) : Narrows o e h h := by
  refine ⟨fun _ => rfl, fun _ hw => hw, fun i n hi => ?_, fun _ hi => hi, fun _ => rfl⟩
  obtain ⟨v, en, c, hown, _⟩ := hs.shown hi
  rw [hi, hown]
  rfl

theorem Narrows.trans {h'' : Heap} (hn : Narrows o e h h') (hn' : Narrows o e h' h'') :
    Narrows o e h h'' := by
  refine ⟨fun i => (hn'.value i).trans (hn.value i), fun i hw => hn.writable i (hn'.writable i hw),
    fun i n hi => ?_, fun i hi => hn'.unmapped i (hn.unmapped i hi),
    fun n => (hn'.bindings n).trans (hn.bindings n)⟩
  have hi' := hn.mapped i n hi
  by_cases hw : (h'.getOwn? o (.index i)).any (·.writable) = true
  · rw [if_pos hw] at hi'
    exact hn'.mapped i n hi'
  · rw [if_neg hw] at hi'
    rw [hn'.unmapped i hi', if_neg fun hw' => hw (hn'.writable i hw')]

theorem Narrows.exchange (hn : Narrows o e h h') : Exchange o e (fun _ => none) h h' := by
  refine ⟨hn.mapped, hn.unmapped, fun i n p _ _ hp v w en c hv => ?_, fun _ _ _ _ hw => (nomatch hw),
    fun n _ => hn.bindings n⟩
  have hvalue := hn.value i
  rw [hv, hp] at hvalue
  exact hvalue

/-- What an object shows does not depend on whether it is extensible. -/
theorem Sharing.preventExtensions (hs : h.Sharing o e) :
    (h.preventExtensions o).Sharing o e ∧ Narrows o e h (h.preventExtensions o) := by
  have hparameter (i : ArrayIndex) : (h.preventExtensions o).parameterOf? o i = h.parameterOf? o i :=
    parameterOf?_modify rfl i
  have hstored (k : Key) : (h.preventExtensions o).stored? o k = h.stored? o k := by
    unfold stored? Heap.preventExtensions
    rw [object_modify_self]
  have hs' : (h.preventExtensions o).Sharing o e := by
    obtain ⟨a, ha, hae⟩ := hs.arguments
    obtain ⟨b, hb, hbound⟩ := hs.bound
    refine ⟨⟨a, (argumentsOf?_modify rfl).trans ha, hae⟩, fun i n hi => ?_, b, hb, fun i n hi => ?_⟩
    · rw [hstored]
      exact hs.linked i n ((hparameter i).symm.trans hi)
    · exact hbound i n ((hparameter i).symm.trans hi)
  have hown (i : ArrayIndex) :
      (h.preventExtensions o).getOwn? o (.index i) = h.getOwn? o (.index i) := by
    rw [hs'.getOwn?_eq, hs.getOwn?_eq, hstored, hparameter]
    rfl
  refine ⟨hs', fun i => by rw [hown], fun i hw => by rwa [hown] at hw, fun i n hi => ?_,
    fun i hi => (hparameter i).trans hi, fun _ => rfl⟩
  rw [hparameter, hown]
  exact hs.narrows_refl.mapped i n hi

/-- A definition has no effect on what is stored under other indices, nor for which parameters they
stand. -/
theorem defineArguments_elsewhere (h : Heap) (o : ObjectId) {k : Key} (d : Descriptor) {i : ArrayIndex}
    (hk : k ≠ .index i) :
    (h.defineArguments o k d).heap.stored? o (.index i) = h.stored? o (.index i) ∧
      (h.defineArguments o k d).heap.parameterOf? o i = h.parameterOf? o i := by
  have hordinary : (h.defineOrdinary o k d).heap.stored? o (.index i) = h.stored? o (.index i) ∧
      (h.defineOrdinary o k d).heap.parameterOf? o i = h.parameterOf? o i := by
    rcases h.defineOrdinary_cases o k d with ⟨f, hr⟩ | ⟨hr, _⟩ | ⟨q, hr, _⟩ <;> rw [hr]
    · exact ⟨rfl, rfl⟩
    · exact ⟨rfl, rfl⟩
    · exact ⟨(stores_store h o k q).other _ hk, parameterOf?_store k q i⟩
  have hunmap (h₁ : Heap) : (h₁.unmapArgument o k).stored? o (.index i) = h₁.stored? o (.index i) ∧
      (h₁.unmapArgument o k).parameterOf? o i = h₁.parameterOf? o i :=
    ⟨stored?_unmapArgument k _, (parameterOf?_unmapArgument k i).trans (if_neg hk)⟩
  have hpass (h₁ : Heap) (e : EnvironmentId) (n : Text) :
      (h₁.passOn e n d.value).stored? o (.index i) = h₁.stored? o (.index i) ∧
        (h₁.passOn e n d.value).parameterOf? o i = h₁.parameterOf? o i :=
    ⟨stored?_passOn n _ _, parameterOf?_passOn n _ i⟩
  unfold defineArguments
  dsimp only
  split
  · rename_i e n _ _
    split
    · exact ⟨(hunmap _).1.trans hordinary.1, (hunmap _).2.trans hordinary.2⟩
    · have hpassed := hpass (h.defineOrdinary o k d).heap e n
      cases d.writable == some false with
      | true =>
        exact ⟨(hunmap _).1.trans (hpassed.1.trans hordinary.1),
          (hunmap _).2.trans (hpassed.2.trans hordinary.2)⟩
      | false => exact ⟨hpassed.1.trans hordinary.1, hpassed.2.trans hordinary.2⟩
  · exact hordinary

/-- What sealing or freezing makes of a property. -/
theorem redefine?_restriction {freeze : Bool} {p q : Property}
    (hq : (restriction freeze p).redefine? p = some q) :
    q.value? = p.value? ∧ (q.writable = true → p.writable = true) := by
  have hupdate : ((restriction freeze p).update p).value? = p.value? ∧
      (((restriction freeze p).update p).writable = true → p.writable = true) := by
    cases p with
    | data v w en c =>
      refine ⟨rfl, fun hw => ?_⟩
      cases freeze with
      | true => cases hw
      | false => exact hw
    | accessor g s en c => exact ⟨rfl, fun hw => hw⟩
  have hswitch : (restriction freeze p).switchesKind p = false := by
    cases p <;> cases freeze <;> rfl
  unfold Descriptor.redefine? at hq
  rw [hswitch, if_neg Bool.false_ne_true] at hq
  split at hq
  · cases hq
    exact ⟨rfl, fun hw => hw⟩
  split at hq
  · cases hq
  split at hq
  · cases hq
    exact hupdate
  split at hq
  · cases hq
    exact hupdate
  · cases hq

/-- Sealing or freezing one property narrows what is shown. -/
theorem Sharing.narrows_restriction (hs : h.Sharing o e) (freeze : Bool) {k : Key} {p : Property}
    (hp : h.getOwn? o k = some p) :
    (h.defineArguments o k (restriction freeze p)).heap.Sharing o e ∧
      Narrows o e h (h.defineArguments o k (restriction freeze p)).heap := by
  have hcoherent : (restriction freeze p).Coherent := fun hc => by cases hc
  obtain ⟨hs', hexchange, hshown⟩ := hs.exchange_define k hcoherent
  have hbindings (n : Text) : (h.defineArguments o k (restriction freeze p)).heap.valueOf? e n =
      h.valueOf? e n := hexchange.others n fun i _ => ite_self none
  have hown (i : ArrayIndex) :
      ((h.defineArguments o k (restriction freeze p)).heap.getOwn? o (.index i)).bind (·.value?) =
          (h.getOwn? o (.index i)).bind (·.value?) ∧
        (((h.defineArguments o k (restriction freeze p)).heap.getOwn? o (.index i)).any (·.writable) =
          true → (h.getOwn? o (.index i)).any (·.writable) = true) := by
    by_cases hk : k = .index i
    · by_cases hr : (h.defineArguments o k (restriction freeze p)).refusal = none
      · obtain ⟨q, hadmits, hq⟩ := hshown i hk hr
        rcases hadmits with ⟨hnone, _⟩ | ⟨p', hp', hredefine⟩
        · rw [hp] at hnone
          cases hnone
        cases hp.symm.trans hp'
        rw [← hk, hq, hp]
        exact redefine?_restriction hredefine
      · -- a refused definition changes nothing
        have hsame : (h.defineArguments o k (restriction freeze p)).heap = h := by
          rw [refusal_defineArguments] at hr
          rw [defineArguments_ordinary fun hc => absurd hc hr]
          rcases h.defineOrdinary_cases o k (restriction freeze p) with
            ⟨f, hd⟩ | ⟨hd, _⟩ | ⟨q, hd, _⟩ <;> rw [hd] at hr ⊢
          · rfl
          · rfl
          · exact absurd rfl hr
        rw [hsame]
        exact ⟨rfl, fun hw => hw⟩
    · obtain ⟨hstored, hparameter⟩ := defineArguments_elsewhere h o (restriction freeze p) hk
      rw [hs'.getOwn?_eq, hs.getOwn?_eq, hstored, hparameter, funext hbindings]
      exact ⟨rfl, fun hw => hw⟩
  exact ⟨hs', fun i => (hown i).1, fun i => (hown i).2, hexchange.mapped, hexchange.unmapped, hbindings⟩

theorem Sharing.define_eq (hs : h.Sharing o e) (k : Key) (d : Descriptor) :
    h.define o k d = h.defineArguments o k d := by
  obtain ⟨a, ha, _⟩ := hs.arguments
  unfold define
  rw [kind_of_argumentsOf? ha]

theorem Sharing.narrows_restrictKeys (hs : h.Sharing o e) (freeze : Bool) (keys : List Key) :
    (h.restrictKeys o freeze keys).heap.Sharing o e ∧
      Narrows o e h (h.restrictKeys o freeze keys).heap := by
  induction keys generalizing h with
  | nil => exact ⟨hs, hs.narrows_refl⟩
  | cons k keys ih =>
    unfold restrictKeys
    cases hp : h.getOwn? o k with
    | none => exact ih hs
    | some p =>
      dsimp only
      rw [hs.define_eq]
      obtain ⟨hs', hfirst⟩ := hs.narrows_restriction freeze hp
      split
      · obtain ⟨hs'', hrest⟩ := ih hs'
        exact ⟨hs'', hfirst.trans hrest⟩
      · exact ⟨hs', hfirst⟩

/-- **What sealing or freezing does**: no value is written; a frozen index no longer stands for its
parameter. -/
theorem Sharing.exchange_restrict (hs : h.Sharing o e) (freeze : Bool) :
    (h.restrict o freeze).heap.Sharing o e ∧
      Exchange o e (fun _ => none) h (h.restrict o freeze).heap := by
  obtain ⟨hs', hkeys⟩ := hs.narrows_restrictKeys freeze (h.ownKeys o)
  unfold restrict
  dsimp only
  split
  · obtain ⟨hs'', hlast⟩ := hs'.preventExtensions
    exact ⟨hs'', (hkeys.trans hlast).exchange⟩
  · exact ⟨hs', hkeys.exchange⟩

/-! ## 6. Assigning to a parameter -/

/-- What the assignment of a value to a name of the activation does to what an arguments object shows. -/
structure Inward (o : ObjectId) (e : EnvironmentId) (name : Text) (v : Value) (h h' : Heap) : Prop where
  /-- Every index stands for what it stood for. -/
  mapped : ∀ i, h'.parameterOf? o i = h.parameterOf? o i
  /-- An index that stands for the name shows the value from now on. -/
  inward : ∀ i, h.parameterOf? o i = some name → h'.valueOf? e name = some v ∧
    ∃ en c, h'.getOwn? o (.index i) = some (.data v true en c)
  /-- No other index shows anything else than before. -/
  others : ∀ i, h.parameterOf? o i ≠ some name → h'.getOwn? o (.index i) = h.getOwn? o (.index i)

/-- What is seen of an object whose properties are stored as before, in terms of the bindings. -/
theorem Sharing.of_object (hs : h.Sharing o e) (hobject : h'.object o = h.object o) {b' : Bindings}
    (hb' : h'.bindings? e = some b')
    (hbound : ∀ i n, h.parameterOf? o i = some n → ∃ v deletable, b'.find? n = some ⟨v, true, deletable⟩) :
    h'.Sharing o e := by
  obtain ⟨a, ha, hae⟩ := hs.arguments
  refine ⟨⟨a, (argumentsOf?_of_object hobject).trans ha, hae⟩, fun i n hi => ?_, b', hb',
    fun i n hi => ?_⟩
  · unfold stored?
    rw [hobject]
    exact hs.linked i n ((parameterOf?_of_object hobject i).symm.trans hi)
  · exact hbound i n ((parameterOf?_of_object hobject i).symm.trans hi)

/-- The binding of a name is replaced by one that can be assigned. -/
theorem Sharing.inward_put (hs : h.Sharing o e) {b : Bindings} (hb : h.bindings? e = some b) (name : Text)
    (v : Value) (deletable : Bool) :
    (h.setRecord e (.declarative (b.put name ⟨v, true, deletable⟩))).Sharing o e ∧
      Inward o e name v h (h.setRecord e (.declarative (b.put name ⟨v, true, deletable⟩))) := by
  obtain ⟨b₀, hb₀, hbound⟩ := hs.bound
  cases hb₀.symm.trans hb
  have hs' : (h.setRecord e (.declarative (b.put name ⟨v, true, deletable⟩))).Sharing o e := by
    refine hs.of_object rfl (bindings?_setRecord _) fun i n hi => ?_
    rw [Bindings.find?_put]
    by_cases hn : name = n
    · rw [if_pos hn]
      exact ⟨v, deletable, rfl⟩
    · rw [if_neg hn]
      exact hbound i n hi
  have hvalue (n : Text) :
      (h.setRecord e (.declarative (b.put name ⟨v, true, deletable⟩))).valueOf? e n =
        if name = n then some v else h.valueOf? e n := by
    unfold valueOf?
    rw [bindings?_setRecord, hb]
    show ((b.put name _).find? n).map _ = if name = n then some v else (b.find? n).map _
    rw [Bindings.find?_put]
    split <;> rfl
  refine ⟨hs', fun _ => rfl, fun i hi => ?_, fun i hi => ?_⟩
  · obtain ⟨w, en, c, hown, hw⟩ := hs'.shown (i := i) (n := name) hi
    rw [hvalue, if_pos rfl] at hw
    cases hw
    exact ⟨(hvalue name).trans (if_pos rfl), en, c, hown⟩
  · rw [hs'.getOwn?_eq, hs.getOwn?_eq]
    show ((h.stored? o (.index i)).map fun p => showing p ((h.parameterOf? o i).bind _)) = _
    cases hi' : h.parameterOf? o i with
    | none => rfl
    | some n =>
      rw [hi'] at hi
      show ((h.stored? o (.index i)).map fun p => showing p (valueOf? _ e n)) = _
      rw [hvalue, if_neg fun hn => hi (congrArg some hn.symm)]
      rfl

/-- **What an assignment to a name does** to what is shared: the bindings are as `Bindings.assign` leaves
them. -/
theorem Sharing.inward_assign (hs : h.Sharing o e) {b : Bindings} (hb : h.bindings? e = some b)
    (name : Text) (v : Value) (strict : Bool) :
    match b.assign name v strict with
    | .ok b' => (h.setRecord e (.declarative b')).Sharing o e ∧
        Inward o e name v h (h.setRecord e (.declarative b'))
    | .error _ => Inward o e name v h h := by
  obtain ⟨b₀, hb₀, hbound⟩ := hs.bound
  cases hb₀.symm.trans hb
  -- a name for which an index stands is bound and can be assigned
  have hunshared {P : Prop} (hname : ∀ u deletable, b.find? name ≠ some ⟨u, true, deletable⟩)
      {i : ArrayIndex} (hi : h.parameterOf? o i = some name) : P := by
    obtain ⟨u, deletable, hu⟩ := hbound i name hi
    exact absurd hu (hname u deletable)
  have hquiet (hname : ∀ u deletable, b.find? name ≠ some ⟨u, true, deletable⟩) :
      Inward o e name v h h := ⟨fun _ => rfl, fun i hi => hunshared hname hi, fun _ _ => rfl⟩
  unfold Bindings.assign
  cases hx : b.find? name with
  | none =>
    refine hquiet fun u deletable hu => ?_
    rw [hx] at hu
    cases hu
  | some x =>
    obtain ⟨u, mutable, deletable⟩ := x
    cases mutable with
    | true => exact hs.inward_put hb name v deletable
    | false =>
      have hname (u' : Value) (deletable' : Bool) : b.find? name ≠ some ⟨u', true, deletable'⟩ := by
        rw [hx]
        intro hu
        cases hu
      cases strict with
      | true => exact hquiet hname
      | false =>
        have hset : (h.setRecord e (.declarative b)).bindings? e = some b := bindings?_setRecord b
        have hs' : (h.setRecord e (.declarative b)).Sharing o e := hs.of_object rfl hset hbound
        refine ⟨hs', fun _ => rfl, fun i hi => hunshared hname hi, fun i _ => ?_⟩
        rw [hs'.getOwn?_eq, hs.getOwn?_eq, funext (valueOf?_of_bindings (hset.trans hb.symm))]
        rfl

end Heap

end Ecma51
