import Ecma51.Proofs.RefusalSites
import Ecma51.Proofs.SharedArguments
import Ecma51.Proofs.Truncation

/-!
# Refusals

Definitions, deletions and assignments can be refused. Whether a refusal is an error makes no difference to what
the operation does, and a refused operation does nothing, with one exception: an array that should become shorter
loses the elements behind one that cannot be removed.

That the two runs agree is shown of the operations in which each place that refuses decides for itself whether that is
an error; that nothing was changed is shown of the outcomes to which they come.

* `Heap.Outcome.Clean`: an outcome that, if it is a refusal, has changed nothing.
* `RefusesAlike`: two ways of running an operation, with and without errors.
* `Heap.Written`: an assignment has gone through.
* **`refusals_exact`**: what refusals of definitions, deletions and assignments have in common.
-/

namespace Ecma51

namespace Heap

variable {h : Heap} {o : ObjectId} {k : Key} {d : Descriptor}

/-! ## 1. Refusals change nothing -/

/-- If the operation was refused, that is reported as a type error, and the heap is as before. -/
def Outcome.Clean (h : Heap) (r : Outcome) : Prop :=
  ∀ f, r.refusal = some f → f.kind = .typeError ∧ r.heap = h

theorem Outcome.Clean.done (h h' : Heap) : (Outcome.done h').Clean h := nofun

theorem Outcome.Clean.refused {f : Fault} (h : Heap) (hf : f.kind = .typeError) :
    (Outcome.refused h f).Clean h := by
  rintro _ ⟨⟩
  exact ⟨hf, rfl⟩

theorem clean_defineOrdinary (h : Heap) (o : ObjectId) (k : Key) (d : Descriptor) :
    (h.defineOrdinary o k d).Clean h := by
  unfold defineOrdinary
  split
  · split
    · exact .done h _
    · exact .refused h rfl
  · split
    · exact .done h _
    · split
      · exact .done h _
      · exact .refused h rfl

theorem clean_defineArguments (h : Heap) (o : ObjectId) (k : Key) (d : Descriptor) :
    (h.defineArguments o k d).Clean h := by
  unfold defineArguments
  dsimp only
  split
  · split
    · exact .done h _
    · exact .done h _
  · exact clean_defineOrdinary h o k d

theorem clean_defineElement (h : Heap) (o : ObjectId) (i : ArrayIndex) (d : Descriptor) (n : Nat)
    (w : Bool) : (h.defineElement o i d n w).Clean h := by
  unfold defineElement
  dsimp only
  split
  · exact .refused h rfl
  · split
    · rename_i hrefused
      have hr : (h.defineOrdinary o (.index i) d).refusal ≠ none := by
        intro hr
        unfold Outcome.succeeded at hrefused
        rw [hr] at hrefused
        cases hrefused
      rw [heap_of_refusal hr]
      exact .refused h rfl
    · split
      · exact .done h _
      · exact clean_defineOrdinary h o _ d

theorem clean_define (h : Heap) (o : ObjectId) (k : Key) (d : Descriptor) : (h.define o k d).Clean h := by
  unfold define
  split
  · exact clean_defineElement h o _ d _ _
  · exact clean_defineArguments h o _ d
  · exact clean_defineOrdinary h o _ d

theorem clean_deleteOwn (h : Heap) (o : ObjectId) (k : Key) : (h.deleteOwn o k).Clean h := by
  unfold deleteOwn
  split
  · exact .done h _
  · split
    · exact .done h _
    · exact .refused h rfl

/-- The array should become shorter, but an element is in the way that cannot be removed. -/
def Blocked (h : Heap) (o : ObjectId) (n : Nat) : Prop :=
  n < (h.lengthOf o).1 ∧
    ∃ (i : ArrayIndex) (p : Property), n ≤ i.val ∧ h.getOwn? o (.index i) = some p ∧ p.configurable = false

/-- **Elements that stop a cut** were in the way. -/
theorem refusal_cutElements (hkind : (h.object o).kind = .array) {n : Nat} {freezes : Bool} {f : Fault}
    (hr : (h.cutElements o d n freezes).refusal = some f) :
    f.kind = .typeError ∧ ∃ (i : ArrayIndex) (p : Property),
      n ≤ i.val ∧ h.getOwn? o (.index i) = some p ∧ p.configurable = false := by
  have hcases := deleteDoomed_cases hkind n
  unfold doomed at hcases
  unfold cutElements at hr
  dsimp only at hr
  rcases hcases with ⟨hstop, _⟩ | ⟨b, hstop, ⟨hnb, ⟨p, hp, hc⟩, _⟩, _⟩
  · split at hr
    · rename_i hdeleted
      rw [hdeleted] at hstop
      cases hstop
    · cases hr
  · split at hr
    · cases hr
      exact ⟨rfl, b, p, hnb, hp, hc⟩
    · cases hr

/-- **A length that is refused** leaves the array as it is, unless an element was in the way. -/
theorem refusal_setLength (hkind : (h.object o).kind = .array) {n : Nat} {w : Bool} {f : Fault}
    (hr : (h.setLength o d n (h.lengthOf o).1 w).refusal = some f) :
    f.kind = .typeError ∧ ((h.setLength o d n (h.lengthOf o).1 w).heap = h ∨ h.Blocked o n) := by
  have hclean {r : Outcome} (hc : r.Clean h) (hr : r.refusal = some f) :
      f.kind = .typeError ∧ (r.heap = h ∨ h.Blocked o n) :=
    ⟨(hc f hr).1, .inl (hc f hr).2⟩
  have hcut {d : Descriptor} {freezes : Bool} {r : Outcome} (hlt : n < (h.lengthOf o).1)
      (hrun : r = if (h.defineOrdinary o .length d).succeeded then
        (h.defineOrdinary o .length d).heap.cutElements o d n freezes
      else h.defineOrdinary o .length d) (hr : r.refusal = some f) :
      f.kind = .typeError ∧ (r.heap = h ∨ h.Blocked o n) := by
    split at hrun
    · -- the elements are those from before the length was written
      rw [hrun] at hr
      obtain ⟨hf, i, p, hi, hp, hc⟩ := refusal_cutElements (kind_defineOrdinary hkind _ _) hr
      rw [getOwn?_of_array (kind_defineOrdinary hkind _ _),
        get?_defineOrdinary_of_ne (Key.length_ne_index i), ← getOwn?_of_array hkind] at hp
      exact ⟨hf, .inr ⟨hlt, i, p, hi, hp, hc⟩⟩
    · rw [hrun] at hr ⊢
      exact hclean (clean_defineOrdinary h o _ _) hr
  unfold setLength at hr ⊢
  dsimp only at hr ⊢
  by_cases hle : (h.lengthOf o).1 ≤ n
  · rw [if_pos hle] at hr ⊢
    exact hclean (clean_defineOrdinary h o _ _) hr
  · rw [if_neg hle] at hr ⊢
    cases w with
    | false => exact hclean (.refused h rfl) hr
    | true => exact hcut (Nat.lt_of_not_le hle) rfl hr

/-- The new value of a property should make an array shorter, but an element is in the way that cannot be
removed. -/
structure StopsShrink (h : Heap) (o : ObjectId) (k : Key) (v : Value) : Prop where
  kind : (h.object o).kind = .array
  key : k = .length
  blocked : h.Blocked o (primitiveNumber v).toUint32

/-- **A definition that is refused** leaves the heap as it is, unless it was a length that an element stopped. -/
theorem refusal_defining {r : Outcome} {f : Fault} (hdefining : h.defining o k d = .ok r)
    (hr : r.refusal = some f) :
    f.kind = .typeError ∧ (r.heap = h ∨ ∃ v, d.value = some v ∧ h.StopsShrink o k v) := by
  unfold defining at hdefining
  cases hlength : lengthValue? (h.object o) k d with
  | none =>
    rw [hlength] at hdefining
    cases hdefining
    obtain ⟨hf, hsame⟩ := clean_define h o k d f hr
    exact ⟨hf, .inl hsame⟩
  | some v =>
    rw [hlength] at hdefining
    have hv := value_of_lengthValue? hlength
    obtain ⟨hkind, rfl⟩ := array_of_lengthValue? hlength
    dsimp only [settingLength] at hdefining
    split at hdefining
    · cases hdefining
      obtain ⟨hf, hsame | hblocked⟩ := refusal_setLength hkind hr
      · exact ⟨hf, .inl hsame⟩
      · exact ⟨hf, .inr ⟨v, hv, hkind, rfl, hblocked⟩⟩
    · cases hdefining

/-- A definition that fails before anything is tried was given an invalid length. -/
theorem error_defining {f : Fault} (hdefining : h.defining o k d = .error f) : f.kind = .rangeError := by
  unfold defining at hdefining
  split at hdefining
  · cases hdefining
  · unfold settingLength at hdefining
    split at hdefining
    · cases hdefining
    · cases hdefining
      rfl

/-! ## 2. What is not refused is written -/

section Value

variable {v : Value} (hvalue : d.value = some v) (haccessor : d.isAccessor = false)

include hvalue haccessor

theorem Admits.value {q : Property} (hq : h.Admits o k d q) : ∃ w e c, q = .data v w e c := by
  rcases hq with ⟨_, _, rfl⟩ | ⟨p, _, hq⟩
  · refine ⟨d.writable.getD false, d.enumerable.getD false, d.configurable.getD false, ?_⟩
    unfold Descriptor.fresh
    rw [haccessor, hvalue]
    rfl
  · exact Descriptor.data_of_redefine? hvalue hq

/-- The value is stored, or it was there before. -/
theorem value_of_defineOrdinary (hr : (h.defineOrdinary o k d).refusal = none) :
    (∃ w e c, ((h.defineOrdinary o k d).heap.object o).own? k = some (.data v w e c)) ∨
      (h.defineOrdinary o k d).heap = h ∧ ∃ w e c, h.getOwn? o k = some (.data v w e c) := by
  rcases h.defineOrdinary_cases o k d with ⟨f, hcase⟩ | ⟨hcase, p, hown, hholds⟩ | ⟨q, hcase, hq⟩ <;>
    rw [hcase] at hr ⊢
  · cases hr
  · obtain ⟨w, e, c, rfl⟩ := Descriptor.data_of_redefine? (q := p) hvalue (if_pos hholds)
    exact .inr ⟨rfl, w, e, c, hown⟩
  · obtain ⟨w, e, c, rfl⟩ := hq.value hvalue haccessor
    refine .inl ⟨w, e, c, ?_⟩
    show ((h.store o k _).object o).own? k = _
    rw [object_store_self, Object.own?_withProperty, if_pos rfl]

/-- The value is seen if every value that is shared is the new one. -/
theorem getOwn?_of_defineOrdinary (hr : (h.defineOrdinary o k d).refusal = none) {h' : Heap}
    (hobject : h'.object o = (h.defineOrdinary o k d).heap.object o)
    (hshared : h'.shared? o k = ((h.defineOrdinary o k d).heap.shared? o k).map fun _ => v) :
    ∃ w e c, h'.getOwn? o k = some (.data v w e c) := by
  rw [getOwn?_eq, hobject, hshared]
  rcases value_of_defineOrdinary hvalue haccessor hr with ⟨w, e, c, hown⟩ | ⟨hsame, w, e, c, hown⟩
  · refine ⟨w, e, c, ?_⟩
    rw [hown]
    cases (h.defineOrdinary o k d).heap.shared? o k <;> rfl
  · rw [hsame]
    obtain ⟨p, hp, hshown⟩ := exists_own_of_getOwn hown
    refine ⟨w, e, c, ?_⟩
    rw [hp]
    cases hs : h.shared? o k with
    | none =>
      rw [hs] at hshown
      rw [← hshown]
      rfl
    | some u =>
      rw [hs] at hshown
      cases p with
      | accessor g s e c => cases hshown
      | data u' w' e' c' =>
        cases hshown
        rfl

end Value

theorem shared?_of_not_arguments (hkind : h.argumentsOf? o = none) (k : Key) : h.shared? o k = none := by
  unfold shared?
  rw [hkind]
  rfl

theorem shared?_of_parameterOf? (hk : ∀ i, k = .index i → h.parameterOf? o i = none) :
    h.shared? o k = none := by
  unfold shared?
  cases ha : h.argumentsOf? o with
  | none => rfl
  | some a =>
    cases k with
    | name t => rfl
    | index i =>
      have hi : h.parameterOf? o i = a.nameOf? i.val := by
        unfold parameterOf?
        rw [ha]
        rfl
      rw [hk i rfl] at hi
      show (a.nameOf? i.val).bind _ = none
      rw [← hi]
      rfl

/-- The value of a shared parameter, if it is bound. -/
theorem shared?_eq {a : ArgumentsData} (ha : h.argumentsOf? o = some a) {i : ArrayIndex} {n : Text}
    (hi : a.nameOf? i.val = some n) : h.shared? o (.index i) = h.valueOf? a.environment n := by
  unfold shared? valueOf?
  rw [ha]
  show (a.nameOf? i.val).bind _ = _
  rw [hi]
  show (h.bindings? a.environment).bind _ = ((h.bindings? a.environment).bind _).map _
  cases h.bindings? a.environment with
  | none => rfl
  | some b =>
    show (b.find? n).bind _ = (b.find? n).map _
    cases b.find? n <;> rfl

theorem valueOf?_passOn_self (h : Heap) (e : EnvironmentId) (n : Text) (v : Value) :
    (h.passOn e n (some v)).valueOf? e n = (h.valueOf? e n).map fun _ => v := by
  unfold valueOf?
  rw [bindings?_passOn]
  cases h.bindings? e with
  | none => rfl
  | some b =>
    show ((b.store n v).find? n).map _ = ((b.find? n).map _).map _
    rw [Bindings.find?_store, if_pos rfl]
    cases b.find? n <;> rfl

theorem argumentsOf?_defineOrdinary (h : Heap) (o : ObjectId) (k : Key) (d : Descriptor) :
    (h.defineOrdinary o k d).heap.argumentsOf? o = h.argumentsOf? o := by
  rcases h.defineOrdinary_cases o k d with ⟨f, hr⟩ | ⟨hr, _⟩ | ⟨q, hr, _⟩ <;> rw [hr]
  · rfl
  · rfl
  · exact argumentsOf?_store k q

section Value

variable {v : Value} (hvalue : d.value = some v) (haccessor : d.isAccessor = false)

include hvalue haccessor

/-- A definition that stores a value and goes through: the value is seen, also where it is shared. -/
theorem getOwn?_of_defineArguments (hwritable : d.writable ≠ some false)
    (hr : (h.defineArguments o k d).refusal = none) :
    ∃ w e c, (h.defineArguments o k d).heap.getOwn? o k = some (.data v w e c) := by
  rw [refusal_defineArguments] at hr
  have harguments := argumentsOf?_defineOrdinary h o k d
  by_cases hk : ∀ i, k = .index i → h.parameterOf? o i = none
  · have hunshared : (h.defineOrdinary o k d).heap.shared? o k = none := by
      refine shared?_of_parameterOf? fun i hi => ?_
      unfold parameterOf?
      rw [harguments]
      exact hk i hi
    rw [defineArguments_ordinary fun _ => hk]
    refine getOwn?_of_defineOrdinary hvalue haccessor hr rfl ?_
    rw [hunshared]
    rfl
  · obtain ⟨i, hnot⟩ := Classical.not_forall.mp hk
    obtain ⟨rfl, hi⟩ := Classical.not_imp.mp hnot
    obtain ⟨n, hn⟩ := Option.ne_none_iff_exists'.mp hi
    obtain ⟨a, ha, hn⟩ := Option.bind_eq_some_iff.mp hn
    have hdone : h.defineOrdinary o (.index i) d = .done (h.defineOrdinary o (.index i) d).heap :=
      Outcome.eq_done hr
    rw [defineArguments_parameter ha hn hdone, haccessor, if_neg Bool.false_ne_true,
      if_neg fun hw => hwritable (beq_iff_eq.mp hw), hvalue]
    refine getOwn?_of_defineOrdinary hvalue haccessor hr (object_passOn _ _ _ _ _) ?_
    -- the parameter, if it is bound, has got the value
    have hpassed : ((h.defineOrdinary o (.index i) d).heap.passOn a.environment n (some v)).argumentsOf? o =
        some a := by
      rw [argumentsOf?_of_object (object_passOn _ _ _ _ _), harguments, ha]
    show ((h.defineOrdinary o (.index i) d).heap.passOn a.environment n (some v)).shared? o _ = _
    rw [shared?_eq hpassed hn, shared?_eq (harguments.trans ha) hn, valueOf?_passOn_self]

theorem getOwn?_of_ordinary (hkind : ∀ a, (h.object o).kind ≠ .arguments a)
    (hr : (h.defineOrdinary o k d).refusal = none) :
    ∃ w e c, (h.defineOrdinary o k d).heap.getOwn? o k = some (.data v w e c) := by
  have hnone : (h.defineOrdinary o k d).heap.argumentsOf? o = none := by
    rw [argumentsOf?_defineOrdinary]
    exact Option.eq_none_iff_forall_ne_some.mpr fun a ha => hkind a (kind_of_argumentsOf? ha)
  refine getOwn?_of_defineOrdinary hvalue haccessor hr rfl ?_
  rw [shared?_of_not_arguments hnone]
  rfl

/-- **What is defined is seen**, for every kind of object. -/
theorem getOwn?_of_define (hwritable : d.writable ≠ some false) (hr : (h.define o k d).refusal = none) :
    ∃ w e c, (h.define o k d).heap.getOwn? o k = some (.data v w e c) := by
  unfold define at hr ⊢
  split at hr
  · rename_i i hkind
    dsimp only at hr ⊢
    unfold defineElement at hr ⊢
    dsimp only at hr ⊢
    split at hr
    · cases hr
    rename_i hroom
    rw [if_neg hroom]
    split at hr
    · cases hr
    rename_i hdone
    rw [if_neg hdone]
    have helement := getOwn?_of_ordinary hvalue haccessor (fun a ha => by rw [hkind] at ha; cases ha)
      (refusal_of_succeeded (by simpa using hdone))
    split
    · -- the length that follows is another property
      have hkind' := kind_defineOrdinary hkind (.index i) d
      obtain ⟨w, e, c, hown⟩ := helement
      refine ⟨w, e, c, ?_⟩
      rw [getOwn?_of_array hkind'] at hown
      show (defineOrdinary _ o .length _).heap.getOwn? o _ = _
      rw [getOwn?_of_array (kind_defineOrdinary hkind' _ _),
        get?_defineOrdinary_of_ne (Key.length_ne_index i), hown]
    · exact helement
  · exact getOwn?_of_defineArguments hvalue haccessor hwritable hr
  · rename_i hkind _
    exact getOwn?_of_ordinary hvalue haccessor (fun a ha => hkind a ha) hr

end Value

/-- Elements that go leave the length. -/
theorem getOwn?_of_cutElements (hkind : (h.object o).kind = .array) {n : Nat}
    (hr : (h.cutElements o d n false).refusal = none) :
    (h.cutElements o d n false).heap.getOwn? o .length = h.getOwn? o .length := by
  have hcases := deleteDoomed_cases hkind n
  unfold doomed at hcases
  unfold cutElements at hr ⊢
  dsimp only at hr ⊢
  split at hr
  · cases hr
  · rename_i hdeleted
    rw [hdeleted] at hcases
    rcases hcases with ⟨_, _, halters, _⟩ | ⟨b, hstop, _⟩
    · exact halters.own _ fun ⟨i, hk, _⟩ => Key.length_ne_index i hk
    · cases hstop

/-- A length that goes through is the one that was given. -/
theorem getOwn?_of_setLength (hkind : (h.object o).kind = .array) {n n₀ : Nat} {w₀ : Bool}
    (haccessor : d.isAccessor = false) (hwritable : d.writable ≠ some false)
    (hr : (h.setLength o d n n₀ w₀).refusal = none) :
    ∃ w e c, (h.setLength o d n n₀ w₀).heap.getOwn? o .length = some (.data (.ofNat n) w e c) := by
  have hnot (a : ArgumentsData) (ha : (h.object o).kind = .arguments a) : False := by
    rw [hkind] at ha
    cases ha
  have hfreezes : (d.writable == some false) = false := beq_eq_false_iff_ne.mpr hwritable
  unfold setLength at hr ⊢
  dsimp only at hr ⊢
  split
  · rename_i hle
    rw [if_pos hle] at hr
    exact getOwn?_of_ordinary (d := { d with value := some (.ofNat n) }) rfl haccessor hnot hr
  rename_i hle
  rw [if_neg hle] at hr
  cases w₀ with
  | false => cases hr
  | true =>
    rw [Bool.not_true, if_neg Bool.false_ne_true, hfreezes, if_neg Bool.false_ne_true] at hr ⊢
    split
    · rename_i hdone
      rw [if_pos hdone] at hr
      obtain ⟨w, e, c, hlength⟩ := getOwn?_of_ordinary (d := { d with value := some (.ofNat n) }) rfl haccessor
        hnot (refusal_of_succeeded hdone)
      -- cutting leaves the length that was written
      refine ⟨w, e, c, ?_⟩
      rw [← hlength]
      exact getOwn?_of_cutElements (kind_defineOrdinary hkind _ _) hr
    · rename_i hrefused
      rw [if_neg hrefused] at hr
      exact absurd (Option.isNone_iff_eq_none.mpr hr) hrefused

/-- The property has the value, or, as the length of an array, the number that the value gives. -/
def Written (h h' : Heap) (o : ObjectId) (k : Key) (v : Value) : Prop :=
  ∃ u w e c, h'.getOwn? o k = some (.data u w e c) ∧
    (u = v ∨ (h.object o).kind = .array ∧ k = .length ∧ u = .ofNat (primitiveNumber v).toUint32)

theorem written_of_defining {v : Value} {r : Outcome} (hvalue : d.value = some v)
    (haccessor : d.isAccessor = false) (hwritable : d.writable ≠ some false)
    (hdefining : h.defining o k d = .ok r) (hr : r.refusal = none) : h.Written r.heap o k v := by
  unfold defining at hdefining
  cases hlength : lengthValue? (h.object o) k d with
  | none =>
    rw [hlength] at hdefining
    cases hdefining
    obtain ⟨w, e, c, hown⟩ := getOwn?_of_define hvalue haccessor hwritable hr
    exact ⟨v, w, e, c, hown, .inl rfl⟩
  | some u =>
    rw [hlength] at hdefining
    obtain rfl := Option.some.inj (hvalue.symm.trans (value_of_lengthValue? hlength))
    obtain ⟨hkind, rfl⟩ := array_of_lengthValue? hlength
    dsimp only [settingLength] at hdefining
    split at hdefining
    · cases hdefining
      obtain ⟨w, e, c, hown⟩ := getOwn?_of_setLength hkind haccessor hwritable hr
      exact ⟨_, w, e, c, hown, .inr ⟨hkind, rfl, rfl⟩⟩
    · cases hdefining

section Put

variable {v receiver : Value} {r : Outcome} {f : Fault}

theorem value_putDescriptor (h : Heap) (o : ObjectId) (k : Key) (v : Value) :
    (h.putDescriptor o k v).value = some v ∧ (h.putDescriptor o k v).isAccessor = false ∧
      (h.putDescriptor o k v).writable ≠ some false := by
  unfold putDescriptor
  split
  · exact ⟨rfl, rfl, nofun⟩
  · exact ⟨rfl, rfl, nofun⟩

/-- An assignment that is refused leaves the heap as it is, unless it was a length that an element stopped. -/
theorem refusal_putting (hputting : h.putting o k v receiver = .ok r) (hr : r.refusal = some f) :
    f.kind = .typeError ∧ (r.heap = h ∨ h.StopsShrink o k v) := by
  unfold putting at hputting
  split at hputting
  · cases hputting
    cases hr
    exact ⟨kind_putRefusal h o k, .inl rfl⟩
  split at hputting
  · obtain ⟨hf, hsame | ⟨u, hu, hstops⟩⟩ := refusal_defining hputting hr
    · exact ⟨hf, .inl hsame⟩
    · obtain rfl := Option.some.inj ((value_putDescriptor h o k v).1.symm.trans hu)
      exact ⟨hf, .inr hstops⟩
  · cases hputting
    cases hr
    exact ⟨rfl, .inl rfl⟩

/-- An assignment that is not refused is carried out. -/
theorem written_of_putting (hputting : h.putting o k v receiver = .ok r) (hr : r.refusal = none) :
    h.Written r.heap o k v := by
  obtain ⟨hvalue, haccessor, hwritable⟩ := value_putDescriptor h o k v
  unfold putting at hputting
  split at hputting
  · cases hputting
    cases hr
  split at hputting
  · exact written_of_defining hvalue haccessor hwritable hputting hr
  · cases hputting
    cases hr

theorem error_putting (hputting : h.putting o k v receiver = .error f) : f.kind = .rangeError := by
  unfold putting at hputting
  split at hputting
  · cases hputting
  split at hputting
  · exact error_defining hputting
  · cases hputting

end Put

end Heap

/-! ## 3. With and without errors -/

/-- How an operation ends if its refusals are errors, and how it ends if they are not. -/
structure RefusesAlike (strict lax : EStateM.Result Failure Machine Bool) : Prop where
  state : endOf strict = endOf lax
  refused : ∀ m', (∃ f, f.kind = .typeError ∧ strict = .error (.fault f) m') ↔ lax = .ok false m'
  otherwise : (∀ m', lax ≠ .ok false m') → strict = lax

/-- The same for an assignment of a value, which does not say whether it was refused. -/
structure PutsAlike (m : Machine) (o : ObjectId) (k : Key) (v : Value) (refused : Prop)
    (strict lax : EStateM.Result Failure Machine Unit) : Prop where
  state : endOf strict = endOf lax
  fails : (∃ f m', f.kind = .typeError ∧ strict = .error (.fault f) m') ↔ refused
  unchanged : refused → ∃ m', lax = .ok () m' ∧ (m' = m ∨ m.heap.StopsShrink o k v)
  otherwise : ¬ refused → strict = lax ∧
    ((∃ f, f.kind = .rangeError ∧ lax = .error (.fault f) m) ∨
      ∃ m', lax = .ok () m' ∧ m.heap.Written m'.heap o k v)

theorem ne_typeError_of_rangeError {f : Fault} (hf : f.kind = .rangeError) : f.kind ≠ .typeError := by
  rw [hf]
  nofun

theorem refusesAlike_of_alike {strict lax : EStateM.Result Failure Machine Bool} (h : Refusing.Alike strict lax) :
    RefusesAlike strict lax := by
  cases h with
  | done m => exact ⟨rfl, fun m' => ⟨nofun, nofun⟩, fun _ => rfl⟩
  | refused m hf =>
    refine ⟨rfl, fun m' => ⟨?_, ?_⟩, fun hnot => absurd rfl (hnot m)⟩
    · rintro ⟨_, _, ⟨⟩⟩
      rfl
    · rintro ⟨⟩
      exact ⟨_, hf, rfl⟩
  | failed m hf =>
    refine ⟨rfl, fun m' => ⟨?_, nofun⟩, fun _ => rfl⟩
    rintro ⟨_, hkind, ⟨⟩⟩
    exact absurd hkind (ne_typeError_of_rangeError hf)

section Runs

variable {m : Machine} {o : ObjectId} {k : Key}

/-- Without errors, an operation says that it was refused only if it was. -/
theorem refused_of_ended {r : Heap.Outcome} {throws : Bool} {m' : Machine}
    (h : r.ended throws m = .ok false m') :
    (∃ f, r.refusal = some f) ∧ m' = { m with heap := r.heap } := by
  obtain ⟨heap, refusal⟩ := r
  cases refusal with
  | none => cases h
  | some f =>
    cases throws with
    | true => cases h
    | false =>
      cases h
      exact ⟨⟨f, rfl⟩, rfl⟩

theorem discarding_done {r : Heap.Outcome} (hr : r.refusal = none) (throws : Bool) :
    discarding (r.ended throws m) = .ok () { m with heap := r.heap } := by
  rw [Heap.Outcome.eq_done hr]
  rfl

theorem discarding_refused {r : Heap.Outcome} {f : Fault} (hr : r.refusal = some f) :
    discarding (r.ended true m) = .error (.fault f) { m with heap := r.heap } ∧
      discarding (r.ended false m) = .ok () { m with heap := r.heap } := by
  rw [Heap.Outcome.eq_refused hr]
  exact ⟨rfl, rfl⟩

/-- The two runs of an assignment end in one of three ways. -/
theorem putFor_cases (bodies : Bodies) {v : Value} (hv : v.isObject = false) (hplain : m.heap.RunsNoSetter o k)
    (receiver : Value) :
    (∃ f, f.kind = .rangeError ∧ Refusing.putFor o k v receiver false bodies m = .error (.fault f) m) ∨
    (∃ m', Refusing.putFor o k v receiver true bodies m = .ok () m' ∧
      Refusing.putFor o k v receiver false bodies m = .ok () m' ∧ m.heap.Written m'.heap o k v) ∨
    (∃ f m', Refusing.putFor o k v receiver true bodies m = .error (.fault f) m' ∧
      Refusing.putFor o k v receiver false bodies m = .ok () m' ∧ (m' = m ∨ m.heap.StopsShrink o k v)) := by
  rw [Refusing.putFor_eq, Refusing.putFor_eq, putFor_run hv hplain receiver true, putFor_run hv hplain receiver false]
  cases hx : m.heap.putting o k v receiver with
  | error f => exact .inl ⟨f, Heap.error_putting hx, rfl⟩
  | ok r =>
    cases hr : r.refusal with
    | none =>
      exact .inr (.inl ⟨_, discarding_done hr true, discarding_done hr false, Heap.written_of_putting hx hr⟩)
    | some f =>
      obtain ⟨htrue, hfalse⟩ := discarding_refused (m := m) hr
      refine .inr (.inr ⟨f, _, htrue, hfalse, ?_⟩)
      rcases (Heap.refusal_putting hx hr).2 with hsame | hstops
      · left
        rw [hsame]
      · exact .inr hstops

/-- An assignment that runs no setter. -/
theorem putsAlike_putFor (bodies : Bodies) {v : Value} (hv : v.isObject = false)
    (hplain : m.heap.RunsNoSetter o k) (receiver : Value) :
    PutsAlike m o k v (Refusing.RefusesPut bodies m o k v receiver) (Refusing.putFor o k v receiver true bodies m)
      (Refusing.putFor o k v receiver false bodies m) := by
  have hcases := putFor_cases bodies hv hplain receiver
  have hputs : Refusing.PutAlike (Refusing.RefusesPut bodies m o k v receiver) _ _ :=
    Refusing.alike_putFor hv hplain receiver
  obtain ⟨strict, lax, halike, hstrict, hlax, hrefused⟩ := hputs.ends
  rw [hstrict, hlax] at hcases ⊢
  rw [hrefused]
  cases halike with
  | done m₁ =>
    have hdone : ¬ ∃ m', EStateM.Result.ok true m₁ =
        (.ok false m' : EStateM.Result Failure Machine Bool) := by
      rintro ⟨m', ⟨⟩⟩
    refine ⟨rfl, iff_of_false ?_ hdone, fun h => absurd h hdone, fun _ => ⟨rfl, .inr ?_⟩⟩
    · rintro ⟨f, m', _, ⟨⟩⟩
    · rcases hcases with ⟨f, _, hend⟩ | ⟨m', _, hend, hwritten⟩ | ⟨f, m', hend, _⟩
      · cases hend
      · exact ⟨m', hend, hwritten⟩
      · cases hend
  | @refused f m₁ hf =>
    refine ⟨rfl, iff_of_true ⟨f, m₁, hf, rfl⟩ ⟨m₁, rfl⟩, fun _ => ?_, fun hnot => absurd ⟨m₁, rfl⟩ hnot⟩
    rcases hcases with ⟨f, _, hend⟩ | ⟨m', hend, _⟩ | ⟨f, m', _, hend, hkept⟩
    · cases hend
    · cases hend
    · exact ⟨m', hend, hkept⟩
  | @failed f m₁ hf =>
    have hfailed : ¬ ∃ m', EStateM.Result.error (.fault f) m₁ =
        (.ok false m' : EStateM.Result Failure Machine Bool) := by
      rintro ⟨m', ⟨⟩⟩
    refine ⟨rfl, iff_of_false ?_ hfailed, fun h => absurd h hfailed, fun _ => ⟨rfl, .inl ?_⟩⟩
    · rintro ⟨_, _, hkind, ⟨⟩⟩
      exact ne_typeError_of_rangeError hf hkind
    · rcases hcases with hrange | ⟨m', hend, _⟩ | ⟨f, m', _, hend, _⟩
      · exact hrange
      · cases hend
      · cases hend

/-- **Refusals.** A definition that gives no object as the length of an array, a deletion, and an assignment of a
primitive value that runs no setter: whether refusals are errors or not, the operation leaves the same state. It
fails with a type error if and only if otherwise it says that it was refused or, if it is an assignment, writes
nothing because it is refused; and then it has left everything as it was, except that an array may have lost
elements behind one that cannot be removed. These operations, in which each refusal is made an error or an answer
where it is decided, are those that are run. -/
theorem refusals_exact (bodies : Bodies) (m : Machine) (o : ObjectId) (k : Key) :
    (∀ d, m.heap.GivesPrimitive o k d →
      RefusesAlike (Refusing.defineOwn o k d true bodies m) (Refusing.defineOwn o k d false bodies m) ∧
      ∀ m', Refusing.defineOwn o k d false bodies m = .ok false m' →
        m' = m ∨ ∃ v, d.value = some v ∧ m.heap.StopsShrink o k v) ∧
    (RefusesAlike (Refusing.deleteOwn o k true bodies m) (Refusing.deleteOwn o k false bodies m) ∧
      ∀ m', Refusing.deleteOwn o k false bodies m = .ok false m' → m' = m) ∧
    (∀ v receiver, v.isObject = false → m.heap.RunsNoSetter o k →
      PutsAlike m o k v (Refusing.RefusesPut bodies m o k v receiver)
        (Refusing.putFor o k v receiver true bodies m) (Refusing.putFor o k v receiver false bodies m)) ∧
    (∀ d throws, Refusing.defineOwn o k d throws = defineOwn o k d throws) ∧
    (∀ throws, Refusing.deleteOwn o k throws = deleteOwn o k throws) ∧
    ∀ v receiver throws, Refusing.putFor o k v receiver throws = putFor o k v receiver throws := by
  refine ⟨fun d hd => ⟨refusesAlike_of_alike (Refusing.alike_defineOwn hd), fun m' hrun => ?_⟩,
    ⟨refusesAlike_of_alike (Refusing.alike_deleteOwn o k m), fun m' hrun => ?_⟩,
    fun v receiver hv hplain => putsAlike_putFor bodies hv hplain receiver, Refusing.defineOwn_eq o k,
    Refusing.deleteOwn_eq o k, Refusing.putFor_eq o k⟩
  · rw [Refusing.defineOwn_eq, defineOwn_run hd] at hrun
    cases hx : m.heap.defining o k d with
    | error f =>
      rw [hx] at hrun
      cases hrun
    | ok r =>
      rw [hx] at hrun
      obtain ⟨⟨f, hr⟩, rfl⟩ := refused_of_ended hrun
      obtain ⟨_, hsame | hstops⟩ := Heap.refusal_defining hx hr
      · left
        rw [hsame]
      · exact .inr hstops
  · rw [Refusing.deleteOwn_run] at hrun
    obtain ⟨⟨f, hr⟩, rfl⟩ := refused_of_ended hrun
    rw [(m.heap.clean_deleteOwn o k f hr).2]

end Runs

theorem runsNoSetter_sparseMachine :
    sparseMachine.heap.RunsNoSetter Heap.empty.nextObject .length := by
  intro _ g s e c
  have hfound : sparseMachine.heap.getProperty? Heap.empty.nextObject .length =
      some (.data (.ofNat 5) true false false) := by decide +kernel
  rw [hfound]
  nofun

/-- The element at 2 cannot be made an accessor, and the length cannot be set to 1. -/
theorem refusals_exact_sparse :
    (∃ f, f.kind = .typeError ∧
      Refusing.defineOwn Heap.empty.nextObject (.index ⟨2, by decide⟩) (.accessor .undefined .undefined true true) true
        (bodiesAt 0) sparseMachine = .error (.fault f) sparseMachine) ∧
    (∃ f m', f.kind = .typeError ∧
      putFor Heap.empty.nextObject .length (.ofNat 1) (.object Heap.empty.nextObject) true (bodiesAt 0)
        sparseMachine = .error (.fault f) m') ∧
    ∃ m', putFor Heap.empty.nextObject .length (.ofNat 1) (.object Heap.empty.nextObject) false (bodiesAt 0)
      sparseMachine = .ok () m' := by
  obtain ⟨_, _, hputs, _, _, hrun⟩ := refusals_exact (bodiesAt 0) sparseMachine Heap.empty.nextObject .length
  have hput := hputs (.ofNat 1) (.object Heap.empty.nextObject) rfl runsNoSetter_sparseMachine
  have hrefuses : Refusing.RefusesPut (bodiesAt 0) sparseMachine Heap.empty.nextObject .length (.ofNat 1)
      (.object Heap.empty.nextObject) := .inr (.inr ⟨_, rfl⟩)
  obtain ⟨m', hlax, _⟩ := hput.unchanged hrefuses
  rw [← hrun, ← hrun]
  refine ⟨?_, hput.fails.mpr hrefuses, m', hlax⟩
  have hdefine := (refusals_exact (bodiesAt 0) sparseMachine Heap.empty.nextObject
    (.index ⟨2, by decide⟩)).1 (.accessor .undefined .undefined true true) (Heap.givesPrimitive_index _ _)
  refine (hdefine.1.refused sparseMachine).mpr ?_
  rfl

end Ecma51
