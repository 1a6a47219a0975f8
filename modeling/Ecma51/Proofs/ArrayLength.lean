import Ecma51.Proofs.Edit
import Ecma51.Proofs.Redefinition
import Ecma51.Proofs.WholeNumber

/-!
# The length of arrays

An array has a length if it is a value in the range of lengths that cannot be enumerated or removed; the
array is sound if the length is above every index, too. Definitions and deletions keep arrays sound.
Setting a length does, except in one case: if the length that was found before is out of date, what looks
like growth may leave elements at or beyond the new length.

* `Object.HasLength`, `Object.Sound`: what an array should be like.
* `Heap.Outrun`: the elements of an array have outrun a new length.
* **`Heap.sound_setLength_iff`**: a new length leaves an array sound unless it was outrun.
-/

namespace Ecma51

theorem Value.eq_of_ofNat_eq {n n' : Nat} (hn : n < 2 ^ 32) (hn' : n' < 2 ^ 32)
    (h : Value.ofNat n = .ofNat n') : n = n' := by
  have htrunc := congrArg Double.truncInt (Value.number.inj h)
  rw [Double.truncInt_ofNat (by omega), Double.truncInt_ofNat (by omega)] at htrunc
  exact Int.ofNat_inj.mp htrunc

/-! ## 1. Sound arrays -/

namespace Object

/-- The length is in range. -/
def HasLength (x : Object) : Prop := ∃ n w, n < 2 ^ 32 ∧ x.LengthIs n w

/-- The length is in range and above every index. -/
def Sound (x : Object) : Prop := ∃ n w, n < 2 ^ 32 ∧ x.LengthIs n w ∧ x.Below n

theorem Sound.hasLength {x : Object} (h : x.Sound) : x.HasLength := by
  obtain ⟨n, w, hn, hlength, _⟩ := h
  exact ⟨n, w, hn, hlength⟩

theorem SameElements.hasLength {x y : Object} (h : x.SameElements y) (hx : x.HasLength) :
    y.HasLength := by
  obtain ⟨n, w, hn, hlength⟩ := hx
  exact ⟨n, w, hn, h.lengthIs.mpr hlength⟩

theorem SameElements.sound {x y : Object} (h : x.SameElements y) (hx : x.Sound) : y.Sound := by
  obtain ⟨n, w, hn, hlength, hbelow⟩ := hx
  exact ⟨n, w, hn, h.lengthIs.mpr hlength, h.below.mpr hbelow⟩

/-- There is only one length. -/
theorem LengthIs.unique {x : Object} {n n' : Nat} {w w' : Bool} (h : x.LengthIs n w)
    (h' : x.LengthIs n' w') (hn : n < 2 ^ 32) (hn' : n' < 2 ^ 32) : n = n' := by
  have hsame := Option.some.inj (h.symm.trans h')
  exact Value.eq_of_ofNat_eq hn hn' (Property.data.inj hsame).1

/-- Only the length may differ. -/
structure SameBesidesLength (x y : Object) : Prop where
  kind : y.kind = x.kind
  other : ∀ k, k ≠ .length → y.properties.get? k = x.properties.get? k

theorem SameBesidesLength.below {x y : Object} (h : x.SameBesidesLength y) {n : Nat} :
    y.Below n ↔ x.Below n := by
  unfold Below
  refine forall_congr' fun i => ?_
  rw [h.other (.index i) (Key.length_ne_index i).symm]

end Object

namespace Heap

variable {h : Heap} {o : ObjectId}

theorem getOwn?_of_array (hkind : (h.object o).kind = .array) (k : Key) :
    h.getOwn? o k = (h.object o).properties.get? k := by
  unfold getOwn?
  dsimp only
  rw [hkind]

/-! ## 2. Describing a length -/

theorem refusal_of_redefine {k : Key} {d : Descriptor} {p q : Property}
    (hown : h.getOwn? o k = some p) (hq : d.redefine? p = some q) :
    (h.defineOrdinary o k d).refusal = none := by
  unfold defineOrdinary
  rw [hown]
  dsimp only
  split
  · rfl
  · rw [hq]
    rfl

theorem heap_of_refusal {k : Key} {d : Descriptor}
    (hr : (h.defineOrdinary o k d).refusal ≠ none) : (h.defineOrdinary o k d).heap = h := by
  rcases h.defineOrdinary_cases o k d with ⟨f, hcase⟩ | ⟨hcase, _⟩ | ⟨q, hcase, _⟩ <;>
    rw [hcase] at hr ⊢
  · rfl
  · exact absurd rfl hr
  · exact absurd rfl hr

/-- A definition that is carried out gives what the description makes of the property. -/
theorem redefine_of_refusal {k : Key} {d : Descriptor} {p : Property}
    (hown : h.getOwn? o k = some p) (hr : (h.defineOrdinary o k d).refusal = none) :
    ∃ q, d.redefine? p = some q ∧
      ((h.defineOrdinary o k d).heap = h ∧ q = p ∨
        (h.defineOrdinary o k d).heap = h.store o k q) := by
  unfold defineOrdinary at hr ⊢
  rw [hown] at hr ⊢
  dsimp only at hr ⊢
  split
  · rename_i hholds
    exact ⟨p, by unfold Descriptor.redefine?; rw [if_pos hholds], .inl ⟨rfl, rfl⟩⟩
  · rename_i hholds
    rw [if_neg hholds] at hr
    cases hq : d.redefine? p with
    | none =>
      rw [hq] at hr
      cases hr
    | some q => exact ⟨q, rfl, .inr rfl⟩

/-- **A description of the length that is carried out** replaces value and writability and leaves
everything else; the value is another one only if it could be written. -/
theorem lengthIs_defineOrdinary (hkind : (h.object o).kind = .array) {v : Value} {w : Bool}
    (hlength : (h.object o).properties.get? .length = some (.data v w false false)) {d : Descriptor}
    (hr : (h.defineOrdinary o .length d).refusal = none) :
    (h.object o).SameBesidesLength ((h.defineOrdinary o .length d).heap.object o) ∧
    ((h.defineOrdinary o .length d).heap.object o).properties.get? .length =
      some (.data (d.value.getD v) (d.writable.getD w) false false) ∧
    d.keepsAttributes (.data v w false false) = true ∧
    (w = false → d.value.getD v = v) := by
  obtain ⟨q, hq, hheap⟩ := redefine_of_refusal ((getOwn?_of_array hkind _).trans hlength) hr
  have hdata := Descriptor.redefine?_data hq
  refine ⟨?_, ?_, Descriptor.keepsAttributes_of_redefine? rfl hq, fun hw => ?_⟩
  · rcases hheap with ⟨hsame, _⟩ | hstored
    · rw [hsame]
      exact ⟨rfl, fun _ _ => rfl⟩
    · rw [hstored, object_store_self]
      exact ⟨rfl, fun k hk => Object.get?_withProperty_of_ne _ hk.symm q⟩
  · rcases hheap with ⟨hsame, hqp⟩ | hstored
    · rw [hsame, hlength, ← hdata, hqp]
    · rw [hstored, object_store_self, ← hdata]
      exact Object.get?_withProperty_self _ _ q
  · have hkeeps := Descriptor.redefine?_keeps rfl hq
    rw [hdata] at hkeeps
    cases hkeeps with
    | data _ hkept => exact (hkept hw).2

theorem hasLength_defineLength (hkind : (h.object o).kind = .array) (hx : (h.object o).HasLength)
    {d : Descriptor} (hd : ∀ v, d.value = some v → ∃ n, n < 2 ^ 32 ∧ v = .ofNat n) :
    ((h.defineOrdinary o .length d).heap.object o).HasLength := by
  by_cases hr : (h.defineOrdinary o .length d).refusal = none
  · obtain ⟨n, w, hn, hlength⟩ := hx
    obtain ⟨_, hnew, _⟩ := lengthIs_defineOrdinary hkind hlength hr
    cases hv : d.value with
    | none =>
      rw [hv] at hnew
      exact ⟨n, _, hn, hnew⟩
    | some v =>
      obtain ⟨n', hn', rfl⟩ := hd v hv
      rw [hv] at hnew
      exact ⟨n', _, hn', hnew⟩
  · rw [heap_of_refusal hr]
    exact hx

/-- The value of the length is not concerned. -/
theorem sound_defineLength (hkind : (h.object o).kind = .array) (hx : (h.object o).Sound)
    {d : Descriptor} (hd : d.value = none) :
    ((h.defineOrdinary o .length d).heap.object o).Sound := by
  by_cases hr : (h.defineOrdinary o .length d).refusal = none
  · obtain ⟨n, w, hn, hlength, hbelow⟩ := hx
    obtain ⟨hsame, hnew, _⟩ := lengthIs_defineOrdinary hkind hlength hr
    rw [hd] at hnew
    exact ⟨n, _, hn, hnew, hsame.below.mpr hbelow⟩
  · rw [heap_of_refusal hr]
    exact hx

theorem lengthOf_of_lengthIs {n : Nat} {w : Bool} (hn : n < 2 ^ 32)
    (hlength : (h.object o).LengthIs n w) : h.lengthOf o = (n, w) := by
  have hstored : h.stored? o .length = some (.data (.number (.ofNat n)) w false false) := hlength
  unfold lengthOf
  rw [hstored]
  dsimp only
  rw [Double.truncInt_ofNat (by omega), Int.toNat_natCast]

/-! ## 3. Defining elements and other properties -/

theorem keepsAttributes_ofValue (v : Value) (p : Property) :
    (Descriptor.ofValue v).keepsAttributes p = true := by
  unfold Descriptor.keepsAttributes
  exact Bool.or_true _

/-- An ordinary definition leaves the other keys. -/
theorem get?_defineOrdinary_of_ne {k j : Key} (hk : k ≠ j) (d : Descriptor) :
    ((h.defineOrdinary o k d).heap.object o).properties.get? j =
      (h.object o).properties.get? j := by
  rcases h.object_defineOrdinary o k d with hsame | ⟨q, hstored, _⟩
  · rw [hsame]
  · rw [hstored]
    exact Object.get?_withProperty_of_ne _ hk q

theorem kind_defineOrdinary (hkind : (h.object o).kind = .array) (k : Key) (d : Descriptor) :
    ((h.defineOrdinary o k d).heap.object o).kind = .array := by
  have halike := alike_defineOrdinary h o k d
  rw [hkind] at halike
  exact halike.eq fun _ => Kind.noConfusion

theorem index_add_one_lt (i : ArrayIndex) : i.val + 1 < 2 ^ 32 := by
  have := i.isLt
  unfold indexLimit at this
  omega

theorem hasLength_defineElement (hkind : (h.object o).kind = .array) (hx : (h.object o).HasLength)
    (i : ArrayIndex) (d : Descriptor) (oldLength : Nat) (w : Bool) :
    ((h.defineElement o i d oldLength w).heap.object o).HasLength := by
  have hx' : ((h.defineOrdinary o (.index i) d).heap.object o).HasLength := by
    obtain ⟨n, w, hn, hlength⟩ := hx
    exact ⟨n, w, hn, (get?_defineOrdinary_of_ne (Key.length_ne_index i).symm d).trans hlength⟩
  unfold defineElement
  dsimp only
  split
  · exact hx
  · split
    · exact hx'
    · split
      · refine hasLength_defineLength (kind_defineOrdinary hkind _ d) hx' fun v hv => ?_
        cases hv
        exact ⟨i.val + 1, index_add_one_lt i, rfl⟩
      · exact hx'

theorem sound_defineElement (hkind : (h.object o).kind = .array) (hx : (h.object o).Sound)
    (i : ArrayIndex) (d : Descriptor) :
    ((h.defineElement o i d (h.lengthOf o).1 (h.lengthOf o).2).heap.object o).Sound := by
  have hx' := hx
  obtain ⟨n, w, hn, hlength, hbelow⟩ := hx
  rw [lengthOf_of_lengthIs hn hlength]
  have hkind' := kind_defineOrdinary hkind (.index i) d
  have hlength' : ((h.defineOrdinary o (.index i) d).heap.object o).LengthIs n w :=
    (get?_defineOrdinary_of_ne (Key.length_ne_index i).symm d).trans hlength
  have hbelow' : ∀ j : ArrayIndex,
      (((h.defineOrdinary o (.index i) d).heap.object o).properties.get? (.index j)).isSome →
      j = i ∨ j.val < n := by
    intro j hj
    by_cases hij : i = j
    · exact .inl hij.symm
    · rw [get?_defineOrdinary_of_ne (fun hk => hij (Key.index.inj hk))] at hj
      exact .inr (hbelow j hj)
  unfold defineElement
  dsimp only
  split
  · exact hx'
  · rename_i hwritable
    split
    · rename_i hrefused
      have hr : (h.defineOrdinary o (.index i) d).refusal ≠ none := by
        intro hr
        unfold Outcome.succeeded at hrefused
        rw [hr] at hrefused
        cases hrefused
      show ((h.defineOrdinary o (.index i) d).heap.object o).Sound
      rw [heap_of_refusal hr]
      exact hx'
    · split
      · rename_i hge
        -- the length is writable, so that it can follow the index
        obtain rfl : w = true := by
          cases w with
          | true => rfl
          | false => exact absurd ⟨hge, rfl⟩ hwritable
        obtain ⟨q, hq⟩ := Descriptor.exists_redefine? (d := .ofValue (.ofNat (i + 1))) rfl
          (keepsAttributes_ofValue _ (.data (.ofNat n) true false false))
        have hr := refusal_of_redefine ((getOwn?_of_array hkind' _).trans hlength') hq
        obtain ⟨hsame, hnew, _⟩ := lengthIs_defineOrdinary hkind' hlength' hr
        refine ⟨i.val + 1, _, index_add_one_lt i, hnew, hsame.below.mpr fun j hj => ?_⟩
        rcases hbelow' j hj with rfl | hj
        · exact Nat.lt_succ_self _
        · omega
      · rename_i hlt
        refine ⟨n, w, hn, hlength', fun j hj => ?_⟩
        rcases hbelow' j hj with rfl | hj
        · omega
        · exact hj

theorem value_of_lengthValue (hkind : (h.object o).kind = .array) {d : Descriptor}
    (hd : lengthValue? (h.object o) .length d = none) : d.value = none := by
  unfold lengthValue? Object.isArray at hd
  rw [hkind] at hd
  simpa using hd

theorem hasLength_define (hkind : (h.object o).kind = .array) (hx : (h.object o).HasLength) {k : Key}
    {d : Descriptor} (hd : lengthValue? (h.object o) k d = none) :
    ((h.define o k d).heap.object o).HasLength := by
  unfold define
  rw [hkind]
  cases k with
  | index i => exact hasLength_defineElement hkind hx i d _ _
  | name t =>
    show ((h.defineOrdinary o (.name t) d).heap.object o).HasLength
    by_cases ht : Key.name t = .length
    · rw [ht] at hd ⊢
      refine hasLength_defineLength hkind hx fun v hv => ?_
      rw [value_of_lengthValue hkind hd] at hv
      cases hv
    · obtain ⟨n, w, hn, hlength⟩ := hx
      exact ⟨n, w, hn, (get?_defineOrdinary_of_ne ht d).trans hlength⟩

theorem sound_define (hkind : (h.object o).kind = .array) (hx : (h.object o).Sound) {k : Key}
    {d : Descriptor} (hd : lengthValue? (h.object o) k d = none) :
    ((h.define o k d).heap.object o).Sound := by
  unfold define
  rw [hkind]
  cases k with
  | index i => exact sound_defineElement hkind hx i d
  | name t =>
    show ((h.defineOrdinary o (.name t) d).heap.object o).Sound
    by_cases ht : Key.name t = .length
    · rw [ht] at hd ⊢
      exact sound_defineLength hkind hx (value_of_lengthValue hkind hd)
    · obtain ⟨n, w, hn, hlength, hbelow⟩ := hx
      refine ⟨n, w, hn, (get?_defineOrdinary_of_ne ht d).trans hlength, fun i hi => hbelow i ?_⟩
      rw [get?_defineOrdinary_of_ne Key.noConfusion] at hi
      exact hi

/-! ## 4. Deleting elements -/

/-- Properties other than the length may be gone. -/
structure Shrinks (o : ObjectId) (h h' : Heap) : Prop where
  kind : (h'.object o).kind = .array
  length : (h'.object o).properties.get? .length = (h.object o).properties.get? .length
  elements : ∀ i : ArrayIndex, ((h'.object o).properties.get? (.index i)).isSome →
    ((h.object o).properties.get? (.index i)).isSome

namespace Shrinks

variable {h' h'' : Heap}

theorem refl (hkind : (h.object o).kind = .array) : Shrinks o h h := ⟨hkind, rfl, fun _ hi => hi⟩

theorem trans (hs : Shrinks o h h') (hs' : Shrinks o h' h'') : Shrinks o h h'' :=
  ⟨hs'.kind, hs'.length.trans hs.length, fun i hi => hs.elements i (hs'.elements i hi)⟩

theorem hasLength (hs : Shrinks o h h') (hx : (h.object o).HasLength) : (h'.object o).HasLength := by
  obtain ⟨n, w, hn, hlength⟩ := hx
  exact ⟨n, w, hn, hs.length.trans hlength⟩

theorem sound (hs : Shrinks o h h') (hx : (h.object o).Sound) : (h'.object o).Sound := by
  obtain ⟨n, w, hn, hlength, hbelow⟩ := hx
  exact ⟨n, w, hn, hs.length.trans hlength, fun i hi => hbelow i (hs.elements i hi)⟩

end Shrinks

theorem unmapped_of_array {x : Object} (hkind : x.kind = .array) (k : Key) : x.unmapped k = x := by
  unfold Object.unmapped
  rw [hkind]

theorem shrinks_withoutProperty {h' : Heap} (hkind : (h.object o).kind = .array) {k : Key}
    (hk : k ≠ .length) (hobject : h'.object o = (h.object o).withoutProperty k) : Shrinks o h h' := by
  refine ⟨?_, ?_, fun i hi => ?_⟩
  · rw [hobject]
    exact hkind
  · rw [hobject]
    exact Object.get?_withoutProperty_of_ne _ hk
  · rw [hobject] at hi
    by_cases hki : k = .index i
    · rw [hki, Object.get?_withoutProperty_self] at hi
      cases hi
    · rw [Object.get?_withoutProperty_of_ne _ hki] at hi
      exact hi

/-- A deletion, carried out or not. -/
theorem shrinks_deleteOwn (hkind : (h.object o).kind = .array) (hx : (h.object o).HasLength) (k : Key) :
    Shrinks o h (h.deleteOwn o k).heap ∧
    ((h.deleteOwn o k).succeeded = true →
      ((h.deleteOwn o k).heap.object o).properties.get? k = none) := by
  rcases h.deleteOwn_cases o k with ⟨hr, hown⟩ | ⟨f, p, hr, _⟩ | ⟨p, hr, hown, hc⟩ <;> rw [hr]
  · refine ⟨.refl hkind, fun _ => ?_⟩
    rw [getOwn?_of_array hkind] at hown
    exact hown
  · exact ⟨.refl hkind, fun hdone => by cases hdone⟩
  · have hk : k ≠ .length := by
      rintro rfl
      obtain ⟨n, w, _, hlength⟩ := hx
      rw [getOwn?_of_array hkind, hlength] at hown
      cases hown
      cases hc
    have hobject : ((h.modify o (·.withoutProperty k)).unmapArgument o k).object o =
        (h.object o).withoutProperty k := by
      rw [object_unmapArgument, object_modify_self]
      exact unmapped_of_array (x := (h.object o).withoutProperty k) hkind _
    refine ⟨shrinks_withoutProperty hkind hk hobject, fun _ => ?_⟩
    show ((unmapArgument _ o k).object o).properties.get? k = none
    rw [hobject]
    exact Object.get?_withoutProperty_self _ k

/-- **Deleting elements from the end**: of those that are still there, none is above the one at which
the deletion stopped. -/
theorem deleteElements_descending (hkind : (h.object o).kind = .array) (hx : (h.object o).HasLength)
    {l : List ArrayIndex} (hl : l.Pairwise (· > ·)) :
    Shrinks o h (h.deleteElements o l).1 ∧
    (∀ j ∈ l, (((h.deleteElements o l).1.object o).properties.get? (.index j)).isSome →
      ∃ i, (h.deleteElements o l).2 = some i ∧ j ≤ i) ∧
    ∀ i, (h.deleteElements o l).2 = some i → i ∈ l := by
  induction l generalizing h with
  | nil =>
    refine ⟨.refl hkind, fun _ hj => absurd hj List.not_mem_nil, ?_⟩
    intro i hi
    cases hi
  | cons i l ih =>
    obtain ⟨hhead, htail⟩ := List.pairwise_cons.mp hl
    obtain ⟨hshrinks, hgone⟩ := shrinks_deleteOwn hkind hx (.index i)
    unfold deleteElements
    dsimp only
    split
    · rename_i hdone
      obtain ⟨hrest, hleft, hstop⟩ := ih hshrinks.kind (hshrinks.hasLength hx) htail
      refine ⟨hshrinks.trans hrest, fun j hj hsome => ?_, fun j hj => ?_⟩
      · rcases List.mem_cons.mp hj with rfl | hj
        · have := hrest.elements j hsome
          rw [hgone hdone] at this
          cases this
        · exact hleft j hj hsome
      · exact List.mem_cons_of_mem _ (hstop j hj)
    · refine ⟨hshrinks, fun j hj _ => ⟨i, rfl, ?_⟩, fun j hj => ?_⟩
      · rcases List.mem_cons.mp hj with rfl | hj
        · exact Nat.le_refl _
        · exact Nat.le_of_lt (hhead j hj)
      · cases hj
        exact List.mem_cons_self

/-! ## 5. Setting a length -/

/-- The elements from a new length on, beginning at the end. -/
theorem doomed_descending (t : PropertyTable) (n : Nat) :
    ((t.indexKeys.filter fun i => n ≤ i.val).reverse).Pairwise (· > ·) ∧
    ∀ i : ArrayIndex, i ∈ (t.indexKeys.filter fun i => n ≤ i.val).reverse ↔
      (t.get? (.index i)).isSome ∧ n ≤ i.val := by
  constructor
  · exact List.pairwise_reverse.mpr (t.pairwise_indexKeys.filter _)
  · intro i
    rw [List.mem_reverse, List.mem_filter, PropertyTable.mem_indexKeys, decide_eq_true_iff]

theorem hasLength_cutElements (hkind : (h.object o).kind = .array) (hx : (h.object o).HasLength)
    (d : Descriptor) (n : Nat) (freezes : Bool) :
    ((h.cutElements o d n freezes).heap.object o).HasLength := by
  obtain ⟨hordered, _⟩ := doomed_descending (h.object o).properties n
  obtain ⟨hs, _, _⟩ := deleteElements_descending hkind hx hordered
  unfold cutElements
  dsimp only
  split
  · rename_i h' i hdeleted
    rw [hdeleted] at hs
    refine hasLength_defineLength hs.kind (hs.hasLength hx) fun v hv => ?_
    cases hv
    exact ⟨i.val + 1, index_add_one_lt i, rfl⟩
  · rename_i h' hdeleted
    rw [hdeleted] at hs
    cases freezes with
    | true => exact hasLength_defineLength hs.kind (hs.hasLength hx) fun v hv => by cases hv
    | false => exact hs.hasLength hx

/-- After a length was set, deleting the elements from there on makes the array sound, if its length can
follow an element that stays. -/
theorem sound_cutElements (hkind : (h.object o).kind = .array) {n : Nat} {w : Bool} (hn : n < 2 ^ 32)
    (hlength : (h.object o).LengthIs n w) {d : Descriptor} (freezes : Bool)
    (hfollows : ∀ i : ArrayIndex, ((h.object o).properties.get? (.index i)).isSome → n ≤ i.val →
      w = true ∧ d.keepsAttributes (.data (.ofNat n) true false false) = true) :
    ((h.cutElements o d n freezes).heap.object o).Sound := by
  obtain ⟨hordered, hdoomed⟩ := doomed_descending (h.object o).properties n
  obtain ⟨hs, hleft, hstop⟩ := deleteElements_descending hkind ⟨n, w, hn, hlength⟩ hordered
  unfold cutElements
  dsimp only
  split
  · rename_i h' i hdeleted
    rw [hdeleted] at hs hleft hstop
    obtain ⟨hown, hge⟩ := (hdoomed i).mp (hstop i rfl)
    obtain ⟨rfl, hattributes⟩ := hfollows i hown hge
    have hlength' : (h'.object o).LengthIs n true := hs.length.trans hlength
    obtain ⟨q, hq⟩ := Descriptor.exists_redefine? (d := { d with
      value := some (.ofNat (i + 1))
      writable := if freezes then some false else d.writable }) rfl hattributes
    have hr := refusal_of_redefine ((getOwn?_of_array hs.kind _).trans hlength') hq
    obtain ⟨hsame, hnew, _⟩ := lengthIs_defineOrdinary hs.kind hlength' hr
    refine ⟨i.val + 1, _, index_add_one_lt i, hnew, hsame.below.mpr fun j hj => ?_⟩
    by_cases hnj : n ≤ j.val
    · obtain ⟨i', hi', hji⟩ := hleft j ((hdoomed j).mpr ⟨hs.elements j hj, hnj⟩) hj
      cases hi'
      exact Nat.lt_succ_of_le hji
    · omega
  · rename_i h' hdeleted
    rw [hdeleted] at hs hleft
    have hsound : (h'.object o).Sound := by
      refine ⟨n, w, hn, hs.length.trans hlength, fun j hj => Nat.lt_of_not_le fun hnj => ?_⟩
      obtain ⟨i, hi, _⟩ := hleft j ((hdoomed j).mpr ⟨hs.elements j hj, hnj⟩) hj
      cases hi
    cases freezes with
    | true => exact sound_defineLength hs.kind hsound rfl
    | false => exact hsound

theorem hasLength_setLength (hkind : (h.object o).kind = .array) (hx : (h.object o).HasLength)
    (d : Descriptor) {n : Nat} (hn : n < 2 ^ 32) (oldLength : Nat) (w : Bool) :
    ((h.setLength o d n oldLength w).heap.object o).HasLength := by
  have hdefine {d : Descriptor} (hd : d.value = some (.ofNat n)) :
      ((h.defineOrdinary o .length d).heap.object o).HasLength := by
    refine hasLength_defineLength hkind hx fun v hv => ?_
    rw [hd] at hv
    cases hv
    exact ⟨n, hn, rfl⟩
  have hcut {d : Descriptor} (hd : d.value = some (.ofNat n)) (freezes : Bool) :
      ((if (h.defineOrdinary o .length d).succeeded then
        (h.defineOrdinary o .length d).heap.cutElements o d n freezes
      else h.defineOrdinary o .length d).heap.object o).HasLength := by
    split
    · exact hasLength_cutElements (kind_defineOrdinary hkind _ d) (hdefine hd) d n freezes
    · exact hdefine hd
  unfold setLength
  dsimp only
  split
  · exact hdefine rfl
  · split
    · exact hx
    · exact hcut rfl _

/-- The elements of an array have outrun a new length: compared with the length that was found before,
it looks like growth, and the description of the length is accepted, but there are elements at or beyond
it. -/
structure Outrun (h : Heap) (o : ObjectId) (d : Descriptor) (newLength oldLength : Nat) : Prop where
  looksLikeGrowth : oldLength ≤ newLength
  accepted : (h.defineOrdinary o .length
    { d with value := some (.ofNat newLength) }).succeeded = true
  beyond : ∃ i : ArrayIndex, newLength ≤ i.val ∧ (h.getOwn? o (.index i)).isSome

theorem refusal_of_succeeded {r : Outcome} (hr : r.succeeded = true) : r.refusal = none :=
  Option.isNone_iff_eq_none.mp hr

/-- Nothing is deleted: the array is sound if there was nothing to delete. -/
theorem sound_growth_iff (hkind : (h.object o).kind = .array) (hx : (h.object o).Sound)
    (d : Descriptor) {n oldLength : Nat} (hn : n < 2 ^ 32) (hold : oldLength ≤ n) :
    ((h.defineOrdinary o .length { d with value := some (.ofNat n) }).heap.object o).Sound ↔
      ¬ h.Outrun o d n oldLength := by
  by_cases hr : (h.defineOrdinary o .length { d with value := some (.ofNat n) }).refusal = none
  · obtain ⟨_, w, _, hlength, _⟩ := hx
    obtain ⟨hsame, hnew, _⟩ := lengthIs_defineOrdinary hkind hlength hr
    constructor
    · rintro ⟨n', w', hn', hlength', hbelow⟩ houtrun
      obtain ⟨i, hni, hown⟩ := houtrun.beyond
      rw [getOwn?_of_array hkind] at hown
      have hlt := hsame.below.mp hbelow i hown
      rw [hlength'.unique hnew hn' hn] at hlt
      omega
    · intro hnot
      refine ⟨n, _, hn, hnew, hsame.below.mpr fun i hi => Nat.lt_of_not_le fun hni => ?_⟩
      refine hnot ⟨hold, Option.isNone_iff_eq_none.mpr hr, i, hni, ?_⟩
      rw [getOwn?_of_array hkind]
      exact hi
  · rw [heap_of_refusal hr]
    exact ⟨fun _ houtrun => hr (refusal_of_succeeded houtrun.accepted), fun _ => hx⟩

/-- Elements are deleted: the array is sound, whatever length was found before. -/
theorem sound_cut (hkind : (h.object o).kind = .array) (hx : (h.object o).Sound) {d : Descriptor}
    {n : Nat} (hn : n < 2 ^ 32) (hvalue : d.value = some (.ofNat n)) (hwritable : d.writable ≠ some false)
    (freezes : Bool) :
    ((if (h.defineOrdinary o .length d).succeeded then
      (h.defineOrdinary o .length d).heap.cutElements o d n freezes
    else h.defineOrdinary o .length d).heap.object o).Sound := by
  split
  · rename_i hdone
    obtain ⟨n₀, w₀, hn₀, hlength, hbelow⟩ := hx
    obtain ⟨hsame, hnew, hattributes, hkept⟩ :=
      lengthIs_defineOrdinary hkind hlength (refusal_of_succeeded hdone)
    rw [hvalue] at hnew hkept
    refine sound_cutElements (hsame.kind.trans hkind) hn hnew freezes fun i hi hni => ?_
    -- the length gets another value, so that it can be written
    obtain rfl : w₀ = true := by
      cases w₀ with
      | true => rfl
      | false =>
        rw [hsame.other (.index i) (Key.length_ne_index i).symm] at hi
        have hlt := hbelow i hi
        have := Value.eq_of_ofNat_eq hn hn₀ (hkept rfl)
        omega
    refine ⟨?_, hattributes⟩
    cases hw : d.writable with
    | none => rfl
    | some b =>
      cases b with
      | true => rfl
      | false => exact absurd hw hwritable
  · rename_i hrefused
    rw [heap_of_refusal fun hr => hrefused (Option.isNone_iff_eq_none.mpr hr)]
    exact hx

/-- **A new length leaves a sound array sound, unless the elements have outrun it; and then it does
not.** -/
theorem sound_setLength_iff (hkind : (h.object o).kind = .array) (hx : (h.object o).Sound)
    (d : Descriptor) {n : Nat} (hn : n < 2 ^ 32) (oldLength : Nat) (w : Bool) :
    ((h.setLength o d n oldLength w).heap.object o).Sound ↔ ¬ h.Outrun o d n oldLength := by
  by_cases hold : oldLength ≤ n
  · unfold setLength
    rw [if_pos hold]
    exact sound_growth_iff hkind hx d hn hold
  · refine iff_of_true ?_ fun houtrun => hold houtrun.looksLikeGrowth
    unfold setLength
    rw [if_neg hold]
    dsimp only
    split
    · exact hx
    · refine sound_cut hkind hx hn rfl ?_ _
      dsimp only
      split
      · exact fun hw => by cases hw
      · rename_i hnot
        exact fun hw => hnot (beq_iff_eq.mpr hw)

/-- A length that was outrun was compared with one that is out of date: the array is longer by now. -/
theorem Outrun.longer (hkind : (h.object o).kind = .array) (hx : (h.object o).Sound) {d : Descriptor}
    {n oldLength : Nat} (houtrun : h.Outrun o d n oldLength) : oldLength < (h.lengthOf o).1 := by
  obtain ⟨n₀, w₀, hn₀, hlength, hbelow⟩ := hx
  obtain ⟨i, hni, hown⟩ := houtrun.beyond
  rw [getOwn?_of_array hkind] at hown
  rw [lengthOf_of_lengthIs hn₀ hlength]
  have hlt := hbelow i hown
  have hge := houtrun.looksLikeGrowth
  show oldLength < n₀
  omega

end Heap

end Ecma51
