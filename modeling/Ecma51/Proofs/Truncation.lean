import Ecma51.Library
import Ecma51.Proofs.ArrayLength
import Ecma51.Proofs.Settling

/-!
# New lengths and new elements

Setting the length of an array whose length is above all its indices has one of few outcomes, and each of
them is known exactly: what is refused changes nothing; otherwise the array has a new length, has lost the
elements from there on, and is as before in everything else. An element that cannot be removed bounds the
length from below.

* `Heap.ArrayOfLength`: an array with its length above all its indices.
* `Heap.AltersOnly`: nothing but properties of one object with certain keys may be different.
* `Heap.LengthSet`, `Heap.ElementSet`: what a new length and a new element leave.
* **`deleteElements_exact`**: elements go one after the other, from the end, until one cannot be removed.
* **`defineOwn_array_exact`**: all that the definition of a length and of an element can do.
-/

namespace Ecma51

/-- The description asks for nothing that the length of an array does not have: it is not enumerated and cannot
be removed, and if it cannot be written, it stays so. -/
def Descriptor.FitsLength (d : Descriptor) (w : Bool) : Prop :=
  d.enumerable ≠ some true ∧ d.configurable ≠ some true ∧ (d.writable = some true → w = true)

/-- **What a length admits**: a description that fits it, with another value only if it can be written. -/
theorem Descriptor.redefine?_length_iff {d : Descriptor} (hdata : d.isData = true) (v : Value) (w : Bool) :
    (∃ q, d.redefine? (.data v w false false) = some q) ↔
      d.FitsLength w ∧ (w = true ∨ d.value.getD v = v) := by
  constructor
  · rintro ⟨q, hq⟩
    obtain ⟨he, hc⟩ := attributes_of_keepsAttributes rfl (keepsAttributes_of_redefine? rfl hq)
    have hkeeps := redefine?_keeps rfl hq
    rw [redefine?_data hq] at hkeeps
    cases hkeeps with
    | data _ hkept =>
      refine ⟨⟨fun h => ?_, fun h => ?_, fun h => ?_⟩, ?_⟩
      · rw [h] at he
        cases he
      · rw [h] at hc
        cases hc
      · cases w with
        | true => rfl
        | false =>
          have hw := (hkept rfl).1
          rw [h] at hw
          cases hw
      · cases w with
        | true => exact .inl rfl
        | false => exact .inr (hkept rfl).2
  · rintro ⟨⟨he, hc, hw⟩, hvalue⟩
    have hattributes : d.keepsAttributes (.data v w false false) = true := by
      unfold keepsAttributes agreesFlag
      cases h : d.enumerable with
      | none => simp [Property.configurable, hc]
      | some b =>
        cases b with
        | true => exact absurd h he
        | false => simp [Property.configurable, Property.enumerable, hc]
    have hcontent : d.keepsContent (.data v w false false) = true := by
      cases w with
      | true => rfl
      | false =>
        have hvalue := hvalue.resolve_left Bool.false_ne_true
        have hwritable : d.writable ≠ some true := fun h => Bool.false_ne_true (hw h)
        unfold keepsContent agrees Value.same
        cases h : d.value with
        | none => simp [Property.configurable, hwritable]
        | some u =>
          rw [h] at hvalue
          obtain rfl : u = v := hvalue
          simp [Property.configurable, hwritable]
    have hgeneric : d.isGeneric = false := by
      unfold isGeneric
      rw [hdata]
      exact Bool.and_false _
    have hswitch : d.switchesKind (.data v w false false) = false := by
      unfold switchesKind
      rw [hdata]
      exact Bool.and_false _
    unfold redefine?
    rw [hattributes, hgeneric, hswitch, hcontent]
    split
    · exact ⟨_, rfl⟩
    · exact ⟨_, rfl⟩

namespace Heap

variable {h h' h'' : Heap} {o : ObjectId}

/-! ## 1. What stays -/

/-- Only own properties of one object may be different, and only those with certain keys. Names stay in their
order. -/
structure AltersOnly (o : ObjectId) (K : Key → Prop) (h h' : Heap) : Prop where
  own : ∀ k, ¬ K k → h'.getOwn? o k = h.getOwn? o k
  names : (h'.object o).properties.nameKeys = (h.object o).properties.nameKeys
  rest : h'.object o = { h.object o with properties := (h'.object o).properties }
  other : ∀ o', o' ≠ o → h'.object o' = h.object o'
  others : h' = { h with objects := h'.objects }

namespace AltersOnly

variable {K K' : Key → Prop}

theorem refl (o : ObjectId) (K : Key → Prop) (h : Heap) : AltersOnly o K h h :=
  ⟨fun _ _ => rfl, rfl, rfl, fun _ _ => rfl, rfl⟩

theorem trans (ha : AltersOnly o K h h') (ha' : AltersOnly o K h' h'') : AltersOnly o K h h'' where
  own k hk := (ha'.own k hk).trans (ha.own k hk)
  names := ha'.names.trans ha.names
  rest := by
    rw [ha'.rest, ha.rest]
  other o' ho := (ha'.other o' ho).trans (ha.other o' ho)
  others := by
    rw [ha'.others, ha.others]

theorem mono (ha : AltersOnly o K h h') (hK : ∀ k, K k → K' k) : AltersOnly o K' h h' :=
  ⟨fun k hk => ha.own k fun hk' => hk (hK k hk'), ha.names, ha.rest, ha.other, ha.others⟩

theorem kind (ha : AltersOnly o K h h') : (h'.object o).kind = (h.object o).kind := by
  rw [ha.rest]

end AltersOnly

section OneProperty

variable (hkind : (h.object o).kind = .array)

include hkind

/-- A property is stored under an index, or under a key that is there. -/
theorem altersOnly_store {k : Key} (hk : k.index?.isSome ∨ (h.getOwn? o k).isSome) (q : Property) :
    AltersOnly o (· = k) h (h.store o k q) := by
  have hobject : (h.store o k q).object o = (h.object o).withProperty k q := object_store_self h o k q
  rw [getOwn?_of_array hkind] at hk
  refine ⟨fun j hj => ?_, ?_, ?_, fun o' ho => object_set_of_ne h _ ho, rfl⟩
  · have hkind' : ((h.store o k q).object o).kind = .array := by
      rw [hobject]
      exact hkind
    rw [getOwn?_of_array hkind', getOwn?_of_array hkind, hobject]
    exact Object.get?_withProperty_of_ne _ (Ne.symm hj) q
  · rw [hobject]
    exact PropertyTable.nameKeys_insert _ hk q
  · rw [hobject]
    rfl

theorem altersOnly_defineOrdinary {k : Key} (hk : k.index?.isSome ∨ (h.getOwn? o k).isSome)
    (d : Descriptor) : AltersOnly o (· = k) h (h.defineOrdinary o k d).heap := by
  rcases h.defineOrdinary_cases o k d with ⟨f, hr⟩ | ⟨hr, _⟩ | ⟨q, hr, _⟩ <;> rw [hr]
  · exact .refl o _ h
  · exact .refl o _ h
  · exact altersOnly_store hkind hk q

/-- An element is removed. -/
theorem altersOnly_remove (i : ArrayIndex) :
    AltersOnly o (· = .index i) h (h.modify o (·.withoutProperty (.index i))) ∧
    (h.modify o (·.withoutProperty (.index i))).getOwn? o (.index i) = none := by
  have hobject : (h.modify o (·.withoutProperty (.index i))).object o =
      (h.object o).withoutProperty (.index i) := object_modify_self h o _
  have hkind' : ((h.modify o (·.withoutProperty (.index i))).object o).kind = .array := by
    rw [hobject]
    exact hkind
  refine ⟨⟨fun j hj => ?_, ?_, ?_, fun o' ho => object_set_of_ne h _ ho, rfl⟩, ?_⟩
  · rw [getOwn?_of_array hkind', getOwn?_of_array hkind, hobject]
    exact Object.get?_withoutProperty_of_ne _ (Ne.symm hj)
  · rw [hobject]
    rfl
  · rw [hobject]
    rfl
  · rw [getOwn?_of_array hkind', hobject]
    exact Object.get?_withoutProperty_self _ _

theorem unmapArgument_of_array (k : Key) : h.unmapArgument o k = h := by
  unfold unmapArgument argumentsOf?
  rw [hkind]

/-- **What the deletion of an element does**: it is not there any more, unless it cannot be removed. -/
theorem deleteElement_cases (i : ArrayIndex) :
    (h.deleteOwn o (.index i)).succeeded = true ∧
      AltersOnly o (· = .index i) h (h.deleteOwn o (.index i)).heap ∧
      (h.deleteOwn o (.index i)).heap.getOwn? o (.index i) = none ∧
      (∀ p, h.getOwn? o (.index i) = some p → p.configurable = true) ∨
    (h.deleteOwn o (.index i)).succeeded = false ∧ (h.deleteOwn o (.index i)).heap = h ∧
      ∃ p, h.getOwn? o (.index i) = some p ∧ p.configurable = false := by
  rcases h.deleteOwn_cases o (.index i) with ⟨hr, hown⟩ | ⟨f, p, hr, hown, hc⟩ | ⟨p, hr, hown, hc⟩ <;>
    rw [hr]
  · refine .inl ⟨rfl, .refl o _ h, hown, fun p hp => ?_⟩
    rw [hown] at hp
    cases hp
  · exact .inr ⟨rfl, rfl, p, hown, hc⟩
  · obtain ⟨halters, hgone⟩ := altersOnly_remove hkind i
    rw [unmapArgument_of_array (halters.kind.trans hkind)]
    refine .inl ⟨rfl, halters, hgone, fun q hq => ?_⟩
    rw [hown] at hq
    cases hq
    exact hc

end OneProperty

/-! ## 2. Deleting elements from the end -/

/-- The index comes before the one at which a deletion from the end stopped, if it did. -/
def Passed (stop : Option ArrayIndex) (i : ArrayIndex) : Prop := ∀ b, stop = some b → b < i

/-- **Elements are deleted from the end until one cannot be removed**: those before it in this order could be
removed and are gone, and nothing else is different. -/
theorem deleteElements_exact (hkind : (h.object o).kind = .array) {l : List ArrayIndex}
    (hl : l.Pairwise (· > ·)) :
    AltersOnly o (fun k => ∃ i ∈ l, k = .index i ∧ Passed (h.deleteElements o l).2 i) h
      (h.deleteElements o l).1 ∧
    (∀ i ∈ l, Passed (h.deleteElements o l).2 i →
      (h.deleteElements o l).1.getOwn? o (.index i) = none ∧
      ∀ p, h.getOwn? o (.index i) = some p → p.configurable = true) ∧
    ∀ b, (h.deleteElements o l).2 = some b →
      b ∈ l ∧ ∃ p, h.getOwn? o (.index b) = some p ∧ p.configurable = false := by
  induction l generalizing h with
  | nil =>
    refine ⟨.refl o _ h, fun i hi => absurd hi List.not_mem_nil, ?_⟩
    rintro b ⟨⟩
  | cons i l ih =>
    obtain ⟨hhead, htail⟩ := List.pairwise_cons.mp hl
    unfold deleteElements
    dsimp only
    rcases deleteElement_cases hkind i with ⟨hdone, halters, hgone, hc⟩ | ⟨hrefused, hsame, p, hown, hc⟩
    · rw [if_pos hdone]
      obtain ⟨hrest, hpassed, hstop⟩ := ih (halters.kind.trans hkind) htail
      -- the elements that follow are as before, and this one stays away
      have hne : ∀ j ∈ l, Key.index j ≠ .index i := by
        rintro j hj hk
        obtain rfl := Key.index.inj hk
        exact absurd (hhead j hj) (Nat.lt_irrefl _)
      have hown : ∀ j ∈ l, (h.deleteOwn o (.index i)).heap.getOwn? o (.index j) = h.getOwn? o (.index j) :=
        fun j hj => halters.own _ (hne j hj)
      refine ⟨?_, ?_, fun b hb => ?_⟩
      · refine (halters.mono ?_).trans (hrest.mono ?_)
        · rintro k rfl
          exact ⟨i, List.mem_cons_self, rfl, fun b hb => hhead b (hstop b hb).1⟩
        · rintro k ⟨j, hj, hk, hp⟩
          exact ⟨j, List.mem_cons_of_mem _ hj, hk, hp⟩
      · intro j hj hp
        rcases List.mem_cons.mp hj with rfl | hj
        · refine ⟨(hrest.own _ ?_).trans hgone, hc⟩
          rintro ⟨j', hj', hk, _⟩
          exact hne j' hj' hk.symm
        · rw [← hown j hj]
          exact hpassed j hj hp
      · obtain ⟨hmem, p, hp, hc⟩ := hstop b hb
        rw [hown b hmem] at hp
        exact ⟨List.mem_cons_of_mem _ hmem, p, hp, hc⟩
    · rw [if_neg (Bool.eq_false_iff.mp hrefused), hsame]
      refine ⟨.refl o _ h, fun j hj hp => ?_, ?_⟩
      · have hij := hp i rfl
        rcases List.mem_cons.mp hj with rfl | hj
        · exact absurd hij (Nat.lt_irrefl _)
        · exact absurd hij (Nat.lt_asymm (hhead j hj))
      · rintro b ⟨⟩
        exact ⟨List.mem_cons_self, p, hown, hc⟩

/-! ## 3. Describing a length -/

section Length

variable {d : Descriptor} {v : Value} {w : Bool}

/-- A description of the length that is carried out. -/
theorem defineLength_done (hkind : (h.object o).kind = .array)
    (hlength : h.getOwn? o .length = some (.data v w false false)) (hdata : d.isData = true)
    (hfits : d.FitsLength w) (hvalue : w = true ∨ d.value.getD v = v) :
    (h.defineOrdinary o .length d).refusal = none ∧
    AltersOnly o (· = .length) h (h.defineOrdinary o .length d).heap ∧
    (h.defineOrdinary o .length d).heap.getOwn? o .length =
      some (.data (d.value.getD v) (d.writable.getD w) false false) := by
  obtain ⟨q, hq⟩ := (Descriptor.redefine?_length_iff hdata v w).mpr ⟨hfits, hvalue⟩
  have hr := refusal_of_redefine hlength hq
  have halters : AltersOnly o (· = .length) h (h.defineOrdinary o .length d).heap :=
    altersOnly_defineOrdinary hkind (.inr (Option.isSome_iff_exists.mpr ⟨_, hlength⟩)) d
  refine ⟨hr, halters, ?_⟩
  rw [getOwn?_of_array hkind] at hlength
  rw [getOwn?_of_array (halters.kind.trans hkind)]
  exact (lengthIs_defineOrdinary hkind hlength hr).2.1

/-- A description of the length that is refused. -/
theorem defineLength_refused (hlength : h.getOwn? o .length = some (.data v w false false))
    (hdata : d.isData = true) (hnot : ¬ (d.FitsLength w ∧ (w = true ∨ d.value.getD v = v))) :
    h.defineOrdinary o .length d = .refused h (.cannotRedefine Key.length.toText) := by
  have hnone : d.redefine? (.data v w false false) = none := by
    cases hq : d.redefine? (.data v w false false) with
    | none => rfl
    | some q => exact absurd ((Descriptor.redefine?_length_iff hdata v w).mp ⟨q, hq⟩) hnot
  have hholds : ¬ d.holdsOf (.data v w false false) = true := by
    intro hholds
    unfold Descriptor.redefine? at hnone
    rw [if_pos hholds] at hnone
    cases hnone
  unfold defineOrdinary
  rw [hlength]
  dsimp only
  rw [if_neg hholds, hnone]

end Length

/-! ## 4. New lengths -/

/-- The object is an array whose length is above all its indices. -/
structure ArrayOfLength (h : Heap) (o : ObjectId) (n : Nat) (w : Bool) : Prop where
  kind : (h.object o).kind = .array
  inRange : n < 2 ^ 32
  length : h.getOwn? o .length = some (.data (.ofNat n) w false false)
  above : ∀ i : ArrayIndex, (h.getOwn? o (.index i)).isSome → i.val < n

/-- The key is the length or an index from a number on. -/
def LengthOrFrom (n : Nat) (k : Key) : Prop := k = .length ∨ ∃ i : ArrayIndex, k = .index i ∧ n ≤ i.val

/-- The array has got a length, and has lost its elements from there on. Nothing else is different. -/
structure LengthSet (o : ObjectId) (n : Nat) (w : Bool) (h h' : Heap) : Prop extends
    AltersOnly o (LengthOrFrom n) h h' where
  array : h'.ArrayOfLength o n w
  keys : h'.ownKeys o = (h.ownKeys o).filter fun k => k.index?.all (· < n)

theorem ownKeys_of_array (hkind : (h.object o).kind = .array) :
    h.ownKeys o = (h.object o).properties.keys :=
  ownKeys_of_stored fun _ => hkind ▸ Kind.noConfusion

theorem lengthSet_of_altersOnly {n : Nat} {w : Bool} (hkind : (h.object o).kind = .array) (hn : n < 2 ^ 32)
    (halters : AltersOnly o (LengthOrFrom n) h h')
    (hlength : h'.getOwn? o .length = some (.data (.ofNat n) w false false))
    (hgone : ∀ i : ArrayIndex, n ≤ i.val → h'.getOwn? o (.index i) = none) : LengthSet o n w h h' := by
  have hkind' := halters.kind.trans hkind
  have hmem (i : ArrayIndex) : i ∈ (h'.object o).properties.indexKeys ↔
      i ∈ (h.object o).properties.indexKeys.filter fun i => i.val < n := by
    rw [List.mem_filter, PropertyTable.mem_indexKeys, PropertyTable.mem_indexKeys, decide_eq_true_iff,
      ← getOwn?_of_array hkind', ← getOwn?_of_array hkind]
    by_cases hi : n ≤ i.val
    · rw [hgone i hi]
      exact ⟨nofun, fun h => absurd h.2 (Nat.not_lt.mpr hi)⟩
    · rw [halters.own (.index i)]
      · exact ⟨fun h => ⟨h, Nat.lt_of_not_le hi⟩, And.left⟩
      · rintro (hk | ⟨j, hk, hj⟩)
        · cases hk
        · cases hk
          exact hi hj
  refine ⟨halters, ⟨hkind', hn, hlength, fun i hi => Nat.lt_of_not_le fun hni => ?_⟩, ?_⟩
  · rw [hgone i hni] at hi
    cases hi
  · rw [ownKeys_of_array hkind', ownKeys_of_array hkind]
    unfold PropertyTable.keys
    rw [List.filter_append, List.filter_map, List.filter_map, halters.names,
      PropertyTable.eq_of_ascending (h'.object o).properties.pairwise_indexKeys
        ((h.object o).properties.pairwise_indexKeys.filter _) hmem]
    congr 1
    exact congrArg _ (List.filter_eq_self.mpr fun _ _ => rfl).symm

/-- The greatest index from a number on that cannot be removed. -/
def LastFixed (h : Heap) (o : ObjectId) (n : Nat) (b : ArrayIndex) : Prop :=
  n ≤ b.val ∧ (∃ p, h.getOwn? o (.index b) = some p ∧ p.configurable = false) ∧
    ∀ i, b < i → ∀ p, h.getOwn? o (.index i) = some p → p.configurable = true

/-- Every element from a number on can be removed. -/
def Removable (h : Heap) (o : ObjectId) (n : Nat) : Prop :=
  ∀ (i : ArrayIndex) p, n ≤ i.val → h.getOwn? o (.index i) = some p → p.configurable = true

theorem LastFixed.not_removable {n : Nat} {b : ArrayIndex} (hb : h.LastFixed o n b) : ¬ h.Removable o n := by
  intro hfree
  obtain ⟨hnb, ⟨p, hp, hc⟩, _⟩ := hb
  rw [hfree b p hnb hp] at hc
  cases hc

theorem LastFixed.unique {n : Nat} {b b' : ArrayIndex} (hb : h.LastFixed o n b) (hb' : h.LastFixed o n b') :
    b = b' := by
  obtain ⟨_, ⟨p, hp, hc⟩, hlast⟩ := hb
  obtain ⟨_, ⟨p', hp', hc'⟩, hlast'⟩ := hb'
  rcases Nat.lt_trichotomy b.val b'.val with hlt | heq | hlt
  · rw [hlast b' hlt p' hp'] at hc'
    cases hc'
  · exact Fin.ext heq
  · rw [hlast' b hlt p hp] at hc
    cases hc

/-- The elements from a number on, the last one first. -/
def doomed (h : Heap) (o : ObjectId) (n : Nat) : List ArrayIndex :=
  ((h.object o).properties.indexKeys.filter fun i => n ≤ i.val).reverse

/-- **All elements from a number on go**, or those above the last one that cannot be removed. -/
theorem deleteDoomed_cases (hkind : (h.object o).kind = .array) (n : Nat) :
    (h.deleteElements o (h.doomed o n)).2 = none ∧
      h.Removable o n ∧
      AltersOnly o (fun k => ∃ i : ArrayIndex, k = .index i ∧ n ≤ i.val) h
        (h.deleteElements o (h.doomed o n)).1 ∧
      (∀ i : ArrayIndex, n ≤ i.val → (h.deleteElements o (h.doomed o n)).1.getOwn? o (.index i) = none) ∨
    ∃ b, (h.deleteElements o (h.doomed o n)).2 = some b ∧ h.LastFixed o n b ∧
      AltersOnly o (fun k => ∃ i : ArrayIndex, k = .index i ∧ b.val + 1 ≤ i.val) h
        (h.deleteElements o (h.doomed o n)).1 ∧
      ∀ i : ArrayIndex, b.val + 1 ≤ i.val →
        (h.deleteElements o (h.doomed o n)).1.getOwn? o (.index i) = none := by
  obtain ⟨hordered, hmem⟩ := doomed_descending (h.object o).properties n
  have hmem (i : ArrayIndex) : i ∈ h.doomed o n ↔ (h.getOwn? o (.index i)).isSome ∧ n ≤ i.val := by
    rw [getOwn?_of_array hkind]
    exact hmem i
  obtain ⟨halters, hpassed, hstop⟩ := deleteElements_exact hkind hordered
  have hgone (i : ArrayIndex) (hi : n ≤ i.val) (hp : Passed (h.deleteElements o (h.doomed o n)).2 i) :
      (h.deleteElements o (h.doomed o n)).1.getOwn? o (.index i) = none := by
    by_cases hown : (h.getOwn? o (.index i)).isSome = true
    · exact (hpassed i ((hmem i).mpr ⟨hown, hi⟩) hp).1
    · refine (halters.own _ ?_).trans (Option.not_isSome_iff_eq_none.mp hown)
      rintro ⟨j, hj, hk, _⟩
      cases hk
      exact hown ((hmem i).mp hj).1
  have hfree (i : ArrayIndex) (p : Property) (hi : n ≤ i.val)
      (hp : Passed (h.deleteElements o (h.doomed o n)).2 i) (hown : h.getOwn? o (.index i) = some p) :
      p.configurable = true :=
    (hpassed i ((hmem i).mpr ⟨Option.isSome_iff_exists.mpr ⟨p, hown⟩, hi⟩) hp).2 p hown
  cases hdeleted : (h.deleteElements o (h.doomed o n)).2 with
  | none =>
    rw [hdeleted] at hgone hfree
    refine .inl ⟨rfl, fun i p hi => hfree i p hi nofun, halters.mono ?_, fun i hi => hgone i hi nofun⟩
    rintro k ⟨i, hi, hk, _⟩
    exact ⟨i, hk, ((hmem i).mp hi).2⟩
  | some b =>
    rw [hdeleted] at hgone hfree
    obtain ⟨hb, hfixed⟩ := hstop b hdeleted
    have hnb : n ≤ b.val := ((hmem b).mp hb).2
    have hpasses (i : ArrayIndex) (hi : b < i) : Passed (some b) i := by
      rintro _ ⟨⟩
      exact hi
    refine .inr ⟨b, rfl, ⟨hnb, hfixed, fun i hi p => ?_⟩, halters.mono ?_, fun i hi => ?_⟩
    · exact hfree i p (Nat.le_trans hnb (Nat.le_of_lt hi)) (hpasses i hi)
    · rintro k ⟨i, _, hk, hi⟩
      exact ⟨i, hk, hi b hdeleted⟩
    · exact hgone i (Nat.le_trans hnb (Nat.le_of_lt hi)) (hpasses i hi)

/-- **Cutting an array** whose length was just set: it keeps that length if nothing is in the way, and else the
one above the last element that cannot be removed. If the array freezes, its length cannot be written
afterwards. -/
theorem cutElements_exact (hkind : (h.object o).kind = .array) {n : Nat} (hn : n < 2 ^ 32)
    (hlength : h.getOwn? o .length = some (.data (.ofNat n) true false false)) {d : Descriptor}
    (hfits : d.FitsLength true) (hwritable : d.writable ≠ some false) (freezes : Bool) :
    (h.Removable o n →
      (h.cutElements o d n freezes).refusal = none ∧
      LengthSet o n (!freezes) h (h.cutElements o d n freezes).heap) ∧
    ∀ b, h.LastFixed o n b →
      (h.cutElements o d n freezes).refusal = some (.cannotDelete (Text.ofNat b)) ∧
      LengthSet o (b + 1) (!freezes) h (h.cutElements o d n freezes).heap := by
  have hcases := deleteDoomed_cases hkind n
  unfold doomed at hcases
  unfold cutElements
  dsimp only
  generalize h.deleteElements o _ = deleted at hcases ⊢
  obtain ⟨h₁, stop⟩ := deleted
  rcases hcases with ⟨rfl, hfree, halters, hgone⟩ | ⟨b, rfl, hlast, halters, hgone⟩
  · have hlength₁ : h₁.getOwn? o .length = some (.data (.ofNat n) true false false) :=
      (halters.own _ fun ⟨_, hk, _⟩ => Key.length_ne_index _ hk).trans hlength
    have halters₁ : AltersOnly o (LengthOrFrom n) h h₁ := halters.mono fun k hk => .inr hk
    refine ⟨fun _ => ⟨rfl, ?_⟩, fun b hb => absurd hfree hb.not_removable⟩
    cases freezes with
    | false => exact lengthSet_of_altersOnly hkind hn halters₁ hlength₁ hgone
    | true =>
      obtain ⟨-, hfrozen, hlength₂⟩ := defineLength_done (d := { writable := some false })
        (halters.kind.trans hkind) hlength₁ rfl ⟨nofun, nofun, nofun⟩ (.inl rfl)
      refine lengthSet_of_altersOnly hkind hn (halters₁.trans (hfrozen.mono fun k hk => .inl hk)) hlength₂
        fun i hi => ?_
      exact (hfrozen.own _ (Key.length_ne_index i).symm).trans (hgone i hi)
  · have hlength₁ : h₁.getOwn? o .length = some (.data (.ofNat n) true false false) :=
      (halters.own _ fun ⟨_, hk, _⟩ => Key.length_ne_index _ hk).trans hlength
    have halters₁ : AltersOnly o (LengthOrFrom (b + 1)) h h₁ := halters.mono fun k hk => .inr hk
    have hw : (if freezes then some false else d.writable).getD true = !freezes := by
      cases freezes with
      | true => rfl
      | false => exact Descriptor.getD_of_ne_false hwritable
    -- the length follows the element that stays
    obtain ⟨-, hmoved, hlength₂⟩ := defineLength_done
      (d := { d with
        value := some (.ofNat (b + 1))
        writable := if freezes then some false else d.writable })
      (halters.kind.trans hkind) hlength₁ rfl ⟨hfits.1, hfits.2.1, fun _ => rfl⟩ (.inl rfl)
    rw [hw] at hlength₂
    refine ⟨fun hfree => absurd hfree hlast.not_removable, fun b' hb' => ?_⟩
    obtain rfl := hb'.unique hlast
    refine ⟨rfl, lengthSet_of_altersOnly hkind (index_add_one_lt b')
      (halters₁.trans (hmoved.mono fun k hk => .inl hk)) hlength₂ fun i hi => ?_⟩
    exact (hmoved.own _ (Key.length_ne_index i).symm).trans (hgone i hi)

section Set

variable {n n₀ : Nat} {w₀ : Bool}

/-- If nothing from a number on was there, the length that was given is all that is new. -/
theorem ArrayOfLength.lengthSet (ha : h.ArrayOfLength o n₀ w₀) {w : Bool} (hn : n < 2 ^ 32) (hle : n₀ ≤ n)
    (halters : AltersOnly o (· = .length) h h')
    (hlength : h'.getOwn? o .length = some (.data (.ofNat n) w false false)) : LengthSet o n w h h' := by
  refine lengthSet_of_altersOnly ha.kind hn (halters.mono fun k hk => .inl hk) hlength fun i hi => ?_
  rw [halters.own _ (Key.length_ne_index i).symm]
  refine Option.not_isSome_iff_eq_none.mp fun hown => ?_
  exact Nat.not_lt.mpr (Nat.le_trans hle hi) (ha.above i hown)

theorem ArrayOfLength.removable (ha : h.ArrayOfLength o n₀ w₀) (hle : n₀ ≤ n) : h.Removable o n := by
  intro i p hi hown
  have hlt := ha.above i (Option.isSome_iff_exists.mpr ⟨p, hown⟩)
  exact absurd hlt (Nat.not_lt.mpr (Nat.le_trans hle hi))

/-- The value of the length is another one only if the number is. -/
theorem ArrayOfLength.admits_iff (ha : h.ArrayOfLength o n₀ w₀) (hn : n < 2 ^ 32) :
    (w₀ = true ∨ Value.ofNat n = .ofNat n₀) ↔ (w₀ = true ∨ n = n₀) :=
  or_congr_right ⟨Value.eq_of_ofNat_eq hn ha.inRange, congrArg _⟩

/-- A length may be written before the elements go. -/
theorem LengthSet.after {w : Bool} (hkind : (h.object o).kind = .array)
    (halters : AltersOnly o (· = .length) h h') (hs : LengthSet o n w h' h'') : LengthSet o n w h h'' :=
  lengthSet_of_altersOnly hkind hs.array.inRange ((halters.mono fun _ => .inl).trans hs.toAltersOnly)
    hs.array.length fun i hi => Option.not_isSome_iff_eq_none.mp fun hown =>
      Nat.not_lt.mpr hi (hs.array.above i hown)

theorem Removable.after (halters : AltersOnly o (· = .length) h h') (hfree : h.Removable o n) :
    h'.Removable o n := by
  intro i p hi hown
  rw [halters.own _ (Key.length_ne_index i).symm] at hown
  exact hfree i p hi hown

theorem LastFixed.after {b : ArrayIndex} (halters : AltersOnly o (· = .length) h h')
    (hb : h.LastFixed o n b) : h'.LastFixed o n b := by
  obtain ⟨hnb, ⟨p, hp, hc⟩, hlast⟩ := hb
  refine ⟨hnb, ⟨p, (halters.own _ (Key.length_ne_index b).symm).trans hp, hc⟩, fun i hi q hq => ?_⟩
  rw [halters.own _ (Key.length_ne_index i).symm] at hq
  exact hlast i hi q hq

/-- **Shrinking an array**: the length is written first, and then the elements go. -/
theorem shrink_exact (ha : h.ArrayOfLength o n₀ true) (hn : n < 2 ^ 32) {d : Descriptor}
    (hvalue : d.value = some (.ofNat n)) (hwritable : d.writable ≠ some false) {freezes : Bool} {r : Outcome}
    (hr : r = if (h.defineOrdinary o .length d).succeeded then
      (h.defineOrdinary o .length d).heap.cutElements o d n freezes
    else h.defineOrdinary o .length d) :
    (¬ d.FitsLength true → r = .refused h (.cannotRedefine Key.length.toText)) ∧
    (d.FitsLength true →
      (h.Removable o n → r.refusal = none ∧ LengthSet o n (!freezes) h r.heap) ∧
      ∀ b, h.LastFixed o n b →
        r.refusal = some (.cannotDelete (Text.ofNat b)) ∧ LengthSet o (b + 1) (!freezes) h r.heap) := by
  have hdata : d.isData = true := by
    unfold Descriptor.isData
    rw [hvalue]
    rfl
  subst hr
  refine ⟨fun hnot => ?_, fun hfits => ?_⟩
  · rw [defineLength_refused ha.length hdata fun hfits => hnot hfits.1]
    rfl
  · obtain ⟨hdone, halters, hlength⟩ := defineLength_done ha.kind ha.length hdata hfits (.inl rfl)
    rw [hvalue, Descriptor.getD_of_ne_false hwritable] at hlength
    have hsucceeded : (h.defineOrdinary o .length d).succeeded = true := Option.isNone_iff_eq_none.mpr hdone
    rw [if_pos hsucceeded]
    obtain ⟨hfree, hfixed⟩ := cutElements_exact (halters.kind.trans ha.kind) hn hlength hfits hwritable freezes
    refine ⟨fun hall => ?_, fun b hb => ?_⟩
    · obtain ⟨hr, hset⟩ := hfree (hall.after halters)
      exact ⟨hr, hset.after ha.kind halters⟩
    · obtain ⟨hr, hset⟩ := hfixed b (hb.after halters)
      exact ⟨hr, hset.after ha.kind halters⟩

/-- **Setting the length of an array** is refused, and changes nothing, if the description does not fit the
length or another length would be written where none can be. Otherwise the array gets the length, unless an
element cannot be removed; then it gets the one that is just above the last of those. -/
theorem setLength_exact (ha : h.ArrayOfLength o n₀ w₀) (hn : n < 2 ^ 32) (d : Descriptor) :
    (¬ (d.FitsLength w₀ ∧ (w₀ = true ∨ n = n₀)) →
      h.setLength o d n n₀ w₀ = .refused h (.cannotRedefine Key.length.toText)) ∧
    (d.FitsLength w₀ → (w₀ = true ∨ n = n₀) →
      (h.Removable o n → (h.setLength o d n n₀ w₀).refusal = none ∧
        LengthSet o n (d.writable.getD w₀) h (h.setLength o d n n₀ w₀).heap) ∧
      ∀ b, h.LastFixed o n b →
        (h.setLength o d n n₀ w₀).refusal = some (.cannotDelete (Text.ofNat b)) ∧
        LengthSet o (b + 1) (d.writable.getD w₀) h (h.setLength o d n n₀ w₀).heap) := by
  unfold setLength
  dsimp only
  by_cases hle : n₀ ≤ n
  · rw [if_pos hle]
    refine ⟨fun hnot => ?_, fun hfits hvalue => ⟨fun _ => ?_, fun b hb => ?_⟩⟩
    · exact defineLength_refused ha.length rfl fun hfits => hnot ⟨hfits.1, (ha.admits_iff hn).mp hfits.2⟩
    · obtain ⟨hr, halters, hlength⟩ := defineLength_done (d := { d with value := some (.ofNat n) })
        ha.kind ha.length rfl hfits ((ha.admits_iff hn).mpr hvalue)
      exact ⟨hr, ha.lengthSet hn hle halters hlength⟩
    · exact absurd (ha.removable hle) hb.not_removable
  · rw [if_neg hle]
    have hne : n ≠ n₀ := fun h => hle (Nat.le_of_eq h.symm)
    cases w₀ with
    | false =>
      refine ⟨fun _ => rfl, fun _ hvalue => ?_⟩
      rcases hvalue with hw | heq
      · cases hw
      · exact absurd heq hne
    | true =>
      rw [Bool.not_true, if_neg Bool.false_ne_true]
      -- whether the length freezes is decided when the elements are gone
      have hwritable : (if d.writable == some false then some true else d.writable) ≠ some false := by
        split
        · nofun
        · rename_i hnot
          exact fun hw => hnot (beq_iff_eq.mpr hw)
      have hfreezes : (!(d.writable == some false)) = d.writable.getD true := by
        cases d.writable with
        | none => rfl
        | some c => cases c <;> rfl
      obtain ⟨hrefused, hcut⟩ := shrink_exact ha hn (d := { d with
        value := some (.ofNat n)
        writable := if d.writable == some false then some true else d.writable }) rfl hwritable rfl
      rw [hfreezes] at hcut
      refine ⟨fun hnot => hrefused fun hfits => hnot ⟨⟨hfits.1, hfits.2.1, fun _ => rfl⟩, .inl rfl⟩,
        fun hfits _ => hcut ⟨hfits.1, hfits.2.1, fun _ => rfl⟩⟩

/-! ## 5. New elements -/

/-- The element is as it was made, and the array has a length. Nothing else is different. -/
structure ElementSet (o : ObjectId) (i : ArrayIndex) (q : Property) (n : Nat) (w : Bool) (h h' : Heap) :
    Prop extends AltersOnly o (fun k => k = .length ∨ k = .index i) h h' where
  array : h'.ArrayOfLength o n w
  element : h'.getOwn? o (.index i) = some q

/-- What an object admits is what it has afterwards. -/
theorem defineOrdinary_of_admits (hkind : (h.object o).kind = .array) {k : Key} {d : Descriptor}
    {q : Property} (hq : h.Admits o k d q) :
    (h.defineOrdinary o k d).refusal = none ∧
      (h.defineOrdinary o k d).heap.getOwn? o k = some q := by
  have hstored : (h.store o k q).getOwn? o k = some q := by
    have hobject : (h.store o k q).object o = (h.object o).withProperty k q := object_store_self h o k q
    have hkind' : ((h.store o k q).object o).kind = .array := by
      rw [hobject]
      exact hkind
    rw [getOwn?_of_array hkind', hobject, Object.get?_withProperty_self]
  rcases hq with ⟨hown, hextensible, rfl⟩ | ⟨p, hown, hq⟩
  · have hr : h.defineOrdinary o k d = .done (h.store o k d.fresh) := by
      unfold defineOrdinary
      rw [hown]
      exact if_pos hextensible
    rw [hr]
    exact ⟨rfl, hstored⟩
  · have hrefusal := refusal_of_redefine hown hq
    obtain ⟨q', hq', hheap⟩ := redefine_of_refusal hown hrefusal
    rw [hq] at hq'
    cases hq'
    refine ⟨hrefusal, ?_⟩
    rcases hheap with ⟨hsame, rfl⟩ | hheap
    · rw [hsame]
      exact hown
    · rw [hheap]
      exact hstored

/-- **Defining an element of an array** is refused, and changes nothing, if it is at or beyond a length that
cannot be written, or if the array does not admit it. Otherwise the element is what the description makes of
what was there, and the length is above it. -/
theorem defineElement_exact (ha : h.ArrayOfLength o n₀ w₀) (i : ArrayIndex) (d : Descriptor) :
    (n₀ ≤ i.val → w₀ = false → h.defineElement o i d n₀ w₀ = .refused h (.cannotPut (Text.ofNat i))) ∧
    ((i.val < n₀ ∨ w₀ = true) →
      ((∀ q, ¬ h.Admits o (.index i) d q) →
        h.defineElement o i d n₀ w₀ = .refused h (.cannotRedefine (Text.ofNat i))) ∧
      ∀ q, h.Admits o (.index i) d q →
        (h.defineElement o i d n₀ w₀).refusal = none ∧
        ElementSet o i q (max n₀ (i.val + 1)) w₀ h (h.defineElement o i d n₀ w₀).heap) := by
  refine ⟨fun hle hw => ?_, fun hroom => ?_⟩
  · subst hw
    exact if_pos ⟨hle, rfl⟩
  have hmay : ¬ (n₀ ≤ i.val ∧ (!w₀) = true) := by
    rintro ⟨hle, hw⟩
    rcases hroom with hlt | rfl
    · exact Nat.not_lt.mpr hle hlt
    · cases hw
  unfold defineElement
  dsimp only
  rw [if_neg hmay]
  refine ⟨fun hnot => ?_, fun q hq => ?_⟩
  · rcases h.defineOrdinary_cases o (.index i) d with ⟨f, hr⟩ | ⟨_, p, hown, hholds⟩ | ⟨q, _, hq⟩
    · rw [hr]
      rfl
    · exact absurd (.inr ⟨p, hown, if_pos hholds⟩) (hnot p)
    · exact absurd hq (hnot q)
  · obtain ⟨hdone, helement⟩ := defineOrdinary_of_admits ha.kind hq
    have halters : AltersOnly o (· = .index i) h (h.defineOrdinary o (.index i) d).heap :=
      altersOnly_defineOrdinary ha.kind (.inl rfl) d
    have hkind := halters.kind.trans ha.kind
    have hlength : (h.defineOrdinary o (.index i) d).heap.getOwn? o .length =
        some (.data (.ofNat n₀) w₀ false false) :=
      (halters.own _ (Key.length_ne_index i)).trans ha.length
    have hother (j : ArrayIndex)
        (hj : ((h.defineOrdinary o (.index i) d).heap.getOwn? o (.index j)).isSome) :
        j = i ∨ j.val < n₀ := by
      by_cases hij : j = i
      · exact .inl hij
      · rw [halters.own _ fun hk => hij (Key.index.inj hk)] at hj
        exact .inr (ha.above j hj)
    have hsucceeded : (h.defineOrdinary o (.index i) d).succeeded = true :=
      Option.isNone_iff_eq_none.mpr hdone
    rw [hsucceeded, Bool.not_true, if_neg Bool.false_ne_true]
    by_cases hle : n₀ ≤ i.val
    · -- the length follows the index, which it can only if it can be written
      obtain rfl : w₀ = true := hroom.resolve_left (Nat.not_lt.mpr hle)
      rw [if_pos hle, Nat.max_eq_right (Nat.le_succ_of_le hle)]
      obtain ⟨-, hraised, hlength'⟩ := defineLength_done (d := .ofValue (.ofNat (i + 1))) hkind hlength rfl
        ⟨nofun, nofun, nofun⟩ (.inl rfl)
      have hraised_index (j : ArrayIndex) := hraised.own _ (Key.length_ne_index j).symm
      refine ⟨rfl, (halters.mono fun _ => .inr).trans (hraised.mono fun _ => .inl),
        ⟨hraised.kind.trans hkind, index_add_one_lt i, hlength', fun j hj => ?_⟩,
        (hraised_index i).trans helement⟩
      rcases hother j ((hraised_index j).symm ▸ hj) with rfl | hj
      · exact Nat.lt_succ_self _
      · exact Nat.lt_succ_of_lt (Nat.lt_of_lt_of_le hj hle)
    · rw [if_neg hle, Nat.max_eq_left (Nat.lt_of_not_le hle)]
      refine ⟨hdone, halters.mono fun _ => .inr, ⟨hkind, ha.inRange, hlength, fun j hj => ?_⟩, helement⟩
      rcases hother j hj with rfl | hj
      · exact Nat.lt_of_not_le hle
      · exact hj

theorem ArrayOfLength.lengthOf (ha : h.ArrayOfLength o n₀ w₀) : h.lengthOf o = (n₀, w₀) :=
  lengthOf_of_lengthIs ha.inRange ((getOwn?_of_array ha.kind _).symm.trans ha.length)

/-- Either all elements from a number on can be removed, or there is a last one that cannot. -/
theorem ArrayOfLength.removable_of_not_lastFixed (ha : h.ArrayOfLength o n₀ w₀)
    (hnone : ¬ ∃ b, h.LastFixed o n b) : h.Removable o n := by
  rcases deleteDoomed_cases ha.kind n with ⟨_, hfree, _⟩ | ⟨b, _, hb, _⟩
  · exact hfree
  · exact absurd ⟨b, hb⟩ hnone

theorem ArrayOfLength.defining_length (ha : h.ArrayOfLength o n₀ w₀) {d : Descriptor} {v : Value}
    (hv : d.value = some v) :
    h.defining o .length d = h.settingLength o d (primitiveNumber v) := by
  have hlength : lengthValue? (h.object o) .length d = some v := by
    unfold lengthValue? Object.isArray
    rw [ha.kind]
    exact hv
  unfold defining
  rw [hlength]

theorem ArrayOfLength.defining_index (ha : h.ArrayOfLength o n₀ w₀) (i : ArrayIndex) (d : Descriptor) :
    h.defining o (.index i) d = .ok (h.defineElement o i d n₀ w₀) := by
  unfold defining
  rw [lengthValue?_index]
  unfold define
  rw [ha.kind]
  dsimp only
  rw [ha.lengthOf]

end Set

end Heap

/-! ## 6. Runs -/

/-- **Defining the length and the elements of an array**: all the ways in which that can end, whatever elements
the array has, if its length is above them and the new length is given by a primitive value. -/
theorem defineOwn_array_exact {m : Machine} {o : ObjectId} {n₀ : Nat} {w₀ : Bool}
    (ha : m.heap.ArrayOfLength o n₀ w₀) (bodies : Bodies) (throws : Bool) :
    (∀ (d : Descriptor) (v : Value), d.value = some v → v.isObject = false →
      let x := primitiveNumber v
      let n := x.toUint32
      let run := defineOwn o .length d throws bodies m
      ((Double.ofNat n).eq x = false →
        (Fault.invalidArrayLength x.toPlain).kind = .rangeError ∧
        run = .error (.fault (.invalidArrayLength x.toPlain)) m) ∧
      ((Double.ofNat n).eq x = true → ¬ (d.FitsLength w₀ ∧ (w₀ = true ∨ n = n₀)) →
        run = (Heap.Outcome.refused m.heap (.cannotRedefine Key.length.toText)).ended throws m) ∧
      ((Double.ofNat n).eq x = true → d.FitsLength w₀ → (w₀ = true ∨ n = n₀) →
        ((¬ ∃ b, m.heap.LastFixed o n b) → ∃ h', run = (Heap.Outcome.done h').ended throws m ∧
          Heap.LengthSet o n (d.writable.getD w₀) m.heap h') ∧
        ∀ b, m.heap.LastFixed o n b →
          ∃ h', run = (Heap.Outcome.refused h' (.cannotDelete (Text.ofNat b))).ended throws m ∧
            Heap.LengthSet o (b + 1) (d.writable.getD w₀) m.heap h')) ∧
    ∀ (i : ArrayIndex) (d : Descriptor),
      let run := defineOwn o (.index i) d throws bodies m
      (n₀ ≤ i.val → w₀ = false →
        run = (Heap.Outcome.refused m.heap (.cannotPut (Text.ofNat i))).ended throws m) ∧
      ((i.val < n₀ ∨ w₀ = true) →
        ((∀ q, ¬ m.heap.Admits o (.index i) d q) →
          run = (Heap.Outcome.refused m.heap (.cannotRedefine (Text.ofNat i))).ended throws m) ∧
        ∀ q, m.heap.Admits o (.index i) d q →
          ∃ h', run = (Heap.Outcome.done h').ended throws m ∧
            Heap.ElementSet o i q (max n₀ (i.val + 1)) w₀ m.heap h') := by
  constructor
  · intro d v hv hprimitive x n run
    have hrun : run = Heap.endedBy (m.heap.settingLength o d x) throws m := by
      rw [← ha.defining_length hv]
      exact defineOwn_run (Heap.givesPrimitive_of_value hv hprimitive) throws
    unfold Heap.settingLength at hrun
    rw [ha.lengthOf] at hrun
    obtain ⟨hillegal, hlegal⟩ := Heap.setLength_exact ha x.toUint32_lt d
    refine ⟨fun hinvalid => ⟨rfl, ?_⟩, fun hvalid hnot => ?_, fun hvalid hfits hvalue => ?_⟩
    · rw [hrun, if_neg (Bool.eq_false_iff.mp hinvalid)]
      rfl
    · rw [hrun, if_pos hvalid]
      exact congrArg (fun r => Heap.Outcome.ended r throws m) (hillegal hnot)
    · rw [if_pos hvalid] at hrun
      obtain ⟨hfree, hfixed⟩ := hlegal hfits hvalue
      refine ⟨fun hnone => ?_, fun b hb => ?_⟩
      · obtain ⟨hr, hset⟩ := hfree (ha.removable_of_not_lastFixed hnone)
        refine ⟨_, ?_, hset⟩
        rw [← Heap.Outcome.eq_done hr]
        exact hrun
      · obtain ⟨hr, hset⟩ := hfixed b hb
        refine ⟨_, ?_, hset⟩
        rw [← Heap.Outcome.eq_refused hr]
        exact hrun
  · intro i d run
    have hrun : run = Heap.endedBy (.ok (m.heap.defineElement o i d n₀ w₀)) throws m := by
      rw [← ha.defining_index i d]
      exact defineOwn_run (Heap.givesPrimitive_index i d) throws
    unfold Heap.endedBy at hrun
    obtain ⟨hfull, hroom⟩ := Heap.defineElement_exact ha i d
    refine ⟨fun hle hw => ?_, fun hmay => ⟨fun hnot => ?_, fun q hq => ?_⟩⟩
    · rw [hrun, hfull hle hw]
    · rw [hrun, (hroom hmay).1 hnot]
    · obtain ⟨hr, hset⟩ := (hroom hmay).2 q hq
      refine ⟨_, ?_, hset⟩
      rw [← Heap.Outcome.eq_done hr]
      exact hrun

/-- An array of length 5 with three elements, of which the one at 2 cannot be removed. -/
def sparseArray : Object :=
  let element (i : Nat) (hi : i < indexLimit) (c : Bool) (x : Object) : Object :=
    x.withProperty (.index ⟨i, hi⟩) (.data (.ofNat i) true true c)
  element 0 (by decide) true (element 2 (by decide) false (element 4 (by decide) true
    ((Object.ofKind "Array" none .array).withProperty .length (.data (.ofNat 5) true false false))))

/-- A machine with that array as its only object. -/
def sparseMachine : Machine := { Machine.start {} with heap := (Heap.empty.add sparseArray).1 }

theorem object_sparseMachine : sparseMachine.heap.object Heap.empty.nextObject = sparseArray :=
  (Heap.object_add _ _ _).trans (if_pos rfl)

theorem getOwn?_sparseMachine (k : Key) :
    sparseMachine.heap.getOwn? Heap.empty.nextObject k = sparseArray.properties.get? k := by
  have hkind : (sparseMachine.heap.object Heap.empty.nextObject).kind = .array := by
    rw [object_sparseMachine]
    rfl
  rw [Heap.getOwn?_of_array hkind, object_sparseMachine]

theorem index_of_sparseArray {i : ArrayIndex} {p : Property}
    (hp : sparseArray.properties.get? (.index i) = some p) :
    i.val < 5 ∧ (2 < i.val → p.configurable = true) := by
  unfold sparseArray at hp
  simp only [Object.withProperty, PropertyTable.get?_insert, Key.index.injEq, Key.length_ne_index i,
    if_false] at hp
  split at hp
  · rename_i h
    subst h
    cases hp
    decide
  split at hp
  · rename_i h
    subst h
    cases hp
    decide
  split at hp
  · rename_i h
    subst h
    cases hp
    decide
  · rw [Object.ofKind, PropertyTable.get?_empty] at hp
    cases hp

theorem arrayOfLength_sparseMachine : sparseMachine.heap.ArrayOfLength Heap.empty.nextObject 5 true := by
  refine ⟨?_, by decide, ?_, fun i hi => ?_⟩
  · rw [object_sparseMachine]
    rfl
  · rw [getOwn?_sparseMachine]
    decide +kernel
  · obtain ⟨p, hp⟩ := Option.isSome_iff_exists.mp hi
    rw [getOwn?_sparseMachine] at hp
    exact (index_of_sparseArray hp).1

theorem lastFixed_sparseMachine :
    sparseMachine.heap.LastFixed Heap.empty.nextObject 1 ⟨2, by decide⟩ := by
  refine ⟨by decide, ⟨.data (.ofNat 2) true true false, ?_, rfl⟩, fun i hi p hp => ?_⟩
  · rw [getOwn?_sparseMachine]
    decide +kernel
  · rw [getOwn?_sparseMachine] at hp
    exact (index_of_sparseArray hp).2 hi

/-- Given the length 1, and frozen by that, the array keeps what comes before the index 3. -/
theorem defineOwn_array_exact_sparse :
    ∃ h', defineOwn Heap.empty.nextObject .length { value := some (.ofNat 1), writable := some false } false
        (bodiesAt 0) sparseMachine = .ok false { sparseMachine with heap := h' } ∧
      Heap.LengthSet Heap.empty.nextObject 3 false sparseMachine.heap h' := by
  have hone : (primitiveNumber (.ofNat 1)).toUint32 = 1 := by decide +kernel
  obtain ⟨-, -, hvalid⟩ := (defineOwn_array_exact arrayOfLength_sparseMachine (bodiesAt 0) false).1
    { value := some (.ofNat 1), writable := some false } _ rfl rfl
  rw [hone] at hvalid
  obtain ⟨-, hfixed⟩ := hvalid (by decide +kernel) ⟨nofun, nofun, nofun⟩ (.inl rfl)
  exact hfixed _ lastFixed_sparseMachine

end Ecma51
