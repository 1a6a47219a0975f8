import Ecma51.Proofs.Frozen
import Ecma51.Proofs.SharedArguments
import Ecma51.Proofs.SoundArrays
import Ecma51.Proofs.Truncation

/-!
# Sealing and freezing

Sealing and freezing go through the own properties one after the other. There is one thing that can stop them: an
element of an array at or beyond a length that cannot be written, which no sound array has. If nothing does, the
object is found to be sealed or frozen afterwards.

* `Heap.Barred`: an element that cannot be defined.
* **`Heap.restrictKeys_exact`**: going through keys succeeds unless an element is barred.
* **`restrict_exact`**: what sealing and freezing do, and what becomes of a frozen object.
-/

namespace Ecma51

namespace Heap

variable {h h' : Heap} {o : ObjectId} {k : Key} {p : Property} {freeze : Bool}

/-! ## 1. One property -/

/-- A property admits to be sealed or frozen, whatever it is. -/
theorem redefine?_restriction_eq (freeze : Bool) (p : Property) :
    ∃ q, (restriction freeze p).redefine? p = some q ∧ isFixed freeze q = true := by
  refine ⟨(restriction freeze p).update p, ?_⟩
  cases p with
  | data v w e c => cases freeze <;> cases w <;> cases c <;> exact ⟨rfl, rfl⟩
  | accessor g s e c => cases freeze <;> cases c <;> exact ⟨rfl, rfl⟩

/-- **An ordinary property is sealed or frozen**, and no other is concerned. -/
theorem defineOrdinary_restriction (freeze : Bool) (hp : h.getOwn? o k = some p) :
    (h.defineOrdinary o k (restriction freeze p)).refusal = none ∧
    (∃ q, ((h.defineOrdinary o k (restriction freeze p)).heap.object o).own? k = some q ∧
      isFixed freeze q = true) ∧
    ∀ j, j ≠ k → ((h.defineOrdinary o k (restriction freeze p)).heap.object o).own? j =
      (h.object o).own? j := by
  obtain ⟨q, hq, hfixed⟩ := redefine?_restriction_eq freeze p
  have hr := refusal_of_redefine hp hq
  obtain ⟨q', hq', hheap⟩ := redefine_of_refusal hp hr
  cases hq.symm.trans hq'
  refine ⟨hr, ?_, fun j hj => ?_⟩
  · rcases hheap with ⟨hsame, rfl⟩ | hstored
    · rw [hsame]
      obtain ⟨p', hown, rfl⟩ := exists_own_of_getOwn hp
      exact ⟨p', hown, (isFixed_showing freeze p' _).symm.trans hfixed⟩
    · rw [hstored, object_store_self, Object.own?_withProperty, if_pos rfl]
      exact ⟨q, rfl, hfixed⟩
  · rcases hheap with ⟨hsame, rfl⟩ | hstored
    · rw [hsame]
    · rw [hstored, object_store_self, Object.own?_withProperty, if_neg hj.symm]

/-- The element of an array is at or beyond a length that cannot be written. -/
structure Barred (h : Heap) (o : ObjectId) (i : ArrayIndex) : Prop where
  kind : (h.object o).kind = .array
  own : ((h.object o).own? (.index i)).isSome
  length : ∃ n, (h.object o).LengthIs n false ∧ n ≤ i.val

/-- A property was sealed or frozen; there are no others than before. -/
structure Restricts (o : ObjectId) (k : Key) (freeze : Bool) (h h' : Heap) : Prop where
  fixed : ∃ q, (h'.object o).own? k = some q ∧ isFixed freeze q = true
  same : ∀ j, ((h'.object o).own? j).isSome = ((h.object o).own? j).isSome
  barred : k.index?.isSome → ∀ i, h'.Barred o i ↔ h.Barred o i

/-- An array has the properties of its table only. -/
theorem own?_of_array (hkind : (h.object o).kind = .array) (k : Key) :
    (h.object o).own? k = (h.object o).properties.get? k :=
  own?_of_stored (fun _ => hkind ▸ Kind.noConfusion) k

theorem isSome_own?_eq (hown : (h.object o).own? k = some p)
    (hfixed : ∃ q, (h'.object o).own? k = some q ∧ isFixed freeze q = true)
    (hother : ∀ j, j ≠ k → (h'.object o).own? j = (h.object o).own? j) (j : Key) :
    ((h'.object o).own? j).isSome = ((h.object o).own? j).isSome := by
  by_cases hj : j = k
  · subst hj
    obtain ⟨q, hq, _⟩ := hfixed
    rw [hown, hq]
    rfl
  · rw [hother j hj]

/-- A length that cannot be written bars the same elements as long as the same ones are there. -/
theorem Barred.of_same {n n' : Nat} {w : Bool} {i : ArrayIndex} (hb : h.Barred o i)
    (hkind' : (h'.object o).kind = .array)
    (hsame : ((h'.object o).own? (.index i)).isSome = ((h.object o).own? (.index i)).isSome)
    (hlength : (h.object o).LengthIs n w) (hlength' : (h'.object o).LengthIs n' w)
    (hn : w = false → n' = n) : h'.Barred o i := by
  obtain ⟨_, hown, m, hm, hle⟩ := hb
  obtain ⟨hvalue, rfl, -, -⟩ := Property.data.inj (Option.some.inj (hm.symm.trans hlength))
  refine ⟨hkind', hsame.trans hown, m, ?_, hle⟩
  obtain rfl := hn rfl
  unfold Object.LengthIs at hlength' ⊢
  rw [hlength', hvalue]

/-- The same elements are barred if the length is the same, or can be written before and after. -/
theorem barred_iff {n n' : Nat} {w : Bool} (hkind : (h.object o).kind = .array)
    (hkind' : (h'.object o).kind = .array)
    (hsame : ∀ j, ((h'.object o).own? j).isSome = ((h.object o).own? j).isSome)
    (hlength : (h.object o).LengthIs n w) (hlength' : (h'.object o).LengthIs n' w)
    (hn : w = false → n' = n) (i : ArrayIndex) : h'.Barred o i ↔ h.Barred o i :=
  ⟨fun hb => hb.of_same hkind (hsame _).symm hlength' hlength fun hw => (hn hw).symm,
    fun hb => hb.of_same hkind' (hsame _) hlength hlength' hn⟩

/-- A length that can be written may follow the element. -/
theorem Restricts.raise {i : ArrayIndex} {n : Nat} (hr : Restricts o (.index i) freeze h h')
    (hkind : (h.object o).kind = .array) (hkind' : (h'.object o).kind = .array)
    (hlength : (h.object o).LengthIs n true) (hlength' : (h'.object o).LengthIs n true) :
    Restricts o (.index i) freeze h (h'.defineOrdinary o .length (.ofValue (.ofNat (i + 1)))).heap := by
  obtain ⟨-, hraised, hlength₂⟩ := defineLength_done (d := .ofValue (.ofNat (i + 1))) hkind'
    ((getOwn?_of_array hkind' _).trans hlength') rfl ⟨nofun, nofun, nofun⟩ (.inl rfl)
  generalize (h'.defineOrdinary o .length (.ofValue (.ofNat (i + 1)))).heap = h₂ at hraised hlength₂
  have hkind₂ := hraised.kind.trans hkind'
  have hother (j : Key) (hj : j ≠ .length) : (h₂.object o).own? j = (h'.object o).own? j := by
    rw [own?_of_array hkind₂, own?_of_array hkind', ← getOwn?_of_array hkind₂, ← getOwn?_of_array hkind']
    exact hraised.own j hj
  rw [getOwn?_of_array hkind₂] at hlength₂
  have hsame (j : Key) : ((h₂.object o).own? j).isSome = ((h.object o).own? j).isSome := by
    rw [← hr.same j]
    by_cases hj : j = .length
    · subst hj
      rw [own?_of_array hkind₂, hlength₂, own?_of_array hkind', hlength']
      rfl
    · rw [hother j hj]
  obtain ⟨q, hq, hfixed⟩ := hr.fixed
  exact ⟨⟨q, (hother _ (Key.length_ne_index i).symm).trans hq, hfixed⟩, hsame, fun _ =>
    barred_iff hkind hkind₂ hsame hlength hlength₂ Bool.noConfusion⟩

/-- **An element of an array is sealed or frozen** unless it is barred. -/
theorem define_restriction_element (freeze : Bool) (hkind : (h.object o).kind = .array) (hx : (h.object o).HasLength)
    {i : ArrayIndex} (hp : h.getOwn? o (.index i) = some p) :
    h.Barred o i ∧
        h.define o (.index i) (restriction freeze p) = .refused h (.cannotPut (Text.ofNat i)) ∨
      ¬ h.Barred o i ∧ (h.define o (.index i) (restriction freeze p)).refusal = none ∧
        Restricts o (.index i) freeze h (h.define o (.index i) (restriction freeze p)).heap := by
  obtain ⟨n, w, hn, hlength⟩ := hx
  have hdefine : h.define o (.index i) (restriction freeze p) =
      h.defineElement o i (restriction freeze p) n w := by
    unfold define
    rw [hkind]
    dsimp only
    rw [lengthOf_of_lengthIs hn hlength]
  obtain ⟨hr, hfixed, hother⟩ := defineOrdinary_restriction freeze hp
  obtain ⟨p', hown, -⟩ := exists_own_of_getOwn hp
  rw [hdefine]
  unfold defineElement
  dsimp only
  by_cases hfull : n ≤ i.val ∧ (!w) = true
  · rw [if_pos hfull]
    obtain ⟨hle, hw⟩ := hfull
    rw [Bool.not_eq_true'] at hw
    subst hw
    exact .inl ⟨⟨hkind, by rw [hown]; rfl, n, hlength, hle⟩, rfl⟩
  · have hfree : ¬ h.Barred o i := by
      rintro ⟨_, _, m, hm, hle⟩
      obtain ⟨hvalue, rfl, -, -⟩ := Property.data.inj (Option.some.inj (hm.symm.trans hlength))
      have hm : m < 2 ^ 32 := Nat.lt_of_le_of_lt hle (Nat.lt_of_succ_lt (index_add_one_lt i))
      rw [Value.eq_of_ofNat_eq hm hn hvalue] at hle
      exact hfull ⟨hle, rfl⟩
    have hkind' := kind_defineOrdinary hkind (.index i) (restriction freeze p)
    have hlength' : ((h.defineOrdinary o (.index i) (restriction freeze p)).heap.object o).LengthIs n w :=
      (get?_defineOrdinary_of_ne (Key.length_ne_index i).symm _).trans hlength
    have hsame := isSome_own?_eq hown hfixed hother
    have hrestricts : Restricts o (.index i) freeze h
        (h.defineOrdinary o (.index i) (restriction freeze p)).heap :=
      ⟨hfixed, hsame, fun _ => barred_iff hkind hkind' hsame hlength hlength' fun _ => rfl⟩
    have hsucceeded : (h.defineOrdinary o (.index i) (restriction freeze p)).succeeded = true :=
      Option.isNone_iff_eq_none.mpr hr
    rw [if_neg hfull, hsucceeded, Bool.not_true, if_neg Bool.false_ne_true]
    refine .inr ⟨hfree, ?_⟩
    by_cases hle : n ≤ i.val
    · obtain rfl : w = true := by
        cases w with
        | true => rfl
        | false => exact absurd ⟨hle, rfl⟩ hfull
      rw [if_pos hle]
      exact ⟨rfl, hrestricts.raise hkind hkind' hlength hlength'⟩
    · rw [if_neg hle]
      exact ⟨hr, hrestricts⟩

/-- **A property of any other object, or under a name, is sealed or frozen.** -/
theorem define_restriction_other (hother : (h.object o).kind = .array → k.index? = none)
    (hp : h.getOwn? o k = some p) :
    (h.define o k (restriction freeze p)).refusal = none ∧
      Restricts o k freeze h (h.define o k (restriction freeze p)).heap := by
  obtain ⟨hr, hfixed, hne⟩ := defineOrdinary_restriction freeze hp
  obtain ⟨p', hown, -⟩ := exists_own_of_getOwn hp
  have hdone : (h.define o k (restriction freeze p)).refusal = none ∧
      ((h.define o k (restriction freeze p)).heap.object o).own? =
        ((h.defineOrdinary o k (restriction freeze p)).heap.object o).own? := by
    unfold define
    split
    · rename_i hkind
      exact absurd (hother hkind) nofun
    · refine ⟨(refusal_defineArguments h o _ _).trans hr, ?_⟩
      rcases (h.defineArguments_cases o _ (restriction freeze p)).2 with hobject | ⟨hobject, _⟩
      · rw [hobject, Object.own?_unmapped]
      · rw [hobject]
    · exact ⟨hr, rfl⟩
  obtain ⟨hrefusal, hsame⟩ := hdone
  rw [← hsame] at hfixed hne
  refine ⟨hrefusal, hfixed, isSome_own?_eq hown hfixed hne, fun hk i => ?_⟩
  -- no element is barred in what is no array
  have hkind : (h.object o).kind ≠ .array := by
    intro hkind
    rw [hother hkind] at hk
    cases hk
  have halike := (amends_define h o k (restriction freeze p)).alike
  exact iff_of_false (fun hb => hkind (halike.array.mp hb.kind)) fun hb => hkind hb.kind

/-- **A property is sealed or frozen** unless it is an element that is barred. -/
theorem define_restriction (freeze : Bool) (he : Evolves 0 [] Heap.empty h) (hp : h.getOwn? o k = some p) :
    (∃ i, k = .index i ∧ h.Barred o i ∧
        h.define o k (restriction freeze p) = .refused h (.cannotPut (Text.ofNat i))) ∨
      (∀ i, k = .index i → ¬ h.Barred o i) ∧ (h.define o k (restriction freeze p)).refusal = none ∧
        Restricts o k freeze h (h.define o k (restriction freeze p)).heap := by
  by_cases hkind : (h.object o).kind = .array
  · have hx := he.hasLength (fun hempty => absurd hempty (kind_empty o)) hkind
    cases k with
    | index i =>
      rcases define_restriction_element freeze hkind hx hp with ⟨hb, hr⟩ | ⟨hb, hr⟩
      · exact .inl ⟨i, rfl, hb, hr⟩
      · refine .inr ⟨?_, hr⟩
        rintro _ ⟨⟩
        exact hb
    | name t => exact .inr ⟨nofun, define_restriction_other (fun _ => rfl) hp⟩
  · exact .inr ⟨fun i _ hb => hkind hb.kind, define_restriction_other (fun ha => absurd ha hkind) hp⟩

/-! ## 2. All properties -/

theorem amends_restrictKeys (h : Heap) (o : ObjectId) (freeze : Bool) (keys : List Key) :
    Amends o h (h.restrictKeys o freeze keys).heap := by
  induction keys generalizing h with
  | nil => exact .refl
  | cons k keys ih =>
    unfold restrictKeys
    split
    · exact ih h
    · dsimp only
      split
      · exact (amends_define h o k _).trans (ih _)
      · exact amends_define h o k _

theorem isFixed_of_keeps {p q : Property} (hkeeps : p.Keeps q) (hp : isFixed freeze p = true) :
    isFixed freeze q = true := by
  cases hkeeps with
  | accessor g s e => exact hp
  | @data v v' w w' e hw =>
    cases freeze with
    | false => rfl
    | true =>
      cases w with
      | true => cases hp
      | false =>
        obtain ⟨rfl, -⟩ := hw rfl
        rfl

theorem configurable_of_isFixed (hp : isFixed freeze p = true) : p.configurable = false := by
  cases p with
  | data v w e c =>
    have hp : (!c && !(freeze && w)) = true := hp
    rw [Bool.and_eq_true, Bool.not_eq_true'] at hp
    exact hp.1
  | accessor g s e c =>
    have hp : (!c) = true := hp
    exact (Bool.not_eq_true' c).mp hp

/-- What is sealed or frozen stays so while there are more definitions. -/
theorem Amends.fixed (ha : Amends o h h') (hl : (h.object o).Linked)
    (hfixed : ∃ q, (h.object o).own? k = some q ∧ isFixed freeze q = true) :
    ∃ q, (h'.object o).own? k = some q ∧ isFixed freeze q = true := by
  obtain ⟨q, hq, hfixed⟩ := hfixed
  obtain ⟨q', hq', hkeeps⟩ := (ha.upholds hl).2.permanent k q hq (configurable_of_isFixed hfixed)
  exact ⟨q', hq', isFixed_of_keeps hkeeps hfixed⟩

/-- Indices come before names. -/
def IndicesFirst (keys : List Key) : Prop :=
  keys.Pairwise fun k j => j.index?.isSome → k.index?.isSome

/-- All properties with these keys were sealed or frozen; there are no others than before. -/
structure RestrictsAll (o : ObjectId) (keys : List Key) (freeze : Bool) (h h' : Heap) : Prop where
  fixed : ∀ k ∈ keys, ((h.object o).own? k).isSome → ∃ q, (h'.object o).own? k = some q ∧ isFixed freeze q = true
  same : ∀ j, ((h'.object o).own? j).isSome = ((h.object o).own? j).isSome

/-- A key without a property needs nothing. -/
theorem RestrictsAll.skip {keys : List Key} (hown : (h.object o).own? k = none)
    (hall : RestrictsAll o keys freeze h h') : RestrictsAll o (k :: keys) freeze h h' := by
  refine ⟨fun j hj hs => ?_, hall.same⟩
  rcases List.mem_cons.mp hj with rfl | hj
  · rw [hown] at hs
    cases hs
  · exact hall.fixed j hj hs

/-- First one property, then all others. -/
theorem Restricts.cons {h₁ : Heap} {keys : List Key} (hstep : Restricts o k freeze h h₁)
    (hl : (h₁.object o).Linked) (ha : Amends o h₁ h') (hall : RestrictsAll o keys freeze h₁ h') :
    RestrictsAll o (k :: keys) freeze h h' := by
  refine ⟨fun j hj hs => ?_, fun j => (hall.same j).trans (hstep.same j)⟩
  rcases List.mem_cons.mp hj with rfl | hj
  · exact ha.fixed hl hstep.fixed
  · exact hall.fixed j hj ((hstep.same j).trans hs)

/-- What is barred is so before and after; if it was a name, only names are left. -/
theorem Restricts.barred_iff {h₁ : Heap} {keys : List Key} (hstep : Restricts o k freeze h h₁)
    (hkind : (h₁.object o).kind = .array → (h.object o).kind = .array)
    (hkeys : (h.object o).kind = .array → IndicesFirst (k :: keys)) {i : ArrayIndex}
    (hi : .index i ∈ keys) : h₁.Barred o i ↔ h.Barred o i := by
  by_cases hk : k.index?.isSome
  · exact hstep.barred hk i
  · have hnot (ha : (h.object o).kind = .array) : False :=
      hk ((List.pairwise_cons.mp (hkeys ha)).1 _ hi rfl)
    exact iff_of_false (fun hb => hnot (hkind hb.kind)) fun hb => hnot hb.kind

/-- **Going through keys** seals or freezes all properties, or stops at an element that is barred, if there is
one. -/
theorem restrictKeys_exact (freeze : Bool) (he : Evolves 0 [] Heap.empty h) {keys : List Key}
    (hkeys : (h.object o).kind = .array → IndicesFirst keys) :
    (∀ i, .index i ∈ keys → ¬ h.Barred o i) ∧ (h.restrictKeys o freeze keys).refusal = none ∧
        RestrictsAll o keys freeze h (h.restrictKeys o freeze keys).heap ∨
      ∃ i, .index i ∈ keys ∧ h.Barred o i ∧
        (h.restrictKeys o freeze keys).refusal = some (.cannotPut (Text.ofNat i.val)) := by
  induction keys generalizing h with
  | nil => exact .inl ⟨nofun, rfl, nofun, fun _ => rfl⟩
  | cons k keys ih =>
    have htail (hkind : (h.object o).kind = .array) : IndicesFirst keys :=
      (List.pairwise_cons.mp (hkeys hkind)).2
    unfold restrictKeys
    cases hp : h.getOwn? o k with
    | none =>
      have hown := own_of_getOwn_none hp
      rcases ih he htail with ⟨hfree, hr, hall⟩ | ⟨i, hi, hstop⟩
      · refine .inl ⟨fun i hi hb => ?_, hr, hall.skip hown⟩
        rcases List.mem_cons.mp hi with rfl | hi
        · have hown' := hb.own
          rw [hown] at hown'
          cases hown'
        · exact hfree i hi hb
      · exact .inr ⟨i, List.mem_cons_of_mem _ hi, hstop⟩
    | some p =>
      dsimp only
      rcases define_restriction freeze he hp with ⟨i, rfl, hb, hr⟩ | ⟨hfree, hr, hstep⟩
      · rw [hr]
        exact .inr ⟨i, List.mem_cons_self, hb, rfl⟩
      · have hsucceeded : (h.define o k (restriction freeze p)).succeeded = true :=
          Option.isNone_iff_eq_none.mpr hr
        rw [if_pos hsucceeded]
        have hamends := amends_define h o k (restriction freeze p)
        have he' := he.trans (.single (.define o k _ (lengthValue?_restriction _ k freeze p)))
        generalize (h.define o k (restriction freeze p)).heap = h₁ at hstep hamends he'
        have hkind (hkind₁ : (h₁.object o).kind = .array) : (h.object o).kind = .array :=
          hamends.alike.array.mp hkind₁
        rcases ih he' (fun hkind₁ => htail (hkind hkind₁)) with ⟨hfree', hr', hall⟩ | ⟨i, hi, hb, hstop⟩
        · refine .inl ⟨fun i hi => ?_, hr', ?_⟩
          · rcases List.mem_cons.mp hi with hi | hi
            · exact hfree i hi.symm
            · exact fun hb => hfree' i hi ((hstep.barred_iff hkind hkeys hi).mpr hb)
          · exact hstep.cons (he'.linked_of_empty o) (amends_restrictKeys h₁ o freeze keys) hall
        · exact .inr ⟨i, List.mem_cons_of_mem _ hi, (hstep.barred_iff hkind hkeys hi).mp hb, hstop⟩

theorem indicesFirst_ownKeys (hkind : (h.object o).kind = .array) : IndicesFirst (h.ownKeys o) := by
  rw [ownKeys_of_array hkind]
  refine List.pairwise_append.mpr ⟨?_, ?_, fun k hk j _ _ => ?_⟩
  · refine List.pairwise_map.mpr (List.pairwise_of_forall fun _ _ _ => rfl)
  · exact List.pairwise_map.mpr (List.pairwise_of_forall fun _ _ h => h)
  · obtain ⟨i, _, rfl⟩ := List.mem_map.mp hk
    rfl

/-- **Sealing or freezing an object** succeeds and leaves it sealed or frozen, unless an element is barred; then it
fails because of such an element. -/
theorem restrict_cases (he : Evolves 0 [] Heap.empty h) (o : ObjectId) (freeze : Bool) :
    (∀ i, ¬ h.Barred o i) ∧ (h.restrict o freeze).refusal = none ∧
        ((h.restrict o freeze).heap.object o).Restricted freeze ∨
      ∃ i, h.Barred o i ∧ (h.restrict o freeze).refusal = some (.cannotPut (Text.ofNat i.val)) := by
  unfold restrict
  dsimp only
  rcases restrictKeys_exact freeze he (indicesFirst_ownKeys (o := o)) with
    ⟨hfree, hr, hall⟩ | ⟨i, _, hb, hr⟩
  · have hsucceeded : (h.restrictKeys o freeze (h.ownKeys o)).succeeded = true :=
      Option.isNone_iff_eq_none.mpr hr
    rw [if_pos hsucceeded]
    refine .inl ⟨fun i hb => ?_, rfl, ?_⟩
    · obtain ⟨p, hp⟩ := Option.isSome_iff_exists.mp hb.own
      exact hfree i (mem_ownKeys_of_own hp) hb
    · show (((h.restrictKeys o freeze (h.ownKeys o)).heap.preventExtensions o).object o).Restricted freeze
      unfold preventExtensions
      rw [object_modify_self]
      refine ⟨rfl, fun k p (hp : ((h.restrictKeys o freeze (h.ownKeys o)).heap.object o).own? k = some p) => ?_⟩
      have hown : ((h.object o).own? k).isSome := by
        rw [← hall.same k, hp]
        rfl
      obtain ⟨q, hq⟩ := Option.isSome_iff_exists.mp hown
      obtain ⟨p', hp', hfixed⟩ := hall.fixed k (mem_ownKeys_of_own hq) hown
      cases hp.symm.trans hp'
      exact hfixed
  · right
    refine ⟨i, hb, ?_⟩
    have hrefused : ¬ (h.restrictKeys o freeze (h.ownKeys o)).succeeded = true := by
      unfold Outcome.succeeded
      rw [hr]
      exact Bool.false_ne_true
    rw [if_neg hrefused]
    exact hr

/-- No element of a sound array is barred. -/
theorem Barred.not_sound {i : ArrayIndex} (hb : h.Barred o i) : ¬ h.SoundArray o := by
  rintro ⟨hkind, n, w, hn, hlength, hbelow⟩
  obtain ⟨_, hown, n', hlength', hle⟩ := hb
  rw [getOwn?_of_array hkind] at hlength
  have hn' : n' < 2 ^ 32 := Nat.lt_of_le_of_lt hle (Nat.lt_of_succ_lt (index_add_one_lt i))
  obtain rfl := Object.LengthIs.unique hlength hlength' hn hn'
  rw [own?_of_array hkind, ← getOwn?_of_array hkind] at hown
  exact Nat.not_lt.mpr hle (hbelow i hown)

theorem nextObject_restrict (h : Heap) (o : ObjectId) (freeze : Bool) :
    (h.restrict o freeze).heap.nextObject = h.nextObject := by
  have hkeys := (amends_restrictKeys h o freeze (h.ownKeys o)).touches.nextObject
  unfold restrict
  dsimp only
  split
  · exact hkeys
  · exact hkeys

end Heap

/-! ## 3. Runs -/

section Runs

variable {bodies : Bodies} {m : Machine}

/-- Sealing or freezing an object ends as its outcome says. -/
theorem restrict_run (o : ObjectId) (freeze : Bool) (this : Value) :
    objectFunction (if freeze then .freeze else .seal) this [.object o] bodies m =
      match (m.heap.restrict o freeze).refusal with
      | none => .ok (.object o) { m with heap := (m.heap.restrict o freeze).heap }
      | some f => .error (.fault f) { m with heap := (m.heap.restrict o freeze).heap } := by
  have hact : objectFunction (if freeze then .freeze else .seal) this [.object o] =
      restrictOwn o freeze >>= fun _ => pure (.object o) := by
    cases freeze <;> rfl
  have hsettle : restrictOwn o freeze bodies m = (m.heap.restrict o freeze).ended true m :=
    settle_run true _
  unfold Heap.Outcome.ended at hsettle
  rw [hact]
  cases hr : (m.heap.restrict o freeze).refusal with
  | none =>
    rw [hr] at hsettle
    exact bind_run_ok hsettle _
  | some f =>
    rw [hr] at hsettle
    exact bind_run_error hsettle _

theorem isRestricted_run (o : ObjectId) (freeze : Bool) (this : Value) :
    objectFunction (if freeze then .isFrozen else .isSealed) this [.object o] bodies m =
      .ok (.boolean (m.heap.isRestricted o freeze)) m := by
  cases freeze <;> rfl

/-- **Sealing and freezing.** Sealing or freezing an object of whatever kind succeeds, unless an element of an array
is at or beyond a length that cannot be written, which can only be in an array that has lapsed; then it fails. If it
succeeds, the object is found to be sealed or frozen; and whatever is tried after it was frozen, its own keys and
their order, its own properties and its prototype are the same. -/
theorem restrict_exact {m : Machine} (hm : m.Reachable) (bodies : Bodies) (o : ObjectId) (freeze : Bool)
    (this : Value) :
    let run := objectFunction (if freeze then .freeze else .seal) this [.object o] bodies m
    ((¬ ∃ i, m.heap.Barred o i) → ∃ h', run = .ok (.object o) { m with heap := h' } ∧
      objectFunction (if freeze then .isFrozen else .isSealed) this [.object o] bodies { m with heap := h' } =
        .ok (.boolean true) { m with heap := h' } ∧
      (freeze = true → o < m.heap.nextObject → ∀ attempts : List Attempt,
        Heap.Unaltered o h' (Machine.afterAttempts { m with heap := h' } o attempts).heap)) ∧
    ((∃ i, m.heap.Barred o i) → m.heap.Lapsed o ∧
      ∃ i h', m.heap.Barred o i ∧ run = .error (.fault (.cannotPut (Text.ofNat i.val))) { m with heap := h' }) := by
  intro run
  have hrun : run = _ := restrict_run o freeze this
  rcases Heap.restrict_cases hm.evolves o freeze with ⟨hfree, hr, hrestricted⟩ | ⟨i, hb, hr⟩
  · refine ⟨fun _ => ⟨(m.heap.restrict o freeze).heap, ?_, ?_, ?_⟩, fun ⟨i, hb⟩ => absurd hb (hfree i)⟩
    · rw [hrun, hr]
    · rw [isRestricted_run, Heap.isRestricted_iff.mpr hrestricted]
    · rintro rfl ho attempts
      have hl := (hm.evolves.trans (evolves_restrict 0 [] m.heap o true)).linked_of_empty
      refine unaltered_attempts (m := { m with heap := (m.heap.restrict o true).heap }) hl ?_ hrestricted attempts
      show o < (m.heap.restrict o true).heap.nextObject
      rw [Heap.nextObject_restrict]
      exact ho
  · refine ⟨fun hnone => absurd ⟨i, hb⟩ hnone, fun _ => ⟨?_, i, (m.heap.restrict o freeze).heap, hb, ?_⟩⟩
    · refine Classical.byContradiction fun hnot => hb.not_sound ?_
      exact (Heap.soundArray_iff_not_lapsed hm.evolves hb.kind).mpr hnot
    · rw [hrun, hr]

end Runs

/-- Gives the empty array a length that cannot be written, by an object whose conversion to 2 puts an element
at 5. -/
def barringProgram : Tree :=
  let array : Tree := .apply (.getName (.ofString "a")) []
  let name (s : String) : Tree := .literal (.string (.ofString s))
  let number (n : Nat) : Tree := .literal (.ofNat n)
  let longer : Tree := .apply .setElement [array, number 5, number 1]
  let conversion : Tree := .function ⟨[], false, false⟩ [longer, .leave (number 2)]
  .sequence [
    .declareAs (.ofString "a") (.apply .array []),
    .apply .defineOwn [array, name "length",
      .object [name "value", .object [name "valueOf", conversion], name "writable", .literal (.boolean false)],
      .literal (.boolean true)]]

/-- The machine after that program. -/
def barredMachine : Machine :=
  endOf ((Action.runGlobal (.ofTree barringProgram false)).run.perform (.start {}))

theorem barred_barredMachine : barredMachine.heap.Barred Heap.skeleton.nextObject ⟨5, by decide⟩ := by
  have hkind : (barredMachine.heap.object Heap.skeleton.nextObject).isArray = true := by decide +kernel
  have hlength : (barredMachine.heap.object Heap.skeleton.nextObject).properties.get? .length =
      some (.data (.ofNat 2) false false false) := by decide +kernel
  have helement : ((barredMachine.heap.object Heap.skeleton.nextObject).own? (.index ⟨5, by decide⟩)).isSome =
      true := by decide +kernel
  exact ⟨Object.kind_of_isArray hkind, helement, 2, hlength, by decide⟩

/-- The array, which is the first new object, cannot be frozen; the prototype of arrays can be at the start, and
stays as it is whatever is tried. -/
theorem restrict_exact_barred :
    (∃ i h', objectFunction .freeze .undefined [.object Heap.skeleton.nextObject] (bodiesAt 0) barredMachine =
      .error (.fault (.cannotPut (Text.ofNat i))) { barredMachine with heap := h' }) ∧
    ∃ h', objectFunction .freeze .undefined [.object Intrinsic.arrayPrototype.id] (bodiesAt 0) (.start {}) =
        .ok (.object Intrinsic.arrayPrototype.id) { Machine.start {} with heap := h' } ∧
      Heap.Unaltered Intrinsic.arrayPrototype.id h' (Machine.afterAttempts { Machine.start {} with heap := h' }
        Intrinsic.arrayPrototype.id [.setPrototype Intrinsic.arrayPrototype.id none,
          .action (.own Intrinsic.arrayPrototype.id (.put .length (.ofNat 3) false)) nofun]).heap := by
  have hreachable : barredMachine.Reachable := .act _ (.start {})
  constructor
  · obtain ⟨_, i, h', _, hrun⟩ :=
      (restrict_exact hreachable (bodiesAt 0) Heap.skeleton.nextObject true .undefined).2
        ⟨_, barred_barredMachine⟩
    exact ⟨i, h', hrun⟩
  · have hfree : ¬ ∃ i, (Machine.start {}).heap.Barred Intrinsic.arrayPrototype.id i := by
      rintro ⟨i, _, _, n, hlength, _⟩
      have hstart : ((Machine.start {}).heap.object Intrinsic.arrayPrototype.id).properties.get? .length =
          some (.data (.ofNat 0) true false false) := by decide +kernel
      obtain ⟨-, hwritable, -⟩ := Property.data.inj (Option.some.inj (hstart.symm.trans hlength))
      exact absurd hwritable (by decide)
    obtain ⟨h', hrun, _, hunaltered⟩ :=
      (restrict_exact (.start {}) (bodiesAt 0) Intrinsic.arrayPrototype.id true .undefined).1 hfree
    exact ⟨h', hrun, hunaltered rfl (by decide +kernel) _⟩

end Ecma51
