import Ecma51.Code.Eval
import Ecma51.Proofs.Enumeration
import Ecma51.Proofs.KeyOrder

/-!
# Enumeration while properties are deleted

The keys of an enumeration are fixed when it begins, by the first objects that own them. When the turn of a key
comes, it is visited if any object on the chain still owns it. If the object that showed it has lost it by then, this is
another one further on, and whether enumeration would visit the key there is not asked again.

* `Heap.Thinned`: properties may have gone, and all others are as they were.
* `Enumerating`: what is still to come of an enumeration, after any visits and any deletions.
* `Heap.Uncovered`: a key that was visible, and now belongs to a prototype where it is not.
* **`nextKey_exact`**: which key comes next, and that it is an enumerable property unless it was uncovered.
-/

namespace Ecma51

namespace Heap

variable {h h' h₀ : Heap} {o p : ObjectId} {k : Key} {l : List ObjectId}

/-! ## 1. Deletions -/

/-- Properties may have gone. What can come to light in place of one is a unit of a string, which is enumerable. All
else is as it was. -/
structure Thinned (h h' : Heap) : Prop where
  prototype : h'.prototypeOf = h.prototypeOf
  own : ∀ p k, h'.getOwn? p k = h.getOwn? p k ∨
    (h.getOwn? p k).isSome ∧ ∀ q, h'.getOwn? p k = some q → q.enumerable = true

namespace Thinned

theorem refl (h : Heap) : Thinned h h := ⟨rfl, fun _ _ => .inl rfl⟩

theorem trans {h'' : Heap} (ht : Thinned h h') (ht' : Thinned h' h'') : Thinned h h'' := by
  refine ⟨ht'.prototype.trans ht.prototype, fun p k => ?_⟩
  rcases ht'.own p k with hsame | ⟨hsome, hleft⟩
  · rw [hsame]
    exact ht.own p k
  · rcases ht.own p k with hsame | ⟨hsome', _⟩
    · exact .inr ⟨hsame ▸ hsome, hleft⟩
    · exact .inr ⟨hsome', hleft⟩

/-- Nothing is there that was not there before. -/
theorem isSome (ht : Thinned h h') (hk : (h'.getOwn? p k).isSome) : (h.getOwn? p k).isSome := by
  rcases ht.own p k with hsame | ⟨hsome, _⟩
  · exact hsame ▸ hk
  · exact hsome

/-- What is enumerable where it is stays so for as long as it is there. -/
theorem enumerates (ht : Thinned h h') (hk : h.enumerates p k = true) (hthere : (h'.getOwn? p k).isSome) :
    h'.enumerates p k = true := by
  unfold Heap.enumerates at hk ⊢
  rcases ht.own p k with hsame | ⟨_, hleft⟩
  · rw [hsame]
    exact hk
  · obtain ⟨q, hq⟩ := Option.isSome_iff_exists.mp hthere
    rw [hq]
    exact hleft q hq

end Thinned

/-- Deleting one key of an arguments object ends its sharing, and that of no other. -/
theorem shared?_unmapArgument_of_ne {j : Key} (hjk : j ≠ k) : (h.unmapArgument o k).shared? o j = h.shared? o j := by
  unfold unmapArgument
  split
  · rename_i a i ha hi
    have hkind : (h.modify o fun x => { x with kind := .arguments (a.unmap i) }).argumentsOf? o =
        some (a.unmap i) := by
      unfold argumentsOf?
      rw [object_modify_self]
    unfold shared?
    rw [hkind, ha, Option.bind_some, Option.bind_some]
    unfold mappedValue?
    cases j with
    | name t => rfl
    | index j =>
      have hne : i ≠ j.val := by
        rintro rfl
        cases k with
        | name t => cases hi
        | index k => exact hjk (congrArg Key.index (Fin.ext (Option.some.inj hi).symm))
      show (ArgumentsData.nameOf? (a.unmap i) j.val).bind _ = (a.nameOf? j.val).bind _
      rw [ArgumentsData.nameOf?_unmap_eq, if_neg hne]
      rfl
  · rfl

/-- What is left under a key that was deleted is a unit of a string. -/
theorem enumerable_of_withoutProperty {x : Object} {q : Property} (hq : (x.withoutProperty k).own? k = some q) :
    q.enumerable = true := by
  unfold Object.own? at hq
  rw [Object.get?_withoutProperty_self] at hq
  split at hq
  · rw [Option.none_or] at hq
    obtain ⟨i, _, hq⟩ := Option.bind_eq_some_iff.mp hq
    obtain ⟨u, _, hq⟩ := Option.bind_eq_some_iff.mp hq
    cases hq
    rfl
  · cases hq

/-- The heap after a property was removed. -/
def removed (h : Heap) (o : ObjectId) (k : Key) : Heap := (h.modify o (·.withoutProperty k)).unmapArgument o k

theorem object_removed (h : Heap) (o : ObjectId) (k : Key) :
    (h.removed o k).object o = ((h.object o).withoutProperty k).unmapped k := by
  unfold removed
  rw [object_unmapArgument, object_modify_self]

theorem environments_removed (h : Heap) (o : ObjectId) (k : Key) :
    (h.removed o k).environments = h.environments := by
  unfold removed unmapArgument
  split <;> rfl

theorem touches_removed (h : Heap) (o : ObjectId) (k : Key) : Touches o h (h.removed o k) :=
  (touches_modify h o _).trans (touches_unmapArgument _ o k)

/-- Other keys are left as they are. -/
theorem getOwn?_removed_of_ne {j : Key} (hjk : j ≠ k) : (h.removed o k).getOwn? o j = h.getOwn? o j := by
  have hkind : (h.modify o (·.withoutProperty k)).argumentsOf? o = h.argumentsOf? o := by
    unfold argumentsOf?
    rw [object_modify_self]
    rfl
  have hshared : (h.removed o k).shared? o j = h.shared? o j := by
    unfold removed
    rw [shared?_unmapArgument_of_ne hjk]
    unfold shared?
    rw [hkind]
    rfl
  rw [getOwn?_eq, getOwn?_eq, hshared, object_removed, Object.own?_unmapped,
    Object.own?_withoutProperty_of_ne _ hjk.symm]

/-- **A deletion takes away one property**, or nothing. -/
theorem thinned_deleteOwn (h : Heap) (o : ObjectId) (k : Key) : Thinned h (h.deleteOwn o k).heap := by
  rcases h.deleteOwn_cases o k with ⟨hr, _⟩ | ⟨f, p, hr, _⟩ | ⟨p, hr, hown, _⟩ <;> rw [hr]
  · exact .refl h
  · exact .refl h
  show Thinned h (h.removed o k)
  refine ⟨funext fun q => ?_, fun q j => ?_⟩
  · show ((h.removed o k).object q).prototype = (h.object q).prototype
    by_cases hq : q = o
    · rw [hq, object_removed, Object.prototype_unmapped]
      rfl
    · rw [(touches_removed h o k).other q hq]
  · by_cases hq : q = o
    · subst hq
      by_cases hjk : j = k
      · subst hjk
        refine .inr ⟨Option.isSome_of_eq_some hown, fun r hr => ?_⟩
        obtain ⟨r', hr', rfl⟩ := exists_own_of_getOwn hr
        rw [object_removed, Object.own?_unmapped] at hr'
        have henumerable := enumerable_of_withoutProperty hr'
        unfold showing
        split <;> exact henumerable
      · exact .inl (getOwn?_removed_of_ne hjk)
    · exact .inl (getOwn?_of_environments ((touches_removed h o k).other q hq) (environments_removed h o k) j)

/-! ## 2. Lookups and owners -/

theorem isSome_of_owner? (howner : h.owner? l k = some p) : (h.getOwn? p k).isSome = true := by
  have hp := List.find?_some howner
  exact hp

/-- What is found is the property of the first owner. -/
theorem getProperty?_of_walk (hw : Walk h.prototypeOf (some o) l) (k : Key) :
    h.getProperty? o k = (h.owner? l k).bind (h.getOwn? · k) := by
  have hfound (l : List ObjectId) : l.findSome? (h.getOwn? · k) = (h.owner? l k).bind (h.getOwn? · k) := by
    induction l with
    | nil => rfl
    | cons p l ih =>
      rw [List.findSome?_cons]
      cases hp : h.getOwn? p k with
      | none =>
        rw [owner?_cons_of_not_own (by rw [hp]; exact Bool.false_ne_true)]
        exact ih
      | some q =>
        rw [owner?_cons_of_own (Option.isSome_of_eq_some hp)]
        exact hp.symm
  unfold getProperty?
  rw [findUpTo_of_walk hw (length_prototypes_of_nodup hw hw.distinct), hfound]

/-- A property is found exactly if there is an owner. -/
theorem hasProperty_of_walk (hw : Walk h.prototypeOf (some o) l) (k : Key) :
    h.hasProperty o k = (h.owner? l k).isSome := by
  unfold hasProperty
  rw [getProperty?_of_walk hw]
  cases howner : h.owner? l k with
  | none => rfl
  | some p => exact isSome_of_owner? howner

/-- The first owner of a key comes before all others. -/
theorem exists_split_of_owner (howner : h.owner? l k = some p) :
    ∃ nearer further, l = nearer ++ p :: further ∧ (h.getOwn? p k).isSome = true ∧
      ∀ q ∈ nearer, ¬ (h.getOwn? q k).isSome = true := by
  obtain ⟨hp, nearer, further, heq, hnearer⟩ := List.find?_eq_some_iff_append.mp howner
  exact ⟨nearer, further, heq, hp, fun q hq => by simpa using hnearer q hq⟩

/-- An owner that still owns a key is still the first one. -/
theorem Thinned.owner?_of_isSome (ht : Thinned h h') (howner : h.owner? l k = some p)
    (hp : (h'.getOwn? p k).isSome = true) : h'.owner? l k = some p := by
  obtain ⟨nearer, further, rfl, _, hnearer⟩ := exists_split_of_owner howner
  refine List.find?_eq_some_iff_append.mpr ⟨hp, nearer, further, rfl, fun q hq => ?_⟩
  have hnot : ¬ (h'.getOwn? q k).isSome = true := fun hown => hnearer q hq (ht.isSome hown)
  simpa using hnot

/-- What follows an owner that has lost a key is further on. -/
theorem Thinned.idxOf_lt (ht : Thinned h h') (hnodup : l.Nodup) (howner : h.owner? l k = some p)
    (hlost : h'.getOwn? p k = none) {q : ObjectId} (hq : h'.owner? l k = some q) : l.idxOf p < l.idxOf q := by
  obtain ⟨nearer, further, rfl, _, hnearer⟩ := exists_split_of_owner howner
  have hown : (h'.getOwn? q k).isSome = true := isSome_of_owner? hq
  have hpq : p ≠ q := by
    rintro rfl
    rw [hlost] at hown
    cases hown
  have hp : p ∉ nearer := fun hmem => (List.nodup_append.mp hnodup).2.2 p hmem p List.mem_cons_self rfl
  have hq : q ∉ nearer := fun hmem => hnearer q hmem (ht.isSome hown)
  rw [List.idxOf_append_of_notMem hp, List.idxOf_append_of_notMem hq, List.idxOf_cons_self, List.idxOf_cons_ne _ hpq]
  exact Nat.add_lt_add_left (Nat.succ_pos _) _

/-- The object that showed a key has lost it, and now it belongs to a prototype further on that had it from the
beginning, and not as a key to be visited. -/
def Uncovered (h h' : Heap) (l : List ObjectId) (k : Key) : Prop :=
  ∃ p q, h.owner? l k = some p ∧ h'.getOwn? p k = none ∧ h'.owner? l k = some q ∧ l.idxOf p < l.idxOf q ∧
    h'.getOwn? q k = h.getOwn? q k ∧ h.enumerates q k = false

/-- **A key that was visible and is still owned by some object is visible, unless it was uncovered.** -/
theorem Thinned.enumerates_owner (ht : Thinned h h') (hnodup : l.Nodup) (howner : h.owner? l k = some p)
    (hvisible : h.enumerates p k = true) {q : ObjectId} (hq : h'.owner? l k = some q) :
    h'.enumerates q k = true ↔ ¬ h.Uncovered h' l k := by
  constructor
  · rintro henumerates ⟨_, q', _, _, hq', _, hsame, hhidden⟩
    obtain rfl := Option.some.inj (hq.symm.trans hq')
    unfold Heap.enumerates at henumerates hhidden
    rw [hsame, hhidden] at henumerates
    cases henumerates
  · intro hnot
    by_cases hkept : (h'.getOwn? p k).isSome = true
    · obtain rfl := Option.some.inj (hq.symm.trans (ht.owner?_of_isSome howner hkept))
      exact ht.enumerates hvisible hkept
    · have hlost := Option.not_isSome_iff_eq_none.mp hkept
      by_contra hhidden
      have hown : (h'.getOwn? q k).isSome = true := isSome_of_owner? hq
      have hsame : h'.getOwn? q k = h.getOwn? q k := by
        rcases ht.own q k with hsame | ⟨_, hleft⟩
        · exact hsame
        · refine absurd ?_ hhidden
          obtain ⟨r, hr⟩ := Option.isSome_iff_exists.mp hown
          unfold Heap.enumerates
          rw [hr]
          exact hleft r hr
      refine hnot ⟨p, q, howner, hlost, hq, ht.idxOf_lt hnodup howner hlost hq, hsame, ?_⟩
      unfold Heap.enumerates at hhidden ⊢
      rw [← hsame]
      exact Bool.eq_false_iff.mpr hhidden

/-! ## 3. The next key -/

/-- **The next key is the first of those to come that still has an owner.** -/
theorem nextKey?_iff (hw : Walk h.prototypeOf (some o) l) {ks rest : List Key} :
    h.nextKey? o ks = some (k, rest) ↔
      ∃ passed, ks = passed ++ k :: rest ∧ (∀ j ∈ passed, h.owner? l j = none) ∧ (h.owner? l k).isSome = true := by
  induction ks with
  | nil =>
    refine ⟨nofun, ?_⟩
    rintro ⟨passed, heq, _⟩
    exact absurd heq.symm (List.append_ne_nil_of_right_ne_nil _ (List.cons_ne_nil _ _))
  | cons i ks ih =>
    unfold nextKey?
    rw [hasProperty_of_walk hw]
    by_cases hi : (h.owner? l i).isSome = true
    · rw [if_pos hi]
      constructor
      · rintro ⟨⟩
        exact ⟨[], rfl, fun _ hj => absurd hj List.not_mem_nil, hi⟩
      · rintro ⟨_ | ⟨j, passed⟩, heq, hpassed, _⟩
        · cases heq
          rfl
        · cases heq
          rw [hpassed i List.mem_cons_self] at hi
          cases hi
    · rw [if_neg hi, ih]
      have hnone := Option.not_isSome_iff_eq_none.mp hi
      constructor
      · rintro ⟨passed, rfl, hpassed, hk⟩
        exact ⟨i :: passed, rfl, List.forall_mem_cons.mpr ⟨hnone, hpassed⟩, hk⟩
      · rintro ⟨_ | ⟨j, passed⟩, heq, hpassed, hk⟩
        · cases heq
          exact absurd hk hi
        · cases heq
          exact ⟨passed, rfl, (List.forall_mem_cons.mp hpassed).2, hk⟩

end Heap

/-! ## 4. Enumerations -/

/-- What is still to come of an enumeration of an object that began on one machine. Between two visits properties of any
objects are deleted, with what comes of it, and other things are done that leave properties and prototypes alone. -/
inductive Enumerating (bodies : Bodies) (o : ObjectId) (m₀ : Machine) : Machine → List Key → Prop where
  | start : Enumerating bodies o m₀ m₀ (m₀.heap.forInKeys o)
  | delete {m : Machine} {ks : List Key} (p : ObjectId) (k : Key) (throws : Bool) : Enumerating bodies o m₀ m ks →
      Enumerating bodies o m₀ (endOf (deleteOwn p k throws bodies m)) ks
  | visit {m : Machine} {k : Key} {ks rest : List Key} : Enumerating bodies o m₀ m ks →
      m.heap.nextKey? o ks = some (k, rest) → Enumerating bodies o m₀ m rest
  | aside {m m' : Machine} {ks : List Key} : Enumerating bodies o m₀ m ks →
      m'.heap.prototypeOf = m.heap.prototypeOf → (∀ p k, m'.heap.getOwn? p k = m.heap.getOwn? p k) →
      Enumerating bodies o m₀ m' ks

section Enumerations

variable {bodies : Bodies} {o : ObjectId} {m₀ m : Machine} {ks : List Key}

/-- Properties may have gone since an enumeration began, and what is to come is the rest of its keys. -/
theorem Enumerating.thinned (he : Enumerating bodies o m₀ m ks) :
    m₀.heap.Thinned m.heap ∧ ks <:+ m₀.heap.forInKeys o := by
  induction he with
  | start => exact ⟨.refl _, List.suffix_refl _⟩
  | delete p k throws _ ih =>
    rw [heap_deleteOwn]
    exact ⟨ih.1.trans (Heap.thinned_deleteOwn _ p k), ih.2⟩
  | @visit m k ks rest _ hnext ih =>
    refine ⟨ih.1, List.IsSuffix.trans ?_ ih.2⟩
    have hsuffix (ks : List Key) (hnext : m.heap.nextKey? o ks = some (k, rest)) : rest <:+ ks := by
      induction ks with
      | nil => cases hnext
      | cons i ks ihks =>
        unfold Heap.nextKey? at hnext
        split at hnext
        · cases hnext
          exact List.suffix_cons _ _
        · exact (ihks hnext).trans (List.suffix_cons _ _)
    exact hsuffix ks hnext
  | aside _ hprototypes hown ih => exact ⟨ih.1.trans ⟨hprototypes, fun p k => .inl (hown p k)⟩, ih.2⟩

/-- The visit of a key and of all keys after it, or the end if there is none. -/
def visitNext (name : Text) (o : ObjectId) (body : Eval Value) : Option (Key × List Key) → Eval Unit
  | none => return ()
  | some (k, rest) => do
    perform (assignName name (.string k.toText))
    let _ ← body
    forEachKey name o body rest

/-- **The loop over the keys of an enumeration visits the next key, again and again.** -/
theorem forEachKey_eq (name : Text) (o : ObjectId) (body : Eval Value) (ks : List Key) (bodies : Bodies) (m : Machine) :
    forEachKey name o body ks bodies m = visitNext name o body (m.heap.nextKey? o ks) bodies m := by
  induction ks with
  | nil => rfl
  | cons k ks ih =>
    have hstep : forEachKey name o body (k :: ks) bodies m =
        (if m.heap.hasProperty o k then visitNext name o body (some (k, ks)) else forEachKey name o body ks)
          bodies m := rfl
    rw [hstep]
    unfold Heap.nextKey?
    split
    · rfl
    · exact ih

/-- **The keys that an enumeration visits while properties are deleted.** The next one is the first of those still to
come that an object on the chain still owns. What is found under it is enumerable, unless the object that showed it has
lost it and one further on has it as a property that is not; if it has not been lost, it is found where it was. A loop
over the keys makes these visits and no others. -/
theorem nextKey_exact (he : Enumerating bodies o m₀ m ks) {l : List ObjectId}
    (hw : Walk m₀.heap.prototypeOf (some o) l) (hfits : ∀ p ∈ l, (m₀.heap.object p).TextFits) :
    (∀ k rest, m.heap.nextKey? o ks = some (k, rest) ↔
      ∃ passed, ks = passed ++ k :: rest ∧ (∀ j ∈ passed, m.heap.owner? l j = none) ∧
        (m.heap.owner? l k).isSome = true) ∧
    (∀ k rest, m.heap.nextKey? o ks = some (k, rest) →
      ∃ p r, m₀.heap.owner? l k = some p ∧ m.heap.getProperty? o k = some r ∧
        ((m.heap.getOwn? p k).isSome = true → m.heap.getOwn? p k = some r) ∧
        (r.enumerable = true ↔ ¬ m₀.heap.Uncovered m.heap l k)) ∧
    ∀ name body, forEachKey name o body ks bodies m = visitNext name o body (m.heap.nextKey? o ks) bodies m := by
  obtain ⟨hthinned, hsuffix⟩ := he.thinned
  have hw' : Walk m.heap.prototypeOf (some o) l := by rwa [hthinned.prototype]
  refine ⟨fun k rest => Heap.nextKey?_iff hw', fun k rest hnext => ?_,
    fun name body => forEachKey_eq name o body ks bodies m⟩
  obtain ⟨passed, rfl, _, howned⟩ := (Heap.nextKey?_iff hw').mp hnext
  -- the key was visible when the enumeration began
  have hshown : k ∈ m₀.heap.forInKeys o :=
    hsuffix.mem (List.mem_append_right _ List.mem_cons_self)
  obtain ⟨p, hp, hvisible⟩ := ((forInKeys_exact hw hfits).2.1 k).mp hshown
  obtain ⟨q, hq⟩ := Option.isSome_iff_exists.mp howned
  obtain ⟨r, hr⟩ := Option.isSome_iff_exists.mp (Heap.isSome_of_owner? hq)
  have hfound : m.heap.getProperty? o k = some r := by
    rw [Heap.getProperty?_of_walk hw', hq]
    exact hr
  refine ⟨p, r, hp, hfound, fun hkept => ?_, ?_⟩
  · obtain rfl := Option.some.inj (hq.symm.trans (hthinned.owner?_of_isSome hp hkept))
    exact hr
  · rw [← hthinned.enumerates_owner hw.distinct hp hvisible hq]
    unfold Heap.enumerates
    rw [hr]
    rfl

end Enumerations

/-- A record with a name that is not enumerated, and an object below it that has the name for itself. -/
def coveringMachine : Machine :=
  let named (e : Bool) (x : Object) : Object :=
    x.withProperty (.name (Text.ofString "x")) (.data .null true e true)
  { Machine.start {} with
    heap := ((Heap.empty.add (named false (.ordinary none))).1.add (named true (.ordinary (some 0)))).1 }

/-- The machine after the name of the object was deleted. -/
def uncoveredMachine : Machine :=
  endOf (deleteOwn 1 (.name (Text.ofString "x")) true (bodiesAt 0) coveringMachine)

theorem walk_coveringMachine : Walk coveringMachine.heap.prototypeOf (some 1) [1, 0] := by
  refine .step ?_
  rw [show coveringMachine.heap.prototypeOf 1 = some 0 by decide +kernel]
  refine .step ?_
  rw [show coveringMachine.heap.prototypeOf 0 = none by decide +kernel]
  exact .done

/-- The name that was deleted before its turn came is visited, as the property of the record, which is not
enumerable. -/
theorem nextKey_exact_uncovered :
    Enumerating (bodiesAt 0) 1 coveringMachine uncoveredMachine [.name (Text.ofString "x")] ∧
    uncoveredMachine.heap.nextKey? 1 [.name (Text.ofString "x")] = some (.name (Text.ofString "x"), []) ∧
    coveringMachine.heap.Uncovered uncoveredMachine.heap [1, 0] (.name (Text.ofString "x")) ∧
    ∃ r, uncoveredMachine.heap.getProperty? 1 (.name (Text.ofString "x")) = some r ∧ r.enumerable = false := by
  have he : Enumerating (bodiesAt 0) 1 coveringMachine uncoveredMachine [.name (Text.ofString "x")] := by
    have hkeys : coveringMachine.heap.forInKeys 1 = [.name (Text.ofString "x")] := by decide +kernel
    have hstart : Enumerating (bodiesAt 0) 1 coveringMachine coveringMachine (coveringMachine.heap.forInKeys 1) :=
      .start
    rw [hkeys] at hstart
    exact hstart.delete 1 _ true
  have hfits (p : ObjectId) (hp : p ∈ [1, 0]) : (coveringMachine.heap.object p).TextFits := by
    intro t ht
    simp only [List.mem_cons, List.not_mem_nil, or_false] at hp
    obtain rfl | rfl := hp <;> cases ht
  obtain ⟨hnext, hfound, _⟩ := nextKey_exact he walk_coveringMachine hfits
  have hvisit := (hnext (.name (Text.ofString "x")) []).mpr ⟨[], rfl, nofun, by decide +kernel⟩
  have huncovered : coveringMachine.heap.Uncovered uncoveredMachine.heap [1, 0] (.name (Text.ofString "x")) :=
    ⟨1, 0, by decide +kernel, by decide +kernel, by decide +kernel, by decide, by decide +kernel, by decide +kernel⟩
  obtain ⟨p, r, _, hr, _, hiff⟩ := hfound _ _ hvisit
  exact ⟨he, hvisit, huncovered, r, hr, Bool.eq_false_iff.mpr fun henumerable => hiff.mp henumerable huncovered⟩

end Ecma51
