import Ecma51.Proofs.Activation
import Ecma51.Proofs.JsonRoundTrip
import Ecma51.Proofs.Links
import Ecma51.Proofs.Refusals

/-!
# What an assignment does

An assignment first asks whether it may go ahead, looks at the own property and along the prototypes again, and then
defines by the rules of the object's kind. If no accessor is found on the way, the three agree: an assignment that
may not go ahead does nothing, and one that may is carried out and changes one property, and at most the parameter
for which it stands. Arrays have rules of their own for their elements and their length.

* `Heap.FreeOfAccessors`: no accessor on the chain of prototypes.
* `Heap.sharedParameter?`, `Heap.StandsAlone`: the parameter for which a key stands, and that no other stands for it.
* `Heap.Assigned`: what an assignment leaves that is carried out.
* **`admits_of_canPut`**: an assignment that may go ahead is admitted.
* **`putTo_exact`**: all that an assignment of a primitive value can do.
-/

namespace Ecma51

open Relation (ReflTransGen)

namespace Heap

variable {h h' : Heap} {o : ObjectId} {k : Key} {v : Value}

/-! ## 1. Lookups -/

/-- No object on the chain of prototypes has an accessor with the key. -/
def FreeOfAccessors (h : Heap) (o : ObjectId) (k : Key) : Prop :=
  ∀ p, ReflTransGen (LinksTo h.prototypeOf) o p → ∀ g s e c, h.getOwn? p k ≠ some (.accessor g s e c)

/-- What is found belongs to an object on the chain. -/
theorem Finds.exists_owner {q : Property} (hq : h.Finds k o q) :
    ∃ p, ReflTransGen (LinksTo h.prototypeOf) o p ∧ h.getOwn? p k = some q := by
  induction hq with
  | own hown => exact ⟨_, .refl, hown⟩
  | inherited _ hp _ ih =>
    obtain ⟨p', hchain, hown⟩ := ih
    exact ⟨p', .head hp hchain, hown⟩

/-- What is found by way of a chain without accessors is a value. -/
theorem FreeOfAccessors.found (hfree : h.FreeOfAccessors o k) {p : ObjectId}
    (hp : ReflTransGen (LinksTo h.prototypeOf) o p) {q : Property} (hq : h.getProperty? p k = some q) :
    ∃ u w e c, q = .data u w e c := by
  obtain ⟨p', hchain, hown⟩ := (finds_of_getProperty? hq).exists_owner
  cases q with
  | data u w e c => exact ⟨u, w, e, c, rfl⟩
  | accessor g s e c => exact absurd hown (hfree p' (hp.trans hchain) g s e c)

theorem FreeOfAccessors.runsNoSetter (hfree : h.FreeOfAccessors o k) : h.RunsNoSetter o k := by
  intro _ g s e c hfound
  obtain ⟨_, _, _, _, heq⟩ := hfree.found .refl hfound
  cases heq

/-- **Whether an assignment may go ahead**, if there are no accessors: it replaces an own value that can be
written, or makes a new property of an extensible object. -/
theorem own_of_canPut (hfree : h.FreeOfAccessors o k) (hcan : h.canPut o k = true) :
    (∃ u e c, h.getOwn? o k = some (.data u true e c)) ∨
      h.getOwn? o k = none ∧ (h.object o).extensible = true := by
  unfold canPut at hcan
  cases hown : h.getOwn? o k with
  | some q =>
    rw [hown] at hcan
    obtain ⟨u, w, e, c, rfl⟩ := hfree.found .refl (getProperty?_of_own hown)
    obtain rfl : w = true := hcan
    exact .inl ⟨u, e, c, rfl⟩
  | none =>
    rw [hown] at hcan
    dsimp only at hcan
    refine .inr ⟨rfl, ?_⟩
    cases hinherited : (h.object o).prototype.bind (h.getProperty? · k) with
    | none =>
      rw [hinherited] at hcan
      exact hcan
    | some q =>
      rw [hinherited] at hcan
      obtain ⟨p, hp, hfound⟩ := Option.bind_eq_some_iff.mp hinherited
      obtain ⟨u, w, e, c, rfl⟩ := hfree.found (.single hp) hfound
      have hboth : w = true ∧ (h.object o).extensible = true := by
        simpa [acceptsPut, Property.isData] using hcan
      exact hboth.2

/-- **An assignment that may go ahead is admitted**, as the value that is given. -/
theorem admits_of_canPut (hfree : h.FreeOfAccessors o k) (hcan : h.canPut o k = true) (v : Value) :
    (h.defineOrdinary o k (h.putDescriptor o k v)).refusal = none ∧
      ∃ w e c, h.Admits o k (h.putDescriptor o k v) (.data v w e c) := by
  rcases own_of_canPut hfree hcan with ⟨u, e, c, hown⟩ | ⟨hown, hextensible⟩
  · have hd : h.putDescriptor o k v = .ofValue v := by
      unfold putDescriptor
      rw [hown]
    have hdone := defineOrdinary_ofValue hown v
    rw [hd]
    refine ⟨hdone, ?_⟩
    have hadmits : ∃ q, h.Admits o k (.ofValue v) q := by
      rcases h.defineOrdinary_cases o k (.ofValue v) with ⟨f, hr⟩ | ⟨_, p, hp, hholds⟩ | ⟨q, _, hq⟩
      · rw [hr] at hdone
        cases hdone
      · exact ⟨p, .inr ⟨p, hp, if_pos hholds⟩⟩
      · exact ⟨q, hq⟩
    obtain ⟨q, hq⟩ := hadmits
    obtain ⟨w, e, c, rfl⟩ := hq.value rfl rfl
    exact ⟨w, e, c, hq⟩
  · have hd : h.putDescriptor o k v = .data v true true true := by
      unfold putDescriptor
      rw [hown]
    rw [hd]
    refine ⟨?_, true, true, true, .inl ⟨hown, hextensible, rfl⟩⟩
    unfold defineOrdinary
    rw [hown]
    dsimp only
    rw [if_pos hextensible]
    rfl

/-! ## 2. Parameters -/

/-- The parameter, with its environment, for which a key of an arguments object stands. -/
def sharedParameter? (h : Heap) (o : ObjectId) (k : Key) : Option (EnvironmentId × Text) := do
  let a ← h.argumentsOf? o
  return (a.environment, ← a.nameOf? (← k.index?))

/-- No other key of an arguments object stands for the same parameter. -/
def StandsAlone (h : Heap) (o : ObjectId) (k : Key) : Prop :=
  ∀ o' j, (h.sharedParameter? o k).isSome → h.sharedParameter? o' j = h.sharedParameter? o k → o' = o ∧ j = k

theorem sharedParameter?_of_kind (hkind : (h'.object o).kind = (h.object o).kind) (k : Key) :
    h'.sharedParameter? o k = h.sharedParameter? o k := by
  unfold sharedParameter? argumentsOf?
  rw [hkind]

theorem sharedParameter?_of_not_arguments (hkind : ∀ a, (h.object o).kind ≠ .arguments a) (k : Key) :
    h.sharedParameter? o k = none := by
  have hnone : h.argumentsOf? o = none :=
    Option.eq_none_iff_forall_ne_some.mpr fun a ha => hkind a (kind_of_argumentsOf? ha)
  unfold sharedParameter?
  rw [hnone]
  rfl

/-- A key shows the value of the parameter for which it stands. -/
theorem shared?_eq_valueOf? (h : Heap) (o : ObjectId) (k : Key) :
    h.shared? o k = (h.sharedParameter? o k).bind fun (e, n) => h.valueOf? e n := by
  unfold sharedParameter?
  cases ha : h.argumentsOf? o with
  | none => exact shared?_of_not_arguments ha k
  | some a =>
    cases k with
    | name t =>
      unfold shared?
      rw [ha]
      rfl
    | index i =>
      cases hi : a.nameOf? i.val with
      | none =>
        unfold shared? mappedValue?
        rw [ha]
        show (a.nameOf? i.val).bind _ = ((a.nameOf? i.val).bind _).bind _
        rw [hi]
        rfl
      | some n =>
        rw [shared?_eq ha hi]
        show _ = ((a.nameOf? i.val).bind _).bind _
        rw [hi]
        rfl

theorem valueOf?_passOn_of_ne {e e' : EnvironmentId} {n n' : Text} (hne : (e', n') ≠ (e, n)) (v : Value) :
    (h.passOn e n (some v)).valueOf? e' n' = h.valueOf? e' n' := by
  unfold passOn modifyBindings
  dsimp only
  cases hb : h.bindings? e with
  | none => rfl
  | some b =>
    by_cases he : e' = e
    · subst he
      have hn : n ≠ n' := fun heq => hne (by rw [heq])
      unfold valueOf?
      dsimp only
      rw [bindings?_setRecord, hb]
      show ((b.store n v).find? n').map _ = (b.find? n').map _
      rw [Bindings.find?_store, if_neg hn]
    · refine valueOf?_of_bindings ?_ n'
      unfold bindings? environment setRecord
      dsimp only
      rw [Std.TreeMap.getD_insert, if_neg fun heq => he (Std.LawfulEqCmp.eq_of_compare heq).symm]

/-- Passes a value on to a parameter, if there is one. -/
def passingOn (h : Heap) : Option (EnvironmentId × Text) → Value → Heap
  | some (e, n), v => h.passOn e n (some v)
  | none, _ => h

theorem object_passingOn (h : Heap) (x : Option (EnvironmentId × Text)) (v : Value) (o : ObjectId) :
    (h.passingOn x v).object o = h.object o := by
  cases x with
  | none => rfl
  | some x => exact object_passOn h x.1 x.2 (some v) o

theorem frame_passingOn (h : Heap) (x : Option (EnvironmentId × Text)) (v : Value) :
    h.passingOn x v = { h with environments := (h.passingOn x v).environments } := by
  cases x with
  | none => rfl
  | some x =>
    unfold passingOn passOn modifyBindings
    dsimp only
    split <;> rfl

theorem valueOf?_passingOn {x : Option (EnvironmentId × Text)} {e : EnvironmentId} {n : Text}
    (hne : x ≠ some (e, n)) (v : Value) : (h.passingOn x v).valueOf? e n = h.valueOf? e n := by
  cases x with
  | none => rfl
  | some x => exact valueOf?_passOn_of_ne (fun heq => hne (by rw [heq])) v

/-- **What is seen elsewhere** does not change when a value is passed on. -/
theorem getOwn?_passingOn (hown : (h'.object o).own? k = (h.object o).own? k)
    (hkind : (h'.object o).kind = (h.object o).kind) (hvalues : ∀ e n, h'.valueOf? e n = h.valueOf? e n)
    {x : Option (EnvironmentId × Text)} (hne : ∀ y, x = some y → h.sharedParameter? o k ≠ some y) (v : Value) :
    (h'.passingOn x v).getOwn? o k = h.getOwn? o k := by
  have hobject := object_passingOn h' x v o
  have hshared : (h'.passingOn x v).shared? o k = h.shared? o k := by
    have hsame : (h'.passingOn x v).sharedParameter? o k = h.sharedParameter? o k :=
      sharedParameter?_of_kind (by rw [hobject, hkind]) k
    rw [shared?_eq_valueOf?, shared?_eq_valueOf?, hsame]
    cases hparameter : h.sharedParameter? o k with
    | none => rfl
    | some y =>
      have hnot : x ≠ some (y.1, y.2) := fun hx => hne y hx hparameter
      exact (valueOf?_passingOn hnot v).trans (hvalues y.1 y.2)
  rw [getOwn?_eq, getOwn?_eq, hobject, hown, hshared]

/-! ## 3. Definitions of values -/

/-- What an assignment leaves that is carried out: the key has the value. Nothing else of the object is different,
nor is any other object, and of what is bound only the parameter for which the key stands. -/
structure Assigned (o : ObjectId) (k : Key) (v : Value) (h h' : Heap) : Prop where
  value : ∃ w e c, h'.getProperty? o k = some (.data v w e c)
  own : ∀ j, j ≠ k → h'.getOwn? o j = h.getOwn? o j
  rest : h'.object o = { h.object o with properties := (h'.object o).properties }
  object : ∀ p, p ≠ o → h'.object p = h.object p
  other : ∀ p, p ≠ o → ∀ j, h'.getOwn? p j = h.getOwn? p j
  bindings : ∀ e n, h.sharedParameter? o k ≠ some (e, n) → h'.valueOf? e n = h.valueOf? e n
  frame : h' = { h with objects := h'.objects, environments := h'.environments }

section Define

variable {d : Descriptor}

/-- What stands for no parameter, and is no element of an array, is defined as an ordinary property. -/
theorem define_unshared (hindex : (h.object o).kind = .array → k.index? = none)
    (hnone : h.sharedParameter? o k = none) (d : Descriptor) : h.define o k d = h.defineOrdinary o k d := by
  by_cases harguments : ∃ a, (h.object o).kind = .arguments a
  · obtain ⟨a, ha⟩ := harguments
    have hshared : (do
        let a ← h.argumentsOf? o
        return (a.environment, ← a.nameOf? (← k.index?)) : Option (EnvironmentId × Text)) = none := hnone
    unfold define
    rw [ha]
    unfold defineArguments
    dsimp only
    rw [hshared]
    cases (h.defineOrdinary o k d).refusal <;> rfl
  · unfold define
    split
    · rename_i hkind
      cases hindex hkind
    · rename_i ha
      exact absurd ⟨_, ha⟩ harguments
    · rfl

/-- **A definition of a value**, elements of arrays apart: that of an ordinary property, and then the value is passed
on. -/
theorem define_value (hindex : (h.object o).kind = .array → k.index? = none) (hvalue : d.value = some v)
    (haccessor : d.isAccessor = false) (hwritable : d.writable ≠ some false)
    (hr : (h.defineOrdinary o k d).refusal = none) :
    h.define o k d = .done ((h.defineOrdinary o k d).heap.passingOn (h.sharedParameter? o k) v) := by
  cases hx : h.sharedParameter? o k with
  | none => exact (define_unshared hindex hx d).trans (Outcome.eq_done hr)
  | some x =>
    have hshared : (do
        let a ← h.argumentsOf? o
        return (a.environment, ← a.nameOf? (← k.index?)) : Option (EnvironmentId × Text)) = some x := hx
    obtain ⟨a, ha, _⟩ := Option.bind_eq_some_iff.mp hx
    unfold define
    rw [kind_of_argumentsOf? ha]
    unfold defineArguments
    dsimp only
    rw [hshared, hr]
    dsimp only
    rw [haccessor, if_neg Bool.false_ne_true, if_neg fun hw => hwritable (beq_iff_eq.mp hw), hvalue]
    rfl

/-- At most the property with the key is stored anew. -/
structure StoredAt (o : ObjectId) (k : Key) (h h' : Heap) : Prop where
  rest : h'.object o = { h.object o with properties := (h'.object o).properties }
  own : ∀ j, j ≠ k → (h'.object o).own? j = (h.object o).own? j
  object : ∀ p, p ≠ o → h'.object p = h.object p
  frame : h' = { h with objects := h'.objects }

theorem StoredAt.valueOf? (hs : StoredAt o k h h') (e : EnvironmentId) (n : Text) :
    h'.valueOf? e n = h.valueOf? e n := by
  rw [hs.frame]
  rfl

/-- The definition of an ordinary property stores it, if it has to. -/
theorem storedAt_defineOrdinary (h : Heap) (o : ObjectId) (k : Key) (d : Descriptor) :
    StoredAt o k h (h.defineOrdinary o k d).heap := by
  have hsame : StoredAt o k h h := ⟨rfl, fun _ _ => rfl, fun _ _ => rfl, rfl⟩
  rcases h.defineOrdinary_cases o k d with ⟨f, hcase⟩ | ⟨hcase, _⟩ | ⟨q, hcase, _⟩ <;> rw [hcase]
  · exact hsame
  · exact hsame
  · refine ⟨?_, fun j hj => ?_, fun p hp => (touches_store h o k q).other p hp, rfl⟩
    · show (h.store o k q).object o = { h.object o with properties := ((h.store o k q).object o).properties }
      rw [object_store_self]
      rfl
    · show ((h.store o k q).object o).own? j = _
      rw [object_store_self, Object.own?_withProperty, if_neg hj.symm]

/-- **What a definition of a value leaves**, if no other key stands for the same parameter. -/
theorem assigned_of_define (hindex : (h.object o).kind = .array → k.index? = none) (hvalue : d.value = some v)
    (haccessor : d.isAccessor = false) (hwritable : d.writable ≠ some false) (halone : h.StandsAlone o k)
    (hr : (h.defineOrdinary o k d).refusal = none) :
    (h.define o k d).refusal = none ∧ Assigned o k v h (h.define o k d).heap := by
  have hdone := define_value hindex hvalue haccessor hwritable hr
  have hrefusal : (h.define o k d).refusal = none := by rw [hdone]; rfl
  have hheap : (h.define o k d).heap = (h.defineOrdinary o k d).heap.passingOn (h.sharedParameter? o k) v := by
    rw [hdone]
    rfl
  obtain ⟨w, e, c, hown⟩ := getOwn?_of_define hvalue haccessor hwritable hrefusal
  have hfound := getProperty?_of_own hown
  have hstored := storedAt_defineOrdinary h o k d
  refine ⟨hrefusal, ?_⟩
  rw [hheap] at hfound ⊢
  generalize (h.defineOrdinary o k d).heap = h₁ at hfound hstored ⊢
  have hobject (p : ObjectId) : (h₁.passingOn (h.sharedParameter? o k) v).object p = h₁.object p :=
    object_passingOn h₁ _ v p
  -- what another key shows does not come from the parameter
  have helsewhere (p : ObjectId) (j : Key) (hne : ¬ (p = o ∧ j = k)) (y : EnvironmentId × Text)
      (hy : h.sharedParameter? o k = some y) : h.sharedParameter? p j ≠ some y := by
    intro hj
    refine hne (halone p j ?_ (hj.trans hy.symm))
    rw [hy]
    rfl
  refine ⟨⟨w, e, c, hfound⟩, fun j hj => ?_, ?_, fun p hp => (hobject p).trans (hstored.object p hp),
    fun p hp j => ?_, fun e n hne => (valueOf?_passingOn hne v).trans (hstored.valueOf? e n), ?_⟩
  · exact getOwn?_passingOn (hstored.own j hj) (by rw [hstored.rest]) hstored.valueOf?
      (helsewhere o j fun heq => hj heq.2) v
  · rw [hobject]
    exact hstored.rest
  · have hsame := hstored.object p hp
    exact getOwn?_passingOn (by rw [hsame]) (by rw [hsame]) hstored.valueOf? (helsewhere p j fun heq => hp heq.1) v
  · rw [frame_passingOn, hstored.frame]

end Define

end Heap

/-! ## 4. Runs -/

section Runs

variable {bodies : Bodies} {m : Machine} {o : ObjectId} {k : Key} {v : Value} {throws : Bool}

/-- How an operation ends that is refused. -/
def refusedBy (f : Fault) (throws : Bool) (m : Machine) : EStateM.Result Failure Machine Unit :=
  if throws then .error (.fault f) m else .ok () m

/-- **An assignment that may not go ahead does nothing.** -/
theorem putTo_refused (hcan : m.heap.canPut o k = false) :
    putTo o k v throws bodies m = refusedBy (putRefusal m.heap o k) throws m := by
  unfold putTo putFor
  rw [getHeap_bind_run, hcan, Bool.not_false, if_pos rfl]
  cases throws <;> rfl

/-- An assignment that may go ahead is a definition, if there are no accessors and no object has to be converted to
a length. -/
theorem putTo_defines (hv : ∀ d : Descriptor, d.value = some v → m.heap.GivesPrimitive o k d)
    (hfree : m.heap.FreeOfAccessors o k) (hcan : m.heap.canPut o k = true) (throws : Bool) :
    putTo o k v throws bodies m =
      discarding (Heap.endedBy (m.heap.defining o k (m.heap.putDescriptor o k v)) throws m) := by
  have hputting : m.heap.putting o k v (.object o) = m.heap.defining o k (m.heap.putDescriptor o k v) := by
    unfold Heap.putting
    rw [hcan, beq_self_eq_true]
    rfl
  unfold putTo
  rw [putFor_run_of_givesPrimitive hv hfree.runsNoSetter, hputting]

theorem putTo_run (hv : v.isObject = false) (hfree : m.heap.FreeOfAccessors o k)
    (hcan : m.heap.canPut o k = true) (throws : Bool) :
    putTo o k v throws bodies m =
      discarding (Heap.endedBy (m.heap.defining o k (m.heap.putDescriptor o k v)) throws m) :=
  putTo_defines (fun _ hd => Heap.givesPrimitive_of_value hd hv) hfree hcan throws

theorem discarding_endedBy_refused {r : Heap.Outcome} {f : Fault} (hr : r.refusal = some f) (throws : Bool) :
    discarding (Heap.endedBy (.ok r) throws m) = refusedBy f throws { m with heap := r.heap } := by
  obtain ⟨htrue, hfalse⟩ := discarding_refused (m := m) hr
  cases throws with
  | true => exact htrue
  | false => exact hfalse

/-- An assignment that may go ahead ends as an ordinary definition does, elements and lengths of arrays apart. -/
theorem putTo_done (hfree : m.heap.FreeOfAccessors o k) (halone : m.heap.StandsAlone o k)
    (hcan : m.heap.canPut o k = true) (hother : (m.heap.object o).kind = .array → k ≠ .length ∧ k.index? = none) :
    putTo o k v throws bodies m = .ok () { m with heap := (m.heap.define o k (m.heap.putDescriptor o k v)).heap } ∧
      Heap.Assigned o k v m.heap (m.heap.define o k (m.heap.putDescriptor o k v)).heap := by
  obtain ⟨hvalue, haccessor, hwritable⟩ := Heap.value_putDescriptor m.heap o k v
  obtain ⟨hdone, hassigned⟩ := Heap.assigned_of_define (fun hkind => (hother hkind).2) hvalue haccessor hwritable halone
    (Heap.admits_of_canPut hfree hcan v).1
  have hlength (d : Descriptor) : lengthValue? (m.heap.object o) k d = none := by
    refine Option.eq_none_iff_forall_ne_some.mpr fun u hu => ?_
    obtain ⟨hkind, hk⟩ := Heap.array_of_lengthValue? hu
    exact (hother hkind).1 hk
  have hprimitive (d : Descriptor) : m.heap.GivesPrimitive o k d := fun u hu => by
    rw [hlength] at hu
    cases hu
  refine ⟨?_, hassigned⟩
  rw [putTo_defines (fun d _ => hprimitive d) hfree hcan, Heap.defining_of_lengthValue? (hlength _)]
  exact discarding_done hdone throws

/-- **An assignment that may go ahead is carried out**, elements and lengths of arrays apart. -/
theorem putTo_assigns (hfree : m.heap.FreeOfAccessors o k)
    (halone : m.heap.StandsAlone o k) (hcan : m.heap.canPut o k = true)
    (hother : (m.heap.object o).kind = .array → k ≠ .length ∧ k.index? = none) :
    ∃ h', putTo o k v throws bodies m = .ok () { m with heap := h' } ∧ Heap.Assigned o k v m.heap h' :=
  ⟨_, putTo_done hfree halone hcan hother⟩

section Arrays

variable {n₀ : Nat} {w₀ : Bool}

/-- **An assignment to an element of an array** needs room for it, and then makes it and raises the length. -/
theorem putTo_element (hv : v.isObject = false) {i : ArrayIndex} (hfree : m.heap.FreeOfAccessors o (.index i))
    (hcan : m.heap.canPut o (.index i) = true) (ha : m.heap.ArrayOfLength o n₀ w₀) :
    (n₀ ≤ i.val → w₀ = false →
      putTo o (.index i) v throws bodies m = refusedBy (.cannotPut (Text.ofNat i)) throws m) ∧
    (i.val < n₀ ∨ w₀ = true → ∃ h' w e c, putTo o (.index i) v throws bodies m = .ok () { m with heap := h' } ∧
      Heap.ElementSet o i (.data v w e c) (max n₀ (i.val + 1)) w₀ m.heap h') := by
  obtain ⟨_, w, e, c, hadmits⟩ := Heap.admits_of_canPut hfree hcan v
  obtain ⟨hfull, hroom⟩ := Heap.defineElement_exact ha i (m.heap.putDescriptor o (.index i) v)
  rw [putTo_run hv hfree hcan, ha.defining_index]
  refine ⟨fun hle hw => ?_, fun hfits => ?_⟩
  · rw [hfull hle hw]
    exact discarding_endedBy_refused rfl throws
  · obtain ⟨hdone, hset⟩ := (hroom hfits).2 _ hadmits
    exact ⟨_, w, e, c, discarding_done hdone throws, hset⟩

/-- **An assignment to the length of an array** sets it to the number that the value gives, unless an element is in the
way that cannot be removed. -/
theorem putTo_length (hv : v.isObject = false) (hfree : m.heap.FreeOfAccessors o .length)
    (hcan : m.heap.canPut o .length = true) (ha : m.heap.ArrayOfLength o n₀ w₀) :
    let x := primitiveNumber v
    let n := x.toUint32
    ((Double.ofNat n).eq x = false →
      putTo o .length v throws bodies m = .error (.fault (.invalidArrayLength x.toPlain)) m) ∧
    ((Double.ofNat n).eq x = true →
      ((∀ b, ¬ m.heap.LastFixed o n b) → ∃ h', putTo o .length v throws bodies m = .ok () { m with heap := h' } ∧
        Heap.LengthSet o n true m.heap h') ∧
      ∀ b, m.heap.LastFixed o n b → ∃ h',
        putTo o .length v throws bodies m = refusedBy (.cannotDelete (Text.ofNat b)) throws { m with heap := h' } ∧
        Heap.LengthSet o (b.val + 1) true m.heap h') := by
  intro x n
  obtain rfl : w₀ = true := by
    rcases Heap.own_of_canPut hfree hcan with ⟨u, e, c, hown⟩ | ⟨hnone, _⟩
    · rw [ha.length] at hown
      cases hown
      rfl
    · rw [ha.length] at hnone
      cases hnone
  have hd : m.heap.putDescriptor o .length v = .ofValue v := by
    unfold Heap.putDescriptor
    rw [ha.length]
  have hn : n < 2 ^ 32 := Double.toUint32_lt x
  obtain ⟨_, hset⟩ := Heap.setLength_exact ha hn (.ofValue v)
  have hset := hset ⟨nofun, nofun, nofun⟩ (.inl rfl)
  rw [putTo_run hv hfree hcan, hd, ha.defining_length rfl]
  unfold Heap.settingLength
  rw [ha.lengthOf]
  refine ⟨fun hinvalid => ?_, fun hvalid => ?_⟩
  · rw [if_neg (Bool.eq_false_iff.mp hinvalid)]
    rfl
  · rw [if_pos hvalid]
    refine ⟨fun hfree => ?_, fun b hb => ?_⟩
    · obtain ⟨hdone, hlength⟩ := hset.1 (ha.removable_of_not_lastFixed fun ⟨b, hb⟩ => hfree b hb)
      exact ⟨_, discarding_done hdone throws, hlength⟩
    · obtain ⟨hrefused, hlength⟩ := hset.2 b hb
      exact ⟨_, discarding_endedBy_refused hrefused throws, hlength⟩

end Arrays

end Runs

/-! ## 5. Assignments -/

/-- **Assignment of a primitive value** to a key of an object on whose chain of prototypes there is no accessor with
the key. If it may not go ahead, it does nothing. Otherwise it is carried out: the key has the value, and everything
else is as before. An element of an array is made, with a length above it, unless there is no room for it and the length
cannot be written; then nothing is done. The length of an array becomes the number that the value gives, which must be
whole and in range, or stays above the last element that cannot be removed. -/
theorem putTo_exact {m : Machine} {o : ObjectId} {k : Key} {v : Value} (hv : v.isObject = false)
    (hfree : m.heap.FreeOfAccessors o k) (halone : m.heap.StandsAlone o k) (bodies : Bodies) (throws : Bool) :
    let run := putTo o k v throws bodies m
    (m.heap.canPut o k = false → run = refusedBy (putRefusal m.heap o k) throws m) ∧
    (m.heap.canPut o k = true →
      (((m.heap.object o).kind = .array → k ≠ .length ∧ k.index? = none) →
        ∃ h', run = .ok () { m with heap := h' } ∧ Heap.Assigned o k v m.heap h') ∧
      ∀ n₀ w₀, m.heap.ArrayOfLength o n₀ w₀ →
        (∀ i, k = .index i →
          (n₀ ≤ i.val → w₀ = false → run = refusedBy (.cannotPut (Text.ofNat i)) throws m) ∧
          (i.val < n₀ ∨ w₀ = true → ∃ h' w e c, run = .ok () { m with heap := h' } ∧
            Heap.ElementSet o i (.data v w e c) (max n₀ (i.val + 1)) w₀ m.heap h')) ∧
        (k = .length →
          let x := primitiveNumber v
          let n := x.toUint32
          ((Double.ofNat n).eq x = false → run = .error (.fault (.invalidArrayLength x.toPlain)) m) ∧
          ((Double.ofNat n).eq x = true →
            ((∀ b, ¬ m.heap.LastFixed o n b) →
              ∃ h', run = .ok () { m with heap := h' } ∧ Heap.LengthSet o n true m.heap h') ∧
            ∀ b, m.heap.LastFixed o n b → ∃ h',
              run = refusedBy (.cannotDelete (Text.ofNat b)) throws { m with heap := h' } ∧
              Heap.LengthSet o (b.val + 1) true m.heap h'))) := by
  refine ⟨putTo_refused, fun hcan => ⟨putTo_assigns hfree halone hcan, fun n₀ w₀ ha => ⟨?_, ?_⟩⟩⟩
  · rintro i rfl
    exact putTo_element hv hfree hcan ha
  · rintro rfl
    exact putTo_length hv hfree hcan ha

/-- The array of the sparse machine has no prototype, and no accessors. -/
theorem freeOfAccessors_sparseMachine {k : Key}
    (hk : ∀ g s e c, sparseArray.properties.get? k ≠ some (.accessor g s e c)) :
    sparseMachine.heap.FreeOfAccessors Heap.empty.nextObject k := by
  intro p hp g s e c
  have hnone : sparseMachine.heap.prototypeOf Heap.empty.nextObject = none := by
    unfold Heap.prototypeOf
    rw [object_sparseMachine]
    rfl
  rcases hp.cases_head with heq | ⟨p', hnext, _⟩
  · rw [← heq, getOwn?_sparseMachine]
    exact hk g s e c
  · cases hnone.symm.trans hnext

theorem standsAlone_sparseMachine (k : Key) : sparseMachine.heap.StandsAlone Heap.empty.nextObject k := by
  have hnone : sparseMachine.heap.sharedParameter? Heap.empty.nextObject k = none := by
    refine Heap.sharedParameter?_of_not_arguments (fun a ha => ?_) k
    rw [object_sparseMachine] at ha
    cases ha
  intro o' j hsome
  rw [hnone] at hsome
  cases hsome

/-- An element is made behind the others; and the length cannot be set to 1, since the element at 2 stays. -/
theorem putTo_exact_sparse :
    (∃ h' w e c, putTo Heap.empty.nextObject (.index ⟨7, by decide⟩) .null false (bodiesAt 0) sparseMachine =
        .ok () { sparseMachine with heap := h' } ∧
      Heap.ElementSet Heap.empty.nextObject ⟨7, by decide⟩ (.data .null w e c) 8 true sparseMachine.heap h') ∧
    ∃ h', putTo Heap.empty.nextObject .length (.ofNat 1) true (bodiesAt 0) sparseMachine =
        .error (.fault (.cannotDelete (Text.ofNat 2))) { sparseMachine with heap := h' } ∧
      Heap.LengthSet Heap.empty.nextObject 3 true sparseMachine.heap h' := by
  constructor
  · have hnone : sparseArray.properties.get? (.index ⟨7, by decide⟩) = none := by decide +kernel
    have hfree := freeOfAccessors_sparseMachine (k := .index ⟨7, by decide⟩) fun g s e c => by
      rw [hnone]
      nofun
    have hcan : sparseMachine.heap.canPut Heap.empty.nextObject (.index ⟨7, by decide⟩) = true := by
      unfold Heap.canPut
      rw [getOwn?_sparseMachine]
      decide +kernel
    have hput := (putTo_exact (v := .null) rfl hfree (standsAlone_sparseMachine _) (bodiesAt 0) false).2 hcan
    have hindex := (hput.2 5 true arrayOfLength_sparseMachine).1
    exact (hindex _ rfl).2 (.inr rfl)
  · have hdata : sparseArray.properties.get? .length = some (.data (.ofNat 5) true false false) := by decide +kernel
    have hfree := freeOfAccessors_sparseMachine (k := .length) fun g s e c => by
      rw [hdata]
      nofun
    have hcan : sparseMachine.heap.canPut Heap.empty.nextObject .length = true := by
      unfold Heap.canPut
      rw [getOwn?_sparseMachine]
      decide +kernel
    have hput := (putTo_exact (v := .ofNat 1) rfl hfree (standsAlone_sparseMachine _) (bodiesAt 0) true).2 hcan
    have hlength := ((hput.2 5 true arrayOfLength_sparseMachine).2 rfl).2
    have hone : (primitiveNumber (.ofNat 1)).toUint32 = 1 := by decide +kernel
    have hwhole : (Double.ofNat 1).eq (primitiveNumber (.ofNat 1)) = true := by decide +kernel
    rw [hone] at hlength
    have hfixed := (hlength hwhole).2 ⟨2, by decide⟩ lastFixed_sparseMachine
    exact hfixed

end Ecma51
