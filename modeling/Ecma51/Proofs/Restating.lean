import Ecma51.Proofs.Assignment
import Ecma51.Proofs.SoundArrays

/-!
# Properties defined as what they are

A program can have a property described by an object, and define the property as that object says. The description
is complete and true, so there is nothing to do, whatever the rules of the object's kind. All that happens is that the
description itself is made, for which there has to be room.

* **`Heap.defining_same`**: a property that is defined as what it is, by the rules of every kind.
* `Heap.Describes`, **`toDescriptor_run`**: what is read back from a description.
* `Machine.Intact`: whatever is in use is as before.
* **`restate_exact`**: a property is described and defined accordingly.
-/

namespace Ecma51

/-! ## 1. Complete descriptions -/

/-- The names of the parts of a description. -/
def descriptorNames : List String := ["value", "writable", "get", "set", "enumerable", "configurable"]

/-- **What a complete description says of a property already holds.** -/
theorem Descriptor.holdsOf_ofProperty (p : Property) : (Descriptor.ofProperty p).holdsOf p = true := by
  have hsame (v : Value) : v.same v = true := decide_eq_true rfl
  cases p with
  | data v w e c =>
    simp [ofProperty, data, holdsOf, agrees, agreesFlag, isAccessor, Property.enumerable, Property.configurable, hsame]
  | accessor g s e c =>
    simp [ofProperty, accessor, holdsOf, agrees, agreesFlag, isData, Property.enumerable, Property.configurable, hsame]

namespace Bindings

theorem put_self {b : Bindings} {name : Text} {x : Binding} (hx : b.find? name = some x) : b.put name x = b := by
  unfold find? at hx
  induction b with
  | nil => cases hx
  | cons y b ih =>
    obtain ⟨n, y⟩ := y
    unfold put
    by_cases hn : n = name
    · subst hn
      rw [List.lookup_cons_self] at hx
      rw [if_pos rfl, Option.some.inj hx]
    · rw [List.lookup_cons, beq_eq_false_iff_ne.mpr (Ne.symm hn)] at hx
      rw [if_neg hn, ih hx]

/-- A value that is bound already is stored without effect. -/
theorem store_self {b : Bindings} {name : Text} {v : Value} (hv : ∀ x, b.find? name = some x → x.value = v) :
    b.store name v = b := by
  unfold store
  cases hx : b.find? name with
  | none => rfl
  | some x =>
    have hsame : ({ x with value := v } : Binding) = x := by rw [← hv x hx]
    dsimp only
    rw [hsame, put_self hx]

end Bindings

namespace Heap

variable {h h' : Heap} {o : ObjectId} {k : Key} {p : Property}

/-! ## 2. Definitions without effect -/

/-- Every object and every environment is as before. -/
structure SameContent (h h' : Heap) : Prop where
  object : ∀ o, h'.object o = h.object o
  environment : ∀ e, h'.environment e = h.environment e

theorem SameContent.refl (h : Heap) : SameContent h h := ⟨fun _ => rfl, fun _ => rfl⟩

/-- A parameter is given the value that it has. -/
theorem sameContent_passOn {e : EnvironmentId} {name : Text} {v : Value}
    (hv : ∀ u, h.valueOf? e name = some u → u = v) : SameContent h (h.passOn e name (some v)) := by
  refine ⟨object_passOn h e name (some v), fun e' => ?_⟩
  unfold passOn modifyBindings
  dsimp only
  cases hb : h.bindings? e with
  | none => rfl
  | some b =>
    have hstore : b.store name v = b := Bindings.store_self fun x hx => by
      refine hv _ ?_
      unfold valueOf?
      rw [hb, Option.bind_some, hx, Option.map_some]
    have hrecord : (h.environment e).record = .declarative b := by
      unfold bindings? at hb
      split at hb
      · rename_i hrecord
        rw [hrecord, Option.some.inj hb]
      · cases hb
    dsimp only
    rw [hstore]
    unfold setRecord
    rw [← hrecord]
    unfold environment
    rw [Std.TreeMap.getD_insert]
    split
    · rename_i heq
      rw [Std.LawfulEqCmp.eq_of_compare heq]
    · rfl

/-- What stands for a parameter is a writable value, and shows the value of the parameter. -/
theorem data_of_sharedParameter? (hl : (h.object o).Linked) {e : EnvironmentId} {name : Text}
    (hx : h.sharedParameter? o k = some (e, name)) (hp : h.getOwn? o k = some p) :
    ∃ v en c, p = .data v true en c ∧ ∀ u, h.valueOf? e name = some u → u = v := by
  obtain ⟨q, hq, rfl⟩ := exists_own_of_getOwn hp
  have hshared : h.shared? o k = h.valueOf? e name := by
    rw [shared?_eq_valueOf?, hx]
    rfl
  obtain ⟨a, ha, hx⟩ := Option.bind_eq_some_iff.mp hx
  obtain ⟨n, hn, hx⟩ := Option.bind_eq_some_iff.mp hx
  obtain ⟨t, ht, _⟩ := Option.bind_eq_some_iff.mp hx
  have hkind := kind_of_argumentsOf? ha
  cases k with
  | name t => cases hn
  | index i =>
    cases hn
    obtain ⟨v, en, c, hstored⟩ := hl a hkind i t ht
    rw [Object.own?_of_arguments hkind, hstored] at hq
    cases hq
    rw [hshared]
    cases hv : h.valueOf? e name with
    | none => exact ⟨v, en, c, rfl, fun u hu => by cases hu⟩
    | some u => exact ⟨u, en, c, rfl, fun _ hu => (Option.some.inj hu).symm⟩

section Same

variable (hp : h.getOwn? o k = some p)

include hp

theorem defineOrdinary_same : h.defineOrdinary o k (.ofProperty p) = .done h := by
  unfold defineOrdinary
  rw [hp]
  dsimp only
  rw [if_pos (Descriptor.holdsOf_ofProperty p)]

theorem define_same (hl : (h.object o).Linked) (hindex : (h.object o).kind = .array → k.index? = none) :
    ∃ h', h.define o k (.ofProperty p) = .done h' ∧ SameContent h h' := by
  have hordinary := defineOrdinary_same hp
  cases hx : h.sharedParameter? o k with
  | none => exact ⟨h, (define_unshared hindex hx _).trans hordinary, .refl h⟩
  | some x =>
    obtain ⟨v, en, c, rfl, hv⟩ := data_of_sharedParameter? hl hx hp
    have hr : (h.defineOrdinary o k (.ofProperty (.data v true en c))).refusal = none := by rw [hordinary]; rfl
    have hdone := define_value hindex (d := .ofProperty (.data v true en c)) rfl rfl nofun hr
    rw [hordinary, hx] at hdone
    exact ⟨_, hdone, sameContent_passOn hv⟩

theorem ArrayOfLength.defining_same {n : Nat} {w : Bool} (ha : h.ArrayOfLength o n w) :
    ∃ h', h.defining o k (.ofProperty p) = .ok (.done h') ∧ SameContent h h' := by
  have hordinary := defineOrdinary_same hp
  have hl : (h.object o).Linked := fun a harguments => by
    rw [ha.kind] at harguments
    cases harguments
  by_cases hk : k = .length
  -- the length is not below itself, so no element is removed
  · subst hk
    obtain rfl := Option.some.inj (ha.length.symm.trans hp)
    have hwhole : (primitiveNumber (.ofNat n)).toUint32 = n := Double.toUint32_ofNat ha.inRange
    have heq : (Double.ofNat n).eq (primitiveNumber (.ofNat n)) = true := Double.eq_self (Double.ofNat_ne_nan n)
    refine ⟨h, ?_, .refl h⟩
    rw [ha.defining_length (v := .ofNat n) rfl]
    unfold settingLength setLength
    rw [hwhole, if_pos heq, ha.lengthOf, if_pos (Nat.le_refl n)]
    exact congrArg Except.ok hordinary
  · cases k with
    | name t =>
      obtain ⟨h', hdefine, hsame⟩ := define_same hp hl fun _ => rfl
      have hnone : lengthValue? (h.object o) (.name t) (.ofProperty p) = none :=
        Option.eq_none_iff_forall_ne_some.mpr fun v hv => hk (array_of_lengthValue? hv).2
      exact ⟨h', (defining_of_lengthValue? hnone).trans (congrArg Except.ok hdefine), hsame⟩
    | index i =>
      have hlt : i.val < n := ha.above i (by rw [hp]; rfl)
      refine ⟨h, ?_, .refl h⟩
      rw [ha.defining_index]
      unfold Heap.defineElement
      have hsucceeded : (Outcome.done h).succeeded = true := rfl
      rw [if_neg fun hfull => Nat.not_le.mpr hlt hfull.1, hordinary]
      dsimp only
      rw [hsucceeded, Bool.not_true, if_neg Bool.false_ne_true, if_neg (Nat.not_le.mpr hlt)]

/-- **A property that is defined as what it is stays as it is**, and so does everything else, by the rules of every
kind. -/
theorem defining_same (hl : (h.object o).Linked) (hs : (h.object o).kind = .array → h.SoundArray o) :
    ∃ h', h.defining o k (.ofProperty p) = .ok (.done h') ∧ SameContent h h' := by
  by_cases hkind : (h.object o).kind = .array
  · obtain ⟨n, w, hn, hlength, habove⟩ := (hs hkind).length
    exact ArrayOfLength.defining_same hp ⟨hkind, hn, hlength, habove⟩
  · obtain ⟨h', hdefine, hsame⟩ := define_same hp hl fun harray => absurd harray hkind
    have hnone : lengthValue? (h.object o) k (.ofProperty p) = none :=
      Option.eq_none_iff_forall_ne_some.mpr fun v hv => hkind (array_of_lengthValue? hv).1
    exact ⟨h', (defining_of_lengthValue? hnone).trans (congrArg Except.ok hdefine), hsame⟩

end Same

/-! ## 3. Objects that describe -/

/-- The value can be called, or is undefined. -/
def MayCall (h : Heap) (f : Value) : Prop := f.isUndefined = true ∨ h.isCallable f = true

/-- The accessors of a property can be called or are undefined. -/
def HasFunctions (h : Heap) : Property → Prop
  | .data _ _ _ _ => True
  | .accessor g s _ _ => h.MayCall g ∧ h.MayCall s

/-- Accessors are stored as they are seen. -/
theorem stored?_accessor {g s : Value} {e c : Bool} (hp : h.getOwn? o k = some (.accessor g s e c)) :
    h.stored? o k = some (.accessor g s e c) := by
  obtain ⟨q, hq, hshown⟩ := exists_own_of_getOwn hp
  cases q with
  | data v w e c => cases hv : h.shared? o k <;> rw [hv] at hshown <;> cases hshown
  | accessor g s e c =>
    cases hshown
    unfold Object.own? at hq
    split at hq
    · rename_i t _
      rcases Option.or_eq_some_iff.mp hq with hstored | ⟨_, hunit⟩
      · exact hstored
      · obtain ⟨i, _, hunit⟩ := Option.bind_eq_some_iff.mp hunit
        obtain ⟨u, _, hunit⟩ := Option.bind_eq_some_iff.mp hunit
        cases hunit
    · exact hq

/-- The object has the parts of the description of a property; other parts it has not, nor does it inherit them. -/
structure Describes (h : Heap) (d : ObjectId) (p : Property) : Prop where
  plain : h.IsPlain d
  part : ∀ part ∈ descriptorFields p, h.HasOwn d (.ofString part.1) part.2
  other : ∀ name ∈ descriptorNames, name ∉ (descriptorFields p).map (·.1) →
    h.getProperty? d (.ofString name) = none

end Heap

/-! ## 4. Descriptions read back -/

section Reading

variable {bodies : Bodies} {m : Machine} {d : ObjectId} {name : String} {v : Value} {p : Property}

theorem field?_own (hd : m.heap.IsPlain d) (hv : m.heap.HasOwn d (.ofString name) v) :
    field? d name bodies m = .ok (some v) m := by
  have hhas : m.heap.hasProperty d (.ofString name) = true := by
    obtain ⟨w, e, c, hget⟩ := hv
    unfold Heap.hasProperty
    rw [Heap.getProperty?_of_own hget]
    rfl
  have hget : getNamed d name bodies m = .ok v m := getFrom_own hd hv
  unfold field?
  rw [getHeap_bind_run, hhas, if_pos rfl, bind_run_ok hget]
  rfl

theorem field?_absent (hnone : m.heap.getProperty? d (.ofString name) = none) :
    field? d name bodies m = .ok none m := by
  have hhas : m.heap.hasProperty d (.ofString name) = false := by
    unfold Heap.hasProperty
    rw [hnone]
    rfl
  unfold field?
  rw [getHeap_bind_run, hhas, if_neg Bool.false_ne_true]
  rfl

theorem keptField?_own (hd : m.heap.IsPlain d) (hv : m.heap.HasOwn d (.ofString name) v) :
    keptField? d name bodies m = .ok (some v) { m with held := v :: m.held } := by
  unfold keptField?
  rw [bind_run_ok (field?_own hd hv)]
  rfl

theorem keptField?_absent (hnone : m.heap.getProperty? d (.ofString name) = none) :
    keptField? d name bodies m = .ok none m := by
  unfold keptField?
  rw [bind_run_ok (field?_absent hnone)]
  rfl

theorem accessorField?_own (hd : m.heap.IsPlain d) (hv : m.heap.HasOwn d (.ofString name) v)
    (hcall : m.heap.MayCall v) (refusal : Fault) :
    accessorField? d name refusal bodies m = .ok (some v) { m with held := v :: m.held } := by
  have hadmitted : (v.isUndefined || m.heap.isCallable v) = true := Bool.or_eq_true_iff.mpr hcall
  unfold accessorField?
  rw [bind_run_ok (keptField?_own hd hv)]
  dsimp only
  rw [getHeap_bind_run]
  dsimp only
  rw [if_pos hadmitted]
  rfl

theorem accessorField?_absent (hnone : m.heap.getProperty? d (.ofString name) = none) (refusal : Fault) :
    accessorField? d name refusal bodies m = .ok none m := by
  unfold accessorField?
  rw [bind_run_ok (keptField?_absent hnone)]
  rfl

/-- **A description is read back as what was described.** -/
theorem toDescriptor_run (hd : m.heap.Describes d p) (hp : m.heap.HasFunctions p) (bodies : Bodies) :
    ∃ held, toDescriptor (.object d) bodies m = .ok (.ofProperty p) { m with held := held } := by
  cases p with
  | data v w e c =>
    have henumerable := hd.part ("enumerable", .boolean e) (by simp [descriptorFields])
    have hconfigurable := hd.part ("configurable", .boolean c) (by simp [descriptorFields])
    have hvalue := hd.part ("value", v) (by simp [descriptorFields])
    have hwritable := hd.part ("writable", .boolean w) (by simp [descriptorFields])
    have hget := hd.other "get" (by simp [descriptorNames]) (by simp [descriptorFields])
    have hset := hd.other "set" (by simp [descriptorNames]) (by simp [descriptorFields])
    refine ⟨v :: m.held, ?_⟩
    refine (bind_run_ok (field?_own hd.plain henumerable) _).trans ?_
    refine (bind_run_ok (field?_own hd.plain hconfigurable) _).trans ?_
    refine (bind_run_ok (keptField?_own hd.plain hvalue) _).trans ?_
    refine (bind_run_ok (field?_own (m := { m with held := v :: m.held }) hd.plain hwritable) _).trans ?_
    refine (bind_run_ok (accessorField?_absent (m := { m with held := v :: m.held }) hget _) _).trans ?_
    refine (bind_run_ok (accessorField?_absent (m := { m with held := v :: m.held }) hset _) _).trans ?_
    rfl
  | accessor g s e c =>
    have henumerable := hd.part ("enumerable", .boolean e) (by simp [descriptorFields])
    have hconfigurable := hd.part ("configurable", .boolean c) (by simp [descriptorFields])
    have hvalue := hd.other "value" (by simp [descriptorNames]) (by simp [descriptorFields])
    have hwritable := hd.other "writable" (by simp [descriptorNames]) (by simp [descriptorFields])
    have hget := hd.part ("get", g) (by simp [descriptorFields])
    have hset := hd.part ("set", s) (by simp [descriptorFields])
    refine ⟨s :: g :: m.held, ?_⟩
    refine (bind_run_ok (field?_own hd.plain henumerable) _).trans ?_
    refine (bind_run_ok (field?_own hd.plain hconfigurable) _).trans ?_
    refine (bind_run_ok (keptField?_absent hvalue) _).trans ?_
    refine (bind_run_ok (field?_absent hwritable) _).trans ?_
    refine (bind_run_ok (accessorField?_own hd.plain hget hp.1 _) _).trans ?_
    refine (bind_run_ok (accessorField?_own (m := { m with held := g :: m.held }) hd.plain hset hp.2 _) _).trans ?_
    rfl

end Reading

/-! ## 5. What is in use -/

/-- In the heap everything that the machine uses is as before: objects and environments, and so the properties that
programs see, the order of keys, lengths, what stands for parameters, and what these are bound to. -/
structure Machine.Intact (m : Machine) (h : Heap) : Prop where
  object : ∀ o, m.heap.InUse m.roots [] (Heap.objectNode o) → h.object o = m.heap.object o
  environment : ∀ e, m.heap.InUse m.roots [] (Heap.environmentNode e) → h.environment e = m.heap.environment e
  property : ∀ o, m.heap.InUse m.roots [] (Heap.objectNode o) → ∀ k, h.getOwn? o k = m.heap.getOwn? o k
  keys : ∀ o, m.heap.InUse m.roots [] (Heap.objectNode o) → h.ownKeys o = m.heap.ownKeys o
  length : ∀ o, m.heap.InUse m.roots [] (Heap.objectNode o) → h.lengthOf o = m.heap.lengthOf o
  parameter : ∀ o, m.heap.InUse m.roots [] (Heap.objectNode o) →
    ∀ k, h.sharedParameter? o k = m.heap.sharedParameter? o k
  bindings : ∀ e, m.heap.InUse m.roots [] (Heap.environmentNode e) → h.bindings? e = m.heap.bindings? e

namespace Machine

variable {m : Machine} {h h' : Heap} {o : ObjectId} {k : Key} {p : Property}

/-- The environment of an arguments object is in use if the object is. -/
theorem inUse_environment (ho : m.heap.InUse m.roots [] (Heap.objectNode o)) {a : ArgumentsData}
    (ha : (m.heap.object o).kind = .arguments a) :
    m.heap.InUse m.roots [] (Heap.environmentNode a.environment) := by
  rcases m.heap.object_cases o with hx | hnone
  · refine ho.refers (.scope hx ?_)
    unfold Object.kindValues
    rw [ha]
    exact List.mem_cons_self
  · rw [hnone] at ha
    cases ha

/-- Objects and environments are all that there is. -/
theorem intact_of_content
    (hobject : ∀ o, m.heap.InUse m.roots [] (Heap.objectNode o) → h.object o = m.heap.object o)
    (henvironment : ∀ e, m.heap.InUse m.roots [] (Heap.environmentNode e) →
      h.environment e = m.heap.environment e) : m.Intact h := by
  have hbindings (e : EnvironmentId) (he : m.heap.InUse m.roots [] (Heap.environmentNode e)) :
      h.bindings? e = m.heap.bindings? e := by
    unfold Heap.bindings?
    rw [henvironment e he]
  refine ⟨hobject, henvironment, fun o ho k => ?_, fun o ho => ?_, fun o ho => ?_, fun o ho k => ?_, hbindings⟩
  · have hshared : h.shared? o k = m.heap.shared? o k := by
      unfold Heap.shared?
      rw [Heap.argumentsOf?_of_object (hobject o ho)]
      cases ha : m.heap.argumentsOf? o with
      | none => rfl
      | some a =>
        rw [Option.bind_some, Option.bind_some]
        unfold Heap.mappedValue?
        rw [hbindings _ (inUse_environment ho (Heap.kind_of_argumentsOf? ha))]
    rw [Heap.getOwn?_eq, Heap.getOwn?_eq, hobject o ho, hshared]
  · unfold Heap.ownKeys
    rw [hobject o ho]
  · unfold Heap.lengthOf Heap.stored?
    rw [hobject o ho]
  · exact Heap.sharedParameter?_of_kind (by rw [hobject o ho]) k

theorem Intact.of_sameContent (hi : m.Intact h) (hs : h.SameContent h') : m.Intact h' :=
  intact_of_content (fun o ho => (hs.object o).trans (hi.object o ho))
    fun e he => (hs.environment e).trans (hi.environment e he)

/-- A new object disturbs nothing, if its number is not in use. -/
theorem Intact.add (hi : m.Intact h) (hnew : ¬ m.heap.InUse m.roots [] (Heap.objectNode h.nextObject)) (x : Object) :
    m.Intact (h.add x).1 := by
  refine intact_of_content (fun o ho => ?_) hi.environment
  rw [Heap.object_add, if_neg]
  · exact hi.object o ho
  · rintro rfl
    exact hnew ho

/-- Asking for room disturbs nothing. -/
theorem intact_reserve (m : Machine) : m.Intact m.reserve.1.heap := by
  obtain ⟨hobjects, henvironments⟩ := m.heap.inUse_reserve m.roots [] m.heapLimit m.nextCollection
  refine intact_of_content (fun o ho => ?_) fun e he => ?_
  · unfold Heap.object reserve
    rw [Std.TreeMap.getD_eq_getD_getElem?, Std.TreeMap.getD_eq_getD_getElem?, hobjects o ho]
  · unfold Heap.environment reserve
    rw [Std.TreeMap.getD_eq_getD_getElem?, Std.TreeMap.getD_eq_getD_getElem?, henvironments e he]

/-- Accessors of an object in use can be called if they could. -/
theorem Intact.hasFunctions (hi : m.Intact h) (ho : m.heap.InUse m.roots [] (Heap.objectNode o))
    (hp : m.heap.getOwn? o k = some p) (hf : m.heap.HasFunctions p) : h.HasFunctions p := by
  cases p with
  | data v w e c => trivial
  | accessor g s e c =>
    obtain ⟨x, hx, hk⟩ := Heap.exists_of_stored? (Heap.stored?_accessor hp)
    have hcall (f : Value) (hmem : f ∈ (Property.accessor g s e c).values) (hf : m.heap.MayCall f) : h.MayCall f := by
      cases f with
      | object r =>
        have hr := hi.object r (ho.refers (.property hx hk hmem))
        refine hf.imp_right fun hcallable => ?_
        show (h.object r).isCallable = true
        rw [hr]
        exact hcallable
      | _ => exact hf
    exact ⟨hcall g List.mem_cons_self hf.1, hcall s (List.mem_cons_of_mem _ List.mem_cons_self) hf.2⟩

/-- Lookups from an object in use find what they found. -/
theorem Intact.findUpTo (hi : m.Intact h) (k : Key) (n : Nat)
    (ho : m.heap.InUse m.roots [] (Heap.objectNode o)) :
    h.findUpTo k n (some o) = m.heap.findUpTo k n (some o) := by
  induction n generalizing o with
  | zero => rfl
  | succ n ih =>
    unfold Heap.findUpTo
    rw [hi.property o ho, hi.object o ho]
    cases hprototype : (m.heap.object o).prototype with
    | none => cases n <;> rfl
    | some p =>
      obtain ⟨x, hx, hp⟩ := Heap.exists_of_prototype hprototype
      rw [ih (ho.refers (.prototype hx hp))]

theorem objectPrototype_mem_roots (m : Machine) : Heap.objectNode Intrinsic.objectPrototype.id ∈ m.roots := by
  unfold roots
  rw [Heap.objectNode_mem_nodesOf]
  refine List.mem_append_left _ (List.mem_append_left _ (List.mem_append_left _ (List.mem_cons_of_mem _ ?_)))
  exact List.mem_map.mpr ⟨.objectPrototype, List.mem_cons_self, rfl⟩

end Machine

theorem Heap.findUpTo_eq_none_of_le {h : Heap} {k : Key} {n n' : Nat} {start : Option ObjectId} (hn : n ≤ n')
    (hnone : h.findUpTo k n' start = none) : h.findUpTo k n start = none := by
  induction n generalizing n' start with
  | zero => rfl
  | succ n ih =>
    cases start with
    | none => rfl
    | some o =>
      cases n' with
      | zero => omega
      | succ n' =>
        unfold findUpTo at hnone ⊢
        obtain ⟨hown, hrest⟩ := Option.or_eq_none_iff.mp hnone
        rw [hown, ih (Nat.le_of_succ_le_succ hn) hrest]
        rfl

/-- The properties of the object that describes a property. -/
theorem get?_descriptorObject (p : Property) :
    (∀ part ∈ descriptorFields p, (descriptorObject p).properties.get? (.ofString part.1) = some (.plain part.2)) ∧
      ∀ name ∈ descriptorNames, name ∈ (descriptorFields p).map (·.1) ∨
        (descriptorObject p).properties.get? (.ofString name) = none := by
  cases p with
  | data v w e c =>
    constructor
    · simp only [descriptorFields, List.forall_mem_cons]
      exact ⟨rfl, rfl, rfl, rfl, List.forall_mem_nil _⟩
    · simp only [descriptorNames, List.forall_mem_cons]
      exact ⟨.inl (.head _), .inl (.tail _ (.head _)), .inr rfl, .inr rfl, .inl (.tail _ (.tail _ (.head _))),
        .inl (.tail _ (.tail _ (.tail _ (.head _)))), List.forall_mem_nil _⟩
  | accessor g s e c =>
    constructor
    · simp only [descriptorFields, List.forall_mem_cons]
      exact ⟨rfl, rfl, rfl, rfl, List.forall_mem_nil _⟩
    · simp only [descriptorNames, List.forall_mem_cons]
      exact ⟨.inr rfl, .inr rfl, .inl (.head _), .inl (.tail _ (.head _)), .inl (.tail _ (.tail _ (.head _))),
        .inl (.tail _ (.tail _ (.tail _ (.head _)))), List.forall_mem_nil _⟩

/-- **A new object describes a property**, if the names of the parts are not inherited. -/
theorem Machine.Intact.describes {m : Machine} {h : Heap} (hi : m.Intact h) (hsize : h.size ≤ m.heap.size)
    (hnew : ¬ m.heap.InUse m.roots [] (Heap.objectNode h.nextObject))
    (hplain : ∀ name ∈ descriptorNames,
      m.heap.hasProperty Intrinsic.objectPrototype.id (.ofString name) = false) (p : Property) :
    (h.add (descriptorObject p)).1.Describes h.nextObject p := by
  have hobject : (h.add (descriptorObject p)).1.object h.nextObject = descriptorObject p := by
    rw [Heap.object_add, if_pos rfl]
  have hordinary : (h.add (descriptorObject p)).1.IsPlain h.nextObject := by
    refine .inr ?_
    rw [hobject]
    exact Object.kind_foldl_withProperty _ _ _ _
  have hown (k : Key) : (h.add (descriptorObject p)).1.getOwn? h.nextObject k =
      (descriptorObject p).properties.get? k := by
    rw [hordinary.getOwn?]
    unfold Heap.stored?
    rw [hobject]
  obtain ⟨hparts, hothers⟩ := get?_descriptorObject p
  refine ⟨hordinary, fun part hpart => ⟨true, true, true, (hown _).trans (hparts part hpart)⟩,
    fun name hname hnot => ?_⟩
  have hinherited : m.heap.findUpTo (.ofString name) (m.heap.size + 1) (some Intrinsic.objectPrototype.id) = none :=
    Option.not_isSome_iff_eq_none.mp (Bool.eq_false_iff.mp (hplain name hname))
  -- what bounds the search is the size of the heap, and collections make that smaller
  have hle : (h.add (descriptorObject p)).1.size ≤ m.heap.size + 1 :=
    Nat.le_trans (h.size_add_le _) (Nat.succ_le_succ hsize)
  have hprototype : (descriptorObject p).prototype = some Intrinsic.objectPrototype.id := by cases p <;> rfl
  unfold Heap.getProperty? Heap.findUpTo
  rw [hown, (hothers name hname).resolve_left hnot, hobject, hprototype, Option.none_or,
    (hi.add hnew _).findUpTo _ _ (.outside m.objectPrototype_mem_roots)]
  exact Heap.findUpTo_eq_none_of_le hle hinherited

/-! ## 6. Properties restated -/

/-- What the object says that describes an own property. -/
def redescribe (o : ObjectId) (k : Key) : Run Descriptor := do
  toDescriptor (← describe ((← getHeap).getOwn? o k))

/-- Defines an own property as the object says that describes it. -/
def restate (o : ObjectId) (k : Key) (throws : Bool) : Run Bool := holding [.object o] do
  defineOwn o k (← redescribe o k) throws

/-- The machine while it works with an object. -/
def Machine.keeping (m : Machine) (o : ObjectId) : Machine := { m with held := [.object o] ++ m.held }

/-- There is no room for another object: those in use fill the limit. -/
def Machine.Crowded (m : Machine) : Prop :=
  ∃ n, m.heapLimit = some n ∧ n ≤ (m.heap.objectsInUse m.roots []).ncard

theorem Machine.not_crowded_of_unlimited {m : Machine} (hm : m.heapLimit = none) : ¬ m.Crowded := by
  rintro ⟨n, hlimit, _⟩
  cases hm.symm.trans hlimit

section Runs

variable {bodies : Bodies} {m : Machine} {o : ObjectId} {k : Key} {p : Property}

theorem newObjectOf_crowded (hm : m.Crowded) (x : Object) :
    newObjectOf x bodies m = .error (.fault .outOfMemory) m.reserve.1 := by
  have hfits := (m.heap.refused_iff m.roots [] m.heapLimit m.nextCollection).mpr hm
  unfold newObjectOf
  exact bind_run_error ((allocate_run bodies m).trans (if_neg (Bool.eq_false_iff.mp hfits))) _

theorem newObjectOf_free (hm : ¬ m.Crowded) (x : Object) :
    newObjectOf x bodies m =
      .ok m.heap.nextObject { m.reserve.1 with heap := (m.reserve.1.heap.add x).1 } := by
  have hfits : m.reserve.2 = true := by
    by_contra hnot
    exact hm ((m.heap.refused_iff m.roots [] m.heapLimit m.nextCollection).mp (Bool.eq_false_iff.mpr hnot))
  unfold newObjectOf
  refine (bind_run_ok ((allocate_run bodies m).trans (if_pos hfits)) _).trans ?_
  rw [← nextObject_reserve m]
  rfl

theorem redescribe_crowded (hm : m.Crowded) (hp : m.heap.getOwn? o k = some p) :
    redescribe o k bodies m = .error (.fault .outOfMemory) m.reserve.1 := by
  have hdescribe : describe (some p) bodies m = .error (.fault .outOfMemory) m.reserve.1 :=
    bind_run_error (newObjectOf_crowded hm _) _
  unfold redescribe
  rw [getHeap_bind_run, hp]
  exact bind_run_error hdescribe _

/-- **What the new object says is what the property is.** -/
theorem redescribe_free (hm : ¬ m.Crowded) (hp : m.heap.getOwn? o k = some p)
    (ho : m.heap.InUse m.roots [] (Heap.objectNode o)) (hf : m.heap.HasFunctions p)
    (hnew : ¬ m.heap.InUse m.roots [] (Heap.objectNode m.heap.nextObject))
    (hplain : ∀ name ∈ descriptorNames,
      m.heap.hasProperty Intrinsic.objectPrototype.id (.ofString name) = false) (bodies : Bodies) :
    ∃ h held, m.Intact h ∧ redescribe o k bodies m =
      .ok (.ofProperty p) { m.reserve.1 with heap := h, held := held } := by
  have hreserve := m.intact_reserve
  have hnext := nextObject_reserve m
  have hnew' : ¬ m.heap.InUse m.roots [] (Heap.objectNode m.reserve.1.heap.nextObject) := by rwa [hnext]
  have hsize : m.reserve.1.heap.size ≤ m.heap.size := by
    rcases m.heap.reserve_cases m.roots [] m.heapLimit m.nextCollection with ⟨hr, _⟩ | ⟨next, hr⟩
    · unfold Machine.reserve
      rw [hr]
    · unfold Machine.reserve
      rw [hr]
      exact m.heap.size_collect_le m.roots []
  have hintact := hreserve.add hnew' (descriptorObject p)
  have hdescribes := hreserve.describes hsize hnew' hplain p
  rw [hnext] at hdescribes
  have hdescribe : describe (some p) bodies m = .ok (.object m.heap.nextObject)
      { m.reserve.1 with heap := (m.reserve.1.heap.add (descriptorObject p)).1 } :=
    (bind_run_ok (newObjectOf_free hm _) _).trans rfl
  obtain ⟨held, hread⟩ := toDescriptor_run
    (m := { m.reserve.1 with heap := (m.reserve.1.heap.add (descriptorObject p)).1 }) hdescribes
    (hintact.hasFunctions ho hp hf) bodies
  refine ⟨_, held, hintact, ?_⟩
  unfold redescribe
  rw [getHeap_bind_run, hp, bind_run_ok hdescribe]
  exact hread

/-- A property that is defined as what it is. -/
theorem defineOwn_same (hp : m.heap.getOwn? o k = some p) (hl : (m.heap.object o).Linked)
    (hs : (m.heap.object o).kind = .array → m.heap.SoundArray o) (bodies : Bodies) (throws : Bool) :
    ∃ h, m.heap.SameContent h ∧ defineOwn o k (.ofProperty p) throws bodies m = .ok true { m with heap := h } := by
  have hprimitive : m.heap.GivesPrimitive o k (.ofProperty p) := by
    intro v hv
    obtain ⟨hkind, rfl⟩ := Heap.array_of_lengthValue? hv
    obtain ⟨n, w, _, hlength, _⟩ := (hs hkind).length
    obtain rfl := Option.some.inj (hlength.symm.trans hp)
    obtain rfl := Option.some.inj (Heap.value_of_lengthValue? hv)
    rfl
  obtain ⟨h, hdefining, hsame⟩ := Heap.defining_same hp hl hs
  refine ⟨h, hsame, ?_⟩
  rw [defineOwn_run hprimitive, hdefining]
  rfl

end Runs

theorem Heap.SoundArray.of_intact {m : Machine} {h : Heap} {o : ObjectId} (hs : m.heap.SoundArray o)
    (hi : m.Intact h) (ho : m.heap.InUse m.roots [] (Heap.objectNode o)) : h.SoundArray o := by
  obtain ⟨n, w, hn, hlength, habove⟩ := hs.length
  refine ⟨?_, n, w, hn, (hi.property o ho _).trans hlength, fun i hi' => habove i ?_⟩
  · rw [hi.object o ho]
    exact hs.kind
  · rwa [hi.property o ho] at hi'

/-- **A property that is described and defined accordingly stays as it is**, and so does everything else that is in
use. This holds of objects of every kind, provided that the length of an array is above its indices, that accessors can
be called or are undefined, and that the prototype of all objects neither has nor inherits a part of a description; the
number of the next object is not in use yet. There is no failure but one: if the objects in use fill the limit, a lack
of memory is reported, and nothing has changed. -/
theorem restate_exact {m : Machine} {o : ObjectId} {k : Key} {p : Property}
    (he : Heap.Evolves 0 [] Heap.empty m.heap)
    (hnew : ¬ m.heap.InUse (m.keeping o).roots [] (Heap.objectNode m.heap.nextObject))
    (hplain : ∀ name ∈ descriptorNames,
      m.heap.hasProperty Intrinsic.objectPrototype.id (.ofString name) = false)
    (hs : (m.heap.object o).kind = .array → m.heap.SoundArray o)
    (hp : m.heap.getOwn? o k = some p) (hf : m.heap.HasFunctions p) (bodies : Bodies) (throws : Bool) :
    ∃ m', (m.keeping o).Intact m'.heap ∧ m' = { m with heap := m'.heap, nextCollection := m'.nextCollection } ∧
      ((m.keeping o).Crowded → restate o k throws bodies m = .error (.fault .outOfMemory) m') ∧
      (¬ (m.keeping o).Crowded → restate o k throws bodies m = .ok true m') := by
  -- the object is kept, so whatever collection room is made by does not remove it
  have ho : (m.keeping o).heap.InUse (m.keeping o).roots [] (Heap.objectNode o) :=
    .outside (Machine.mem_roots_of_held List.mem_cons_self)
  by_cases hm : (m.keeping o).Crowded
  · have hrun : (do defineOwn o k (← redescribe o k) throws : Run Bool) bodies (m.keeping o) =
        .error (.fault .outOfMemory) (m.keeping o).reserve.1 :=
      bind_run_error (redescribe_crowded hm hp) _
    exact ⟨{ (m.keeping o).reserve.1 with held := m.held }, (m.keeping o).intact_reserve, rfl,
      fun _ => holding_error hrun, fun hnot => absurd hm hnot⟩
  · obtain ⟨h, held, hintact, hread⟩ := redescribe_free hm hp ho hf hnew hplain bodies
    have hobject : h.object o = m.heap.object o := hintact.object o ho
    obtain ⟨h', hsame, hdefine⟩ := defineOwn_same
      (m := { (m.keeping o).reserve.1 with heap := h, held := held }) ((hintact.property o ho k).trans hp)
      (by rw [hobject]; exact he.linked_of_empty o)
      (fun hkind => Heap.SoundArray.of_intact (m := m.keeping o) (hs (hobject ▸ hkind)) hintact ho) bodies throws
    have hrun : (do defineOwn o k (← redescribe o k) throws : Run Bool) bodies (m.keeping o) =
        .ok true { (m.keeping o).reserve.1 with heap := h', held := held } :=
      (bind_run_ok hread _).trans hdefine
    exact ⟨{ (m.keeping o).reserve.1 with heap := h', held := m.held }, hintact.of_sameContent hsame, rfl,
      fun hcrowded => absurd hcrowded hm, fun _ => holding_ok hrun⟩

theorem hasNoPart_start : ∀ name ∈ descriptorNames,
    (Machine.start {}).heap.hasProperty Intrinsic.objectPrototype.id (.ofString name) = false := by decide +kernel

theorem soundArray_start : (Machine.start {}).heap.SoundArray Intrinsic.arrayPrototype.id := by
  refine ⟨rfl, 0, true, by decide, by decide +kernel, fun i hi => ?_⟩
  have hnone : (Machine.start {}).heap.getOwn? Intrinsic.arrayPrototype.id (.index i) = none := rfl
  rw [hnone] at hi
  cases hi

/-- At the start there are 17 objects, and no reference to another. -/
theorem inUse_start_lt {n : Nat}
    (hn : (Machine.start {}).heap.InUse ((Machine.start {}).keeping Intrinsic.arrayPrototype.id).roots [] n) :
    n < 34 := by
  have houtside : ∀ n ∈ ((Machine.start {}).keeping Intrinsic.arrayPrototype.id).roots, n < 34 := by decide
  have hrefers : ∀ e ∈ (Machine.start {}).heap.references.toList, ∀ n ∈ e.2, n < 34 := by decide
  exact Heap.lt_of_inUse houtside hrefers hn

/-- The length of an array, which can be written, is defined as what it is. -/
theorem restate_exact_start :
    ∃ m', ((Machine.start {}).keeping Intrinsic.arrayPrototype.id).Intact m'.heap ∧
      restate Intrinsic.arrayPrototype.id .length true (bodiesAt 0) (.start {}) = .ok true m' := by
  have hnew : ¬ (Machine.start {}).heap.InUse ((Machine.start {}).keeping Intrinsic.arrayPrototype.id).roots []
      (Heap.objectNode (Machine.start {}).heap.nextObject) := by
    intro hn
    have hlt : 2 * 17 < 34 := inUse_start_lt hn
    exact absurd hlt (by decide)
  have hp : (Machine.start {}).heap.getOwn? Intrinsic.arrayPrototype.id .length =
      some (.data (.ofNat 0) true false false) := by decide +kernel
  obtain ⟨m', hintact, _, _, hfree⟩ := restate_exact (Machine.Reachable.start {}).evolves hnew hasNoPart_start
    (fun _ => soundArray_start) hp trivial (bodiesAt 0) true
  refine ⟨m', hintact, hfree ?_⟩
  rintro ⟨n, hlimit, _⟩
  cases hlimit

/-- A machine with as many objects as it may have. -/
def fullMachine : Machine := { Machine.start {} with heapLimit := some 17 }

/-- Makes a number the getter of a property. -/
def uncallableProgram : Tree :=
  .declareAs (.ofString "a") (.apply (.accessor false (.ofString "x")) [.object [], .literal (.ofNat 5)])

/-- The machine after that program. -/
def uncallableMachine : Machine :=
  endOf ((Action.runGlobal (.ofTree uncallableProgram false)).run.perform (.start {}))

/-- The fault with which an operation ended. -/
def faultOf? {α : Type} : EStateM.Result Failure Machine α → Option Fault
  | .error (.fault f) _ => some f
  | _ => none

/-- A property cannot be described if there is no room; and a getter that cannot be called is stored, but not accepted
in a description. -/
theorem restate_fails :
    (fullMachine.Reachable ∧ fullMachine.heap.SoundArray Intrinsic.arrayPrototype.id ∧
      (∀ name ∈ descriptorNames,
        fullMachine.heap.hasProperty Intrinsic.objectPrototype.id (.ofString name) = false) ∧
      (fullMachine.heap.getOwn? Intrinsic.arrayPrototype.id .length).isSome ∧
      faultOf? (restate Intrinsic.arrayPrototype.id .length true (bodiesAt 0) fullMachine) = some .outOfMemory) ∧
    uncallableMachine.Reachable ∧
      (∀ name ∈ descriptorNames,
        uncallableMachine.heap.hasProperty Intrinsic.objectPrototype.id (.ofString name) = false) ∧
      (uncallableMachine.heap.getOwn? Heap.skeleton.nextObject (.ofString "x")).isSome ∧
      faultOf? (restate Heap.skeleton.nextObject (.ofString "x") true (bodiesAt 0) uncallableMachine) =
        some .getterNotCallable :=
  ⟨⟨.aside (.start {}) rfl, soundArray_start, hasNoPart_start, by decide +kernel, by decide +kernel⟩,
    .act _ (.start {}), by decide +kernel, by decide +kernel, by decide +kernel⟩

end Ecma51
