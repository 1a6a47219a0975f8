import Ecma51.Proofs.Attributes

/-!
# What is frozen stays as it is

Nothing that happens changes the face of a frozen object: its own keys in their order, its own properties as
they are seen, its prototype. The time of a date is no property and may change.

* `Object.Frozen`, `Object.SameFace`: frozen objects, and objects with the same properties and prototype.
* **`Heap.Evolves.sameFace`**: frozen objects that are kept have the same face after any changes.
* `Attempt`: something that may be tried with a machine.
* **`unaltered_attempts`**: whatever is tried, a frozen object shows the same.
-/

namespace Ecma51

/-! ## 1. Frozen objects -/

/-- A property of which everything is permanent keeps everything. -/
theorem Property.Keeps.eq_of_isFixed {p q : Property} (h : p.Keeps q) (hp : Heap.isFixed true p = true) :
    q = p := by
  cases h with
  | accessor g s e => rfl
  | @data v v' w w' e hw =>
    cases w with
    | true => cases hp
    | false =>
      obtain ⟨rfl, rfl⟩ := hw rfl
      rfl

namespace Object

/-- The object takes no new properties, and none of those that it has can be removed or, if `frozen`, changed. -/
structure Restricted (frozen : Bool) (x : Object) : Prop where
  closed : x.extensible = false
  fixed : ∀ k p, x.own? k = some p → Heap.isFixed frozen p = true

/-- None can be changed. -/
abbrev Frozen (x : Object) : Prop := x.Restricted true

theorem Restricted.attributes {x : Object} (hx : x.Frozen) {k : Key} {p : Property} (hp : x.own? k = some p) :
    p.configurable = false ∧ p.writable = false := by
  have hfixed := hx.fixed k p hp
  cases p with
  | data v w e c =>
    have hfixed : (!c && !(true && w)) = true := hfixed
    show c = false ∧ w = false
    simpa using hfixed
  | accessor g s e c =>
    have hfixed : (!c) = true := hfixed
    exact ⟨Bool.not_eq_true' _ ▸ hfixed, rfl⟩

/-- The objects have the same own properties in the same order, and the same prototype. -/
structure SameFace (x y : Object) : Prop where
  own : y.own? = x.own?
  names : y.properties.nameKeys = x.properties.nameKeys
  text : ∀ t, y.kind = .string t ↔ x.kind = .string t
  prototype : y.prototype = x.prototype
  extensible : y.extensible = x.extensible

namespace SameFace

variable {x y z : Object}

theorem refl (x : Object) : x.SameFace x := ⟨rfl, rfl, fun _ => Iff.rfl, rfl, rfl⟩

theorem trans (h : x.SameFace y) (h' : y.SameFace z) : x.SameFace z :=
  ⟨h'.own.trans h.own, h'.names.trans h.names, fun t => (h'.text t).trans (h.text t),
    h'.prototype.trans h.prototype, h'.extensible.trans h.extensible⟩

theorem frozen (h : x.SameFace y) (hx : x.Frozen) : y.Frozen where
  closed := h.extensible.trans hx.closed
  fixed k p hp := by
    rw [h.own] at hp
    exact hx.fixed k p hp

end SameFace

/-- All own properties of a frozen object are upheld, and it gets no others. -/
theorem Upholds.own_eq {x y : Object} (h : x.Upholds y) (hx : x.Frozen) : y.own? = x.own? := by
  funext k
  cases hk : x.own? k with
  | none => exact (h.closed hx.closed).2 k hk
  | some p =>
    obtain ⟨q, hq, hkeeps⟩ := h.permanent k p hk (hx.attributes hk).1
    rw [hq, hkeeps.eq_of_isFixed (hx.fixed k p hk)]

end Object

namespace Heap

variable {h h' : Heap} {o : ObjectId}

/-- A frozen object shares nothing: what is seen is what is stored. -/
theorem getOwn?_of_frozen (hf : (h.object o).Frozen) (hl : (h.object o).Linked) (k : Key) :
    h.getOwn? o k = (h.object o).own? k := by
  rw [getOwn?_eq]
  cases hk : (h.object o).own? k with
  | none => rfl
  | some p =>
    cases hs : h.shared? o k with
    | none => cases p <;> rfl
    | some v =>
      have hwritable := shows_shared hl hk (by rw [hs]; rfl)
      rw [(hf.attributes hk).2] at hwritable
      cases hwritable

/-! ## 2. Changes -/

/-- What a frozen object admits has a name that is there, or an index. -/
theorem Admits.names_of_frozen (hf : (h.object o).Frozen) {k : Key} {d : Descriptor} {q : Property}
    (hq : h.Admits o k d q) :
    ((h.object o).withProperty k q).properties.nameKeys = (h.object o).properties.nameKeys := by
  refine PropertyTable.nameKeys_insert _ ?_ q
  rcases hq with ⟨_, hextensible, _⟩ | ⟨p, hp, _⟩
  · rw [hf.closed] at hextensible
    cases hextensible
  · obtain ⟨p', hown, _⟩ := exists_own_of_getOwn hp
    cases k with
    | index i => exact .inl rfl
    | name t =>
      right
      rw [← Object.own?_name, hown]
      rfl

/-- What a definition leaves of a frozen object besides its properties. -/
theorem face_defineOrdinary (hf : (h.object o).Frozen) (k : Key) (d : Descriptor) :
    let y := (h.defineOrdinary o k d).heap.object o
    y.properties.nameKeys = (h.object o).properties.nameKeys ∧ y.prototype = (h.object o).prototype ∧
      y.extensible = (h.object o).extensible := by
  rcases h.object_defineOrdinary o k d with hsame | ⟨q, hstored, hq⟩
  · rw [hsame]
    exact ⟨rfl, rfl, rfl⟩
  · rw [hstored]
    exact ⟨hq.names_of_frozen hf, rfl, rfl⟩

theorem Amend.sameFace (ha : Amend o h h') (hl : (h.object o).Linked) (hf : (h.object o).Frozen) :
    (h.object o).SameFace (h'.object o) := by
  have hface : (h'.object o).properties.nameKeys = (h.object o).properties.nameKeys ∧
      (h'.object o).prototype = (h.object o).prototype ∧
      (h'.object o).extensible = (h.object o).extensible := by
    cases ha with
    | ordinary k d _ => exact face_defineOrdinary hf k d
    | arguments k d =>
      have hordinary := face_defineOrdinary hf k d
      rcases (h.defineArguments_cases o k d).2 with hobject | ⟨hobject, _⟩ <;> rw [hobject]
      · rw [Object.properties_unmapped, Object.prototype_unmapped, Object.extensible_unmapped]
        exact hordinary
      · exact hordinary
    | delete k =>
      rcases h.object_deleteOwn o k with hsame | ⟨p, _, hown, hc⟩
      · rw [hsame]
        exact ⟨rfl, rfl, rfl⟩
      · rw [getOwn?_of_frozen hf hl] at hown
        rw [(hf.attributes hown).1] at hc
        cases hc
  exact ⟨(ha.upholds hl).2.own_eq hf, hface.1, ha.alike.text, hface.2.1, hface.2.2⟩

/-- **No definition and no deletion changes the face of a frozen object.** -/
theorem Amends.sameFace (ha : Amends o h h') (hl : (h.object o).Linked) (hf : (h.object o).Frozen) :
    (h.object o).SameFace (h'.object o) := by
  induction ha with
  | refl => exact .refl _
  | tail hto hstep ih => exact ih.trans (hstep.sameFace (Amends.upholds hto hl).1 (ih.frozen hf))

variable {bound : ObjectId} {kept : List Value} {found : ObjectId → Nat × Bool}

/-- The face stays if the object is frozen. -/
abbrev KeepsFace (x y : Object) : Prop := x.Frozen → x.SameFace y

/-- **No change changes the face of a frozen object** that is old and kept. -/
theorem Edit.sameFace (he : Edit bound kept found h h') (hl : ∀ o, (h.object o).Linked)
    (hbound : bound ≤ h.nextObject) (ho : o < bound) (hkept : .object o ∈ kept) :
    KeepsFace (h.object o) (h'.object o) := by
  have hrefl : ∀ x, KeepsFace x x := fun x _ => .refl x
  have hamends {o' : ObjectId} (ha : Amends o' h h') : KeepsFace (h.object o) (h'.object o) :=
    ha.touches.relates hrefl (ha.sameFace (hl o')) o
  cases he with
  | add _ =>
    rw [object_add, if_neg (Nat.ne_of_gt (Nat.lt_of_lt_of_le ho hbound))]
    exact hrefl _
  | environments hsame =>
    rw [object_of_objects hsame.objects]
    exact hrefl _
  | define o' k d _ => exact hamends (amends_define h o' k d)
  | setLength o' d n _ => exact hamends (amends_setLength h o' d n (found o').1 (found o').2)
  | delete o' k => exact hamends (.single (.delete k))
  | close o' =>
    refine (touches_modify h o' _).relates hrefl (fun hf => ?_) o
    rw [object_modify_self]
    exact ⟨rfl, rfl, fun _ => Iff.rfl, rfl, hf.closed.symm⟩
  | setPrototype o' p hp =>
    obtain ⟨ht, hobject⟩ := touches_setPrototype hp
    refine ht.relates hrefl (fun hf => ?_) o
    rcases hobject with hsame | ⟨_, hextensible⟩
    · rw [hsame]
      exact .refl _
    · rw [hf.closed] at hextensible
      cases hextensible
  | link o' i name ha _ =>
    refine (touches_modify h o' _).relates hrefl (fun _ => ?_) o
    rw [object_modify_self]
    refine ⟨?_, rfl, fun t => ?_, rfl, rfl⟩
    · unfold Object.own?
      rw [ha]
    · rw [ha]
      exact ⟨nofun, nofun⟩
  | setTime o' t hdate =>
    by_cases hoo : o = o'
    · subst hoo
      rw [object_modify_self]
      refine fun _ => ⟨own?_of_mayBeDate (hdate ho) t, rfl, fun u => ?_, rfl, rfl⟩
      rcases hdate ho with hkind | ⟨t', hkind⟩ <;> rw [hkind] <;> exact ⟨nofun, nofun⟩
    · rw [(touches_modify h o' _).other o hoo]
      exact hrefl _
  | complete o' f ho' _ =>
    rw [(touches_modify h o' f).other o (Nat.ne_of_lt (Nat.lt_of_lt_of_le ho ho'))]
    exact hrefl _
  | collect outside hroots =>
    rcases h.object_collect outside [] o with hsame | ⟨_, hnot⟩
    · rw [hsame]
      exact hrefl _
    · exact absurd (hroots o hkept) hnot

theorem Evolves.sameFace (he : Evolves bound kept h h') (hl : ∀ o, (h.object o).Linked)
    (hbound : bound ≤ h.nextObject) (ho : o < bound) (hkept : .object o ∈ kept) :
    KeepsFace (h.object o) (h'.object o) := by
  induction he with
  | refl => exact fun _ => .refl _
  | tail hto hwindow hstep ih ih' =>
    intro hf
    have hl₀ := hto.linked hl
    have hbound₀ := Nat.le_trans hbound hto.nextObject_le
    have hfirst := ih hl hbound hf
    have hsecond := hfirst.trans (ih' hl₀ hbound₀ (hfirst.frozen hf))
    exact hsecond.trans (hstep.sameFace (hwindow.linked hl₀)
      (Nat.le_trans hbound₀ hwindow.nextObject_le) ho hkept (hsecond.frozen hf))

/-! ## 3. What is seen -/

theorem isSome_unitProperty? {t : Text} {i : ArrayIndex} :
    (unitProperty? t (.index i)).isSome ↔ i.val < t.length := by
  show ((t.units[i.val]?).bind fun u => some _).isSome ↔ i.val < t.units.size
  by_cases hi : i.val < t.units.size
  · rw [Array.getElem?_eq_getElem hi]
    exact iff_of_true rfl hi
  · rw [Array.getElem?_eq_none (Nat.le_of_not_lt hi)]
    exact iff_of_false Bool.false_ne_true hi

/-- Beyond the units, an index is stored. -/
theorem own?_beyond {x : Object} {t : Text} (hkind : x.kind = .string t) {i : ArrayIndex}
    (hi : t.length ≤ i.val) : x.own? (.index i) = x.properties.get? (.index i) := by
  have hunit : unitProperty? t (.index i) = none :=
    Option.not_isSome_iff_eq_none.mp fun hunit => Nat.not_lt.mpr hi (isSome_unitProperty?.mp hunit)
  unfold Object.own?
  rw [hkind]
  dsimp only
  rw [hunit, Option.or_none]

/-- The own keys are those of the units, of other indices and of names. -/
theorem ownKeys_of_string {t : Text} (hkind : (h.object o).kind = .string t) :
    h.ownKeys o = (List.range t.length).map .ofNat ++
      ((h.object o).properties.indexKeys.filter fun i => t.length ≤ i.val).map .index ++
      (h.object o).properties.nameKeys.map .name := by
  unfold ownKeys
  dsimp only
  rw [hkind]

/-- **Objects with the same face have the same own keys** in the same order. -/
theorem ownKeys_of_sameFace (hs : (h.object o).SameFace (h'.object o)) : h'.ownKeys o = h.ownKeys o := by
  have hown (i : ArrayIndex) : (h'.object o).own? (.index i) = (h.object o).own? (.index i) := by
    rw [hs.own]
  by_cases hstring : ∃ t, (h.object o).kind = .string t
  · obtain ⟨t, ht⟩ := hstring
    have ht' := (hs.text t).mpr ht
    rw [ownKeys_of_string ht, ownKeys_of_string ht', hs.names]
    congr 3
    refine PropertyTable.eq_of_ascending ((h'.object o).properties.pairwise_indexKeys.filter _)
      ((h.object o).properties.pairwise_indexKeys.filter _) fun i => ?_
    rw [List.mem_filter, List.mem_filter, PropertyTable.mem_indexKeys, PropertyTable.mem_indexKeys]
    refine and_congr_left fun hi => ?_
    have hi := of_decide_eq_true hi
    rw [← own?_beyond ht hi, ← own?_beyond ht' hi, hown]
  · have hstored (t : Text) : (h.object o).kind ≠ .string t := fun ht => hstring ⟨t, ht⟩
    have hstored' (t : Text) : (h'.object o).kind ≠ .string t := fun ht => hstored t ((hs.text t).mp ht)
    rw [ownKeys_of_stored hstored, ownKeys_of_stored hstored']
    unfold PropertyTable.keys
    rw [hs.names, PropertyTable.eq_of_ascending (h'.object o).properties.pairwise_indexKeys
      (h.object o).properties.pairwise_indexKeys fun i => ?_]
    rw [PropertyTable.mem_indexKeys, PropertyTable.mem_indexKeys, ← own?_of_stored hstored,
      ← own?_of_stored hstored', hown]

/-- Every own property has its key among the own keys. -/
theorem mem_ownKeys_of_own {k : Key} {p : Property} (hp : (h.object o).own? k = some p) :
    k ∈ h.ownKeys o := by
  by_cases hstring : ∃ t, (h.object o).kind = .string t
  · obtain ⟨t, ht⟩ := hstring
    rw [ownKeys_of_string ht]
    cases k with
    | name u =>
      rw [Object.own?_name] at hp
      exact List.mem_append_right _ (List.mem_map_of_mem (PropertyTable.mem_nameKeys_of_get? hp))
    | index i =>
      refine List.mem_append_left _ ?_
      by_cases hi : i.val < t.length
      · have hkey : Key.ofNat i.val = .index i := by
          unfold Key.ofNat ArrayIndex.ofNat?
          rw [dif_pos i.isLt]
        exact List.mem_append_left _ (List.mem_map.mpr ⟨i.val, List.mem_range.mpr hi, hkey⟩)
      · rw [own?_beyond ht (Nat.le_of_not_lt hi)] at hp
        refine List.mem_append_right _ (List.mem_map_of_mem (List.mem_filter.mpr ⟨?_, ?_⟩))
        · rw [PropertyTable.mem_indexKeys, hp]
          rfl
        · exact decide_eq_true (Nat.le_of_not_lt hi)
  · have hkind (t : Text) : (h.object o).kind ≠ .string t := fun ht => hstring ⟨t, ht⟩
    rw [ownKeys_of_stored hkind]
    rw [own?_of_stored hkind] at hp
    exact PropertyTable.mem_keys_of_get? hp

theorem isFixed_showing (frozen : Bool) (p : Property) (v : Option Value) :
    isFixed frozen (showing p v) = isFixed frozen p := by
  cases p <;> cases v <;> rfl

/-- **An object is found to be sealed or frozen** if and only if it is. -/
theorem isRestricted_iff {frozen : Bool} :
    h.isRestricted o frozen = true ↔ (h.object o).Restricted frozen := by
  unfold isRestricted
  rw [Bool.and_eq_true, Bool.not_eq_true', List.all_eq_true]
  constructor
  · rintro ⟨hclosed, hall⟩
    refine ⟨hclosed, fun k p hp => ?_⟩
    have hk := hall k (mem_ownKeys_of_own hp)
    rw [getOwn?_eq, hp] at hk
    exact (isFixed_showing frozen p _).symm.trans hk
  · rintro ⟨hclosed, hfixed⟩
    refine ⟨hclosed, fun k _ => ?_⟩
    rw [getOwn?_eq]
    cases hk : (h.object o).own? k with
    | none => rfl
    | some p => exact (isFixed_showing frozen p _).trans (hfixed k p hk)

/-- The object shows the same own properties in the same order, and has the same prototype. -/
structure Unaltered (o : ObjectId) (h h' : Heap) : Prop where
  keys : h'.ownKeys o = h.ownKeys o
  own : ∀ k, h'.getOwn? o k = h.getOwn? o k
  prototype : (h'.object o).prototype = (h.object o).prototype

theorem unaltered_of_sameFace (hf : (h.object o).Frozen) (hl : (h.object o).Linked)
    (hl' : (h'.object o).Linked) (hs : (h.object o).SameFace (h'.object o)) : Unaltered o h h' where
  keys := ownKeys_of_sameFace hs
  own k := by
    rw [getOwn?_of_frozen hf hl, getOwn?_of_frozen (hs.frozen hf) hl', hs.own]
  prototype := hs.prototype

end Heap

/-! ## 4. Attempts -/

/-- Something that may be tried with a machine, once it is set up. -/
inductive Attempt where
  | action (a : Action) (ha : a ≠ .install)
  | setPrototype (o : ObjectId) (p : Option ObjectId)
  /-- An assignment to a name in an environment, for which an index of an arguments object may stand. -/
  | assign (e : EnvironmentId) (name : Text) (v : Value) (strict : Bool)

/-- Tries it, for its effect on the machine. -/
def Attempt.run : Attempt → Run Unit
  | action a _ => a.run
  | setPrototype o p => do let _ ← Ecma51.setPrototype o p
  | assign e name v strict => assignBinding e name v strict

/-- Tries it while an object is kept. -/
def Attempt.runKeeping (a : Attempt) (o : ObjectId) : Run Unit := holding [.object o] a.run

/-- The machine after attempts while an object is kept, each made however the ones before it ended. -/
def Machine.afterAttempts (m : Machine) (o : ObjectId) : List Attempt → Machine
  | [] => m
  | a :: rest => (endOf ((a.runKeeping o).perform m)).afterAttempts o rest

theorem composed_attempt {bound : ObjectId} (a : Attempt) : Composed bound a.run := by
  cases a with
  | action a ha => exact composed_action_of_ne ha
  | setPrototype o p => exact .bind (composed_setPrototype o p) fun _ => .pure _
  | assign e name v strict => exact .built (built_assignBinding e name v strict)

/-- **Nothing that is tried alters a frozen object.** -/
theorem sameFace_attempts {m : Machine} (hl : ∀ o, (m.heap.object o).Linked) {o : ObjectId}
    (ho : o < m.heap.nextObject) (hf : (m.heap.object o).Frozen) (attempts : List Attempt) :
    (∀ o', ((m.afterAttempts o attempts).heap.object o').Linked) ∧
      (m.heap.object o).SameFace ((m.afterAttempts o attempts).heap.object o) := by
  induction attempts generalizing m with
  | nil => exact ⟨hl, .refl _⟩
  | cons a attempts ih =>
    have he : Heap.Evolves m.heap.nextObject ([.object o] ++ m.held) m.heap
        (endOf ((a.runKeeping o).perform m)).heap :=
      evolves_holding ((composed_attempt a).leads (bodiesAt_tame _)) _ (Nat.le_refl _)
    have hfirst := he.sameFace hl (Nat.le_refl _) ho List.mem_cons_self hf
    obtain ⟨hl', hrest⟩ := ih (he.linked hl) (Nat.lt_of_lt_of_le ho he.nextObject_le) (hfirst.frozen hf)
    exact ⟨hl', hfirst.trans hrest⟩

theorem unaltered_attempts {m : Machine} (hl : ∀ o, (m.heap.object o).Linked) {o : ObjectId}
    (ho : o < m.heap.nextObject) (hf : (m.heap.object o).Frozen) (attempts : List Attempt) :
    Heap.Unaltered o m.heap (m.afterAttempts o attempts).heap := by
  obtain ⟨hl', hface⟩ := sameFace_attempts hl ho hf attempts
  exact Heap.unaltered_of_sameFace hf (hl o) (hl' o) hface

end Ecma51
