import Ecma51.Library
import Ecma51.Proofs.JsonReading
import Ecma51.Proofs.JsonTree
import Ecma51.Realm

/-!
# Values of JSON text

The parser makes the values of a text while it goes through it. An array is made after its items and an object
before its members, and meanwhile the heap may be searched for what can be dropped; nothing that belongs to the
value is. Each nested value is one more call under way until it is read or the text is found wrong.

* `Machine.Grows`: a machine with more objects, in which trees that it works with are as before.
* `Completes`: an operation ends well, or with a fault and nothing else.
* **`Completes.nestedCall`**: as many calls are under way afterwards, however a nested value ends.
* **`parsesAt_parseValue`**: values are made as the reader of data reads them.
* **`parseJson_exact`**: the value of a text.
-/

namespace Ecma51

/-! ## 1. New objects -/

/-- Nothing has changed but the heap, when it is searched next, and what is kept. -/
def Machine.Rests (m m' : Machine) : Prop :=
  m' = { m with heap := m'.heap, nextCollection := m'.nextCollection, held := m'.held }

/-- The machine has more objects, and objects that are kept and trees of values that are kept are as before, if
their objects are numbered below `bound`. -/
structure Machine.Grows (bound : Nat) (m m' : Machine) : Prop where
  held : m.held ⊆ m'.held
  next : m.heap.nextObject ≤ m'.heap.nextObject
  holds {j : Json} {a b : Nat} {v : Value} : v ∈ m.held → b ≤ bound → m.heap.Holds j a b v →
    m'.heap.Holds j a b v
  object {o : ObjectId} : .object o ∈ m.held → o < bound → m'.heap.objects[o]? = m.heap.objects[o]?

namespace Machine

variable {bound : Nat} {m m' m'' : Machine}

theorem Rests.trans (h : m.Rests m') (h' : m'.Rests m'') : m.Rests m'' := by
  unfold Rests at h h' ⊢
  rw [h', h]

theorem Rests.heapLimit (h : m.Rests m') : m'.heapLimit = m.heapLimit := by
  rw [h]

theorem Rests.keeping (h : m.Rests m') (vs : List Value) : m.Rests { m' with held := vs ++ m'.held } := by
  unfold Rests at h ⊢
  rw [h]

/-- As many calls are left. -/
theorem Rests.remaining (h : m.Rests m') : m'.maxCallDepth - m'.callDepth = m.maxCallDepth - m.callDepth := by
  rw [h]

theorem Grows.trans (h : m.Grows bound m') (h' : m'.Grows bound m'') : m.Grows bound m'' where
  held := List.Subset.trans h.held h'.held
  next := Nat.le_trans h.next h'.next
  holds hv hb hholds := h'.holds (h.held hv) hb (h.holds hv hb hholds)
  object ho hb := (h'.object (h.held ho) hb).trans (h.object ho hb)

theorem Grows.mono {bound' : Nat} (h : m.Grows bound m') (hle : bound' ≤ bound) : m.Grows bound' m' :=
  ⟨h.held, h.next, fun hv hb => h.holds hv (Nat.le_trans hb hle),
    fun ho hb => h.object ho (Nat.lt_of_lt_of_le hb hle)⟩

/-- More may be kept, and in the end again what was kept before. -/
theorem Grows.keeping (bound : Nat) (m : Machine) (vs : List Value) :
    m.Grows bound { m with held := vs ++ m.held } :=
  ⟨List.subset_append_right _ _, Nat.le_refl _, fun _ _ hh => hh, fun _ _ => rfl⟩

theorem Grows.released (h : m.Grows bound m') : m.Grows bound { m' with held := m.held } :=
  ⟨List.Subset.refl _, h.next, h.holds, h.object⟩

theorem Grows.holdsItems (h : m.Grows bound m') {js : List Json} {a b : Nat} {vs : List Value}
    (hvs : vs ⊆ m.held) (hb : b ≤ bound) (hh : m.heap.HoldsItems js a b vs) :
    m'.heap.HoldsItems js a b vs := by
  induction js generalizing a vs with
  | nil =>
    rw [Heap.HoldsItems] at hh ⊢
    exact hh
  | cons j js ih =>
    rw [Heap.HoldsItems] at hh ⊢
    obtain ⟨c, v, more, rfl, hv, hmore⟩ := hh
    have hcb := hmore.le
    exact ⟨c, v, more, rfl, h.holds (hvs List.mem_cons_self) (Nat.le_trans hcb hb) hv,
      ih (fun w hw => hvs (List.mem_cons_of_mem v hw)) hmore⟩

end Machine

theorem Heap.nextObject_reserve (h : Heap) (limit : Option Nat) (nextCollection : Nat)
    (outside borrowed : List Nat) :
    (h.reserve limit nextCollection outside borrowed).heap.nextObject = h.nextObject := by
  rcases h.reserve_cases outside borrowed limit nextCollection with ⟨hr, _⟩ | ⟨next, hr⟩
  · rw [hr]
  · rw [hr]
    rfl

theorem Heap.getElem?_set (h : Heap) (o p : ObjectId) (x : Object) :
    (h.set o x).objects[p]? = if o = p then some x else h.objects[p]? := by
  unfold Heap.set
  rw [Std.TreeMap.getElem?_insert]
  exact if_congr Std.LawfulEqCmp.compare_eq_iff_eq rfl rfl

/-- What is kept is referred to from outside of the heap. -/
theorem Machine.mem_roots_of_held {m : Machine} {o : ObjectId} (h : .object o ∈ m.held) :
    Heap.objectNode o ∈ m.roots := by
  unfold Machine.roots
  rw [Heap.objectNode_mem_nodesOf]
  exact List.mem_append_right _ (List.mem_cons_of_mem _ h)

section Build

variable {bodies : Bodies}

variable (bodies) in
/-- **Without a limit an object is always made**, and those in use are as before. -/
theorem newObjectOf_makes {m : Machine} (hlimit : m.heapLimit = none) (x : Object) :
    ∃ m', newObjectOf x bodies m = .ok m.heap.nextObject m' ∧ m.Rests m' ∧ m'.held = m.held ∧
      m'.heap.nextObject = m.heap.nextObject + 1 ∧ m'.heap.objects[m.heap.nextObject]? = some x ∧
      ∀ o, m.heap.InUse m.roots [] (Heap.objectNode o) → o ≠ m.heap.nextObject →
        m'.heap.objects[o]? = m.heap.objects[o]? := by
  have hfits : (m.heap.reserve m.heapLimit m.nextCollection m.roots []).fits = true := by
    rw [Heap.fits_reserve, hlimit]
    rfl
  have hnext := m.heap.nextObject_reserve m.heapLimit m.nextCollection m.roots []
  have hkept := (m.heap.inUse_reserve m.roots [] m.heapLimit m.nextCollection).1
  have hallocate := allocate_run_reserve bodies m
  generalize m.heap.reserve m.heapLimit m.nextCollection m.roots [] = room at *
  have hrun : newObjectOf x bodies m = .ok room.heap.nextObject
      { m with heap := (room.heap.add x).1, nextCollection := room.nextCollection } := by
    unfold newObjectOf
    rw [bind_run_ok (hallocate.trans (if_pos hfits))]
    rfl
  have hobjects (o : ObjectId) : (room.heap.add x).1.objects[o]? =
      if room.heap.nextObject = o then some x else room.heap.objects[o]? := room.heap.getElem?_set _ o x
  rw [hnext] at hrun hobjects
  refine ⟨_, hrun, rfl, rfl, congrArg (· + 1) hnext, ?_, fun o ho hne => ?_⟩
  · rw [hobjects, if_pos rfl]
  · rw [hobjects, if_neg hne.symm]
    exact hkept o ho

variable (bodies) in
/-- A new object leaves trees that are kept as before. -/
theorem newObjectOf_run {m : Machine} (hlimit : m.heapLimit = none) (x : Object) :
    ∃ m', newObjectOf x bodies m = .ok m.heap.nextObject m' ∧ m.Rests m' ∧
      m.Grows m.heap.nextObject m' ∧ m'.held = m.held ∧ m'.heap.nextObject = m.heap.nextObject + 1 ∧
      m'.heap.objects[m.heap.nextObject]? = some x := by
  obtain ⟨m', hrun, hrest, hheld, hnext, hobject, hkept⟩ := newObjectOf_makes bodies hlimit x
  refine ⟨m', hrun, hrest, ⟨?_, ?_, ?_, fun ho hb => ?_⟩, hheld, hnext, hobject⟩
  · rw [hheld]
    exact List.Subset.refl _
  · rw [hnext]
    exact Nat.le_succ _
  · intro j a b v hv hb hh
    refine hh.keep (m.heap.spreads_inUse m.roots []) j (fun o ho => ?_) fun o ho _ hob => ?_
    · exact .outside (Machine.mem_roots_of_held (ho ▸ hv))
    · exact hkept o ho (Nat.ne_of_lt (Nat.lt_of_lt_of_le hob hb))
  · exact hkept _ (.outside (Machine.mem_roots_of_held ho)) (Nat.ne_of_lt hb)

/-! ## 2. Members -/

theorem holdsOf_plain (v w : Value) :
    (Descriptor.data v true true true).holdsOf (.plain w) = decide (v = w) := by
  show (true && (true && decide (v = w) && true)) = _
  rw [Bool.true_and, Bool.true_and, Bool.and_true]

theorem redefine?_plain (v w : Value) :
    (Descriptor.data v true true true).redefine? (.plain w) = some (.plain v) := by
  unfold Descriptor.redefine?
  rw [holdsOf_plain]
  by_cases h : v = w
  · rw [if_pos (decide_eq_true h), h]
  · rw [if_neg (by rw [decide_eq_true_iff]; exact h)]
    rfl

variable (bodies) in
/-- A property of an object that has no rules of its own is defined as an ordinary one. -/
theorem createData_of_done {m : Machine} {o : ObjectId} (hkind : (m.heap.object o).kind = .ordinary) {k : Key}
    {v : Value} {h' : Heap} (hdone : m.heap.defineOrdinary o k (.data v true true true) = .done h') :
    createData o k v bodies m = .ok true { m with heap := h' } := by
  unfold createData defineOwn
  rw [getHeap_bind_run]
  have hlength : lengthValue? (m.heap.object o) k (.data v true true true) = none := by
    unfold lengthValue? Object.isArray
    rw [hkind]
    rfl
  have hdefine : m.heap.define o k (.data v true true true) = .done h' := by
    unfold Heap.define
    rw [hkind]
    exact hdone
  rw [hlength]
  dsimp only
  rw [hdefine]
  rfl

/-- The object with one more member stored, and the others. -/
theorem isRecord_store {h : Heap} {o : ObjectId} {x : Object} {pairs : List (Text × Value)}
    (ho : h.objects[o]? = some x) (hx : x.IsRecord pairs) (name : Text) (v : Value) :
    ∃ x', (h.store o (.ofText name) (.plain v)).objects[o]? = some x' ∧ x'.IsRecord (pairs ++ [(name, v)]) ∧
      ∀ p, p ≠ o → (h.store o (.ofText name) (.plain v)).objects[p]? = h.objects[p]? := by
  have hstore (p : ObjectId) : (h.store o (.ofText name) (.plain v)).objects[p]? =
      if o = p then some (x.withProperty (.ofText name) (.plain v)) else h.objects[p]? := by
    unfold Heap.store Heap.modify
    rw [Heap.object_of_getElem? ho]
    exact h.getElem?_set o p _
  exact ⟨_, (hstore o).trans (if_pos rfl), hx.insert name v, fun p hp => (hstore p).trans (if_neg hp.symm)⟩

variable (bodies) in
/-- **A member is added to a record**, and nothing else changes. -/
theorem createData_run {m : Machine} {o : ObjectId} {x : Object} {pairs : List (Text × Value)}
    (ho : m.heap.objects[o]? = some x) (hx : x.IsRecord pairs) (name : Text) (v : Value) :
    ∃ h' x', createData o (.ofText name) v bodies m = .ok true { m with heap := h' } ∧
      h'.nextObject = m.heap.nextObject ∧ h'.environments = m.heap.environments ∧ h'.objects[o]? = some x' ∧
      x'.IsRecord (pairs ++ [(name, v)]) ∧ ∀ p, p ≠ o → h'.objects[p]? = m.heap.objects[p]? := by
  have hobject := Heap.object_of_getElem? ho
  have hkind : (m.heap.object o).kind = .ordinary := by rw [hobject, hx.kind]
  have hown : m.heap.getOwn? o (.ofText name) = x.properties.get? (.ofText name) := by
    unfold Heap.getOwn?
    dsimp only
    rw [hobject, hx.kind]
  obtain ⟨x', hx', hrecord, hothers⟩ := isRecord_store ho hx name v
  cases hget : x.properties.get? (.ofText name) with
  | none =>
    refine ⟨m.heap.store o (.ofText name) (.plain v), x', createData_of_done bodies hkind ?_, rfl, rfl, hx', hrecord,
      hothers⟩
    unfold Heap.defineOrdinary
    rw [hown, hget]
    dsimp only
    rw [hobject, hx.extensible]
    rfl
  | some p =>
    obtain ⟨w, rfl⟩ : ∃ w, p = .plain w := by
      rw [hx.get?] at hget
      obtain ⟨w, _, hw⟩ := Option.map_eq_some_iff.mp hget
      exact ⟨w, hw.symm⟩
    by_cases hvw : v = w
    · refine ⟨m.heap, x, createData_of_done bodies hkind ?_, rfl, rfl, ho, hx.again (by rw [hget, hvw]),
        fun _ _ => rfl⟩
      unfold Heap.defineOrdinary
      rw [hown, hget]
      dsimp only
      rw [holdsOf_plain, if_pos (decide_eq_true hvw)]
    · refine ⟨m.heap.store o (.ofText name) (.plain v), x', createData_of_done bodies hkind ?_, rfl, rfl, hx',
        hrecord, hothers⟩
      unfold Heap.defineOrdinary
      rw [hown, hget]
      dsimp only
      rw [holdsOf_plain, if_neg (by rw [decide_eq_true_iff]; exact hvw), redefine?_plain]

/-! ## 3. Operations that end well or with a fault -/

/-- Either nothing is wrong and the operation ends well, or it ends with what is wrong first. -/
def Completes {α : Type} (fault : Option Fault) (bodies : Bodies) (x : Run α) (m : Machine)
    (post : α → Machine → Prop) : Prop :=
  (fault = none ∧ ∃ a m', x bodies m = .ok a m' ∧ m.Rests m' ∧ post a m') ∨
    ∃ f m', fault = some f ∧ x bodies m = .error (.fault f) m' ∧ m.Rests m'

namespace Completes

variable {α β : Type} {fault fault' : Option Fault} {m : Machine}

theorem ok {x : Run α} {a : α} {m' : Machine} {post : α → Machine → Prop} (hx : x bodies m = .ok a m')
    (hrest : m.Rests m') (hpost : post a m') : Completes none bodies x m post :=
  .inl ⟨rfl, a, m', hx, hrest, hpost⟩

/-- An operation that goes on as another one. -/
theorem congr {x y : Run α} {m' : Machine} {post : α → Machine → Prop} (hrun : x bodies m = y bodies m')
    (hrest : m.Rests m') (hy : Completes fault bodies y m' post) : Completes fault bodies x m post := by
  rcases hy with ⟨hfault, a, m'', hy, hrest', hpost⟩ | ⟨f, m'', hfault, hy, hrest'⟩
  · exact .inl ⟨hfault, a, m'', hrun.trans hy, hrest.trans hrest', hpost⟩
  · exact .inr ⟨f, m'', hfault, hrun.trans hy, hrest.trans hrest'⟩

theorem mono {x : Run α} {post post' : α → Machine → Prop} (hx : Completes fault bodies x m post)
    (hpost : ∀ a m', post a m' → post' a m') : Completes fault bodies x m post' := by
  rcases hx with ⟨hfault, a, m', hrun, hrest, ha⟩ | hx
  · exact .inl ⟨hfault, a, m', hrun, hrest, hpost a m' ha⟩
  · exact .inr hx

/-- What is wrong first with two operations in turn. -/
theorem bind {x : Run α} {g : α → Run β} {mid : α → Machine → Prop} {post : β → Machine → Prop}
    (hx : Completes fault bodies x m mid)
    (hg : ∀ a m', m.Rests m' → mid a m' → Completes fault' bodies (g a) m' post) :
    Completes (fault.or fault') bodies (x >>= g) m post := by
  rcases hx with ⟨rfl, a, m', hrun, hrest, hmid⟩ | ⟨f, m', rfl, hrun, hrest⟩
  · rw [Option.none_or]
    rcases hg a m' hrest hmid with ⟨rfl, b, m'', hrun', hrest', hpost⟩ | ⟨f, m'', rfl, hrun', hrest'⟩
    · exact .inl ⟨rfl, b, m'', (bind_run_ok hrun g).trans hrun', hrest.trans hrest', hpost⟩
    · exact .inr ⟨f, m'', rfl, (bind_run_ok hrun g).trans hrun', hrest.trans hrest'⟩
  · exact .inr ⟨f, m', Option.some_or, bind_run_error hrun g, hrest⟩

theorem holding {x : Run α} {vs : List Value} {mid post : α → Machine → Prop}
    (hx : Completes fault bodies x { m with held := vs ++ m.held } mid)
    (hmid : ∀ a m', mid a m' → post a { m' with held := m.held }) :
    Completes fault bodies (Ecma51.holding vs x) m post := by
  rcases hx with ⟨rfl, a, m', hrun, hrest, hpost⟩ | ⟨f, m', rfl, hrun, hrest⟩
  · refine .inl ⟨rfl, a, _, ?_, ?_, hmid a m' hpost⟩
    · unfold Ecma51.holding
      rw [hrun]
    · unfold Machine.Rests at hrest ⊢
      rw [hrest]
  · refine .inr ⟨f, { m' with held := m.held }, rfl, ?_, ?_⟩
    · unfold Ecma51.holding
      rw [hrun]
    · unfold Machine.Rests at hrest ⊢
      rw [hrest]

/-- **A nested operation ends as it does with one call more under way**, and that call is finished however it
ends. -/
theorem nestedCall {x : Run α} {mid post : α → Machine → Prop} (hfree : m.callDepth < m.maxCallDepth)
    (hx : Completes fault bodies x { m with callDepth := m.callDepth + 1 } mid)
    (hmid : ∀ a m', mid a m' → post a { m' with callDepth := m'.callDepth - 1 }) :
    Completes fault bodies (Ecma51.nestedCall x) m post := by
  have henter : enterCall bodies m = _ := enterCall_free (Nat.not_le.mpr hfree)
  -- one call more is under way when the operation ends, so one less is as many as before
  have hback {m' : Machine} (hrest : ({ m with callDepth := m.callDepth + 1 } : Machine).Rests m') :
      m.Rests { m' with callDepth := m'.callDepth - 1 } := by
    unfold Machine.Rests at hrest ⊢
    rw [hrest]
    rfl
  rcases hx with ⟨rfl, a, m', hrun, hrest, hpost⟩ | ⟨f, m', rfl, hrun, hrest⟩
  · exact .inl ⟨rfl, a, _, (bind_run_ok henter _).trans (leaving_ok hrun), hback hrest, hmid a m' hpost⟩
  · exact .inr ⟨f, _, rfl, (bind_run_ok henter _).trans (leaving_error hrun), hback hrest⟩

variable (bodies) in
/-- As deep as calls may go nothing is nested any more. -/
theorem nestedCall_full {x : Run α} {post : α → Machine → Prop} (hfull : m.maxCallDepth ≤ m.callDepth) :
    Completes (some .stackOverflow) bodies (Ecma51.nestedCall x) m post :=
  .inr ⟨_, m, rfl, bind_run_error (enterCall_full hfull) _, rfl⟩

end Completes

/-! ## 4. Parts of a text -/

open Json (Reading)

/-- A value is made of a part of a text as the part is read: it stands for the data, with new objects, and as much
of the text is left. If the part is wrong, this ends with what is wrong first. -/
def Parses (reading : Reading Json) (bodies : Bodies) (x : Run (Value × List CodeUnit)) (m : Machine) : Prop :=
  Completes reading.1.fault? bodies x m fun r m' => m.Grows m.heap.nextObject m' ∧ m'.held = m.held ∧
    m'.heap.Holds reading.1 m.heap.nextObject m'.heap.nextObject r.1 ∧ reading.2 = some r.2

/-- The same for the items of an array, whose values are kept. -/
def ParsesItems (reading : Reading (List Json)) (bodies : Bodies) (x : Run (List Value × List CodeUnit))
    (m : Machine) : Prop :=
  Completes (Json.faultOfItems? reading.1) bodies x m fun r m' => m.Grows m.heap.nextObject m' ∧
    r.1 ⊆ m'.held ∧ m'.heap.HoldsItems reading.1 m.heap.nextObject m'.heap.nextObject r.1 ∧
    reading.2 = some r.2

/-- The same for members that an object gets after those that it has. -/
def ParsesMembers (done : List (Text × Json)) (o : ObjectId) (reading : Reading (List (Text × Json)))
    (bodies : Bodies) (x : Run (List CodeUnit)) (m : Machine) : Prop :=
  Completes (Json.faultOfMembers? reading.1) bodies x m fun rest m' => m.Grows o m' ∧ m'.held = m.held ∧
    m'.heap.Holds (.object (done ++ reading.1)) o m'.heap.nextObject (.object o) ∧ reading.2 = some rest

/-- A value without inner structure stands for data whatever the heap is. -/
structure IsScalar (j : Json) (v : Value) : Prop where
  fault? : j.fault? = none
  holds (h : Heap) (a : Nat) : h.Holds j a a v

theorem isScalar_null : IsScalar .null .null := by
  refine ⟨rfl, fun h a => ?_⟩
  rw [Heap.Holds]
  exact ⟨rfl, rfl⟩

theorem isScalar_boolean (b : Bool) : IsScalar (.boolean b) (.boolean b) := by
  refine ⟨rfl, fun h a => ?_⟩
  rw [Heap.Holds]
  exact ⟨rfl, rfl⟩

theorem isScalar_number (x : Double) : IsScalar (.number x) (.number x) := by
  refine ⟨rfl, fun h a => ?_⟩
  rw [Heap.Holds]
  exact ⟨rfl, rfl⟩

theorem isScalar_string (t : Text) : IsScalar (.string t) (.string t) := by
  refine ⟨rfl, fun h a => ?_⟩
  rw [Heap.Holds]
  exact ⟨rfl, rfl⟩

/-- Nothing is made for such a value. -/
theorem IsScalar.parses {j : Json} {v : Value} (h : IsScalar j v) (rest : List CodeUnit) (m : Machine) :
    Parses (j, some rest) bodies (pure (v, rest)) m := by
  unfold Parses
  rw [h.fault?]
  exact .ok rfl rfl ⟨.keeping _ m [], rfl, h.holds m.heap _, rfl⟩

theorem completes_raise (f : Fault) (m : Machine) {α : Type} (post : α → Machine → Prop) :
    Completes (some f) bodies (raise f) m post := .inr ⟨f, m, rfl, rfl, rfl⟩

/-- A part of the text that gives such a value. -/
theorem parses_takePart {α : Type} (total : Nat) {make : α → Json} {value : α → Value}
    (h : ∀ a, IsScalar (make a) (value a)) (p : Json.Part α) (m : Machine) :
    Parses (Json.ofPart total make p) bodies
      (do
        let (a, rest) ← takePart total p
        return (value a, rest)) m := by
  cases p with
  | ok r => exact (h r.1).parses r.2 m
  | error left => exact completes_raise _ m _

theorem parses_word (total : Nat) (s : String) {j : Json} {v : Value} (h : IsScalar j v) (us : List CodeUnit)
    (m : Machine) : Parses (Json.readWord total s j us) bodies (parseWord total s v us) m := by
  unfold Json.readWord parseWord
  cases Json.expect (Text.ofString s).toList us with
  | ok rest => exact h.parses rest m
  | error left => exact completes_raise _ m _

theorem parses_scalar (total : Nat) (us : List CodeUnit) (m : Machine) :
    Parses (Json.readScalar total us) bodies (parseScalar total us) m := by
  cases us with
  | nil => exact completes_raise _ m _
  | cons u us =>
    unfold Json.readScalar parseScalar
    dsimp only
    split
    · exact parses_takePart total isScalar_string _ m
    split
    · exact parses_word total _ (isScalar_boolean true) _ m
    split
    · exact parses_word total _ (isScalar_boolean false) _ m
    split
    · exact parses_word total _ isScalar_null _ m
    split
    · exact parses_takePart total isScalar_number _ m
    · exact completes_raise _ m _

/-! ### Arrays -/

/-- An item whose value is kept while the others are made. -/
theorem ParsesItems.item {reading : Reading Json} {more : Reading (List Json)} {m : Machine} {rest : List CodeUnit}
    {x : Run (Value × List CodeUnit)} {y : List CodeUnit → Run (List Value × List CodeUnit)}
    (hx : Parses reading bodies x m) (hrest : reading.2 = some rest)
    (hy : ∀ m', m.Rests m' → ParsesItems more bodies (y rest) m') :
    ParsesItems (reading.1 :: more.1, more.2) bodies
      (do
        let (v, rest) ← x
        hold v
        let (vs, rest) ← y rest
        return (v :: vs, rest)) m := by
  unfold ParsesItems
  rw [Json.faultOfItems?]
  refine .bind hx ?_
  rintro ⟨v, rest'⟩ m₁ hrest₁ ⟨hgrows₁, _, hv, hleft⟩
  obtain rfl : rest = rest' := Option.some.inj (hrest.symm.trans hleft)
  have hkept := Machine.Grows.keeping m.heap.nextObject m₁ [v]
  have hmore : Completes (Json.faultOfItems? more.1) bodies
      (do
        let (vs, rest) ← y rest
        return (v :: vs, rest))
      { m₁ with held := [v] ++ m₁.held } fun r m' => m.Grows m.heap.nextObject m' ∧ r.1 ⊆ m'.held ∧
        m'.heap.HoldsItems (reading.1 :: more.1) m.heap.nextObject m'.heap.nextObject r.1 ∧
        more.2 = some r.2 := by
    rw [← Option.or_none (o := Json.faultOfItems? more.1)]
    refine .bind (hy { m₁ with held := [v] ++ m₁.held } (hrest₁.keeping [v])) ?_
    rintro ⟨vs, rest''⟩ m₂ _ ⟨hgrows₂, hheld, hvs, hleft'⟩
    refine .ok rfl rfl ⟨(hgrows₁.trans hkept).trans (hgrows₂.mono hgrows₁.next), ?_, ?_, hleft'⟩
    · exact List.cons_subset.mpr ⟨hgrows₂.held List.mem_cons_self, hheld⟩
    · rw [Heap.HoldsItems]
      exact ⟨_, v, vs, rfl, hgrows₂.holds List.mem_cons_self (Nat.le_refl _) hv, hvs⟩
  exact .congr rfl rfl hmore

theorem ParsesItems.nil (rest : List CodeUnit) (m : Machine) :
    ParsesItems ([], some rest) bodies (Pure.pure ([], rest)) m := by
  refine .ok rfl rfl ⟨.keeping _ m [], List.nil_subset _, ?_, rfl⟩
  rw [Heap.HoldsItems]
  exact ⟨rfl, rfl⟩

/-- An array is made after its items. -/
theorem Parses.array {reading : Reading (List Json)} {m : Machine} {x : Run (List Value × List CodeUnit)}
    (hlimit : m.heapLimit = none) (hx : ParsesItems reading bodies x m) :
    Parses (.array reading.1, reading.2) bodies
      (holding [] do
        let (vs, rest) ← x
        return (.object (← newArray vs), rest)) m := by
  have hmade : Completes (Json.faultOfItems? reading.1) bodies
      (do
        let (vs, rest) ← x
        return (Value.object (← newArray vs), rest))
      { m with held := [] ++ m.held } fun r m' => m.Grows m.heap.nextObject m' ∧
        m'.heap.Holds (.array reading.1) m.heap.nextObject m'.heap.nextObject r.1 ∧ reading.2 = some r.2 := by
    rw [← Option.or_none (o := Json.faultOfItems? reading.1)]
    refine .bind hx ?_
    rintro ⟨vs, rest⟩ m₁ hrest₁ ⟨hgrows₁, hheld, hitems, hleft⟩
    obtain ⟨m₂, hrun, hrest₂, hgrows₂, _, hnext, hobject⟩ :=
      newObjectOf_run bodies (hrest₁.heapLimit.trans hlimit) (arrayOf vs)
    refine .ok (bind_run_ok hrun _) hrest₂ ⟨hgrows₁.trans (hgrows₂.mono hgrows₁.next), ?_, hleft⟩
    rw [Heap.Holds]
    refine ⟨_, _, rfl, hgrows₁.next, hnext.symm, hobject, fun hshort => ⟨vs, ?_, ?_⟩⟩
    · exact isArrayOf_arrayOf (hitems.length.trans_lt hshort)
    · exact hgrows₂.holdsItems hheld (Nat.le_refl _) hitems
  exact hmade.holding fun r m' ⟨hgrows, hholds, hleft⟩ => ⟨hgrows.released, rfl, hholds, hleft⟩

/-! ### Objects -/

/-- A member is added before the others are read. -/
theorem ParsesMembers.member {done : List (Text × Json)} {o : ObjectId} {name : Text} {reading : Reading Json}
    {more : Reading (List (Text × Json))} {m : Machine} {rest : List CodeUnit} {x : Run (Value × List CodeUnit)}
    {y : List CodeUnit → Run (List CodeUnit)} (ho : .object o ∈ m.held)
    (hdone : m.heap.Holds (.object done) o m.heap.nextObject (.object o)) (hx : Parses reading bodies x m)
    (hrest : reading.2 = some rest)
    (hy : ∀ m', m.Rests m' → .object o ∈ m'.held →
      m'.heap.Holds (.object (done ++ [(name, reading.1)])) o m'.heap.nextObject (.object o) →
      ParsesMembers (done ++ [(name, reading.1)]) o more bodies (y rest) m') :
    ParsesMembers done o ((name, reading.1) :: more.1, more.2) bodies
      (do
        let (v, rest) ← x
        let _ ← createData o (.ofText name) v
        y rest) m := by
  unfold ParsesMembers
  rw [Json.faultOfMembers?]
  refine .bind hx ?_
  rintro ⟨v, rest'⟩ m₁ hrest₁ ⟨hgrows₁, hheld₁, hv, hleft⟩
  obtain rfl : rest = rest' := Option.some.inj (hrest.symm.trans hleft)
  have hdone₁ := hgrows₁.holds ho (Nat.le_refl _) hdone
  rw [Heap.Holds] at hdone₁
  obtain ⟨x, pairs, _, hobject, hx, hmembers⟩ := hdone₁
  obtain ⟨h', x', hrun, hnext, _, hobject', hx', hothers⟩ := createData_run bodies hobject hx name v
  -- the trees of the members, old and new, have other objects
  have hlt := Heap.HoldsMembers.le done hmembers
  have hadded : h'.Holds (.object (done ++ [(name, reading.1)])) o h'.nextObject (.object o) := by
    rw [Heap.Holds]
    refine ⟨x', _, rfl, hobject', hx', ?_⟩
    rw [hnext]
    refine (hmembers.of_same fun p hp _ => hothers p (Nat.ne_of_gt hp)).append name ?_
    exact hv.of_same fun p hp _ => hothers p (Nat.ne_of_gt (Nat.lt_of_lt_of_le hlt hp))
  have hgrows₂ : m₁.Grows o { m₁ with heap := h' } := by
    refine ⟨List.Subset.refl _, Nat.le_of_eq hnext.symm, fun _ hb hh => ?_,
      fun _ hb => hothers _ (Nat.ne_of_lt hb)⟩
    exact hh.of_same fun p _ hp => hothers p (Nat.ne_of_lt (Nat.lt_of_lt_of_le hp hb))
  have hmore := hy { m₁ with heap := h' } (hrest₁.trans rfl) (hgrows₁.held ho) hadded
  refine .congr (bind_run_ok hrun _) rfl (hmore.mono ?_)
  rintro rest' m₂ ⟨hgrows₃, hheld₃, hholds, hleft'⟩
  rw [List.append_assoc] at hholds
  have hbound : o ≤ m.heap.nextObject := Nat.le_of_succ_le hlt
  exact ⟨((hgrows₁.mono hbound).trans hgrows₂).trans hgrows₃, hheld₃.trans hheld₁, hholds, hleft'⟩

theorem ParsesMembers.nil {done : List (Text × Json)} {o : ObjectId} (rest : List CodeUnit) {m : Machine}
    (hdone : m.heap.Holds (.object done) o m.heap.nextObject (.object o)) :
    ParsesMembers done o ([], some rest) bodies (Pure.pure rest) m := by
  refine .ok rfl rfl ⟨.keeping o m [], rfl, ?_, rfl⟩
  rw [List.append_nil]
  exact hdone

/-- An object is made before its members. -/
theorem Parses.object {reading : Reading (List (Text × Json))} {m : Machine} {x : ObjectId → Run (List CodeUnit)}
    (hlimit : m.heapLimit = none)
    (hx : ∀ o m', m.Rests m' → .object o ∈ m'.held →
      m'.heap.Holds (.object []) o m'.heap.nextObject (.object o) →
      ParsesMembers [] o reading bodies (x o) m') :
    Parses (.object reading.1, reading.2) bodies
      (do
        let o ← newObject
        let rest ← holding [.object o] (x o)
        return (.object o, rest)) m := by
  obtain ⟨m₁, hrun, hrest₁, hgrows₁, hheld₁, hnext, hobject⟩ :=
    newObjectOf_run bodies hlimit (.ordinary (some Intrinsic.objectPrototype.id))
  have hempty : m₁.heap.Holds (.object []) m.heap.nextObject m₁.heap.nextObject
      (.object m.heap.nextObject) := by
    rw [Heap.Holds]
    refine ⟨_, [], rfl, hobject, .nil, ?_⟩
    rw [Heap.HoldsMembers]
    exact ⟨hnext.symm, rfl⟩
  have hkept := Machine.Grows.keeping m.heap.nextObject m₁ [.object m.heap.nextObject]
  have hmembers : Completes (Json.faultOfMembers? reading.1) bodies
      (holding [.object m.heap.nextObject] (x m.heap.nextObject)) m₁ fun rest m' =>
        m₁.Grows m.heap.nextObject m' ∧ m'.held = m₁.held ∧
        m'.heap.Holds (.object reading.1) m.heap.nextObject m'.heap.nextObject
          (.object m.heap.nextObject) ∧ reading.2 = some rest := by
    have hadded := hx m.heap.nextObject { m₁ with held := [.object m.heap.nextObject] ++ m₁.held }
      (hrest₁.keeping _) List.mem_cons_self hempty
    exact hadded.holding fun rest m' ⟨hgrows, _, hholds, hleft⟩ =>
      ⟨(hkept.trans hgrows).released, rfl, hholds, hleft⟩
  unfold Parses
  rw [Json.fault?, ← Option.or_none (o := Json.faultOfMembers? reading.1)]
  refine .congr (bind_run_ok hrun _) hrest₁ (hmembers.bind ?_)
  rintro rest m₂ _ ⟨hgrows₂, hheld₂, hholds, hleft⟩
  exact .ok rfl rfl ⟨hgrows₁.trans hgrows₂, hheld₂.trans hheld₁, hholds, hleft⟩

/-! ## 5. Nested values -/

section Nested

variable {total d : Nat} {read : List CodeUnit → Reading Json}
  {value : List CodeUnit → Run (Value × List CodeUnit)}

/-- Values at one depth of calls, with no limit on the heap. -/
def ParsesAt (d : Nat) (read : List CodeUnit → Reading Json) (bodies : Bodies)
    (value : List CodeUnit → Run (Value × List CodeUnit)) : Prop :=
  ∀ (us : List CodeUnit) (m : Machine), m.heapLimit = none → m.maxCallDepth - m.callDepth = d →
    Parses (read us) bodies (value us) m

variable (hvalue : ParsesAt d read bodies value)
include hvalue

theorem parses_items (n : Nat) (us : List CodeUnit) {m : Machine} (hlimit : m.heapLimit = none)
    (hdepth : m.maxCallDepth - m.callDepth = d) :
    ParsesItems (Json.readItems total read n us []) bodies (parseItems total value n us) m := by
  induction n generalizing us m with
  | zero => exact completes_raise _ m _
  | succ n ih =>
    have hitem := hvalue us m hlimit hdepth
    cases hread : read us with
    | mk j left =>
      rw [hread] at hitem
      cases left with
      | none =>
        rw [Json.readItems_wrong hread]
        refine Completes.bind hitem ?_
        rintro _ _ _ ⟨_, _, _, hleft⟩
        cases hleft
      | some rest =>
        rw [Json.readItems_right hread]
        refine .item hitem rfl fun m' hrest => ?_
        unfold afterItem Json.moreItems
        cases Json.ending 0x5D rest with
        | more rest =>
          exact ih rest (hrest.heapLimit.trans hlimit) (hrest.remaining.trans hdepth)
        | closed rest => exact .nil rest m'
        | wrong left => exact completes_raise _ m' _

theorem parses_members (n : Nat) (us : List CodeUnit) {m : Machine} {o : ObjectId} {done : List (Text × Json)}
    (hlimit : m.heapLimit = none) (hdepth : m.maxCallDepth - m.callDepth = d) (ho : .object o ∈ m.held)
    (hdone : m.heap.Holds (.object done) o m.heap.nextObject (.object o)) :
    ParsesMembers done o (Json.readMembers total read n us []) bodies (parseMembers total value o n us) m := by
  induction n generalizing us m done with
  | zero => exact completes_raise _ m _
  | succ n ih =>
    unfold parseMembers
    cases hname : Json.readName us with
    | error left =>
      rw [Json.readMembers_unnamed hname]
      exact completes_raise _ m _
    | ok part =>
      obtain ⟨name, mid⟩ := part
      rw [show takePart total (.ok (name, mid)) = pure (name, mid) from rfl, pure_bind]
      dsimp only
      have hmember := hvalue mid m hlimit hdepth
      cases hread : read mid with
      | mk j left =>
        rw [hread] at hmember
        cases left with
        | none =>
          rw [Json.readMembers_wrong hname hread]
          refine Completes.bind hmember ?_
          rintro _ _ _ ⟨_, _, _, hleft⟩
          cases hleft
        | some rest =>
          rw [Json.readMembers_right hname hread]
          refine .member ho hdone hmember rfl fun m' hrest ho' hdone' => ?_
          unfold afterItem Json.moreMembers
          cases Json.ending 0x7D rest with
          | more rest =>
            exact ih rest (hrest.heapLimit.trans hlimit) (hrest.remaining.trans hdepth) ho' hdone'
          | closed rest => exact .nil rest hdone'
          | wrong left => exact completes_raise _ m' _

end Nested

theorem parses_array {total d : Nat} {value : List CodeUnit → Run (Value × List CodeUnit)}
    (hvalue : ParsesAt d (Json.readValue total d) bodies value) {us us' : List CodeUnit}
    (hus : Json.skipBlanks us = 0x5B :: us') {m : Machine} (hlimit : m.heapLimit = none)
    (hdepth : m.maxCallDepth - m.callDepth = d) :
    Parses (Json.readValue total (d + 1) us) bodies (parseArray total value us') m := by
  unfold parseArray
  cases hclosed : Json.closedAtOnce? 0x5D us' with
  | some rest =>
    rw [Json.readValue_array_closed total d hus hclosed]
    exact .array hlimit (.nil rest m)
  | none =>
    rw [Json.readValue_array_open total d hus hclosed]
    exact .array hlimit (parses_items hvalue total us' hlimit hdepth)

theorem parses_object {total d : Nat} {value : List CodeUnit → Run (Value × List CodeUnit)}
    (hvalue : ParsesAt d (Json.readValue total d) bodies value) {us us' : List CodeUnit}
    (hus : Json.skipBlanks us = 0x7B :: us') {m : Machine} (hlimit : m.heapLimit = none)
    (hdepth : m.maxCallDepth - m.callDepth = d) :
    Parses (Json.readValue total (d + 1) us) bodies (parseObject total value us') m := by
  unfold parseObject
  cases hclosed : Json.closedAtOnce? 0x7D us' with
  | some rest =>
    rw [Json.readValue_object_closed total d hus hclosed]
    exact .object hlimit fun o m' _ _ hempty => .nil rest hempty
  | none =>
    rw [Json.readValue_object_open total d hus hclosed]
    exact .object hlimit fun o m' hrest ho hempty =>
      parses_members hvalue total us' (hrest.heapLimit.trans hlimit) (hrest.remaining.trans hdepth) ho hempty

/-- A nested value has one call less left. -/
theorem Parses.nestedCall {reading : Reading Json} {x : Run (Value × List CodeUnit)} {m : Machine}
    (hfree : m.callDepth < m.maxCallDepth)
    (hx : Parses reading bodies x { m with callDepth := m.callDepth + 1 }) :
    Parses reading bodies (Ecma51.nestedCall x) m :=
  Completes.nestedCall hfree hx fun _ _ ⟨hgrows, hheld, hholds, hleft⟩ =>
    ⟨⟨hgrows.held, hgrows.next, hgrows.holds, hgrows.object⟩, hheld, hholds, hleft⟩

/-- **A value is made as the reader reads it, at every depth of calls**: what the machine counts with each nested
value is what the reader is given. -/
theorem parsesAt_parseValue (bodies : Bodies) (total d : Nat) :
    ParsesAt d (Json.readValue total d) bodies (parseValue total (d + 1)) := by
  intro us m hlimit hdepth
  induction d generalizing us m with
  | zero =>
    have hfull : m.maxCallDepth ≤ m.callDepth := Nat.sub_eq_zero_iff_le.mp hdepth
    unfold Json.readValue parseValue
    cases Json.skipBlanks us with
    | nil => exact parses_scalar total [] m
    | cons u rest =>
      dsimp only
      by_cases harray : (u == 0x5B) = true
      · rw [if_pos harray, if_pos (Bool.or_eq_true_iff.mpr (.inr harray))]
        exact .nestedCall_full bodies hfull
      by_cases hobject : (u == 0x7B) = true
      · rw [if_neg harray, if_pos hobject, if_pos (Bool.or_eq_true_iff.mpr (.inl hobject))]
        exact .nestedCall_full bodies hfull
      rw [if_neg harray, if_neg hobject, if_neg fun h => (Bool.or_eq_true_iff.mp h).elim hobject harray]
      exact parses_scalar total (u :: rest) m
  | succ d ih =>
    have hfree : m.callDepth < m.maxCallDepth := by omega
    have hinside : m.maxCallDepth - (m.callDepth + 1) = d := by omega
    unfold parseValue
    cases hus : Json.skipBlanks us with
    | nil =>
      unfold Json.readValue
      rw [hus]
      exact parses_scalar total [] m
    | cons u rest =>
      dsimp only
      by_cases harray : u = 0x5B
      · rw [if_pos (beq_iff_eq.mpr harray)]
        exact .nestedCall hfree (parses_array ih (harray ▸ hus) hlimit hinside)
      by_cases hobject : u = 0x7B
      · rw [if_neg fun h => harray (beq_iff_eq.mp h), if_pos (beq_iff_eq.mpr hobject)]
        exact .nestedCall hfree (parses_object ih (hobject ▸ hus) hlimit hinside)
      rw [if_neg fun h => harray (beq_iff_eq.mp h), if_neg fun h => hobject (beq_iff_eq.mp h),
        Json.readValue_scalar total _ hus harray hobject]
      exact parses_scalar total (u :: rest) m

end Build

/-! ## 6. Texts -/

theorem parseJson_completes (bodies : Bodies) {m : Machine} (hlimit : m.heapLimit = none) (t : Text) :
    Completes (Json.firstFault? (Json.read (m.maxCallDepth - m.callDepth) t)) bodies (parseJson t) m
      fun v m' => m.Grows m.heap.nextObject m' ∧
        m'.heap.Holds (Json.read (m.maxCallDepth - m.callDepth) t).1 m.heap.nextObject m'.heap.nextObject v := by
  have hvalue := parsesAt_parseValue bodies t.length _ t.toList m hlimit rfl
  unfold parseJson Json.read
  refine .congr (get_bind_run _ bodies m) rfl ?_
  cases hread : Json.readValue t.length (m.maxCallDepth - m.callDepth) t.toList with
  | mk j left =>
    rw [hread] at hvalue
    cases left with
    | none =>
      refine Completes.bind hvalue ?_
      rintro _ _ _ ⟨_, _, _, hleft⟩
      cases hleft
    | some rest =>
      dsimp only
      cases hrest : Json.skipBlanks rest with
      | nil =>
        refine Completes.bind hvalue ?_
        rintro ⟨v, rest'⟩ m' _ ⟨hgrows, _, hholds, hleft⟩
        cases hleft
        dsimp only
        rw [hrest]
        exact .ok rfl rfl ⟨hgrows, hholds⟩
      | cons u excess =>
        refine Completes.bind hvalue ?_
        rintro ⟨v, rest'⟩ m' _ ⟨hgrows, _, hholds, hleft⟩
        cases hleft
        dsimp only
        rw [hrest]
        exact completes_raise _ m' _

/-- A text that is right and not nested too deep gives the value that it spells. -/
theorem parseJson_makes (bodies : Bodies) {m : Machine} (hlimit : m.heapLimit = none) {t : Text}
    {j : Json} (htext : Json.IsText t.toList j) (hdeep : j.nesting ≤ m.maxCallDepth - m.callDepth) :
    ∃ v m', parseJson t bodies m = .ok v m' ∧ m.Rests m' ∧ m.Grows m.heap.nextObject m' ∧
      m'.heap.Holds j m.heap.nextObject m'.heap.nextObject v := by
  have hright : Json.firstFault? (j, none) = none := by
    obtain ⟨us₁, us₂, _, hspells, _⟩ := htext
    unfold Json.firstFault?
    rw [Json.fault?_of_spells j hspells]
    rfl
  have hcompletes := parseJson_completes bodies hlimit t
  rw [Json.read_of_isText htext hdeep, hright] at hcompletes
  rcases hcompletes with ⟨_, v, m', hrun, hend⟩ | ⟨f, m', hfault, _⟩
  · exact ⟨v, m', hrun, hend⟩
  · cases hfault

theorem parseJson_of_isText (bodies : Bodies) {m : Machine} (hlimit : m.heapLimit = none) {t : Text}
    {j : Json} (htext : Json.IsText t.toList j) (hdeep : j.nesting ≤ m.maxCallDepth - m.callDepth) :
    ∃ v m', parseJson t bodies m = .ok v m' ∧ m'.heap.Holds j m.heap.nextObject m'.heap.nextObject v := by
  obtain ⟨v, m', hrun, _, _, hv⟩ := parseJson_makes bodies hlimit htext hdeep
  exact ⟨v, m', hrun, hv⟩

/-- **The value of a text is built exactly if the text is right and its nesting fits.** With no limit on the
heap, for every text and every depth that is left: the value stands for the one thing that the text spells,
with new objects; otherwise the failure is a `RangeError` if the text opens more than the depth allows and is
right up to there, as right texts that are nested deeper do, and a `SyntaxError` if not. However this ends, as
many calls are under way as before. -/
theorem parseJson_exact (bodies : Bodies) (m : Machine) (t : Text) (hlimit : m.heapLimit = none) :
    ((∃ v m', parseJson t bodies m = .ok v m') ↔
      ∃ j, Json.IsText t.toList j ∧ j.nesting ≤ m.maxCallDepth - m.callDepth) ∧
    (∀ v m', parseJson t bodies m = .ok v m' → ∀ j, Json.IsText t.toList j →
      m'.heap.Holds j m.heap.nextObject m'.heap.nextObject v) ∧
    (∀ e m', parseJson t bodies m = .error e m' → ∃ f, e = .fault f ∧
      (f.kind = .rangeError ∧ Json.Overruns (m.maxCallDepth - m.callDepth) t.toList ∨
        f.kind = .syntaxError ∧ ¬ Json.Overruns (m.maxCallDepth - m.callDepth) t.toList)) ∧
    (∀ j, Json.IsText t.toList j → m.maxCallDepth - m.callDepth < j.nesting →
      Json.Overruns (m.maxCallDepth - m.callDepth) t.toList) ∧
    (endOf (parseJson t bodies m)).callDepth = m.callDepth := by
  have hrests {m' : Machine} (h : m.Rests m') : m'.callDepth = m.callDepth := by
    rw [h]
  rcases parseJson_completes bodies hlimit t with
    ⟨hfault, v, m', hrun, hrest, _, hv⟩ | ⟨f, m', hfault, hrun, hrest⟩
  · obtain ⟨htext, hdeep⟩ := Json.isText_of_read rfl hfault
    rw [hrun]
    refine ⟨⟨fun _ => ⟨_, htext, hdeep⟩, fun _ => ⟨v, m', rfl⟩⟩, ?_, fun e m'' he => ?_,
      fun j => Json.overruns_of_isText, hrests hrest⟩
    swap
    · cases he
    intro w m'' hw j hj
    cases hw
    rw [Json.isText_unique hj htext]
    exact hv
  · rw [hrun]
    refine ⟨⟨?_, ?_⟩, fun v m'' hv => ?_, ?_, fun j => Json.overruns_of_isText, hrests hrest⟩
    · rintro ⟨v, m'', hv⟩
      cases hv
    · rintro ⟨j, htext, hdeep⟩
      obtain ⟨v, m'', hok, _⟩ := parseJson_of_isText bodies hlimit htext hdeep
      rw [hrun] at hok
      cases hok
    · cases hv
    · intro e m'' he
      cases he
      refine ⟨f, rfl, ?_⟩
      rcases Json.firstFault?_of_read hfault with ⟨rfl, hover⟩ | hsyntax
      · exact .inl ⟨rfl, hover⟩
      · exact .inr hsyntax

/-- Of two members with the same name the last counts. -/
theorem parseJson_exact_repeated :
    (Machine.start {}).heapLimit = none ∧ ∃ o m' x,
      parseJson "\x7b\"a\":true,\"a\":null\x7d" (bodiesAt 0) (Machine.start {}) = .ok (.object o) m' ∧
      m'.heap.objects[o]? = some x ∧ x.properties.get? (.ofText "a") = some (.plain .null) := by
  have hname {rest : List CodeUnit} : Json.SpellsName "a" (0x22 :: 0x61 :: 0x22 :: 0x3A :: rest) rest :=
    ⟨_, _, .none, ⟨_, rfl, _, .plain (by decide) (by decide) (by decide), rfl⟩, .none⟩
  have hunits : (Text.ofString "\x7b\"a\":true,\"a\":null\x7d").toList =
      [0x7B, 0x22, 0x61, 0x22, 0x3A, 0x74, 0x72, 0x75, 0x65, 0x2C, 0x22, 0x61, 0x22, 0x3A, 0x6E, 0x75,
        0x6C, 0x6C, 0x7D] := by decide
  have htext : Json.IsText (Text.ofString "\x7b\"a\":true,\"a\":null\x7d").toList
      (.object [("a", .boolean true), ("a", .null)]) := by
    rw [hunits]
    refine ⟨_, [], .none, ?_, .none⟩
    rw [Json.Spells]
    refine ⟨_, rfl, ?_⟩
    rw [Json.SpellsMembers]
    refine ⟨_, _, hname, ⟨_, [0x2C, 0x22, 0x61, 0x22, 0x3A, 0x6E, 0x75, 0x6C, 0x6C, 0x7D], .none, ?_, .none⟩,
      ?_⟩
    · rw [Json.Spells]
      decide
    · rw [Json.SpellsMoreMembers]
      refine ⟨_, _, [0x7D], rfl, hname, ⟨_, _, .none, ?_, .none⟩, by rw [Json.SpellsMoreMembers]⟩
      rw [Json.Spells]
      decide
  have hlimit : (Machine.start {}).heapLimit = none := rfl
  obtain ⟨⟨_, hok⟩, hvalue, _⟩ := parseJson_exact (bodiesAt 0) (Machine.start {})
    (Text.ofString "\x7b\"a\":true,\"a\":null\x7d") hlimit
  obtain ⟨v, m', hrun⟩ := hok ⟨_, htext, by decide⟩
  have hholds := hvalue v m' hrun _ htext
  rw [Heap.Holds] at hholds
  obtain ⟨x, pairs, hv, hobject, hx, hmembers⟩ := hholds
  rw [hv] at hrun
  refine ⟨hlimit, _, m', x, hrun, hobject, ?_⟩
  rw [Heap.HoldsMembers] at hmembers
  obtain ⟨_, u, _, rfl, _, _, hmore⟩ := hmembers
  rw [Heap.HoldsMembers] at hmore
  obtain ⟨_, w, _, rfl, _, hlast, hnil⟩ := hmore
  rw [Heap.HoldsMembers] at hnil
  obtain ⟨_, rfl⟩ := hnil
  have hw := hlast List.not_mem_nil
  rw [Heap.Holds] at hw
  rw [hx.get?, hw.2]
  rfl

end Ecma51
