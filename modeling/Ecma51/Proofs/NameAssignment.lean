import Ecma51.Code.Primitive
import Ecma51.Proofs.Assignment
import Ecma51.Proofs.Relinked
import Ecma51.Proofs.Restating

/-!
# Assignments to names

A name is looked up from the running environment outwards, through declarative environments and those that have the
properties of an object, in any order. The assignment to it, and whoever reads it afterwards, walk there on their own;
they come to the same binding, and nothing else is changed, except that what stands for a parameter shows its value.

* `Heap.Nearest`, `Heap.Unbound`: where a name is bound.
* `Heap.Rebound`: a binding of a declarative environment with a new value.
* `Heap.PropertyAssigned`: a property with a new value.
* `Heap.Nearest.after_rebound`, `Heap.Nearest.after_property`: the name is bound where it was.
* **`assignName_exact`**: all that an assignment to a name can do.
-/

namespace Ecma51

open Relation (ReflTransGen)

namespace Heap

variable {h h' : Heap} {start e : EnvironmentId} {o : ObjectId} {k : Key} {name : Text} {v : Value}

/-! ## 1. Where a name is bound -/

/-- The environment binds the name, and those from which one comes to it do not. -/
structure Nearest (h : Heap) (start e : EnvironmentId) (name : Text) : Prop where
  binds : h.hasBinding e name = true
  path : ∃ inner outer, Walk h.outerOf (some start) (inner ++ e :: outer) ∧
    ∀ x ∈ inner, h.hasBinding x name = false

/-- No environment binds the name. -/
def Unbound (h : Heap) (start : EnvironmentId) (name : Text) : Prop :=
  ∃ l, Walk h.outerOf (some start) l ∧ ∀ x ∈ l, h.hasBinding x name = false

theorem nearest_or_unbound (hh : h.WellLinked) (start : EnvironmentId) (name : Text) :
    (∃ e, h.Nearest start e name) ∨ h.Unbound start name := by
  obtain ⟨l, hl⟩ := Walk.exists_of_ending hh.outers.ending (some start)
  cases hfound : l.find? (h.hasBinding · name) with
  | none => exact .inr ⟨l, hl, fun x hx => Bool.eq_false_iff.mpr (List.find?_eq_none.mp hfound x hx)⟩
  | some e =>
    obtain ⟨he, inner, outer, rfl, hinner⟩ := List.find?_eq_some_iff_append.mp hfound
    exact .inl ⟨e, he, inner, outer, hl, fun x hx => by simpa using hinner x hx⟩

theorem Nearest.resolve (hh : h.WellLinked) (hn : h.Nearest start e name) : h.resolve start name = some e := by
  obtain ⟨inner, outer, hl, hinner⟩ := hn.path
  rw [hh.resolve_eq hl, List.find?_eq_some_iff_append]
  exact ⟨hn.binds, inner, outer, rfl, fun x hx => by simp [hinner x hx]⟩

theorem Nearest.reaches (hn : h.Nearest start e name) : ReflTransGen (LinksTo h.outerOf) start e := by
  obtain ⟨inner, outer, hl, _⟩ := hn.path
  obtain ⟨x, hx, he⟩ := (hl.mem_iff e).mp (List.mem_append_right _ List.mem_cons_self)
  exact Option.some.inj hx ▸ he

theorem Unbound.resolve (hh : h.WellLinked) (hu : h.Unbound start name) : h.resolve start name = none := by
  obtain ⟨l, hl, hnone⟩ := hu
  rw [hh.resolve_eq hl, List.find?_eq_none]
  exact fun x hx => by simp [hnone x hx]

/-- The name is bound where it was if environments are nested as before, the inner ones still do not bind it, and the
one that did still does. -/
theorem Nearest.after (hn : h.Nearest start e name) (houters : h'.outerOf = h.outerOf)
    (hinner : ∀ x, x ≠ e → h.hasBinding x name = false → h'.hasBinding x name = false)
    (hbinds : h'.hasBinding e name = true) : h'.Nearest start e name := by
  obtain ⟨inner, outer, hl, hnot⟩ := hn.path
  refine ⟨hbinds, inner, outer, by rwa [houters], fun x hx => hinner x ?_ (hnot x hx)⟩
  rintro rfl
  exact Bool.false_ne_true ((hnot x hx).symm.trans hn.binds)

/-! ## 2. Bindings of declarative environments -/

/-- The binding of a name in a declarative environment. -/
def binding? (h : Heap) (e : EnvironmentId) (name : Text) : Option Binding := (h.bindings? e).bind (·.find? name)

/-- A binding has a new value. All others are as before, and so is every object; what is seen of them is as before, too,
except where a key stands for the binding and shows its value. -/
structure Rebound (e : EnvironmentId) (name : Text) (v : Value) (h h' : Heap) : Prop where
  binding : h'.binding? e name = (h.binding? e name).map ({ · with value := v })
  others : ∀ n, n ≠ name → h'.binding? e n = h.binding? e n
  environment : ∀ e', e' ≠ e → h'.environment e' = h.environment e'
  outer : (h'.environment e).outer = (h.environment e).outer
  object : ∀ o, h'.object o = h.object o
  own : ∀ o k, h.sharedParameter? o k ≠ some (e, name) → h'.getOwn? o k = h.getOwn? o k
  shown : ∀ o k, h.sharedParameter? o k = some (e, name) → h'.getOwn? o k = (h.getOwn? o k).map (showing · (some v))
  frame : h' = { h with environments := h'.environments }

theorem hasBinding_of_binding? {x : Binding} (hx : h.binding? e name = some x) : h.hasBinding e name = true := by
  obtain ⟨b, hb, hfind⟩ := Option.bind_eq_some_iff.mp hx
  have hfind : b.find? name = some x := hfind
  unfold hasBinding
  rw [record_of_bindings? hb]
  show (b.find? name).isSome = true
  rw [hfind]
  rfl

theorem environment_setRecord (h : Heap) (e : EnvironmentId) (r : Record) (e' : EnvironmentId) :
    (h.setRecord e r).environment e' = if e = e' then { h.environment e with record := r } else h.environment e' := by
  unfold environment setRecord
  rw [Std.TreeMap.getD_insert]
  simp only [Std.LawfulEqCmp.compare_eq_iff_eq]
  rfl

theorem showing_showing (p : Property) (u : Option Value) (v : Value) :
    showing (showing p u) (some v) = showing p (some v) := by
  cases p <;> cases u <;> rfl

/-- **What a new value of a binding leaves.** -/
theorem rebound_setRecord {b : Bindings} {x : Binding} (hb : h.bindings? e = some b) (hx : b.find? name = some x)
    (v : Value) : Rebound e name v h (h.setRecord e (.declarative (b.put name { x with value := v }))) := by
  have hpassed : h.setRecord e (.declarative (b.put name { x with value := v })) =
      h.passingOn (some (e, name)) v := by
    unfold passingOn passOn modifyBindings
    dsimp only
    rw [hb]
    dsimp only
    unfold Bindings.store
    rw [hx]
  have hbindings := bindings?_setRecord (h := h) (e := e) (b.put name { x with value := v })
  have hvalue : (h.passingOn (some (e, name)) v).valueOf? e name = some v := by
    rw [← hpassed]
    unfold valueOf?
    rw [hbindings, Option.bind_some, Bindings.find?_put, if_pos rfl]
    rfl
  refine ⟨?_, fun n hn => ?_, fun e' he => ?_, ?_, fun o => rfl, fun o k hk => ?_, fun o k hk => ?_, rfl⟩
  · unfold binding?
    rw [hbindings, hb, Option.bind_some, Option.bind_some, Bindings.find?_put, if_pos rfl, hx]
    rfl
  · unfold binding?
    rw [hbindings, hb, Option.bind_some, Option.bind_some, Bindings.find?_put, if_neg hn.symm]
  · rw [environment_setRecord, if_neg he.symm]
  · rw [environment_setRecord, if_pos rfl]
  · rw [hpassed]
    refine getOwn?_passingOn rfl rfl (fun _ _ => rfl) (fun y hy => ?_) v
    rw [← hy]
    exact hk
  · have hsame : (h.passingOn (some (e, name)) v).sharedParameter? o k = some (e, name) :=
      (sharedParameter?_of_kind (by rw [object_passingOn]) k).trans hk
    rw [hpassed, getOwn?_eq, getOwn?_eq, object_passingOn, shared?_eq_valueOf?, hsame, Option.map_map]
    refine congrArg (Option.map · _) (funext fun p => ?_)
    show showing p ((h.passingOn (some (e, name)) v).valueOf? e name) = showing (showing p (h.shared? o k)) (some v)
    rw [hvalue, showing_showing]

/-! ## 3. Properties of objects -/

/-- Names can be looked up among the properties of the object: it is neither an array nor an arguments object, and there
is no accessor with the name. -/
structure IsSubject (h : Heap) (name : Text) (o : ObjectId) : Prop where
  notArray : (h.object o).kind ≠ .array
  notArguments : ∀ a, (h.object o).kind ≠ .arguments a
  free : h.FreeOfAccessors o (.ofText name)

/-- A property of the object itself has the value. Everything else is as before. -/
structure PropertyAssigned (o : ObjectId) (k : Key) (v : Value) (h h' : Heap) : Prop extends
    Assigned o k v h h' where
  property : ∃ w e c, h'.getOwn? o k = some (.data v w e c)
  environments : h'.environments = h.environments

/-- The links are as before. -/
theorem PropertyAssigned.sameLinks (hp : PropertyAssigned o k v h h') : h.SameLinks h' := by
  have hrest := hp.rest
  have hsame (p : ObjectId) : h'.prototypeOf p = h.prototypeOf p ∧ h'.targetOf p = h.targetOf p := by
    by_cases hpo : p = o
    · subst hpo
      unfold prototypeOf targetOf
      rw [hrest]
      exact ⟨rfl, rfl⟩
    · exact links_of_object (hp.object p hpo)
  refine ⟨funext fun p => (hsame p).1, funext fun p => (hsame p).2, funext fun e => ?_, ?_, ?_⟩
  · unfold outerOf environment
    rw [hp.environments]
  · rw [hp.frame]
  · rw [hp.frame]

/-! ## 4. The name is bound where it was -/

/-- A property is not found if no object of the chain owns it. -/
theorem hasProperty_eq_false_iff (hh : h.WellLinked) :
    h.hasProperty o k = false ↔ ∀ p, ReflTransGen (LinksTo h.prototypeOf) o p → h.getOwn? p k = none := by
  obtain ⟨l, hl⟩ := Walk.exists_of_ending hh.prototypes.ending (some o)
  have hmem (p : ObjectId) : p ∈ l ↔ ReflTransGen (LinksTo h.prototypeOf) o p := by
    rw [hl.mem_iff]
    exact ⟨fun ⟨_, ho, hp⟩ => Option.some.inj ho ▸ hp, fun hp => ⟨o, rfl, hp⟩⟩
  unfold hasProperty
  rw [(hh.looksAlong hl).getProperty, Option.isSome_eq_false_iff, Option.isNone_iff_eq_none,
    List.findSome?_eq_none_iff]
  exact forall_congr' fun p => by rw [hmem]

theorem Rebound.sameLinks (hr : Rebound e name v h h') : h.SameLinks h' := by
  refine ⟨funext fun p => (links_of_object (hr.object p)).1, funext fun p => (links_of_object (hr.object p)).2,
    funext fun e' => ?_, ?_, ?_⟩
  · by_cases he : e' = e
    · rw [he]
      exact hr.outer
    · exact congrArg (·.outer) (hr.environment e' he)
  · rw [hr.frame]
  · rw [hr.frame]

/-- A new value of a binding does not change which properties are found. -/
theorem Rebound.hasProperty_eq_false (hh : h.WellLinked) (hr : Rebound e name v h h')
    (hnot : h.hasProperty o k = false) : h'.hasProperty o k = false := by
  have hlinks := hr.sameLinks
  rw [hasProperty_eq_false_iff hh] at hnot
  rw [hasProperty_eq_false_iff (hh.same hlinks), hlinks.prototypes]
  intro p hp
  by_cases hshared : h.sharedParameter? p k = some (e, name)
  · rw [hr.shown p k hshared, hnot p hp]
    rfl
  · rw [hr.own p k hshared, hnot p hp]

/-- A property is found where it was assigned, and an object that did not come to it before still does not. -/
theorem PropertyAssigned.hasProperty_eq_false (hh : h.WellLinked) (hp : PropertyAssigned o k v h h')
    (hhas : h.hasProperty o k = true) {p : ObjectId} (hnot : h.hasProperty p k = false) :
    h'.hasProperty p k = false := by
  have hlinks := hp.sameLinks
  rw [hasProperty_eq_false_iff hh] at hnot
  rw [hasProperty_eq_false_iff (hh.same hlinks), hlinks.prototypes]
  intro q hq
  have hne : q ≠ o := by
    rintro rfl
    have hnone : h.hasProperty q k = false :=
      (hasProperty_eq_false_iff hh).mpr fun r hr => hnot r (hq.trans hr)
    exact Bool.false_ne_true (hnone.symm.trans hhas)
  rw [hp.other q hne, hnot q hq]

/-- **A name is bound where it was** after its binding got a new value. -/
theorem Nearest.after_rebound (hh : h.WellLinked) (hn : h.Nearest start e name) {x : Binding}
    (hx : h.binding? e name = some x) (hr : Rebound e name v h h') : h'.Nearest start e name := by
  refine hn.after hr.sameLinks.outers (fun x hx hnot => ?_) ?_
  · unfold hasBinding at hnot ⊢
    rw [hr.environment x hx]
    split at hnot
    · exact hnot
    · exact hr.hasProperty_eq_false hh hnot
  · exact hasBinding_of_binding? (hr.binding.trans (congrArg _ hx))

/-- **A name is bound where it was** after the property got a new value. -/
theorem Nearest.after_property (hh : h.WellLinked) (hn : h.Nearest start e name) {t : Bool}
    (ho : (h.environment e).record = .object o t) (hp : PropertyAssigned o (.ofText name) v h h') :
    h'.Nearest start e name := by
  have henvironment (x : EnvironmentId) : h'.environment x = h.environment x := by
    unfold environment
    rw [hp.environments]
  have hhas : h.hasProperty o (.ofText name) = true := by
    have hbinds := hn.binds
    unfold hasBinding at hbinds
    rwa [ho] at hbinds
  refine hn.after hp.sameLinks.outers (fun x _ hnot => ?_) ?_
  · unfold hasBinding at hnot ⊢
    rw [henvironment]
    split at hnot
    · exact hnot
    · exact hp.hasProperty_eq_false hh hhas hnot
  · obtain ⟨w, ee, c, hown⟩ := hp.property
    unfold hasBinding
    rw [henvironment, ho]
    unfold hasProperty
    dsimp only
    rw [getProperty?_of_own hown]
    rfl

end Heap

/-! ## 5. Runs -/

/-- The value of a name. -/
def readName (name : Text) : Run Value := do readReference (← resolveName name)

/-- An operation is refused in the mode of the running code: strict code gets a type error, other code nothing. In
neither case is anything changed. -/
def Refuses (x : Run Unit) (bodies : Bodies) (m : Machine) : Prop :=
  (m.isStrict = true → ∃ f : Fault, f.kind = .typeError ∧ x bodies m = .error (.fault f) m) ∧
  (m.isStrict = false → ∃ h', x bodies m = .ok () { m with heap := h' } ∧ m.heap.SameContent h')

section Runs

variable {bodies : Bodies} {m : Machine} {e : EnvironmentId} {o : ObjectId} {name : Text} {v : Value}

theorem resolveName_run (name : Text) (bodies : Bodies) (m : Machine) : resolveName name bodies m =
    .ok ⟨match m.heap.resolve m.lexical name with
      | some e => .environment e
      | none => .unresolvable, name, m.isStrict⟩ m := rfl

theorem assignName_bound (hh : m.heap.WellLinked) (hn : m.heap.Nearest m.lexical e name) (v : Value)
    (bodies : Bodies) : assignName name v bodies m = assignBinding e name v m.isStrict bodies m := by
  unfold assignName
  rw [bind_run_ok (resolveName_run name bodies m), hn.resolve hh]
  rfl

theorem readName_bound (hh : m.heap.WellLinked) (hn : m.heap.Nearest m.lexical e name) (bodies : Bodies) :
    readName name bodies m = readBinding e name m.isStrict bodies m := by
  unfold readName
  rw [bind_run_ok (resolveName_run name bodies m), hn.resolve hh]
  rfl

/-- **A name that is not bound** is an error in strict code, and else a property of the global object. -/
theorem assignName_unbound (hh : m.heap.WellLinked) (hu : m.heap.Unbound m.lexical name) (v : Value)
    (bodies : Bodies) : assignName name v bodies m =
      if m.isStrict then .error (.fault (.unresolvableReference name)) m
      else putTo globalObject (.ofText name) v false bodies m := by
  unfold assignName
  rw [bind_run_ok (resolveName_run name bodies m), hu.resolve hh]
  cases hstrict : m.isStrict with
  | true => rfl
  | false => rfl

/-! ### Declarative environments -/

theorem assignBinding_mutable {x : Binding} (hx : m.heap.binding? e name = some x) (hmutable : x.mutable = true)
    (v : Value) (strict : Bool) (bodies : Bodies) :
    ∃ h', assignBinding e name v strict bodies m = .ok () { m with heap := h' } ∧
      Heap.Rebound e name v m.heap h' := by
  obtain ⟨b, hb, hfind⟩ := Option.bind_eq_some_iff.mp hx
  obtain ⟨u, _, deletable⟩ := x
  obtain rfl : _ = true := hmutable
  exact ⟨_, assignBinding_run hb hfind v strict, Heap.rebound_setRecord hb hfind v⟩

/-- **A binding that cannot be assigned stays as it is.** -/
theorem assignBinding_immutable {x : Binding} (hx : m.heap.binding? e name = some x) (hmutable : x.mutable = false)
    (v : Value) (bodies : Bodies) : Refuses (assignBinding e name v m.isStrict) bodies m := by
  obtain ⟨b, hb, hfind⟩ := Option.bind_eq_some_iff.mp hx
  have hfind : b.find? name = some x := hfind
  have hrecord := Heap.record_of_bindings? hb
  unfold Refuses assignBinding
  rw [getHeap_bind_run, hrecord]
  dsimp only
  unfold Bindings.assign
  rw [hfind]
  dsimp only
  rw [hmutable]
  refine ⟨fun hstrict => ⟨_, rfl, by rw [hstrict]; rfl⟩, fun hstrict => ?_⟩
  rw [hstrict]
  refine ⟨_, rfl, fun o => rfl, fun e' => ?_⟩
  rw [Heap.environment_setRecord]
  split
  · rename_i he
    rw [← he, ← hrecord]
  · rfl

/-- A value that is bound is read. -/
theorem readBinding_bound {x : Binding} (hx : m.heap.binding? e name = some x) (hvalue : x.value.isNothing = false)
    (strict : Bool) (bodies : Bodies) : readBinding e name strict bodies m = .ok x.value m := by
  obtain ⟨b, hb, hfind⟩ := Option.bind_eq_some_iff.mp hx
  have hfind : b.find? name = some x := hfind
  unfold readBinding
  rw [getHeap_bind_run, Heap.record_of_bindings? hb]
  dsimp only
  unfold Bindings.read
  rw [hfind]
  dsimp only
  rw [hvalue]
  rfl

/-! ### Properties -/

theorem assignBinding_property {t : Bool} (ho : (m.heap.environment e).record = .object o t) (v : Value)
    (strict : Bool) (bodies : Bodies) :
    assignBinding e name v strict bodies m = putTo o (.ofText name) v strict bodies m := by
  unfold assignBinding
  rw [getHeap_bind_run, ho]

theorem putTo_refuses (hcan : m.heap.canPut o (.ofText name) = false) (v : Value) (bodies : Bodies) :
    Refuses (putTo o (.ofText name) v m.isStrict) bodies m := by
  unfold Refuses
  rw [putTo_refused hcan]
  refine ⟨fun hstrict => ⟨_, Heap.kind_putRefusal m.heap o (.ofText name), by rw [hstrict]; rfl⟩, fun hstrict => ?_⟩
  rw [hstrict]
  exact ⟨m.heap, rfl, .refl m.heap⟩

/-- **An assignment that may go ahead gives the object itself a property.** -/
theorem putTo_property (hs : m.heap.IsSubject name o) (hcan : m.heap.canPut o (.ofText name) = true) (v : Value)
    (throws : Bool) (bodies : Bodies) :
    ∃ h', putTo o (.ofText name) v throws bodies m = .ok () { m with heap := h' } ∧
      Heap.PropertyAssigned o (.ofText name) v m.heap h' := by
  have hshared : m.heap.sharedParameter? o (.ofText name) = none :=
    Heap.sharedParameter?_of_not_arguments hs.notArguments _
  have halone : m.heap.StandsAlone o (.ofText name) := fun o' j hsome => by
    rw [hshared] at hsome
    cases hsome
  let h' := (m.heap.define o (.ofText name) (m.heap.putDescriptor o (.ofText name) v)).heap
  have hdone : putTo o (.ofText name) v throws bodies m = .ok () { m with heap := h' } ∧
      Heap.Assigned o (.ofText name) v m.heap h' :=
    putTo_done hs.free halone hcan fun harray => absurd harray hs.notArray
  obtain ⟨hvalue, haccessor, hwritable⟩ := Heap.value_putDescriptor m.heap o (.ofText name) v
  have hordinary := Heap.define_unshared (fun harray => absurd harray hs.notArray) hshared
    (m.heap.putDescriptor o (.ofText name) v)
  have hadmitted := (Heap.admits_of_canPut hs.free hcan v).1
  refine ⟨_, hdone.1, hdone.2, Heap.getOwn?_of_define hvalue haccessor hwritable (hordinary ▸ hadmitted), ?_⟩
  show (m.heap.define o (.ofText name) (m.heap.putDescriptor o (.ofText name) v)).heap.environments = _
  rw [hordinary, (Heap.storedAt_defineOrdinary _ _ _ _).frame]

/-- The value of a property is read, unless it may be the caller of a function. -/
theorem readBinding_property {t w ee c : Bool} (ho : (m.heap.environment e).record = .object o t)
    (hown : m.heap.getOwn? o (.ofText name) = some (.data v w ee c))
    (hshown : (hidesCaller (m.heap.object o) && (Key.ofText name).isNamed "caller") = false) (strict : Bool)
    (bodies : Bodies) : readBinding e name strict bodies m = .ok v m := by
  have hfound := Heap.getProperty?_of_own hown
  have hhas : m.heap.hasProperty o (.ofText name) = true := by
    unfold Heap.hasProperty
    rw [hfound]
    rfl
  unfold readBinding
  rw [getHeap_bind_run, ho]
  dsimp only
  rw [hhas, if_pos rfl]
  exact getFrom_shown hshown (getFor_data hfound _)

end Runs

/-! ## 6. Assignments -/

/-- The objects among whose properties a name may be looked up or made are plain. -/
structure Heap.PlainScope (h : Heap) (start : EnvironmentId) (name : Text) : Prop where
  subjects : ∀ e, ReflTransGen (LinksTo h.outerOf) start e →
    ∀ o t, (h.environment e).record = .object o t → h.IsSubject name o
  globally : h.Unbound start name → h.IsSubject name globalObject

/-- What is read next is the value, and reading changes nothing. -/
def ReadsNext (name : Text) (v : Value) (bodies : Bodies) (m : Machine) : Prop := readName name bodies m = .ok v m

section Assignments

variable {m : Machine} {e : EnvironmentId} {o : ObjectId} {name : Text} {v : Value}

/-- **A name of a declarative environment.** -/
theorem assignName_declarative (hh : m.heap.WellLinked) (hn : m.heap.Nearest m.lexical e name) {x : Binding}
    (hx : m.heap.binding? e name = some x) (v : Value) (bodies : Bodies) :
    (x.mutable = true → ∃ h', assignName name v bodies m = .ok () { m with heap := h' } ∧
      Heap.Rebound e name v m.heap h' ∧ (v.isNothing = false → ReadsNext name v bodies { m with heap := h' })) ∧
    (x.mutable = false → Refuses (assignName name v) bodies m) := by
  have hrun := assignName_bound hh hn v bodies
  refine ⟨fun hmutable => ?_, fun hmutable => ?_⟩
  · obtain ⟨h', hassign, hr⟩ := assignBinding_mutable hx hmutable v m.isStrict bodies
    refine ⟨h', hrun.trans hassign, hr, fun hv => ?_⟩
    have hbinding : h'.binding? e name = some { x with value := v } := hr.binding.trans (congrArg _ hx)
    exact (readName_bound (m := { m with heap := h' }) (hh.same hr.sameLinks) (hn.after_rebound hh hx hr) bodies).trans
      (readBinding_bound (m := { m with heap := h' }) hbinding hv _ bodies)
  · unfold Refuses
    rw [hrun]
    exact assignBinding_immutable hx hmutable v bodies

/-- **A name that is a property of an object.** -/
theorem assignName_property (hh : m.heap.WellLinked) (hn : m.heap.Nearest m.lexical e name) {t : Bool}
    (ho : (m.heap.environment e).record = .object o t) (hs : m.heap.IsSubject name o) (v : Value) (bodies : Bodies) :
    (m.heap.canPut o (.ofText name) = true → ∃ h', assignName name v bodies m = .ok () { m with heap := h' } ∧
      Heap.PropertyAssigned o (.ofText name) v m.heap h' ∧
      ((hidesCaller (m.heap.object o) && (Key.ofText name).isNamed "caller") = false →
        ReadsNext name v bodies { m with heap := h' })) ∧
    (m.heap.canPut o (.ofText name) = false → Refuses (assignName name v) bodies m) := by
  have hrun := (assignName_bound hh hn v bodies).trans (assignBinding_property ho v m.isStrict bodies)
  refine ⟨fun hcan => ?_, fun hcan => ?_⟩
  · obtain ⟨h', hput, hp⟩ := putTo_property hs hcan v m.isStrict bodies
    refine ⟨h', hrun.trans hput, hp, fun hshown => ?_⟩
    obtain ⟨w, ee, c, hown⟩ := hp.property
    have ho' : (h'.environment e).record = .object o t := by
      unfold Heap.environment
      rw [hp.environments]
      exact ho
    have hkind : hidesCaller (h'.object o) = hidesCaller (m.heap.object o) := by
      rw [hp.rest]
      rfl
    exact (readName_bound (m := { m with heap := h' }) (hh.same hp.sameLinks) (hn.after_property hh ho hp) bodies).trans
      (readBinding_property (m := { m with heap := h' }) ho' hown (hkind ▸ hshown) _ bodies)
  · unfold Refuses
    rw [hrun]
    exact putTo_refuses hcan v bodies

/-- **Assignment to a name**, in any nesting of declarative environments and of objects that are neither arrays nor
arguments objects and have no accessor with the name. The nearest environment that binds the name is the one that is
changed: its binding, or the property of the object itself, gets the value, nothing else does, and the name then has
that value; an index of an arguments object that stands for the binding shows it, too. A binding or property that
cannot be written stays as it is, which is a type error in strict code. A name that is bound nowhere is a reference
error in strict code, and otherwise becomes a property of the global object, if that can be written. -/
theorem assignName_exact (hh : m.heap.WellLinked) (hp : m.heap.PlainScope m.lexical name) (v : Value)
    (bodies : Bodies) :
    (∃ e, m.heap.Nearest m.lexical e name ∧
      ((∃ x, m.heap.binding? e name = some x ∧
        (x.mutable = true → ∃ h', assignName name v bodies m = .ok () { m with heap := h' } ∧
          Heap.Rebound e name v m.heap h' ∧ (v.isNothing = false → ReadsNext name v bodies { m with heap := h' })) ∧
        (x.mutable = false → Refuses (assignName name v) bodies m)) ∨
      ∃ o t, (m.heap.environment e).record = .object o t ∧
        (m.heap.canPut o (.ofText name) = true → ∃ h', assignName name v bodies m = .ok () { m with heap := h' } ∧
          Heap.PropertyAssigned o (.ofText name) v m.heap h' ∧
          ((hidesCaller (m.heap.object o) && (Key.ofText name).isNamed "caller") = false →
            ReadsNext name v bodies { m with heap := h' })) ∧
        (m.heap.canPut o (.ofText name) = false → Refuses (assignName name v) bodies m))) ∨
    m.heap.Unbound m.lexical name ∧
      (m.isStrict = true → ∃ f : Fault, f.kind = .referenceError ∧ assignName name v bodies m = .error (.fault f) m) ∧
      (m.isStrict = false →
        (m.heap.canPut globalObject (.ofText name) = true →
          ∃ h', assignName name v bodies m = .ok () { m with heap := h' } ∧
            Heap.PropertyAssigned globalObject (.ofText name) v m.heap h') ∧
        (m.heap.canPut globalObject (.ofText name) = false → assignName name v bodies m = .ok () m)) := by
  rcases Heap.nearest_or_unbound hh m.lexical name with ⟨e, hn⟩ | hu
  · refine .inl ⟨e, hn, ?_⟩
    cases hrecord : (m.heap.environment e).record with
    | declarative b =>
      obtain ⟨x, hx⟩ : ∃ x, m.heap.binding? e name = some x := by
        have hbinds := hn.binds
        unfold Heap.hasBinding at hbinds
        rw [hrecord] at hbinds
        obtain ⟨x, hx⟩ := Option.isSome_iff_exists.mp hbinds
        refine ⟨x, ?_⟩
        unfold Heap.binding? Heap.bindings?
        rw [hrecord]
        exact hx
      exact .inl ⟨x, hx, assignName_declarative hh hn hx v bodies⟩
    | object o t =>
      exact .inr ⟨o, t, rfl, assignName_property hh hn hrecord (hp.subjects e hn.reaches o t hrecord) v bodies⟩
  · have hrun := assignName_unbound hh hu v bodies
    refine .inr ⟨hu, fun hstrict => ⟨.unresolvableReference name, rfl, ?_⟩, fun hstrict => ⟨fun hcan => ?_, fun hcan => ?_⟩⟩
    · rw [hrun, if_pos hstrict]
    · rw [hrun, if_neg (Bool.eq_false_iff.mp hstrict)]
      exact putTo_property (hp.globally hu) hcan v false bodies
    · rw [hrun, if_neg (Bool.eq_false_iff.mp hstrict), putTo_refused hcan]
      rfl

end Assignments

/-- The environment of a function with one parameter. -/
def parameterEnvironment : Environment :=
  ⟨.declarative [(.ofString "a", ⟨.ofNat 1, true, false⟩)], some globalEnvironment⟩

/-- An arguments object whose first index stands for the parameter. -/
def parameterArguments : Object :=
  { argumentsObject .undefined [.ofNat 1] 1 false with kind := .arguments ⟨1, [(0, .ofString "a")]⟩ }

/-- A machine that runs a function that was given one argument. -/
def parameterMachine : Machine :=
  let c : Context := ⟨.function, none, 1, 1, .undefined, false⟩
  { Machine.start {} with
    heap := ((Heap.skeleton.addEnvironment parameterEnvironment).1.add parameterArguments).1
    contexts := c :: (Machine.start {}).contexts }

theorem wellLinked_parameterMachine : parameterMachine.heap.WellLinked := by
  have henvironment := grounded_skeleton.links.addEnvironment (x := parameterEnvironment) fun e he => by
    cases he
    decide
  exact henvironment.add ⟨fun p hp => by cases hp; decide, fun b hb => by cases hb⟩

theorem isSubject_parameterMachine : parameterMachine.heap.IsSubject (.ofString "a") globalObject := by
  have hglobal : parameterMachine.heap.prototypeOf globalObject = some Intrinsic.objectPrototype.id := by decide +kernel
  have hroot : parameterMachine.heap.prototypeOf Intrinsic.objectPrototype.id = none := by decide +kernel
  have hown (p : ObjectId) (hp : p = globalObject ∨ p = Intrinsic.objectPrototype.id) :
      parameterMachine.heap.getOwn? p (.ofText (.ofString "a")) = none := by
    rcases hp with rfl | rfl <;> decide +kernel
  refine ⟨fun harray => ?_, fun a harguments => ?_, fun p hp g s e c => ?_⟩
  · have hnot : (parameterMachine.heap.object globalObject).isArray = false := by decide +kernel
    unfold Object.isArray at hnot
    rw [harray] at hnot
    cases hnot
  · have hnone : (parameterMachine.heap.argumentsOf? globalObject).isNone = true := by decide +kernel
    rw [Heap.argumentsOf?_of_kind harguments] at hnone
    cases hnone
  · rcases hp.cases_head with rfl | ⟨q, hq, hp⟩
    · rw [hown _ (.inl rfl)]
      nofun
    · obtain rfl := Option.some.inj (hglobal.symm.trans hq)
      rcases hp.cases_head with rfl | ⟨r, hr, _⟩
      · rw [hown _ (.inr rfl)]
        nofun
      · cases hroot.symm.trans hr

theorem nearest_parameterMachine :
    parameterMachine.heap.Nearest parameterMachine.lexical 1 (.ofString "a") := by
  have hinner : parameterMachine.heap.outerOf 1 = some globalEnvironment := by decide +kernel
  have houter : parameterMachine.heap.outerOf globalEnvironment = none := by decide +kernel
  refine ⟨by decide +kernel, [], [globalEnvironment], ?_, nofun⟩
  exact .step (hinner.symm ▸ .step (houter.symm ▸ .done))

theorem bindings?_parameterMachine :
    parameterMachine.heap.bindings? 1 = some [(.ofString "a", ⟨.ofNat 1, true, false⟩)] := by decide +kernel

theorem binding?_parameterMachine :
    parameterMachine.heap.binding? 1 (.ofString "a") = some ⟨.ofNat 1, true, false⟩ := by decide +kernel

/-- The parameter is assigned, and has the value then. -/
theorem assignName_exact_parameter : parameterMachine.heap.PlainScope 1 (.ofString "a") ∧
    ∃ h', assignName (.ofString "a") (.ofNat 2) (bodiesAt 0) parameterMachine =
        .ok () { parameterMachine with heap := h' } ∧
      Heap.Rebound 1 (.ofString "a") (.ofNat 2) parameterMachine.heap h' ∧
      readName (.ofString "a") (bodiesAt 0) { parameterMachine with heap := h' } =
        .ok (.ofNat 2) { parameterMachine with heap := h' } := by
  have hscope : parameterMachine.heap.PlainScope parameterMachine.lexical (.ofString "a") := by
    refine ⟨fun e he o t hrecord => ?_, fun _ => isSubject_parameterMachine⟩
    have hinner : parameterMachine.heap.outerOf 1 = some globalEnvironment := by decide +kernel
    have houter : parameterMachine.heap.outerOf globalEnvironment = none := by decide +kernel
    have hglobal : (match (parameterMachine.heap.environment globalEnvironment).record with
        | .object o _ => decide (o = globalObject)
        | .declarative _ => false) = true := by decide +kernel
    rcases he.cases_head with rfl | ⟨q, hq, he⟩
    · cases (Heap.record_of_bindings? bindings?_parameterMachine).symm.trans hrecord
    · obtain rfl := Option.some.inj (hinner.symm.trans hq)
      rcases he.cases_head with rfl | ⟨r, hr, _⟩
      · rw [hrecord] at hglobal
        exact of_decide_eq_true hglobal ▸ isSubject_parameterMachine
      · cases houter.symm.trans hr
  refine ⟨hscope, ?_⟩
  rcases assignName_exact wellLinked_parameterMachine hscope (.ofNat 2) (bodiesAt 0) with
    ⟨e, hn, hcases⟩ | ⟨hu, _⟩
  · have he : e = 1 := by
      have hsame := (hn.resolve wellLinked_parameterMachine).symm.trans
        (nearest_parameterMachine.resolve wellLinked_parameterMachine)
      exact Option.some.inj hsame
    subst he
    rcases hcases with ⟨x, hx, hmutable, _⟩ | ⟨o, t, hrecord, _⟩
    · cases hx.symm.trans binding?_parameterMachine
      obtain ⟨h', hrun, hr, hread⟩ := hmutable rfl
      exact ⟨h', hrun, hr, hread rfl⟩
    · rw [Heap.record_of_bindings? bindings?_parameterMachine] at hrecord
      cases hrecord
  · cases (hu.resolve wellLinked_parameterMachine).symm.trans
      (nearest_parameterMachine.resolve wellLinked_parameterMachine)

/-- Another object is changed than those in scope: the index that stands for the parameter. -/
theorem assignName_shown : (parameterMachine.heap.bindings? 1).isSome = true ∧
    ∃ h', assignName (.ofString "a") (.ofNat 2) (bodiesAt 0) parameterMachine =
        .ok () { parameterMachine with heap := h' } ∧
      parameterMachine.heap.getOwn? 17 (.index ⟨0, by decide⟩) = some (.data (.ofNat 1) true true true) ∧
      h'.getOwn? 17 (.index ⟨0, by decide⟩) = some (.data (.ofNat 2) true true true) := by
  obtain ⟨h', hrun, hr, _⟩ := (assignName_declarative wellLinked_parameterMachine nearest_parameterMachine
    binding?_parameterMachine (.ofNat 2) (bodiesAt 0)).1 rfl
  have hshown := hr.shown 17 (.index ⟨0, by decide⟩) (by decide +kernel)
  have hbefore : parameterMachine.heap.getOwn? 17 (.index ⟨0, by decide⟩) =
      some (.data (.ofNat 1) true true true) := by decide +kernel
  rw [hbefore] at hshown
  exact ⟨by decide +kernel, h', hrun, hbefore, hshown⟩

end Ecma51
