import Ecma51.Proofs.Allocation
import Ecma51.Proofs.Lifetime
import Ecma51.Proofs.SharedArguments

/-!
# Activations and their arguments objects

A function that is entered binds its parameters and makes an arguments object, whose indices stand for the
parameters for which a value was passed. From then on there are steps on the object and assignments to the
parameters, in any order.

* `OwnStep.exchange`, `inward_assignBinding`: what one step does to what is shared.
* `Interleaved`: machines that arise by such steps.
* `sharing_bind`: what holds when the function is entered.
* **`arguments_share`**: what holds at any time, and what every further step does.
-/

namespace Ecma51

/-! ## 1. Single steps -/

section Steps

variable {bodies : Bodies} {o : ObjectId} {e : EnvironmentId} {m : Machine}

/-- The value that a step on an arguments object writes under an index, if the index can be written. -/
def OwnStep.written (s : OwnStep) (h : Heap) (o : ObjectId) (i : ArrayIndex) : Option Value :=
  match s with
  | .define k d _ => if k = .index i ∧ (h.define o k d).succeeded = true then d.value else none
  | .put k v _ => if k = .index i ∧ h.canPut o k = true then some v else none
  | _ => none

/-- The step runs no function of its own: what a setter does counts as steps that follow. A description that
speaks of a value and of accessors at once is none. -/
def OwnStep.Plain (s : OwnStep) (h : Heap) (o : ObjectId) : Prop :=
  match s with
  | .define _ d _ => d.Coherent
  | .put k _ _ => h.canPut o k = true → ∀ g f en c, h.getProperty? o k ≠ some (.accessor g f en c)
  | _ => True

/-- Only what is written under indices that stand for a parameter matters. -/
theorem Heap.Exchange.congr {h h' : Heap} {written written' : ArrayIndex → Option Value}
    (hx : Exchange o e written h h')
    (hw : ∀ i n, h.parameterOf? o i = some n → written i = written' i) :
    Exchange o e written' h h' := by
  refine ⟨hx.mapped, hx.unmapped, fun i n p hi hnone hp v w en c hv => ?_, fun i n v hi hv => ?_,
    fun n hn => hx.others n fun i hi => (hw i n hi).trans (hn i hi)⟩
  · rw [← hw i n hi]
    exact hx.kept i n p hi hnone hp v w en c hv
  · exact hx.outward i n v hi ((hw i n hi).trans hv)

/-- What follows an operation does not matter, if it leaves the machine alone. -/
theorem endOf_bind_quiet {α β : Type} (x : Run α) {f : α → Run β}
    (hf : ∀ a m', endOf (f a bodies m') = m') (m : Machine) :
    endOf ((x >>= f) bodies m) = endOf (x bodies m) := by
  cases hx : x bodies m with
  | ok a m' =>
    rw [bind_run_ok hx]
    exact hf a m'
  | error f m' =>
    rw [bind_run_error hx]
    rfl

/-- The definition of a property of an arguments object needs no conversion. -/
theorem Heap.Sharing.endOf_defineOwn (hs : m.heap.Sharing o e) (k : Key) (d : Descriptor) (throws : Bool) :
    endOf (defineOwn o k d throws bodies m) =
      { m with heap := (m.heap.defineArguments o k d).heap } := by
  obtain ⟨a, ha, _⟩ := hs.arguments
  have hlength : lengthValue? (m.heap.object o) k d = none := by
    unfold lengthValue? Object.isArray
    rw [kind_of_argumentsOf? ha]
    rfl
  unfold defineOwn
  rw [getHeap_bind_run, hlength, ← hs.define_eq]
  exact endOf_settle throws _ bodies m

/-- A value that can be written admits any other. -/
theorem Heap.defineOrdinary_ofValue {h : Heap} {k : Key} {u : Value} {en c : Bool}
    (hown : h.getOwn? o k = some (.data u true en c)) (v : Value) :
    (h.defineOrdinary o k (.ofValue v)).refusal = none := by
  have hredefine : ∃ q, (Descriptor.ofValue v).redefine? (.data u true en c) = some q := by
    unfold Descriptor.redefine?
    have hattributes : (Descriptor.ofValue v).keepsAttributes (.data u true en c) = true := by
      cases c <;> rfl
    have hcontent : (Descriptor.ofValue v).keepsContent (.data u true en c) = true := by
      cases c <;> rfl
    rw [hattributes, hcontent]
    split
    · exact ⟨_, rfl⟩
    · exact ⟨_, rfl⟩
  obtain ⟨q, hq⟩ := hredefine
  unfold defineOrdinary
  rw [hown]
  dsimp only
  split
  · rfl
  · rw [hq]
    rfl

section Putting

variable {k : Key} {v : Value} {throws : Bool}

theorem endOf_putTo_refused (hcan : m.heap.canPut o k = false) :
    endOf (putTo o k v throws bodies m) = m := by
  unfold putTo putFor
  rw [getHeap_bind_run, hcan, Bool.not_false, if_pos rfl]
  cases throws <;> rfl

theorem endOf_putTo_own {u : Value} {w en c : Bool} (hcan : m.heap.canPut o k = true)
    (hown : m.heap.getOwn? o k = some (.data u w en c)) :
    endOf (putTo o k v throws bodies m) = endOf (defineOwn o k (.ofValue v) throws bodies m) := by
  have hself : (Value.object o == Value.object o) = true := beq_self_eq_true _
  unfold putTo putFor
  rw [getHeap_bind_run, hcan, hown, Bool.not_true, if_neg Bool.false_ne_true]
  dsimp only
  rw [if_pos hself]
  exact endOf_bind_quiet _ (fun _ _ => rfl) m

theorem endOf_putTo_new (hcan : m.heap.canPut o k = true)
    (hown : ∀ u w en c, m.heap.getOwn? o k ≠ some (.data u w en c))
    (hfound : ∀ g f en c, m.heap.getProperty? o k ≠ some (.accessor g f en c)) :
    endOf (putTo o k v throws bodies m) =
      endOf (defineOwn o k (.data v true true true) throws bodies m) := by
  have hself : (Value.object o == Value.object o) = true := beq_self_eq_true _
  have hnew : endOf ((if (Value.object o == Value.object o) = true then do
        let _ ← defineOwn o k (.data v true true true) throws
      else refuse throws (.cannotPut k.toText) : Run Unit) bodies m) =
      endOf (defineOwn o k (.data v true true true) throws bodies m) := by
    rw [if_pos hself]
    exact endOf_bind_quiet _ (fun _ _ => rfl) m
  unfold putTo putFor
  rw [getHeap_bind_run, hcan, Bool.not_true, if_neg Bool.false_ne_true]
  rcases hp : m.heap.getOwn? o k with _ | ⟨u, w, en, c⟩ | ⟨g, f, en, c⟩
  · rcases hq : m.heap.getProperty? o k with _ | ⟨_, _, _, _⟩ | ⟨g, f, en, c⟩
    · exact hnew
    · exact hnew
    · exact absurd hq (hfound g f en c)
  · exact absurd hp (hown u w en c)
  · rcases hq : m.heap.getProperty? o k with _ | ⟨_, _, _, _⟩ | ⟨g, f, en, c⟩
    · exact hnew
    · exact hnew
    · exact absurd hq (hfound g f en c)

theorem endOf_putTo_setter {g f : Value} {en c : Bool} (hcan : m.heap.canPut o k = true)
    (hown : ∀ u w en c, m.heap.getOwn? o k ≠ some (.data u w en c))
    (hfound : m.heap.getProperty? o k = some (.accessor g f en c)) :
    endOf (putTo o k v throws bodies m) =
      endOf (holding [g, f] (callValue f (.object o) [v]) bodies m) := by
  have hcall : endOf ((do let _ ← holding [g, f] (callValue f (.object o) [v]) : Run Unit) bodies m) =
      endOf (holding [g, f] (callValue f (.object o) [v]) bodies m) :=
    endOf_bind_quiet _ (fun _ _ => rfl) m
  unfold putTo putFor
  rw [getHeap_bind_run, hcan, Bool.not_true, if_neg Bool.false_ne_true, hfound]
  rcases hp : m.heap.getOwn? o k with _ | ⟨u, w, en, c⟩ | ⟨_, _, _, _⟩
  · exact hcall
  · exact absurd hp (hown u w en c)
  · exact hcall

variable (bodies) in
/-- What an assignment to a property of an arguments object does, if it runs no setter. -/
theorem Heap.Sharing.endOf_putTo (hs : m.heap.Sharing o e)
    (hplain : (OwnStep.put k v throws).Plain m.heap o) (hcan : m.heap.canPut o k = true) :
    ∃ d : Descriptor, d.Coherent ∧ d.value = some v ∧
      ((∃ u w en c, m.heap.getOwn? o k = some (.data u w en c)) → d = .ofValue v) ∧
      endOf (putTo o k v throws bodies m) =
        { m with heap := (m.heap.defineArguments o k d).heap } := by
  by_cases hown : ∃ u w en c, m.heap.getOwn? o k = some (.data u w en c)
  · refine ⟨.ofValue v, nofun, rfl, fun _ => rfl, ?_⟩
    obtain ⟨u, w, en, c, hown⟩ := hown
    rw [endOf_putTo_own hcan hown, hs.endOf_defineOwn]
  · refine ⟨.data v true true true, nofun, rfl, fun h => absurd h hown, ?_⟩
    rw [endOf_putTo_new hcan (fun u w en c h => hown ⟨u, w, en, c, h⟩) (hplain hcan),
      hs.endOf_defineOwn]

end Putting

theorem endOf_restrict (freeze : Bool) :
    endOf ((OwnStep.restrict freeze).act o bodies m) =
      { m with heap := (m.heap.restrict o freeze).heap } := by
  have hact : (OwnStep.restrict freeze).act o =
      (restrictOwn o freeze >>= fun _ => pure (Value.object o)) >>= fun _ => pure ⟨⟩ := by
    cases freeze <;> rfl
  rw [hact, endOf_bind_quiet _ fun _ _ => rfl, endOf_bind_quiet _ fun _ _ => rfl]
  exact endOf_settle true _ bodies m

variable (bodies) in
/-- **What a step on an arguments object does** to what is shared. -/
theorem OwnStep.exchange (hs : m.heap.Sharing o e) {s : OwnStep} (hplain : s.Plain m.heap o) :
    (endOf (s.act o bodies m)).heap.Sharing o e ∧
      Heap.Exchange o e (s.written m.heap o) m.heap (endOf (s.act o bodies m)).heap := by
  cases s with
  | define k d throws =>
    have hend : endOf ((OwnStep.define k d throws).act o bodies m) =
        { m with heap := (m.heap.defineArguments o k d).heap } :=
      (endOf_bind_quiet _ (fun _ _ => rfl) m).trans (hs.endOf_defineOwn k d throws)
    obtain ⟨hs', hexchange, _⟩ := hs.exchange_define k hplain
    rw [hend]
    refine ⟨hs', hexchange.congr fun i n _ => ?_⟩
    unfold OwnStep.written
    dsimp only
    rw [hs.define_eq]
    refine if_congr (and_congr_right fun _ => ?_) rfl rfl
    exact Option.isNone_iff_eq_none.symm
  | put k v throws =>
    cases hcan : m.heap.canPut o k with
    | false =>
      have hend : endOf ((OwnStep.put k v throws).act o bodies m) = m := endOf_putTo_refused hcan
      rw [hend]
      refine hs.exchange_aside m.heap hs.arguments (fun _ => rfl) rfl (fun _ _ _ => rfl) fun i n _ => ?_
      refine if_neg fun hc => ?_
      rw [hcan] at hc
      cases hc.2
    | true =>
      obtain ⟨d, hd, hv, hown, hend⟩ := hs.endOf_putTo bodies hplain hcan
      have hend : endOf ((OwnStep.put k v throws).act o bodies m) =
          { m with heap := (m.heap.defineArguments o k d).heap } := hend
      obtain ⟨hs', hexchange, _⟩ := hs.exchange_define k hd
      rw [hend]
      refine ⟨hs', hexchange.congr fun i n hi => ?_⟩
      unfold OwnStep.written
      dsimp only
      rw [hv]
      refine if_congr (and_congr_right fun hk => ?_) rfl rfl
      -- an index that stands for a parameter has a value, which can be written
      obtain ⟨u, en, c, hu, _⟩ := hs.shown hi
      rw [← hk] at hu
      have hdone : (m.heap.defineArguments o k d).refusal = none := by
        rw [Heap.refusal_defineArguments, hown ⟨u, true, en, c, hu⟩]
        exact Heap.defineOrdinary_ofValue hu v
      exact ⟨fun _ => hcan, fun _ => hdone⟩
  | delete k throws =>
    have hend : endOf ((OwnStep.delete k throws).act o bodies m) =
        { m with heap := (m.heap.deleteOwn o k).heap } :=
      (endOf_bind_quiet _ (fun _ _ => rfl) m).trans (endOf_settle throws _ bodies m)
    rw [hend]
    exact hs.exchange_delete k
  | restrict freeze =>
    rw [endOf_restrict]
    exact hs.exchange_restrict freeze
  | preventExtensions =>
    obtain ⟨hs', hnarrows⟩ := hs.preventExtensions
    exact ⟨hs', hnarrows.exchange⟩

theorem Heap.record_of_bindings? {h : Heap} {b : Bindings} (hb : h.bindings? e = some b) :
    (h.environment e).record = .declarative b := by
  unfold bindings? at hb
  split at hb
  · rename_i hrecord
    cases hb
    exact hrecord
  · cases hb

variable (bodies) in
/-- **What an assignment to a name of the activation does** to what is shared. -/
theorem inward_assignBinding (hs : m.heap.Sharing o e) (name : Text) (v : Value) (strict : Bool) :
    (endOf (assignBinding e name v strict bodies m)).heap.Sharing o e ∧
      Heap.Inward o e name v m.heap (endOf (assignBinding e name v strict bodies m)).heap := by
  obtain ⟨b, hb, _⟩ := hs.bound
  have hassign := hs.inward_assign hb name v strict
  unfold assignBinding
  rw [getHeap_bind_run, Heap.record_of_bindings? hb]
  dsimp only
  cases hresult : b.assign name v strict with
  | ok b' =>
    rw [hresult] at hassign
    exact hassign
  | error f =>
    rw [hresult] at hassign
    exact ⟨hs, hassign⟩

/-! ## 2. Runs -/

/-- Whatever was bound is bound as before, though other names may have been added. -/
def Heap.KeepsBindings (e : EnvironmentId) (h h' : Heap) : Prop :=
  ∀ b, h.bindings? e = some b →
    ∃ b', h'.bindings? e = some b' ∧ ∀ n x, b.find? n = some x → b'.find? n = some x

/-- The machines that arise by steps on an arguments object and assignments in the environment of its
activation, in any order and however each of them ends, and by whatever concerns neither. -/
inductive Interleaved (bodies : Bodies) (o : ObjectId) (e : EnvironmentId) (m : Machine) :
    Machine → Prop where
  | refl : Interleaved bodies o e m m
  | own {m' : Machine} (s : OwnStep) : Interleaved bodies o e m m' → s.Plain m'.heap o →
      Interleaved bodies o e m (endOf (s.act o bodies m'))
  | assign {m' : Machine} (name : Text) (v : Value) (strict : Bool) : Interleaved bodies o e m m' →
      Interleaved bodies o e m (endOf (assignBinding e name v strict bodies m'))
  | aside {m' m'' : Machine} : Interleaved bodies o e m m' →
      m''.heap.object o = m'.heap.object o → m'.heap.KeepsBindings e m''.heap →
      Interleaved bodies o e m m''

theorem Interleaved.trans {m' m'' : Machine} (h : Interleaved bodies o e m m')
    (h' : Interleaved bodies o e m' m'') : Interleaved bodies o e m m'' := by
  induction h' with
  | refl => exact h
  | own s _ hplain ih => exact .own s ih hplain
  | assign name v strict _ ih => exact .assign name v strict ih
  | aside _ hobject hbindings ih => exact .aside ih hobject hbindings

/-- An assignment to a property that runs a setter is an interleaving if what the setter does is one. -/
theorem Interleaved.setter {m' : Machine} {k : Key} {v g f : Value} {en c throws : Bool}
    (h : Interleaved bodies o e m m') (hcan : m'.heap.canPut o k = true)
    (hfound : m'.heap.getProperty? o k = some (.accessor g f en c))
    (hown : ∀ u w en c, m'.heap.getOwn? o k ≠ some (.data u w en c))
    (hcall : Interleaved bodies o e { m' with held := [g, f] ++ m'.held }
      (endOf (callValue f (.object o) [v] bodies { m' with held := [g, f] ++ m'.held }))) :
    Interleaved bodies o e m (endOf ((OwnStep.put k v throws).act o bodies m')) := by
  have hkeeps (h : Heap) : h.KeepsBindings e h := fun b hb => ⟨b, hb, fun _ _ hx => hx⟩
  have hput : endOf ((OwnStep.put k v throws).act o bodies m') =
      endOf (holding [g, f] (callValue f (.object o) [v]) bodies m') := endOf_putTo_setter hcan hown hfound
  have hentered : Interleaved bodies o e m { m' with held := [g, f] ++ m'.held } :=
    .aside h rfl (hkeeps _)
  rw [hput]
  refine .aside (hentered.trans hcall) ?_ ?_
  · unfold holding
    split
    · rename_i hm
      rw [hm]
      rfl
    · rename_i hm
      rw [hm]
      rfl
  · unfold holding
    split
    · rename_i hm
      rw [hm]
      exact hkeeps _
    · rename_i hm
      rw [hm]
      exact hkeeps _

/-- What happens aside leaves what is shared alone. -/
theorem Heap.Sharing.aside {h h' : Heap} (hs : h.Sharing o e) (hobject : h'.object o = h.object o)
    (hbindings : h.KeepsBindings e h') : h'.Sharing o e := by
  obtain ⟨b, hb, hbound⟩ := hs.bound
  obtain ⟨b', hb', hkept⟩ := hbindings b hb
  refine hs.of_object hobject hb' fun i n hi => ?_
  obtain ⟨v, deletable, hv⟩ := hbound i n hi
  exact ⟨v, deletable, hkept n _ hv⟩

/-- **However the steps are interleaved**, an index that stands for a parameter has done so from the
beginning, and what holds of both sides holds at the end. -/
theorem Interleaved.sharing {m' : Machine} (h : Interleaved bodies o e m m')
    (hs : m.heap.Sharing o e) :
    m'.heap.Sharing o e ∧
      ∀ i n, m'.heap.parameterOf? o i = some n → m.heap.parameterOf? o i = some n := by
  induction h with
  | refl => exact ⟨hs, fun _ _ hi => hi⟩
  | @own m' s _ hplain ih =>
    obtain ⟨hs', hback⟩ := ih
    obtain ⟨hs'', hexchange⟩ := OwnStep.exchange bodies hs' hplain
    refine ⟨hs'', fun i n hi => hback i n ?_⟩
    cases hi' : m'.heap.parameterOf? o i with
    | none =>
      rw [hexchange.unmapped i hi'] at hi
      cases hi
    | some n' =>
      rw [hexchange.mapped i n' hi'] at hi
      split at hi
      · exact hi
      · cases hi
  | @assign m' name v strict _ ih =>
    obtain ⟨hs', hback⟩ := ih
    obtain ⟨hs'', hinward⟩ := inward_assignBinding bodies hs' name v strict
    exact ⟨hs'', fun i n hi => hback i n ((hinward.mapped i).symm.trans hi)⟩
  | @aside m' m'' _ hobject hbindings ih =>
    obtain ⟨hs', hback⟩ := ih
    refine ⟨hs'.aside hobject hbindings, fun i n hi => hback i n ?_⟩
    exact (Heap.parameterOf?_of_object hobject i).symm.trans hi

end Steps

/-! ## 3. Binding parameters -/

section Entering

variable {bodies : Bodies} {e : EnvironmentId} {m : Machine}

/-- The environment binds exactly these names, and all of them can be assigned. -/
def Heap.Declares (h : Heap) (e : EnvironmentId) (bound : Text → Prop) : Prop :=
  ∃ b, h.bindings? e = some b ∧ ∀ n, (bound n → ∃ v deletable, b.find? n = some ⟨v, true, deletable⟩) ∧
    (¬ bound n → b.find? n = none)

theorem Heap.Declares.congr {h : Heap} {bound bound' : Text → Prop} (hd : h.Declares e bound)
    (hbound : ∀ n, bound n ↔ bound' n) : h.Declares e bound' := by
  obtain ⟨b, hb, hnames⟩ := hd
  exact ⟨b, hb, fun n => ⟨fun hn => (hnames n).1 ((hbound n).mpr hn),
    fun hn => (hnames n).2 fun hn' => hn ((hbound n).mp hn')⟩⟩

theorem assignBinding_run {b : Bindings} {name : Text} {u : Value} {deletable : Bool}
    (hb : m.heap.bindings? e = some b) (hname : b.find? name = some ⟨u, true, deletable⟩) (v : Value)
    (strict : Bool) :
    assignBinding e name v strict bodies m = .ok ⟨⟩
      { m with heap := m.heap.setRecord e (.declarative (b.put name ⟨v, true, deletable⟩)) } := by
  unfold assignBinding
  rw [getHeap_bind_run, Heap.record_of_bindings? hb]
  dsimp only
  unfold Bindings.assign
  rw [hname]
  rfl

/-- A name is bound from now on, and the others are as before. -/
theorem declares_put {b b₁ : Bindings} {bound : Text → Prop} {name : Text} {x : Binding}
    (hbound : ∀ n, (bound n → ∃ v deletable, b.find? n = some ⟨v, true, deletable⟩) ∧
      (¬ bound n → b.find? n = none))
    (hx : x.mutable = true) (hb₁ : ∀ n, n ≠ name → b₁.find? n = b.find? n) (n : Text) :
    (n = name ∨ bound n → ∃ v deletable, (b₁.put name x).find? n = some ⟨v, true, deletable⟩) ∧
      (¬ (n = name ∨ bound n) → (b₁.put name x).find? n = none) := by
  rw [Bindings.find?_put]
  by_cases hn : name = n
  · rw [if_pos hn]
    obtain ⟨value, mutable, deletable⟩ := x
    cases hx
    exact ⟨fun _ => ⟨value, deletable, rfl⟩, fun hc => absurd (.inl hn.symm) hc⟩
  · rw [if_neg hn, hb₁ n (Ne.symm hn)]
    exact ⟨fun hc => (hbound n).1 (hc.resolve_left (Ne.symm hn)),
      fun hc => (hbound n).2 fun hn' => hc (.inr hn')⟩

variable (bodies) in
/-- A parameter is bound from now on, whether or not it was before. -/
theorem declareParameter_run {bound : Text → Prop} (hd : m.heap.Declares m.declarations bound)
    (strict : Bool) (name : Text) (v : Value) :
    ∃ h', declareParameter strict name v bodies m = .ok ⟨⟩ { m with heap := h' } ∧
      h'.Declares m.declarations fun n => n = name ∨ bound n := by
  obtain ⟨b, hb, hbound⟩ := hd
  have hrecord := Heap.record_of_bindings? hb
  have hhas : m.heap.hasBinding m.declarations name = b.has name := by
    unfold Heap.hasBinding
    rw [hrecord]
  unfold declareParameter
  rw [get_bind_run]
  dsimp only
  rw [hhas]
  cases hx : b.find? name with
  | some x =>
    have hb' : b.has name = true := by
      unfold Bindings.has
      rw [hx]
      rfl
    rw [hb', if_pos rfl]
    obtain ⟨u, deletable, hu⟩ : ∃ u deletable, b.find? name = some ⟨u, true, deletable⟩ := by
      by_contra hnot
      have hnone := (hbound name).2 fun hn => hnot ((hbound name).1 hn)
      rw [hx] at hnone
      cases hnone
    exact ⟨_, assignBinding_run hb hu v strict, _, Heap.bindings?_setRecord _,
      declares_put hbound rfl fun _ _ => rfl⟩
  | none =>
    have hb' : b.has name = false := by
      unfold Bindings.has
      rw [hx]
      rfl
    rw [hb', if_neg Bool.false_ne_true]
    have hcreate : createBinding m.declarations name false bodies m = .ok ⟨⟩
        { m with heap :=
          m.heap.modifyBindings m.declarations (·.create name ⟨.undefined, true, false⟩) } := by
      unfold createBinding
      rw [getHeap_bind_run, hrecord]
      rfl
    have hb₁ : (m.heap.modifyBindings m.declarations
        (·.create name ⟨.undefined, true, false⟩)).bindings? m.declarations =
        some (b.put name ⟨.undefined, true, false⟩) := by
      rw [Heap.bindings?_modifyBindings, hb]
      show some (if b.has name = true then _ else _) = _
      rw [hb', if_neg Bool.false_ne_true]
    have hu : (b.put name ⟨.undefined, true, false⟩).find? name = some ⟨.undefined, true, false⟩ := by
      rw [Bindings.find?_put, if_pos rfl]
    rw [bind_run_ok hcreate]
    refine ⟨_, assignBinding_run hb₁ hu v strict, _, Heap.bindings?_setRecord _, ?_⟩
    refine declares_put hbound rfl fun n hn => ?_
    rw [Bindings.find?_put, if_neg (Ne.symm hn)]

variable (bodies) in
/-- All parameters are bound, one after the other. -/
theorem bindParameters_run {bound : Text → Prop} (frame : Frame) (strict : Bool) (names : List Text)
    (i : Nat) (hd : m.heap.Declares m.declarations bound) :
    ∃ m', bindParameters frame strict names i bodies m = .ok ⟨⟩ m' ∧
      m'.heap.Declares m.declarations (fun n => n ∈ names ∨ bound n) ∧
      m'.contexts = m.contexts ∧ m'.stack = m.stack := by
  induction names generalizing i m bound with
  | nil =>
    refine ⟨m, rfl, hd.congr fun n => ?_, rfl, rfl⟩
    exact (or_iff_right List.not_mem_nil).symm
  | cons name names ih =>
    obtain ⟨h', hrun, hd'⟩ := declareParameter_run bodies
      (m := { m with atoms := (m.atoms.intern name).1 }) hd strict name
      (if i < frame.argc then m.stack.get (frame.fp + i) else .undefined)
    obtain ⟨m', hrest, hdeclares, hcontexts, hstack⟩ := ih (m := { m with
      atoms := (m.atoms.intern name).1
      heap := h' }) (i + 1) hd'
    refine ⟨m', ?_, hdeclares.congr fun n => ?_, hcontexts, hstack⟩
    · unfold bindParameters
      rw [get_bind_run]
      have hintern : internName name bodies m = .ok ⟨⟩ { m with atoms := (m.atoms.intern name).1 } := rfl
      rw [bind_run_ok hintern, bind_run_ok hrun]
      exact hrest
    · rw [List.mem_cons, or_assoc, or_left_comm]

/-! ## 4. The arguments object -/

/-- The environment of the running code is in use. -/
theorem declarations_mem_roots (m : Machine) : Heap.environmentNode m.declarations ∈ m.roots := by
  refine Heap.environmentNode_mem_nodesOf.mpr ?_
  unfold Machine.declarations Machine.context?
  cases m.contexts with
  | nil => exact List.mem_cons_self
  | cons c rest =>
    refine List.mem_cons_of_mem _ ?_
    show c.declarations ∈ [c.lexical, c.declarations] ++ _
    exact List.mem_append_left _ (List.mem_cons_of_mem _ List.mem_cons_self)

theorem Heap.bindings?_of_environments {h h' : Heap}
    (henvironments : h'.environments[e]? = h.environments[e]?) : h'.bindings? e = h.bindings? e := by
  unfold bindings? environment
  rw [Std.TreeMap.getD_eq_getD_getElem?, Std.TreeMap.getD_eq_getD_getElem?, henvironments]

/-- A new object leaves the bindings of the running code alone, even if the heap is searched for it. -/
theorem bindings?_newObjectOf {x : Object} {m' : Machine} {o : ObjectId}
    (hnew : newObjectOf x bodies m = .ok o m') :
    m'.heap.bindings? m.declarations = m.heap.bindings? m.declarations := by
  have hkept := (m.heap.inUse_reserve m.roots [] m.heapLimit m.nextCollection).2 m.declarations
    (.outside (declarations_mem_roots m))
  unfold newObjectOf at hnew
  cases hfits : m.reserve.2 with
  | true =>
    rw [bind_run_ok ((allocate_run bodies m).trans (if_pos hfits))] at hnew
    cases hnew
    exact Heap.bindings?_of_environments hkept
  | false =>
    rw [bind_run_error ((allocate_run bodies m).trans (if_neg (Bool.eq_false_iff.mp hfits)))] at hnew
    cases hnew

/-- The elements of an arguments object are those that were passed. -/
theorem isSome_argumentsObject (callee : Value) (args : List Value) (e : EnvironmentId) (strict : Bool)
    (i : ArrayIndex) :
    ((argumentsObject callee args e strict).properties.get? (.index i)).isSome =
      decide (i.val < args.length) := by
  have hadded (l : List Value) (k : Nat) (x : Object) :
      (((l.zipIdx k).foldl (fun x e => x.withProperty (.ofNat e.2) (.plain e.1)) x).properties.get?
        (.index i)).isSome =
      (decide (k ≤ i.val ∧ i.val < k + l.length) || (x.properties.get? (.index i)).isSome) := by
    induction l generalizing k x with
    | nil =>
      have hempty : ¬ (k ≤ i.val ∧ i.val < k + 0) := by omega
      show _ = (decide (k ≤ i.val ∧ i.val < k + 0) || _)
      rw [decide_eq_false hempty, Bool.false_or]
      rfl
    | cons v l ih =>
      rw [List.zipIdx_cons, List.foldl_cons, ih]
      show (_ || ((x.properties.insert (.ofNat k) (.plain v)).get? (.index i)).isSome) = _
      rw [PropertyTable.get?_insert]
      by_cases hk : k = i.val
      · subst hk
        rw [if_pos (Key.ofNat_val i), List.length_cons]
        have hfirst : i.val ≤ i.val ∧ i.val < i.val + (l.length + 1) := by omega
        rw [decide_eq_true hfirst, Bool.true_or]
        exact Bool.or_true _
      · rw [if_neg fun h => hk (Key.eq_of_ofNat_eq_index h), List.length_cons]
        congr 1
        exact decide_eq_decide.mpr (by omega)
  have hempty : (((Object.ofKind "Arguments" (some Intrinsic.objectPrototype.id)
      (.arguments ⟨e, []⟩)).withProperty .length (.hidden (.ofNat args.length))).properties.get?
        (.index i)) = none := by
    show (PropertyTable.insert _ .length _).get? (.index i) = none
    rw [PropertyTable.get?_insert, if_neg (Key.length_ne_index i)]
    exact PropertyTable.get?_empty _
  have hargs := hadded args 0 ((Object.ofKind "Arguments" (some Intrinsic.objectPrototype.id)
      (.arguments ⟨e, []⟩)).withProperty .length (.hidden (.ofNat args.length)))
  rw [hempty, Nat.zero_add, Option.isSome_none, Bool.or_false] at hargs
  have hbelow : (0 ≤ i.val ∧ i.val < args.length) ↔ i.val < args.length := by omega
  rw [decide_eq_decide.mpr hbelow] at hargs
  have hnamed (x : Object) (name : String) (p : Property)
      (hname : Key.ofString name ≠ .index i) :
      (x.withProperty (.ofString name) p).properties.get? (.index i) = x.properties.get? (.index i) :=
    Object.get?_withProperty_of_ne x hname p
  unfold argumentsObject
  dsimp only
  split
  · rw [← hargs]
    show ((Object.withProperty _ (.ofString "callee") _).properties.get? (.index i)).isSome = _
    rw [hnamed _ "callee" _ Key.noConfusion, hnamed _ "caller" _ Key.noConfusion]
  · rw [hnamed _ "callee" _ Key.noConfusion]
    exact hargs

variable (bodies) in
/-- One parameter is linked: its index stands for it from now on, if a value was passed. -/
theorem linkParameter_ok {o : ObjectId} {a : ArgumentsData} (ha : m.heap.argumentsOf? o = some a) (i : Nat)
    (name : Text) :
    ∃ h', linkParameter (.object o) i name bodies m = .ok ⟨⟩ { m with heap := h' } ∧
      (∃ a', h'.argumentsOf? o = some a' ∧ a'.environment = a.environment) ∧
      (∀ e, h'.bindings? e = m.heap.bindings? e) ∧
      (h'.object o).properties = (m.heap.object o).properties ∧
      ∀ j : ArrayIndex, h'.parameterOf? o j =
        if i = j.val ∧ (m.heap.stored? o (.index j)).isSome = true then some name
        else m.heap.parameterOf? o j := by
  unfold linkParameter
  rw [getHeap_bind_run]
  dsimp only
  rw [ha]
  dsimp only
  by_cases hpassed : (m.heap.stored? o (.ofNat i)).isSome = true
  · rw [if_pos hpassed]
    have hobject : ((m.heap.modify o fun x => { x with kind := .arguments (a.link i name) }).object o) =
        { m.heap.object o with kind := .arguments (a.link i name) } := Heap.object_modify_self _ _ _
    have ha' : (m.heap.modify o fun x => { x with kind := .arguments (a.link i name) }).argumentsOf? o =
        some (a.link i name) := Heap.argumentsOf?_of_kind (by rw [hobject])
    refine ⟨_, rfl, ⟨_, ha', rfl⟩, fun _ => rfl, by rw [hobject], fun j => ?_⟩
    unfold Heap.parameterOf?
    rw [ha', ha]
    show (a.link i name).nameOf? j.val = if _ then _ else a.nameOf? j.val
    rw [ArgumentsData.nameOf?_link_eq]
    refine if_congr ?_ rfl rfl
    refine ⟨fun hij => ⟨hij, ?_⟩, And.left⟩
    rw [hij, Key.ofNat_val] at hpassed
    exact hpassed
  · rw [if_neg hpassed]
    refine ⟨m.heap, rfl, ⟨a, ha, rfl⟩, fun _ => rfl, rfl, fun j => (if_neg fun hj => hpassed ?_).symm⟩
    obtain ⟨hij, hj⟩ := hj
    rw [hij, Key.ofNat_val]
    exact hj

variable (bodies) in
/-- All parameters are linked, from an index on. -/
theorem linkParameters_ok {o : ObjectId} {a : ArgumentsData} (ha : m.heap.argumentsOf? o = some a)
    (names : List Text) (k : Nat) :
    ∃ h', linkParameters (.object o) names k bodies m = .ok ⟨⟩ { m with heap := h' } ∧
      (∃ a', h'.argumentsOf? o = some a' ∧ a'.environment = a.environment) ∧
      (∀ e, h'.bindings? e = m.heap.bindings? e) ∧
      (h'.object o).properties = (m.heap.object o).properties ∧
      ∀ j : ArrayIndex, h'.parameterOf? o j =
        (if k ≤ j.val ∧ (m.heap.stored? o (.index j)).isSome = true then names[j.val - k]? else none).or
          (m.heap.parameterOf? o j) := by
  induction names generalizing k m a with
  | nil =>
    refine ⟨m.heap, rfl, ⟨a, ha, rfl⟩, fun _ => rfl, rfl, fun j => ?_⟩
    rw [List.getElem?_nil, ite_self, Option.none_or]
  | cons name names ih =>
    obtain ⟨h₁, hrun, ⟨a₁, ha₁, hae₁⟩, hbindings₁, hproperties₁, hparameter₁⟩ :=
      linkParameter_ok bodies ha k name
    obtain ⟨h', hrest, ⟨a', ha', hae'⟩, hbindings, hproperties, hparameter⟩ :=
      ih (m := { m with heap := h₁ }) ha₁ (k + 1)
    refine ⟨h', ?_, ⟨a', ha', hae'.trans hae₁⟩, fun e => (hbindings e).trans (hbindings₁ e),
      hproperties.trans hproperties₁, fun j => ?_⟩
    · unfold linkParameters
      rw [bind_run_ok hrun]
      exact hrest
    · have hstored : h₁.stored? o (.index j) = m.heap.stored? o (.index j) := by
        unfold Heap.stored?
        rw [hproperties₁]
      rw [hparameter]
      show Option.or (if k + 1 ≤ j.val ∧ (h₁.stored? o (.index j)).isSome = true then _ else _)
        (h₁.parameterOf? o j) = _
      rw [hstored, hparameter₁]
      by_cases hs : (m.heap.stored? o (.index j)).isSome = true
      · rcases Nat.lt_trichotomy j.val k with hlt | heq | hgt
        · rw [if_neg fun hc => absurd hc.1 (by omega), if_neg fun hc => absurd hc.1 (by omega),
            if_neg fun hc => absurd hc.1 (by omega)]
        · rw [if_neg fun hc => absurd hc.1 (by omega), if_pos ⟨heq.symm, hs⟩,
            if_pos ⟨Nat.le_of_eq heq.symm, hs⟩, heq, Nat.sub_self]
          rfl
        · rw [if_pos ⟨hgt, hs⟩, if_neg fun hc => absurd hc.1 (by omega), if_pos ⟨Nat.le_of_lt hgt, hs⟩]
          have hindex : j.val - k = (j.val - (k + 1)) + 1 := by omega
          rw [hindex, List.getElem?_cons_succ]
      · rw [if_neg fun hc => hs hc.2, if_neg fun hc => hs hc.2, if_neg fun hc => hs hc.2]

/-- The binding of the arguments object is there, and other names are bound as before. -/
theorem find?_bindArguments (strict : Bool) (o : ObjectId) {b : Bindings}
    (hb : b.find? argumentsName = none) :
    let b' := if strict then (b.createImmutable argumentsName).initialise argumentsName (.object o)
      else b.put argumentsName ⟨.object o, true, false⟩
    (∃ mutable, b'.find? argumentsName = some ⟨.object o, mutable, false⟩) ∧
      ∀ n, argumentsName ≠ n → b'.find? n = b.find? n := by
  intro b'
  cases strict with
  | false =>
    have hb' : b' = b.put argumentsName ⟨.object o, true, false⟩ := if_neg Bool.false_ne_true
    rw [hb']
    refine ⟨⟨true, ?_⟩, fun n hn => ?_⟩
    · rw [Bindings.find?_put, if_pos rfl]
    · rw [Bindings.find?_put, if_neg hn]
  | true =>
    have hcreated : b.createImmutable argumentsName = b.put argumentsName ⟨.nothing, false, false⟩ := by
      unfold Bindings.createImmutable Bindings.create Bindings.has
      rw [hb]
      rfl
    have hb' : b' =
        (b.put argumentsName ⟨.nothing, false, false⟩).put argumentsName ⟨.object o, false, false⟩ := by
      show Bindings.initialise _ _ _ = _
      unfold Bindings.initialise
      rw [hcreated, Bindings.find?_put, if_pos rfl]
      rfl
    rw [hb']
    refine ⟨⟨false, ?_⟩, fun n hn => ?_⟩
    · rw [Bindings.find?_put, if_pos rfl]
    · rw [Bindings.find?_put, if_neg hn, Bindings.find?_put, if_neg hn]

/-- The arguments object is made of what was passed, and bound. -/
theorem bindArguments_ok {frame : Frame} {b : Bindings} {v : Value} {m' : Machine}
    (hb : m.heap.bindings? m.declarations = some b) (hunbound : b.find? argumentsName = none)
    (hrun : bindArguments frame bodies m = .ok v m') :
    ∃ o, v = .object o ∧
      (∃ callee strict, m'.heap.object o =
        argumentsObject callee (m.stack.values frame.fp frame.argc) m.declarations strict) ∧
      ∃ b', m'.heap.bindings? m.declarations = some b' ∧
        (∃ mutable, b'.find? argumentsName = some ⟨.object o, mutable, false⟩) ∧
        ∀ n, argumentsName ≠ n → b'.find? n = b.find? n := by
  have hhas : m.heap.hasBinding m.declarations argumentsName = false := by
    unfold Heap.hasBinding
    rw [Heap.record_of_bindings? hb]
    show (b.find? argumentsName).isSome = false
    rw [hunbound]
    rfl
  unfold bindArguments at hrun
  rw [get_bind_run] at hrun
  dsimp only at hrun
  rw [hhas, if_neg Bool.false_ne_true] at hrun
  cases hnew : newObjectOf (argumentsObject (m.stack.get frame.calleeSlot)
      (m.stack.values frame.fp frame.argc) m.declarations m.isStrict) bodies m with
  | error f m₁ =>
    rw [bind_run_error hnew] at hrun
    cases hrun
  | ok o m₁ =>
    rw [bind_run_ok hnew] at hrun
    cases hrun
    refine ⟨o, rfl, ⟨m.stack.get frame.calleeSlot, m.isStrict, ?_⟩, _, ?_,
      find?_bindArguments m.isStrict o hunbound⟩
    · show (Heap.modifyBindings _ _ _).object o = _
      rw [Heap.object_modifyBindings, (newObjectOf_ok hnew).2.1]
    · show (Heap.modifyBindings _ _ _).bindings? _ = _
      rw [Heap.bindings?_modifyBindings, bindings?_newObjectOf hnew, hb]
      rfl

/-- An arguments object whose properties are those with which it was made, and whose indices stand for
bound parameters for which a value was passed. -/
theorem Heap.sharing_of_made {h : Heap} {o : ObjectId} {callee : Value} {args : List Value} {strict : Bool}
    {b : Bindings} {parameters : List Text} {P : ArrayIndex → Prop} [DecidablePred P]
    (harguments : ∃ a, h.argumentsOf? o = some a ∧ a.environment = e)
    (hproperties : (h.object o).properties = (argumentsObject callee args e strict).properties)
    (hb : h.bindings? e = some b)
    (hbound : ∀ n ∈ parameters, ∃ v deletable, b.find? n = some ⟨v, true, deletable⟩)
    (hpassed : ∀ i, P i → i.val < args.length)
    (hparameter : ∀ i, h.parameterOf? o i = if P i then parameters[i.val]? else none) :
    h.Sharing o e := by
  have hshared {i : ArrayIndex} {n : Text} (hi : h.parameterOf? o i = some n) :
      P i ∧ parameters[i.val]? = some n := by
    rw [hparameter] at hi
    split at hi
    · rename_i hP
      exact ⟨hP, hi⟩
    · cases hi
  refine ⟨harguments, fun i n hi => ?_, b, hb, fun i n hi =>
    hbound n (List.mem_of_getElem? (hshared hi).2)⟩
  have hsome : ((argumentsObject callee args e strict).properties.get? (.index i)).isSome = true :=
    (isSome_argumentsObject callee args e strict i).trans (decide_eq_true (hpassed i (hshared hi).1))
  obtain ⟨p, hp⟩ := Option.isSome_iff_exists.mp hsome
  obtain ⟨v, en, c, rfl⟩ := sharable_argumentsObject callee args e strict i p hp
  refine ⟨v, en, c, ?_⟩
  unfold stored?
  rw [hproperties, hp]

/-- The arguments object of a function that is entered has been made of what was passed, and it and the parameters
are bound; its indices stand for nothing yet. -/
structure Machine.ArgumentsMade (s : Signature) (frame : Frame) (m : Machine) (o : ObjectId) (m' : Machine) :
    Prop where
  object : ∃ callee strict, m'.heap.object o =
    argumentsObject callee (m.stack.values frame.fp frame.argc) m.declarations strict
  bindings : ∃ b, m'.heap.bindings? m.declarations = some b ∧
    (∃ mutable, b.find? argumentsName = some ⟨.object o, mutable, false⟩) ∧
    ∀ n ∈ s.parameters, ∃ v deletable, b.find? n = some ⟨v, true, deletable⟩

/-- What is left to do after that is to link the indices to the parameters, if the function is not strict. -/
theorem argumentsMade_bind {s : Signature} {frame : Frame} {m₀ : Machine}
    (hbinds : s.bindsArguments = true) (hname : argumentsName ∉ s.parameters)
    (hfresh : m.heap.bindings? m.declarations = some []) (hrun : s.bind frame bodies m = .ok ⟨⟩ m₀) :
    ∃ o m', m.ArgumentsMade s frame o m' ∧
      (if s.strict then pure ⟨⟩ else linkParameters (.object o) s.parameters 0 : Run Unit) bodies m' =
        .ok ⟨⟩ m₀ := by
  have hempty : m.heap.Declares m.declarations fun _ => False :=
    ⟨[], hfresh, fun n => ⟨False.elim, fun _ => rfl⟩⟩
  obtain ⟨m₁, hparameters, ⟨b, hb, hbound⟩, hcontexts, hstack⟩ :=
    bindParameters_run bodies frame s.strict s.parameters 0 hempty
  have hdeclarations : m₁.declarations = m.declarations := by
    unfold Machine.declarations Machine.context?
    rw [hcontexts]
  have hunbound : b.find? argumentsName = none := (hbound argumentsName).2 (by simp [hname])
  unfold Signature.bind at hrun
  rw [bind_run_ok hparameters, if_pos hbinds] at hrun
  cases hresult : bindArguments frame bodies m₁ with
  | error f m₂ =>
    rw [bind_run_error hresult] at hrun
    cases hrun
  | ok v m₂ =>
    rw [bind_run_ok hresult] at hrun
    rw [← hdeclarations] at hb
    obtain ⟨o, rfl, hobject, b₂, hb₂, hargs, hothers⟩ := bindArguments_ok hb hunbound hresult
    rw [hdeclarations] at hobject hb₂
    rw [hstack] at hobject
    refine ⟨o, m₂, ⟨hobject, b₂, hb₂, hargs, fun n hn => ?_⟩, hrun⟩
    rw [hothers n fun hc => hname (hc ▸ hn)]
    exact (hbound n).1 (.inl hn)

/-- **The arguments object of a function that is entered** shares the indices for which both a value was
passed and there is a parameter, if the function is not strict. -/
theorem sharing_bind {s : Signature} {frame : Frame} {m₀ : Machine}
    (hbinds : s.bindsArguments = true) (hname : argumentsName ∉ s.parameters)
    (hfresh : m.heap.bindings? m.declarations = some []) (hrun : s.bind frame bodies m = .ok ⟨⟩ m₀) :
    ∃ o, m₀.heap.valueOf? m.declarations argumentsName = some (.object o) ∧
      m₀.heap.Sharing o m.declarations ∧
      ∀ i : ArrayIndex, m₀.heap.parameterOf? o i =
        if s.strict = false ∧ i.val < (m.stack.values frame.fp frame.argc).length
        then s.parameters[i.val]? else none := by
  obtain ⟨o, m₁, ⟨⟨callee, strict, hobject⟩, b, hb, ⟨mutable, hargs⟩, hbound⟩, hlink⟩ :=
    argumentsMade_bind hbinds hname hfresh hrun
  have ha : m₁.heap.argumentsOf? o = some ⟨m.declarations, []⟩ :=
    Heap.argumentsOf?_of_kind (by rw [hobject]; exact kind_argumentsObject _ _ _ _)
  have hbefore (i : ArrayIndex) : m₁.heap.parameterOf? o i = none := by
    unfold Heap.parameterOf?
    rw [ha]
    rfl
  have hvalue {h : Heap} (hb' : h.bindings? m.declarations = some b) :
      h.valueOf? m.declarations argumentsName = some (.object o) := by
    unfold Heap.valueOf?
    rw [hb']
    show (b.find? argumentsName).map _ = _
    rw [hargs]
    rfl
  refine ⟨o, ?_⟩
  cases hstrict : s.strict with
  | true =>
    rw [hstrict, if_pos rfl] at hlink
    have hend : m₁ = m₀ := by
      cases hlink
      rfl
    subst hend
    have hparameter (i : ArrayIndex) : m₁.heap.parameterOf? o i =
        if true = false ∧ i.val < (m.stack.values frame.fp frame.argc).length
        then s.parameters[i.val]? else none := by
      rw [hbefore, if_neg fun hc => by cases hc.1]
    exact ⟨hvalue hb, Heap.sharing_of_made ⟨_, ha, rfl⟩ (congrArg _ hobject) hb hbound
      (fun i hi => hi.2) hparameter, hparameter⟩
  | false =>
    rw [hstrict, if_neg Bool.false_ne_true] at hlink
    obtain ⟨h', hlinked, harguments, hbindings, hproperties, hlinks⟩ :=
      linkParameters_ok bodies ha s.parameters 0
    rw [hlinked] at hlink
    cases hlink
    have hpassed (i : ArrayIndex) : (m₁.heap.stored? o (.index i)).isSome =
        decide (i.val < (m.stack.values frame.fp frame.argc).length) := by
      unfold Heap.stored?
      rw [hobject]
      exact isSome_argumentsObject _ _ _ _ i
    have hparameter (i : ArrayIndex) : h'.parameterOf? o i =
        if false = false ∧ i.val < (m.stack.values frame.fp frame.argc).length
        then s.parameters[i.val]? else none := by
      rw [hlinks, hbefore, Option.or_none, hpassed]
      exact if_congr (by simp) rfl rfl
    have hb' : h'.bindings? m.declarations = some b := (hbindings _).trans hb
    exact ⟨hvalue hb', Heap.sharing_of_made harguments (hproperties.trans (congrArg _ hobject)) hb'
      hbound (fun i hi => hi.2) hparameter, hparameter⟩

end Entering

/-! ## 5. The main statement -/

/-- **Arguments objects share values with parameters.** A function is entered, and its arguments object is
`o`. Exactly the indices for which a value was passed stand for the parameter of their place, none if the
function is strict. However steps on the object and assignments are interleaved afterwards:

* an index that stands for a parameter has done so from the beginning, and shows the value of the parameter,
  which can be written;
* an index that stands for none never stands for one again;
* the next step on the object passes on to parameters exactly what it writes under indices that stand for
  them; such an index stops standing for its parameter exactly if it is gone, is an accessor or cannot be
  written afterwards, and then keeps the value that was written or else the one it showed;
* the next assignment is shown by the indices that stand for the name, and by no other. -/
theorem arguments_share (bodies : Bodies) (s : Signature) (frame : Frame) (m m₀ : Machine)
    (hbinds : s.bindsArguments = true) (hname : argumentsName ∉ s.parameters)
    (hfresh : m.heap.bindings? m.declarations = some []) (hrun : s.bind frame bodies m = .ok ⟨⟩ m₀) :
    let e := m.declarations
    ∃ o, m₀.heap.valueOf? e argumentsName = some (.object o) ∧
      (∀ i : ArrayIndex, m₀.heap.parameterOf? o i =
        if s.strict = false ∧ i.val < (m.stack.values frame.fp frame.argc).length
        then s.parameters[i.val]? else none) ∧
      ∀ m', Interleaved bodies o e m₀ m' →
        (∀ i n, m'.heap.parameterOf? o i = some n → m₀.heap.parameterOf? o i = some n ∧
          ∃ v en c, m'.heap.getOwn? o (.index i) = some (.data v true en c) ∧
            m'.heap.valueOf? e n = some v) ∧
        (∀ i, m'.heap.parameterOf? o i = none → ∀ m'', Interleaved bodies o e m' m'' →
          m''.heap.parameterOf? o i = none) ∧
        (∀ step : OwnStep, step.Plain m'.heap o →
          Heap.Exchange o e (step.written m'.heap o) m'.heap (endOf (step.act o bodies m')).heap) ∧
        ∀ name v strict, Heap.Inward o e name v m'.heap
          (endOf (assignBinding e name v strict bodies m')).heap := by
  intro e
  obtain ⟨o, hvalue, hs, hparameter⟩ := sharing_bind hbinds hname hfresh hrun
  refine ⟨o, hvalue, hparameter, fun m' hm' => ?_⟩
  obtain ⟨hs', hback⟩ := hm'.sharing hs
  refine ⟨fun i n hi => ⟨hback i n hi, hs'.shown hi⟩, fun i hi m'' hm'' => ?_,
    fun step hplain => (OwnStep.exchange bodies hs' hplain).2,
    fun name v strict => (inward_assignBinding bodies hs' name v strict).2⟩
  cases hi'' : m''.heap.parameterOf? o i with
  | none => rfl
  | some n =>
    have hi' := (hm''.sharing hs').2 i n hi''
    rw [hi] at hi'
    cases hi'

/-- A machine that is about to enter a function that is not strict, and its frame. -/
def Machine.entering (args : List Value) : Machine × Frame :=
  let m := Machine.start {}
  let (heap, e) := m.heap.addEnvironment ⟨.declarative [], some globalEnvironment⟩
  let (stack, frame) := (m.stack.pushAll args).pushFrame args.length 0 .undefined .undefined
  ({ m with heap, stack, contexts := [⟨.function, none, e, e, .undefined, false⟩] }, frame)

theorem exists_ok {r : EStateM.Result Failure Machine Unit}
    (h : (match r with | .ok _ _ => true | .error _ _ => false) = true) : ∃ m, r = .ok ⟨⟩ m := by
  cases r with
  | ok a m => exact ⟨m, rfl⟩
  | error f m => cases h

/-- Two values are passed to three parameters; then the first parameter is assigned. -/
theorem arguments_share_two :
    let m := (Machine.entering [.ofNat 1, .ofNat 2]).1
    let frame := (Machine.entering [.ofNat 1, .ofNat 2]).2
    let s : Signature := ⟨["a", "b", "c"], true, false⟩
    m.heap.bindings? m.declarations = some [] ∧
    ∃ m₀ o, s.bind frame (bodiesAt 0) m = .ok ⟨⟩ m₀ ∧
      m₀.heap.parameterOf? o ⟨0, by decide⟩ = some "a" ∧
      m₀.heap.parameterOf? o ⟨1, by decide⟩ = some "b" ∧
      m₀.heap.parameterOf? o ⟨2, by decide⟩ = none ∧
      ∃ en c, (endOf (assignBinding m.declarations "a" .null false (bodiesAt 0) m₀)).heap.getOwn? o
        (.index ⟨0, by decide⟩) = some (.data .null true en c) := by
  intro m frame s
  have hfresh : m.heap.bindings? m.declarations = some [] := by decide +kernel
  obtain ⟨m₀, hrun⟩ : ∃ m₀, s.bind frame (bodiesAt 0) m = .ok ⟨⟩ m₀ := exists_ok (by decide +kernel)
  obtain ⟨o, _, hparameter, hsteps⟩ :=
    arguments_share (bodiesAt 0) s frame m m₀ rfl (by decide +kernel) hfresh hrun
  have hcount : (m.stack.values frame.fp frame.argc).length = 2 := by decide +kernel
  rw [hcount] at hparameter
  have h₀ : m₀.heap.parameterOf? o ⟨0, by decide⟩ = some "a" := hparameter _
  obtain ⟨_, _, _, hassign⟩ := hsteps m₀ .refl
  exact ⟨hfresh, m₀, o, hrun, h₀, hparameter _, hparameter _, ((hassign "a" .null false).inward _ h₀).2⟩

end Ecma51
