import Ecma51.Proofs.ArraySplice
import Ecma51.Proofs.Relinked
import Ecma51.Proofs.WholeNumber

/-!
# Functions bound again and again

A function is bound to a `this` and first arguments, the result is bound again, and so on. Calls, constructions and
the questions that are asked of functions each follow the targets on their own; they all come to the function that was
bound first, with the first `this` and with the arguments in the order in which they were fixed.

* `Heap.Binds`: the chain of bound functions that a list of steps makes.
* `Machine.StandsFor`, **`Heap.Binds.standsFor`**: the last of a chain does what the first function does.
* `Double.boundLength_ofNat`: the length that is left.
* `bindOnce_crowded`, `bindOnce_free`: one step.
* **`bound_exact`**: any number of steps.
-/

namespace Ecma51

/-- A `this` and first arguments to which a function is bound. -/
abbrev BindStep := Value × List Value

/-- The `this` that a function gets through a chain: that of the first step. -/
def boundThis (steps : List BindStep) (this : Value) : Value := (steps.head?.map (·.1)).getD this

/-- The arguments that are fixed by a chain, first to last. -/
def boundArguments (steps : List BindStep) : List Value := steps.flatMap (·.2)

theorem boundThis_append (steps : List BindStep) (s : BindStep) (this : Value) :
    boundThis (steps ++ [s]) this = boundThis steps s.1 := by
  cases steps <;> rfl

theorem boundArguments_append (steps : List BindStep) (s : BindStep) :
    boundArguments (steps ++ [s]) = boundArguments steps ++ s.2 := by
  unfold boundArguments
  rw [List.flatMap_append, List.flatMap_singleton]

/-! ## 1. Chains of bound functions -/

namespace Heap

variable {h : Heap} {f g : ObjectId} {steps : List BindStep}

/-- Binding a function by these steps has given another. -/
inductive Binds (h : Heap) (f : ObjectId) : List BindStep → ObjectId → Prop where
  | none : Binds h f [] f
  | step {steps : List BindStep} {g g' : ObjectId} {s : BindStep} : Binds h f steps g →
      (h.object g').kind = .bound ⟨g, s.1, s.2⟩ → Binds h f (steps ++ [s]) g'

/-- What is in use stays as it is, and so does a chain in use. -/
theorem Binds.of_intact {m : Machine} {h : Heap} (hi : m.Intact h) (hb : m.heap.Binds f steps g)
    (hg : m.heap.InUse m.roots [] (objectNode g)) : h.Binds f steps g := by
  induction hb with
  | none => exact .none
  | @step steps g g' s _ hkind ih =>
    obtain ⟨x, hx, hxkind⟩ : ∃ x, m.heap.objects[g']? = some x ∧ x.kind = .bound ⟨g, s.1, s.2⟩ := by
      rcases m.heap.object_cases g' with hx | hnone
      · exact ⟨_, hx, hkind⟩
      · rw [hnone] at hkind
        cases hkind
    have htarget : Value.object g ∈ x.kindValues.1 := by
      unfold Object.kindValues
      rw [hxkind]
      exact List.mem_cons_self
    exact .step (ih (hg.refers (.kind hx htarget))) (by rwa [hi.object g' hg])

/-- A new object is no part of a chain that was there before. -/
theorem Binds.add (hh : h.WellLinked) (hb : h.Binds f steps g) (hg : g < h.nextObject) (x : Object) :
    (h.add x).1.Binds f steps g := by
  induction hb with
  | none => exact .none
  | @step steps g g' s _ hkind ih =>
    have htarget : h.targetOf g' = some g := targetOf_eq_some.mpr ⟨_, hkind, rfl⟩
    refine .step (ih (hh.targets.below _ _ htarget)) ?_
    rwa [object_add, if_neg (Nat.ne_of_gt hg)]

end Heap

/-! ## 2. What bound functions do -/

/-- One function does what another does with a given `this` and with given arguments before its own. -/
structure Machine.StandsFor (m : Machine) (bodies : Bodies) (g f : ObjectId) (steps : List BindStep) : Prop where
  call (this : Value) (args : List Value) :
    call g this args bodies m = call f (boundThis steps this) (boundArguments steps ++ args) bodies m
  construct (args : List Value) : construct g args bodies m = construct f (boundArguments steps ++ args) bodies m
  hasInstance (v : Value) : hasInstance g v bodies m = hasInstance f v bodies m
  isConstructor : m.heap.isConstructor g = m.heap.isConstructor f

/-- **The last of a chain does what the first function does**: each step passes on to the one before. -/
theorem Heap.Binds.standsFor {m : Machine} {f g : ObjectId} {steps : List BindStep} (hh : m.heap.WellLinked)
    (hb : m.heap.Binds f steps g) (bodies : Bodies) : m.StandsFor bodies g f steps := by
  induction hb with
  | none => exact ⟨fun _ _ => rfl, fun _ => rfl, fun _ => rfl, rfl⟩
  | @step steps g g' s _ hkind ih =>
    have hnext := hh.passesOn bodies hkind
    refine ⟨fun this args => ?_, fun args => ?_, fun v => ?_, ?_⟩
    · rw [hnext.call, ih.call, boundThis_append, boundArguments_append, List.append_assoc]
    · rw [hnext.construct, ih.construct, boundArguments_append, List.append_assoc]
    · rw [hnext.hasInstance, ih.hasInstance]
    · rw [hnext.isConstructor, ih.isConstructor]

/-! ## 3. One step -/

/-- **The length that is left** once some arguments of a function are fixed. -/
theorem Double.boundLength_ofNat {n : Nat} (hn : n < 2 ^ 52) (fixed : Nat) :
    boundLength (.ofNat n) fixed = .ofNat (n - fixed) := by
  show (if Double.zero.lt (.ofNat n - .ofNat fixed) then Double.ofNat n - .ofNat fixed else Double.zero) = _
  rw [zero_lt_sub_ofNat hn]
  by_cases hlt : fixed < n
  · rw [decide_eq_true hlt, if_pos rfl, sub_ofNat (Nat.lt_trans hn (by decide)) (Nat.le_of_lt hlt)]
  · rw [decide_eq_false hlt, if_neg Bool.false_ne_true, Nat.sub_eq_zero_of_le (Nat.not_lt.mp hlt)]
    rfl

/-- Binds a function to a `this` and to first arguments, as a program does. -/
def bindOnce (f : Value) (s : BindStep) : Run Value :=
  holding (f :: s.1 :: s.2) (functionFunction .bind f (s.1 :: s.2))

/-- Binds a function to each `this` and its arguments in turn. -/
def bindInTurn (f : Value) : List BindStep → Run Value
  | [] => return f
  | s :: rest => do bindInTurn (← bindOnce f s) rest

/-- The machine while it binds a function. -/
def Machine.binding (m : Machine) (g : ObjectId) (s : BindStep) : Machine :=
  m.retaining (.object g :: s.1 :: s.2)

/-- Binding a function by these steps has given another, which shows what is left of the length. -/
structure Machine.Bound (m : Machine) (f : ObjectId) (n : Nat) (steps : List BindStep) (g : ObjectId) : Prop where
  grounded : m.heap.Grounded
  made : g < m.heap.nextObject
  callable : m.heap.isCallable (.object g) = true
  chain : m.heap.Binds f steps g
  length : m.heap.HasOwn g .length (.ofNat (n - (boundArguments steps).length))

theorem get?_length_boundFunction (target : ObjectId) (this : Value) (args : List Value) (x : Double) :
    (boundFunction target this args x).properties.get? .length = some (.constant (.number x)) := by
  unfold boundFunction poisoned
  rw [List.foldl_cons, List.foldl_cons, List.foldl_nil, Object.get?_withProperty_of_ne _ (by decide),
    Object.get?_withProperty_of_ne _ (by decide), Object.get?_withProperty_self]

section Step

variable {bodies : Bodies} {m : Machine} {f g : ObjectId} {n : Nat} {steps : List BindStep}

theorem thisFunction_run (hg : m.heap.isCallable (.object g) = true) (method : String) (bodies : Bodies) :
    thisFunction (.object g) method bodies m = .ok g m := by
  show (getHeap >>= _ : Run ObjectId) bodies m = _
  rw [getHeap_bind_run, if_pos hg]
  rfl

/-- The length of a function is not hidden. -/
theorem getNamed_length {v : Value} (hv : m.heap.HasOwn g .length v) (bodies : Bodies) :
    getNamed g "length" bodies m = .ok v m := by
  obtain ⟨w, e, c, hget⟩ := hv
  have hother : (Key.ofString "length").isNamed "caller" = false := by decide
  exact getFrom_shown (by rw [hother, Bool.and_false]) (getFor_data (Heap.getProperty?_of_own hget) _)

/-- The object that is made by one more step. -/
def boundOnceMore (g : ObjectId) (n : Nat) (steps : List BindStep) (s : BindStep) : Object :=
  boundFunction g s.1 s.2 (.ofNat (n - (boundArguments (steps ++ [s])).length))

theorem kind_boundOnceMore (g : ObjectId) (n : Nat) (steps : List BindStep) (s : BindStep) :
    (boundOnceMore g n steps s).kind = .bound ⟨g, s.1, s.2⟩ := kind_poisoned _ _

/-- Binding makes one object, after the length was read. -/
theorem bind_run (hb : m.Bound f n steps g) (hn : n < 2 ^ 52) (bodies : Bodies) (s : BindStep) :
    functionFunction .bind (.object g) (s.1 :: s.2) bodies (m.binding g s) =
      (newObjectOf (boundOnceMore g n steps s) >>= fun g' => return .object g' : Run Value) bodies
        (m.binding g s) := by
  have hleft : boundLength (.ofNat (n - (boundArguments steps).length)) s.2.length =
      .ofNat (n - (boundArguments (steps ++ [s])).length) := by
    rw [Double.boundLength_ofNat (Nat.lt_of_le_of_lt (Nat.sub_le _ _) hn), boundArguments_append,
      List.length_append, Nat.sub_sub]
  have hnew : newBoundFunction g s.1 s.2 bodies (m.binding g s) =
      newObjectOf (boundOnceMore g n steps s) bodies (m.binding g s) := by
    unfold newBoundFunction boundOnceMore
    rw [bind_run_ok (getNamed_length (m := m.binding g s) hb.length bodies), hleft]
  refine (bind_run_ok (thisFunction_run (m := m.binding g s) hb.callable "bind" bodies) _).trans ?_
  show (newBoundFunction g s.1 s.2 >>= _ : Run Value) bodies (m.binding g s) = _
  cases hrun : newObjectOf (boundOnceMore g n steps s) bodies (m.binding g s) with
  | ok g' m' => rw [bind_run_ok (hnew.trans hrun), bind_run_ok hrun]
  | error e m' => rw [bind_run_error (hnew.trans hrun), bind_run_error hrun]

/-- **If the objects in use fill the limit, nothing is bound.** -/
theorem bindOnce_crowded (hb : m.Bound f n steps g) (hn : n < 2 ^ 52) {s : BindStep}
    (hm : (m.binding g s).Crowded) (bodies : Bodies) :
    ∃ m', bindOnce (.object g) s bodies m = .error (.fault .outOfMemory) m' :=
  ⟨_, holding_error ((bind_run hb hn bodies s).trans (bind_run_error (newObjectOf_crowded hm _) _))⟩

/-- **A function that is bound once more.** -/
theorem bindOnce_free (hb : m.Bound f n steps g) (hn : n < 2 ^ 52) {s : BindStep}
    (hm : ¬ (m.binding g s).Crowded) (bodies : Bodies) :
    ∃ g' m', bindOnce (.object g) s bodies m = .ok (.object g') m' ∧ m'.Bound f n (steps ++ [s]) g' ∧
      m' = { m with heap := m'.heap, nextCollection := m'.nextCollection } := by
  have hnext : (m.binding g s).reserve.1.heap.nextObject = m.heap.nextObject := nextObject_reserve (m.binding g s)
  have hgrounded : (m.binding g s).reserve.1.heap.Grounded := grounded_reserve hb.grounded
  have hmade : g < (m.binding g s).reserve.1.heap.nextObject := hnext.symm ▸ hb.made
  have huse : (m.binding g s).heap.InUse (m.binding g s).roots [] (Heap.objectNode g) :=
    .outside (Machine.mem_roots_of_held List.mem_cons_self)
  -- the chain is kept while room is made, and then the new object is put in front of it
  have hchain : (m.binding g s).reserve.1.heap.Binds f steps g :=
    Heap.Binds.of_intact (m.binding g s).intact_reserve hb.chain huse
  obtain ⟨h, hh⟩ : ∃ h, h = ((m.binding g s).reserve.1.heap.add (boundOnceMore g n steps s)).1 := ⟨_, rfl⟩
  have hnew : h.object m.heap.nextObject = boundOnceMore g n steps s := by
    rw [hh, Heap.object_add, hnext, if_pos rfl]
  have hkind : (h.object m.heap.nextObject).kind = .bound ⟨g, s.1, s.2⟩ := by
    rw [hnew]
    exact kind_boundOnceMore g n steps s
  refine ⟨m.heap.nextObject, { (m.binding g s).reserve.1 with heap := h, held := m.held }, ?_,
    ⟨?_, ?_, ?_, .step ?_ hkind, ?_⟩, rfl⟩
  · have hrun : functionFunction .bind (.object g) (s.1 :: s.2) bodies (m.binding g s) =
        .ok (.object m.heap.nextObject) { (m.binding g s).reserve.1 with heap := h } := by
      subst hh
      exact (bind_run hb hn bodies s).trans ((bind_run_ok (newObjectOf_free hm _) _).trans rfl)
    exact holding_ok hrun
  · rw [hh]
    exact hgrounded.add (precedes_boundFunction hgrounded hmade _ _ _)
  · show m.heap.nextObject < h.nextObject
    rw [hh]
    exact hnext ▸ Nat.lt_succ_self _
  · show (h.object m.heap.nextObject).isCallable = true
    unfold Object.isCallable
    rw [hkind]
  · rw [hh]
    exact hchain.add hgrounded.links hmade _
  · have hshared : h.shared? m.heap.nextObject .length = none := by
      refine Heap.shared?_of_not_arguments ?_ _
      unfold Heap.argumentsOf?
      rw [hkind]
    have hown : (h.object m.heap.nextObject).own? .length = some (.constant
        (.ofNat (n - (boundArguments (steps ++ [s])).length))) := by
      rw [hnew]
      exact (Object.own?_name _ _).trans (get?_length_boundFunction _ _ _ _)
    refine ⟨false, false, false, ?_⟩
    rw [Heap.getOwn?_eq, hown, hshared]
    rfl

end Step

/-! ## 4. Any number of steps -/

/-- A step in turn finds no room. -/
def BindingFails (bodies : Bodies) (m : Machine) (f : ObjectId) (steps : List BindStep) : Prop :=
  ∃ done s later g m', steps = done ++ s :: later ∧
    bindInTurn (.object f) done bodies m = .ok (.object g) m' ∧ (m'.binding g s).Crowded

/-- The steps that are left come to an end as each of them does. -/
theorem bindInTurn_ends {m : Machine} {f g : ObjectId} {n : Nat} {steps : List BindStep} (hb : m.Bound f n steps g)
    (hn : n < 2 ^ 52) (bodies : Bodies) (rest : List BindStep) :
    (BindingFails bodies m g rest ∧
      ∃ m', bindInTurn (.object g) rest bodies m = .error (.fault .outOfMemory) m') ∨
    ∃ g' m', bindInTurn (.object g) rest bodies m = .ok (.object g') m' ∧ m'.Bound f n (steps ++ rest) g' ∧
      m' = { m with heap := m'.heap, nextCollection := m'.nextCollection } := by
  induction rest generalizing m g steps with
  | nil => exact .inr ⟨g, m, rfl, by rwa [List.append_nil], rfl⟩
  | cons s rest ih =>
    by_cases hm : (m.binding g s).Crowded
    · obtain ⟨m', hfails⟩ := bindOnce_crowded hb hn hm bodies
      exact .inl ⟨⟨[], s, rest, g, m, rfl, rfl, hm⟩, m', bind_run_error hfails _⟩
    · obtain ⟨g₁, m₁, hstep, hb₁, hsame₁⟩ := bindOnce_free hb hn hm bodies
      have hthen (later : List BindStep) : bindInTurn (.object g) (s :: later) bodies m =
          bindInTurn (.object g₁) later bodies m₁ := bind_run_ok hstep _
      rw [hthen]
      rcases ih hb₁ with ⟨⟨done, s', later, g', m', hsteps, hdone, hcrowded⟩, hfails⟩ | ⟨g', m', hok, hb', hsame⟩
      · exact .inl ⟨⟨s :: done, s', later, g', m', by rw [hsteps]; rfl, (hthen done).trans hdone, hcrowded⟩, hfails⟩
      · refine .inr ⟨g', m', hok, by rwa [List.append_assoc] at hb', ?_⟩
        rw [hsame, hsame₁]

/-- **A function that is bound any number of times.** The one that was bound first is given the first `this` and the
arguments in the order in which they were fixed, whether the last is called or used as a constructor; it answers
instance tests, and whether it is a constructor, for it; and the last shows what is left of its length. All of this
holds as long as the chain is there, on whatever machine. Only if a step in turn finds no room, none is made, and a
lack of memory is reported. -/
theorem bound_exact {m : Machine} {f : ObjectId} {n : Nat} (hm : m.heap.Grounded) (hf : f < m.heap.nextObject)
    (hcallable : m.heap.isCallable (.object f) = true) (hlength : m.heap.HasOwn f .length (.ofNat n))
    (hn : n < 2 ^ 52) (bodies : Bodies) (steps : List BindStep) :
    (BindingFails bodies m f steps ∧
      ∃ m', bindInTurn (.object f) steps bodies m = .error (.fault .outOfMemory) m') ∨
    ∃ g m', bindInTurn (.object f) steps bodies m = .ok (.object g) m' ∧
      m' = { m with heap := m'.heap, nextCollection := m'.nextCollection } ∧
      m'.heap.HasOwn g .length (.ofNat (n - (boundArguments steps).length)) ∧
      m'.heap.WellLinked ∧ m'.heap.Binds f steps g ∧
      ∀ m'' : Machine, m''.heap.WellLinked → m''.heap.Binds f steps g → ∀ bodies, m''.StandsFor bodies g f steps := by
  have hb : m.Bound f n [] f := ⟨hm, hf, hcallable, .none, hlength⟩
  rcases bindInTurn_ends hb hn bodies steps with hfails | ⟨g, m', hok, hb', hsame⟩
  · exact .inl hfails
  · exact .inr ⟨g, m', hok, hsame, hb'.length, hb'.grounded.links, hb'.chain,
      fun m'' hlinked hchain bodies => hchain.standsFor hlinked bodies⟩

/-- Without a limit there is always room. -/
theorem not_bindingFails {m : Machine} {f : ObjectId} {n : Nat} (hb : m.Bound f n [] f) (hn : n < 2 ^ 52)
    (hlimit : m.heapLimit = none) (bodies : Bodies) (steps : List BindStep) : ¬ BindingFails bodies m f steps := by
  rintro ⟨done, s, later, g, m', -, hdone, hcrowded⟩
  rcases bindInTurn_ends hb hn bodies done with ⟨_, m'', hfails⟩ | ⟨g', m'', hok, _, hsame⟩
  · cases hdone.symm.trans hfails
  · cases hdone.symm.trans hok
    refine Machine.not_crowded_of_unlimited (m := m'.binding g s) ?_ hcrowded
    show m'.heapLimit = none
    rw [hsame]
    exact hlimit

/-- A machine with a function of three parameters. -/
def threefoldMachine : Machine :=
  { Machine.start {} with heap := (Heap.skeleton.add (nativeFunction (.ofString "max") (.math .max) none 3)).1 }

theorem bound_threefoldMachine : threefoldMachine.Bound 17 3 [] 17 where
  grounded := grounded_skeleton.add (grounded_skeleton.precedes (i := .functionPrototype) rfl fun b hb => by cases hb)
  made := by decide +kernel
  callable := by decide +kernel
  chain := .none
  length := ⟨false, false, false, by decide +kernel⟩

/-- Two of three arguments are fixed, one after the other. -/
theorem bound_exact_twice : threefoldMachine.heapLimit = none ∧
    ∃ g m', bindInTurn (.object 17) [(.null, [.ofNat 1]), (.boolean true, [.ofNat 2])] (bodiesAt 0) threefoldMachine =
        .ok (.object g) m' ∧ m'.heap.HasOwn g .length (.ofNat 1) ∧
      call g .undefined [.ofNat 3] (bodiesAt 0) m' = call 17 .null [.ofNat 1, .ofNat 2, .ofNat 3] (bodiesAt 0) m' := by
  have hb := bound_threefoldMachine
  rcases bound_exact hb.grounded hb.made hb.callable hb.length (by decide) (bodiesAt 0)
    [(.null, [.ofNat 1]), (.boolean true, [.ofNat 2])] with ⟨hfails, _⟩ | ⟨g, m', hok, _, hlength, hlinked, hchain, hall⟩
  · exact absurd hfails (not_bindingFails hb (by decide) rfl (bodiesAt 0) _)
  · exact ⟨rfl, g, m', hok, hlength, (hall m' hlinked hchain (bodiesAt 0)).call .undefined [.ofNat 3]⟩

end Ecma51
