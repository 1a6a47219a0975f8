import Ecma51.Proofs.Programs

/-!
# How failures are reported

Code does not see failures. An operation that is performed for it tells whether it succeeded; if not, the
exception is pending. A call of a function made of code makes a failure of the pending exception again, unless
none is pending. Failures go to and fro like this at every nested call, and none is lost on the way.

* `FailsProperly`: the operation never fails by throwing `nothing`.
* **`Built.failsProperly`**, **`Composed.failsProperly`**: whatever is built or composed of good parts.
* `bodiesOver`: the library over code that may do anything; **`bodiesOver_proper`**.
* `report`: an operation is performed for code.
* `Operation`: what can be performed for code and can fail.
* **`report_exact`**: success, result and pending exception are exactly those of the operation.
* **`report_fails`**: a built-in function that throws `nothing`.
-/

namespace Ecma51

/-! ## 1. Failing properly -/

section Proper

variable {α β : Type}

/-- If the operation fails, there is something to report. -/
def FailsProperly (bodies : Bodies) (x : Run α) : Prop :=
  ∀ m e m', x bodies m = .error e m' → e.IsProper

/-- If functions fail, there is something to report. Code that only says that it failed may well leave no
exception, or `nothing` as one. -/
structure Bodies.Proper (bodies : Bodies) : Prop where
  native : ∀ b this args, FailsProperly bodies fun _ => bodies.native b this args
  compiled : ∀ code frame, FailsProperly bodies fun _ => bodies.compiled code frame

namespace FailsProperly

variable {bodies : Bodies}

theorem pure (a : α) : FailsProperly bodies (pure a : Run α) := fun _ _ _ h => by cases h

theorem throw {e : Failure} (he : e.IsProper) : FailsProperly bodies (throw e : Run α) := by
  rintro m _ _ ⟨⟩
  exact he

theorem raise (f : Fault) : FailsProperly bodies (raise f : Run α) := .throw trivial

theorem get : FailsProperly bodies (get : Run Machine) := fun _ _ _ h => by cases h

theorem modifyGet (f : Machine → α × Machine) : FailsProperly bodies (modifyGet f : Run α) :=
  fun _ _ _ h => by cases h

theorem modify (f : Machine → Machine) : FailsProperly bodies (modify f : Run PUnit) := .modifyGet _

theorem set (m₁ : Machine) : FailsProperly bodies (set m₁ : Run PUnit) := fun _ _ _ h => by cases h

theorem getHeap : FailsProperly bodies getHeap := fun _ _ _ h => by cases h

theorem bind {x : Run α} {f : α → Run β} (hx : FailsProperly bodies x)
    (hf : ∀ a, FailsProperly bodies (f a)) : FailsProperly bodies (x >>= f) := by
  intro m e m' h
  cases hrun : x bodies m with
  | ok a m₁ =>
    rw [bind_run_ok hrun] at h
    exact hf a m₁ e m' h
  | error e₁ m₁ =>
    rw [bind_run_error hrun] at h
    rcases h with ⟨⟩
    exact hx m _ _ hrun

theorem read_bind {f : Bodies → Run β} (hf : FailsProperly bodies (f bodies)) :
    FailsProperly bodies (read >>= f) := fun m e m' h => hf m e m' h

/-- A handler that passes on the failure passes on a proper one. -/
theorem tryCatch {x : Run α} {f : Failure → Run α} (hx : FailsProperly bodies x)
    (hf : ∀ e, e.IsProper → FailsProperly bodies (f e)) : FailsProperly bodies (tryCatch x f) := by
  intro m e m' h
  cases hrun : x bodies m with
  | ok a m₁ =>
    rw [tryCatch_run_ok hrun] at h
    cases h
  | error e₁ m₁ =>
    rw [tryCatch_run_error hrun] at h
    exact hf e₁ (hx m e₁ m₁ hrun) m₁ e m' h

theorem holding {x : Run α} (hx : FailsProperly bodies x) (vs : List Value) :
    FailsProperly bodies (holding vs x) := by
  intro m e m' h
  cases hrun : x bodies { m with held := vs ++ m.held } with
  | ok a m₁ =>
    rw [holding_ok hrun] at h
    cases h
  | error e₁ m₁ =>
    rw [holding_error hrun] at h
    rcases h with ⟨⟩
    exact hx _ _ _ hrun

theorem handleEach {σ : Type} {step : σ → Value → Run σ} (hstep : ∀ s v, FailsProperly bodies (step s v))
    (s : σ) (vs : List Value) : FailsProperly bodies (handleEach step s vs) := by
  induction vs generalizing s with
  | nil => exact .pure s
  | cons v vs ih =>
    exact .bind ((hstep s v).holding []) fun s => .bind (.modify _) fun _ => ih s

/-! ## 2. Objects and calls -/

theorem allocate : FailsProperly bodies allocate := by
  intro m e m' h
  rw [allocate_run] at h
  split at h
  · cases h
  · cases h
    trivial

theorem newObjectOf (x : Object) : FailsProperly bodies (newObjectOf x) :=
  .bind .allocate fun _ => .bind .getHeap fun _ => .bind (.modify _) fun _ => .pure _

theorem toObject (v : Value) : FailsProperly bodies (toObject v) := by
  unfold Ecma51.toObject
  split
  · exact .pure _
  · split
    · exact .newObjectOf _
    · exact .raise _

theorem thisBinding (strict : Bool) (this : Value) : FailsProperly bodies (thisBinding strict this) := by
  unfold Ecma51.thisBinding
  split
  · exact .pure _
  · split
    · exact .pure _
    · exact .bind (.toObject this) fun _ => .pure _

theorem enterCall : FailsProperly bodies enterCall := by
  intro m e m' h
  by_cases hfull : m.maxCallDepth ≤ m.callDepth
  · rw [enterCall_full hfull] at h
    cases h
    trivial
  · rw [enterCall_free hfull] at h
    cases h

theorem leaving {x : Run α} (hx : FailsProperly bodies x) : FailsProperly bodies (leaving x) :=
  .tryCatch (.bind hx fun _ => .bind (.modify _) fun _ => .pure _) fun _ he =>
    .bind (.modify _) fun _ => .throw he

theorem nestedCall {x : Run α} (hx : FailsProperly bodies x) : FailsProperly bodies (nestedCall x) :=
  .bind .enterCall fun _ => hx.leaving

theorem orDiscard {x : Run α} (hx : FailsProperly bodies x) (argc : Nat) :
    FailsProperly bodies (orDiscard argc x) :=
  .tryCatch hx fun _ he => .bind (.modify _) fun _ => .throw he

theorem settle (throws : Bool) (r : Heap.Outcome) : FailsProperly bodies (settle throws r) := by
  refine .bind (.modify _) fun _ => ?_
  split
  · exact .pure _
  · split
    · exact .raise _
    · exact .pure _

end FailsProperly

section Calls

variable {bodies : Bodies} (hb : bodies.Proper)

include hb

/-- **Code that fails without an exception, or with `nothing` as one, gives undefined; otherwise its exception
is thrown.** -/
theorem failsProperly_runCode (code : Code) (context : Context) (argc n : Nat) (callee : Value) :
    FailsProperly bodies (runCode code context argc n callee) := by
  refine .bind .get fun m => .bind (.set _) fun _ => .read_bind ?_
  have hcompiled (frame : Frame) : FailsProperly bodies (bodies.compiled code frame : Run Bool) :=
    hb.compiled code frame
  refine .bind (hcompiled _) fun succeeded => .bind .get fun m' => .bind (.set _) fun _ => ?_
  split
  · exact .pure _
  · refine .bind (.modifyGet fun m => (m.pending, { m with pending := .nothing })) fun v => ?_
    split
    · exact .pure _
    · rename_i hv
      exact .throw hv

theorem failsProperly_callCompiled (f : ObjectId) (this : Value) (argc : Nat) (code : Code)
    (scope : EnvironmentId) (n : Nat) (strict : Bool) :
    FailsProperly bodies (callCompiled f this argc code scope n strict) :=
  .bind (.orDiscard (.thisBinding strict this) argc) fun _ =>
    .bind (.bind .getHeap fun _ => .bind (.modify _) fun _ => .pure _) fun _ =>
      failsProperly_runCode hb code _ argc n _

theorem failsProperly_enterCompiled (f : ObjectId) (this : Value) (argc : Nat) (code : Code)
    (scope : EnvironmentId) (n : Nat) (strict : Bool) :
    FailsProperly bodies (enterCompiled f this argc code scope n strict) :=
  .bind (.orDiscard .enterCall argc) fun _ =>
    .leaving (.holding (failsProperly_callCompiled hb f this argc code scope n strict) _)

theorem failsProperly_callNative (f : ObjectId) (b : Builtin) (this : Value) (args : List Value) :
    FailsProperly bodies (callNative f b this args) := by
  have hnative : FailsProperly bodies (do (← read).native b this args : Run Value) :=
    hb.native b this args
  exact (hnative.holding _).nestedCall

theorem failsProperly_call (f : ObjectId) (this : Value) (args : List Value) :
    FailsProperly bodies (call f this args) := by
  refine .bind .getHeap fun h => ?_
  dsimp only
  split
  · exact .raise _
  · exact failsProperly_callNative hb _ _ _ _
  · exact .bind (.modify _) fun _ => failsProperly_enterCompiled hb _ _ _ _ _ _ _

/-! ## 3. Operations of the library -/

omit hb in
theorem failsProperly_defineOwn (htoNumber : ∀ v, FailsProperly bodies (toNumber v)) (o : ObjectId)
    (k : Key) (d : Descriptor) (throws : Bool) : FailsProperly bodies (defineOwn o k d throws) := by
  have htoLength (v : Value) : FailsProperly bodies (toLength v) := by
    refine .bind (.bind (htoNumber v) fun _ => .pure _) fun n => .bind (htoNumber v) fun x => ?_
    split
    · exact .pure n
    · exact .raise _
  refine .bind .getHeap fun h => ?_
  split
  · exact .holding (.bind .getHeap fun _ => .bind (htoLength _) fun _ => .bind .getHeap fun _ =>
      .settle throws _) _
  · exact .settle throws _

omit hb in
theorem failsProperly_constructError (htoText : ∀ v, FailsProperly bodies (toText v)) (kind : ErrorKind)
    (message : Value) : FailsProperly bodies (constructError kind message) := by
  refine .bind (.newObjectOf _) fun o => .bind (.modify _) fun _ => ?_
  split
  · exact .pure _
  · exact .bind (htoText message) fun _ => .bind (.modify _) fun _ => .pure _

omit hb in
theorem failsProperly_thisTime (this : Value) (f : DateFunction) : FailsProperly bodies (thisTime this f) := by
  unfold thisTime
  split
  · refine .bind .getHeap fun h => ?_
    split
    · exact .pure _
    · exact .raise _
  · exact .raise _

/-- **Whatever is built from basic operations fails properly.** -/
theorem Built.failsProperly {x : Run α} (h : Built x) : FailsProperly bodies x := by
  induction h with
  | pure a => exact .pure a
  | bind _ _ hx hf => exact .bind hx hf
  | throw he => exact .throw he
  | get => exact .get
  | aside f => exact .modifyGet f
  | holding vs _ hx => exact hx.holding vs
  | hold v => exact .modify _
  | consuming s vs _ hstep => exact (FailsProperly.handleEach hstep s vs).holding vs
  | nestedCall _ hx => exact hx.nestedCall
  | call f this args => exact failsProperly_call hb f this args
  | callNative f b this args => exact failsProperly_callNative hb f b this args
  | runCode code context => exact failsProperly_runCode hb code context 0 0 .undefined
  | newObjectOf _ _ => exact .newObjectOf _
  | newDate _ _ _ _ htime => exact .bind htime fun _ => .newObjectOf _
  | environments f => exact .modify _
  | newDeclarative outer => exact .bind .getHeap fun _ => .bind (.modify _) fun _ => .pure _
  | defineOwn o k d throws _ htoNumber => exact failsProperly_defineOwn htoNumber o k d throws
  | deleteOwn o k throws => exact .bind .getHeap fun _ => .settle throws _
  | restrictOwn o freeze => exact .bind .getHeap fun _ => .settle true _
  | closeOwn o => exact .modify _
  | newCompiledFunction code scope strict n =>
    exact .bind (.newObjectOf _) fun _ => .holding (.bind (.newObjectOf _) fun _ =>
      .bind (.modify _) fun _ => .pure _) _
  | constructError kind message _ htoText => exact failsProperly_constructError htoText kind message
  | updateTime this f _ _ hnext =>
    exact .bind (failsProperly_thisTime this f) fun _ => .bind (hnext _) fun _ =>
      .bind (.modify _) fun _ => .pure _

/-! ## 4. Calls on pushed arguments, and programs -/

omit hb in
theorem failsProperly_takeArguments (argc : Nat) : FailsProperly bodies (takeArguments argc) :=
  .bind .get fun _ => .bind (.modify _) fun _ => .pure _

theorem failsProperly_callPushed (f : ObjectId) (this : Value) (argc : Nat) :
    FailsProperly bodies (callPushed f this argc) := by
  refine .bind .getHeap fun h => ?_
  split
  · exact failsProperly_enterCompiled hb f this argc _ _ _ _
  · exact .bind (failsProperly_takeArguments argc) fun args => failsProperly_call hb f this args

theorem failsProperly_invokePushed (f this : Value) (argc : Nat) (namesEval : Bool) :
    FailsProperly bodies (invokePushed f this argc namesEval) := by
  have hrefused : FailsProperly bodies (do freeSlots argc; raise .notAFunction : Run Value) :=
    .bind (.modify _) fun _ => .raise _
  refine .bind .getHeap fun h => ?_
  cases f with
  | object o =>
    dsimp only
    split
    · split
      · exact .bind (.modify _) fun _ => failsProperly_callPushed hb o this argc
      · exact failsProperly_callPushed hb o this argc
    · exact hrefused
  | _ => exact hrefused

theorem failsProperly_callFound {find : Run Callee} (hfind : Built find) (argc : Nat) :
    FailsProperly bodies (callFound find argc) :=
  .bind (.orDiscard (hfind.failsProperly hb) argc) fun c =>
    failsProperly_invokePushed hb c.function c.this argc c.namesEval

theorem PushedCall.failsProperly (c : PushedCall) (argc : Nat) : FailsProperly bodies (c.run argc) := by
  cases c with
  | function f this => exact failsProperly_callPushed hb f this argc
  | value f => exact failsProperly_invokePushed hb f .undefined argc false
  | member target k => exact failsProperly_callFound hb (built_findKeyed target (.pure k)) argc
  | rawMember target raw => exact failsProperly_callFound hb (built_findKeyed target (built_rawKey raw)) argc
  | element target key => exact failsProperly_callFound hb (built_findKeyed target (built_toKey key)) argc
  | identifier name => exact failsProperly_callFound hb (built_findNamed name) argc
  | construct f =>
    exact .bind (failsProperly_takeArguments argc) fun args => (built_constructWith f args).failsProperly hb

omit hb in
theorem failsProperly_linkParameter (arguments : Value) (i : Nat) (name : Text) :
    FailsProperly bodies (linkParameter arguments i name) := by
  refine .bind .getHeap fun h => ?_
  split
  · split
    · split
      · exact .modify _
      · exact .pure _
    · exact .pure _
  · exact .pure _

omit hb in
theorem failsProperly_linkParameters (arguments : Value) (names : List Text) (i : Nat) :
    FailsProperly bodies (linkParameters arguments names i) := by
  induction names generalizing i with
  | nil => exact .pure _
  | cons name names ih => exact .bind (failsProperly_linkParameter arguments i name) fun _ => ih (i + 1)

/-- **Whatever is composed of well-understood parts fails properly.** -/
theorem Composed.failsProperly {bound : ObjectId} {x : Run α} (h : Composed bound x) :
    FailsProperly bodies x := by
  induction h with
  | built hx => exact hx.failsProperly hb
  | bind _ _ hx hf => exact .bind hx hf
  | tryCatch _ _ hx hf => exact .tryCatch hx fun e _ => hf e
  | holding vs _ hx => exact hx.holding vs
  | aside f => exact .modifyGet f
  | setStrict strict => exact .modify _
  | inContext c _ hx =>
    rw [run_inContext]
    exact .bind (.modify _) fun _ => .bind hx fun _ => .bind (.modify _) fun _ => .pure _
  | pushedCall c args => exact .bind (.modify _) fun _ => c.failsProperly hb _
  | shareArguments frame names =>
    exact .bind ((built_bindArguments frame).failsProperly hb) fun _ => failsProperly_linkParameters _ names 0

end Calls

/-! ## 5. All functions -/

/-- The functions of every level fail properly. -/
theorem bodiesAt_proper (n : Nat) : (bodiesAt n).Proper := by
  induction n with
  | zero =>
    constructor
    · rintro b this args m _ _ ⟨⟩
      trivial
    · rintro code frame m _ _ ⟨⟩
      trivial
  | succ n ih =>
    refine ⟨fun b this args m e m' => (built_run b this args).failsProperly ih m e m',
      fun code frame m e m' => ?_⟩
    have hrun : Composed 0 (code.run frame) := composed_run code frame
    exact hrun.failsProperly ih m e m'

/-- The built-in functions over code of which nothing is known: on each level it changes the machine in any
way, and says whether it succeeded. -/
def bodiesOver (behaviour : Nat → Code → Frame → Machine → Bool × Machine) : Nat → Bodies
  | 0 => bodiesAt 0
  | n + 1 =>
    ⟨fun b this args => b.run this args (bodiesOver behaviour n),
      fun code frame => modifyGet (behaviour n code frame)⟩

/-- **The built-in functions fail properly, whatever the code does that they call back.** -/
theorem bodiesOver_proper (behaviour : Nat → Code → Frame → Machine → Bool × Machine) (n : Nat) :
    (bodiesOver behaviour n).Proper := by
  induction n with
  | zero => exact bodiesAt_proper 0
  | succ n ih =>
    exact ⟨fun b this args m e m' => (built_run b this args).failsProperly ih m e m',
      fun code frame m _ _ h => by cases h⟩

end Proper

/-! ## 6. Reports -/

/-- Performs an operation for code, which provides a place for the result: whether the operation succeeded,
and what is in that place afterwards. -/
def report {α : Type} (op : Run α) (place : α) : Run (Bool × α) := do
  match ← attempt op with
  | some a => return (true, a)
  | none => return (false, place)

/-- The machine on which a fault has become the pending exception: a new error object, with the kind and the
message of the fault. -/
def Machine.withError (m : Machine) (f : Fault) : Machine :=
  { m with
    heap := (m.heap.add (errorOf f.kind (Text.ofString f.message))).1
    pending := .object m.heap.nextObject }

/-- What is pending stands for the failure: the value that was thrown, or an error object of the kind of the
fault with its message. -/
def Machine.Presents (m : Machine) : Failure → Prop
  | .thrown v => m.pending = v
  | .fault f => ∃ o, m.pending = .object o ∧ m.heap.object o = errorOf f.kind (Text.ofString f.message)
  | .exhausted => False

/-- The operation is reported as it went. -/
def Reports {α : Type} (bodies : Bodies) (op : Run α) (place : α) (m : Machine) : Prop :=
  match op bodies m with
  | .ok a m' => report op place bodies m = .ok (true, a) m'
  | .error (.thrown v) m' => report op place bodies m = .ok (false, place) { m' with pending := v }
  | .error (.fault f) m' => report op place bodies m = .ok (false, place) (m'.withError f)
  | .error .exhausted m' => report op place bodies m = .error .exhausted m'

section Reports

variable {α : Type} {bodies : Bodies} {op : Run α} {m m' : Machine}

theorem report_ok {a : α} (h : op bodies m = .ok a m') (place : α) :
    report op place bodies m = .ok (true, a) m' := by
  have hattempt : attempt op bodies m = .ok (some a) m' := tryCatch_run_ok (bind_run_ok h _) _
  exact bind_run_ok hattempt _

/-- What making a value of the failure does decides the report. -/
theorem report_error {e : Failure} (h : op bodies m = .error e m') (place : α) :
    report op place bodies m = (do
      let v ← failureValue e
      modify fun m => { m with pending := v }
      return (false, place) : Run (Bool × α)) bodies m' := by
  have hattempt : attempt op bodies m = (do
      let v ← failureValue e
      modify fun m => { m with pending := v }
      pure none : Run (Option α)) bodies m' := tryCatch_run_error (bind_run_error h _) _
  cases e with
  | exhausted => exact bind_run_error hattempt _
  | _ => exact bind_run_ok hattempt _

/-- **Every operation is reported as it went.** -/
theorem reports (bodies : Bodies) (op : Run α) (place : α) (m : Machine) : Reports bodies op place m := by
  unfold Reports
  cases hrun : op bodies m with
  | ok a m' => exact report_ok hrun place
  | error e m' =>
    cases e with
    | fault f => exact report_error hrun place
    | thrown v => exact report_error hrun place
    | exhausted => exact report_error hrun place

theorem Machine.presents_withError (m : Machine) (f : Fault) : (m.withError f).Presents (.fault f) :=
  ⟨m.heap.nextObject, rfl, (Heap.object_add _ _ _).trans (if_pos rfl)⟩

/-- Nothing is pending for a failure only if `nothing` was thrown. -/
theorem Machine.Presents.pending_eq_nothing_iff {e : Failure} (h : m.Presents e) :
    m.pending = .nothing ↔ e = .thrown .nothing := by
  cases e with
  | fault f =>
    obtain ⟨o, hpending, _⟩ := h
    rw [hpending]
    exact iff_of_false nofun nofun
  | thrown v =>
    rw [show m.pending = v from h, Failure.thrown.injEq]
  | exhausted => exact h.elim

/-- Code is told of a failure only if there is one, and then finds an exception that stands for it. -/
theorem Reports.of_false {place a : α} (h : Reports bodies op place m)
    (hfalse : report op place bodies m = .ok (false, a) m') :
    a = place ∧ ∃ e m₁, op bodies m = .error e m₁ ∧ e ≠ .exhausted ∧ m'.Presents e := by
  unfold Reports at h
  cases hrun : op bodies m with
  | ok b m₁ =>
    rw [report_ok hrun place] at hfalse
    cases hfalse
  | error e m₁ =>
    rw [hrun] at h
    cases e with
    | fault f =>
      obtain ⟨⟨⟩, rfl⟩ := EStateM.Result.ok.inj (h.symm.trans hfalse)
      exact ⟨rfl, _, _, rfl, nofun, m₁.presents_withError f⟩
    | thrown v =>
      obtain ⟨⟨⟩, rfl⟩ := EStateM.Result.ok.inj (h.symm.trans hfalse)
      exact ⟨rfl, _, _, rfl, nofun, rfl⟩
    | exhausted =>
      rw [h] at hfalse
      cases hfalse

/-- Code is told of every failure. -/
theorem Reports.of_error {place : α} (h : Reports bodies op place m) {e : Failure}
    (hrun : op bodies m = .error e m') (he : e ≠ .exhausted) :
    ∃ m₁, report op place bodies m = .ok (false, place) m₁ := by
  unfold Reports at h
  rw [hrun] at h
  cases e with
  | fault f => exact ⟨_, h⟩
  | thrown v => exact ⟨_, h⟩
  | exhausted => exact absurd rfl he

end Reports

/-! ## 7. Operations performed for code -/

/-- What can be performed for code: operations that can fail, and steps that cannot, one after the other. -/
inductive Operation : Type → Type 1 where
  /-- The primitive operations: names, properties, calls, literals, conversions, operators. -/
  | primitive (frame : Frame) (p : Primitive) (operands : List Value) : Operation Value
  | pushedCall (c : PushedCall) (argc : Nat) : Operation Value
  | call (f : ObjectId) (this : Value) (args : List Value) : Operation Value
  | construct (f : ObjectId) (args : List Value) : Operation Value
  /-- A built-in function itself, such as `eval`. -/
  | native (b : Builtin) (this : Value) (args : List Value) : Operation Value
  | declareVariable (name : Text) : Operation Unit
  | declareParameter (strict : Bool) (name : Text) (v : Value) : Operation Unit
  | declareFunction (name : Text) (f : Value) : Operation Unit
  | bindArguments (frame : Frame) : Operation Value
  | linkParameter (arguments : Value) (i : Nat) (name : Text) : Operation Unit
  | linkName (kind : LinkKind) (name : Text) (v : Value) : Operation Value
  | newObject : Operation ObjectId
  | addMember (target k v : Value) : Operation Unit
  | newFunction (code : Code) (scope : EnvironmentId) (strict : Bool) (n : Nat) : Operation ObjectId
  /-- The object for a value, as `with` and enumerations need it. -/
  | objectFor (v : Value) : Operation ObjectId
  /-- The key with a raw number, with which operations on names and properties begin. -/
  | keyOf (raw : Nat) : Operation Key
  /-- A step that cannot fail, such as entering or leaving a block. -/
  | step {α : Type} (f : Machine → α × Machine) : Operation α
  | andThen {α β : Type} (first : Operation α) (next : α → Operation β) : Operation β

/-- Performs it. -/
def Operation.run {α : Type} : Operation α → Run α
  | primitive frame p operands => runPrimitive frame p operands
  | pushedCall c argc => c.run argc
  | call f this args => Ecma51.call f this args
  | construct f args => Ecma51.construct f args
  | native b this args => b.run this args
  | declareVariable name => Ecma51.declareVariable name
  | declareParameter strict name v => Ecma51.declareParameter strict name v
  | declareFunction name f => Ecma51.declareFunction name f
  | bindArguments frame => Ecma51.bindArguments frame
  | linkParameter arguments i name => Ecma51.linkParameter arguments i name
  | linkName kind name v => Ecma51.linkName kind name v
  | newObject => Ecma51.newObject
  | addMember target k v => Ecma51.addMember target k v
  | newFunction code scope strict n => newCompiledFunction code scope strict n
  | objectFor v => toObject v
  | keyOf raw => rawKey raw
  | step f => modifyGet f
  | andThen first next => first.run >>= fun a => (next a).run

/-- **Whatever is performed for code fails properly.** -/
theorem Operation.failsProperly {bodies : Bodies} (hb : bodies.Proper) {α : Type} (op : Operation α) :
    FailsProperly bodies op.run := by
  induction op with
  | primitive frame p operands =>
    have hrun : Composed 0 (runPrimitive frame p operands) := composed_runPrimitive frame p operands
    exact hrun.failsProperly hb
  | pushedCall c argc => exact c.failsProperly hb argc
  | call f this args => exact failsProperly_call hb f this args
  | construct f args => exact (built_construct f args).failsProperly hb
  | native b this args => exact (built_run b this args).failsProperly hb
  | declareVariable name => exact (built_declareVariable name).failsProperly hb
  | declareParameter strict name v => exact (built_declareParameter strict name v).failsProperly hb
  | declareFunction name f => exact (built_declareFunction name f).failsProperly hb
  | bindArguments frame => exact (built_bindArguments frame).failsProperly hb
  | linkParameter arguments i name => exact failsProperly_linkParameter arguments i name
  | linkName kind name v => exact (built_linkName kind name v).failsProperly hb
  | newObject => exact built_newObject.failsProperly hb
  | addMember target k v => exact (built_addMember target k v).failsProperly hb
  | newFunction code scope strict n =>
    exact (Built.newCompiledFunction code scope strict n).failsProperly hb
  | objectFor v => exact .toObject v
  | keyOf raw => exact (built_rawKey raw).failsProperly hb
  | step f => exact .modifyGet f
  | andThen first next hfirst hnext => exact .bind hfirst hnext

/-- **What is performed for code is reported exactly as it went**, whatever functions do. A failure leaves the
place for the result alone, and a pending exception that stands for it. Nothing is pending only if the operation
failed by throwing `nothing`, and no operation does so unless functions do so themselves: neither the built-in
ones do, whatever code they call, nor the functions of any level. -/
theorem report_exact (bodies : Bodies) {α : Type} (op : Operation α) (place : α) (m : Machine) :
    Reports bodies op.run place m ∧
    ((∃ a m', report op.run place bodies m = .ok (false, a) m') ↔
      ∃ e m', op.run bodies m = .error e m' ∧ e ≠ .exhausted) ∧
    (∀ a m', report op.run place bodies m = .ok (false, a) m' → a = place ∧
      ∃ e m₁, op.run bodies m = .error e m₁ ∧ m'.Presents e ∧ (m'.pending = .nothing ↔ e = .thrown .nothing)) ∧
    (bodies.Proper → (∀ m', op.run bodies m ≠ .error (.thrown .nothing) m') ∧
      ∀ a m', report op.run place bodies m = .ok (false, a) m' → m'.pending ≠ .nothing) ∧
    (∀ behaviour n, (bodiesOver behaviour n).Proper) ∧ ∀ n, (bodiesAt n).Proper := by
  have hreports : Reports bodies op.run place m := reports bodies op.run place m
  refine ⟨hreports, ⟨?_, ?_⟩, ?_, fun hb => ⟨?_, ?_⟩, bodiesOver_proper, bodiesAt_proper⟩
  · rintro ⟨a, m', hfalse⟩
    obtain ⟨-, e, m₁, hrun, he, -⟩ := hreports.of_false hfalse
    exact ⟨e, m₁, hrun, he⟩
  · rintro ⟨e, m', hrun, he⟩
    obtain ⟨m₁, hfalse⟩ := hreports.of_error hrun he
    exact ⟨place, m₁, hfalse⟩
  · intro a m' hfalse
    obtain ⟨hplace, e, m₁, hrun, -, hpresents⟩ := hreports.of_false hfalse
    exact ⟨hplace, e, m₁, hrun, hpresents, hpresents.pending_eq_nothing_iff⟩
  · intro m' hrun
    exact op.failsProperly hb m _ m' hrun rfl
  · intro a m' hfalse hnothing
    obtain ⟨-, e, m₁, hrun, -, hpresents⟩ := hreports.of_false hfalse
    obtain rfl := hpresents.pending_eq_nothing_iff.mp hnothing
    exact op.failsProperly hb m _ m₁ hrun rfl

/-- Code that fails and throws `nothing`; built-in functions refuse. -/
def silentBodies : Bodies where
  native _ _ _ m := .error (.fault .notAFunction) m
  compiled _ _ m := .ok false { m with pending := .nothing }

theorem silentBodies_proper : silentBodies.Proper := by
  constructor
  · rintro b this args m _ _ ⟨⟩
    trivial
  · rintro code frame m _ _ ⟨⟩

theorem call_silent : ∃ m', call Heap.skeleton.nextObject .null [] silentBodies machineWithFunction =
    .ok .undefined m' := by
  obtain ⟨hfunction, hunbind⟩ := function?_added (h := machineWithFunction.heap) rfl
  unfold call
  rw [getHeap_bind_run, hunbind]
  dsimp only
  rw [hfunction]
  exact ⟨_, rfl⟩

/-- A call of such code succeeds with undefined; a call of what is no function fails, and there is an
exception. -/
theorem report_exact_silent :
    (∃ m', report (Operation.call Heap.skeleton.nextObject .null []).run (.boolean true) silentBodies
        machineWithFunction = .ok (true, .undefined) m') ∧
      ∃ m', report (Operation.pushedCall (.value .null) 0).run (.boolean true) silentBodies
        machineWithFunction = .ok (false, .boolean true) m' ∧ m'.pending ≠ .nothing := by
  constructor
  · have hreports := (report_exact silentBodies (.call Heap.skeleton.nextObject .null []) (.boolean true)
      machineWithFunction).1
    obtain ⟨m', hcall⟩ := call_silent
    have hrun : (Operation.call Heap.skeleton.nextObject .null []).run silentBodies machineWithFunction =
        .ok .undefined m' := hcall
    unfold Reports at hreports
    rw [hrun] at hreports
    exact ⟨m', hreports⟩
  · obtain ⟨-, hfails, hplace, hproper, -⟩ := report_exact silentBodies (.pushedCall (.value .null) 0)
      (.boolean true) machineWithFunction
    obtain ⟨a, m', hfalse⟩ := hfails.mpr ⟨_, _, rfl, nofun⟩
    obtain ⟨rfl, -⟩ := hplace a m' hfalse
    exact ⟨m', hfalse, (hproper silentBodies_proper).2 _ m' hfalse⟩

/-- Built-in functions that fail by throwing `nothing`. -/
def voidBodies : Bodies where
  native _ _ _ m := .error (.thrown .nothing) m
  compiled _ _ m := .ok true m

/-- **A failure can leave nothing pending, and the end of an enumeration does**: a call passes on what a
built-in function throws, also if it is `nothing`; and that there is no further key is no failure. -/
theorem report_fails :
    (∃ m', call Heap.skeleton.nextObject .null [] voidBodies machineWithBuiltin =
      .error (.thrown .nothing) m') ∧
    (∃ m', report (Operation.call Heap.skeleton.nextObject .null []).run (.boolean true) voidBodies
      machineWithBuiltin = .ok (false, .boolean true) m' ∧ m'.pending = .nothing) ∧
    machineWithBuiltin.heap.nextKey? globalObject [] = none ∧ machineWithBuiltin.pending = .nothing := by
  have hcall : call Heap.skeleton.nextObject .null [] voidBodies machineWithBuiltin =
      .error (.thrown .nothing) _ := call_added rfl .null []
  refine ⟨⟨_, hcall⟩, ⟨_, report_error hcall (.boolean true), rfl⟩, rfl, rfl⟩

end Ecma51
