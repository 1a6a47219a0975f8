import Ecma51.Library
import Ecma51.Proofs.Composed
import Ecma51.Proofs.Orderly

/-!
# As many calls are under way as before

Every call that is entered is left again, however it ends. So after any operation, of the library or of a program, and
after a failure as after a success, as many calls are under way as before it, and as many are allowed. Nothing is
assumed of the stack.

* `Machine.depthLeft`, `Machine.SameDepth`: how many more calls may be nested, and that this has not changed.
* `Bodies.KeepDepth`: functions keep to that.
* **`Built.keepsDepth`**, **`Composed.keepsDepth`**: so do the operations of the library, and programs.
* **`bodiesAt_keepDepth`**: so do the functions of every level.
-/

namespace Ecma51

/-! ## 1. Machines -/

namespace Machine

/-- The number of calls that may still be nested. -/
def depthLeft (m : Machine) : Nat := m.maxCallDepth - m.callDepth

/-- Equally many calls are under way, and allowed. -/
structure SameDepth (m m' : Machine) : Prop where
  callDepth : m'.callDepth = m.callDepth
  maxCallDepth : m'.maxCallDepth = m.maxCallDepth

theorem SameDepth.refl (m : Machine) : m.SameDepth m := ⟨rfl, rfl⟩

theorem SameDepth.trans {m₁ m₂ m₃ : Machine} (h : m₁.SameDepth m₂) (h' : m₂.SameDepth m₃) : m₁.SameDepth m₃ :=
  ⟨h'.callDepth.trans h.callDepth, h'.maxCallDepth.trans h.maxCallDepth⟩

instance : IsPreorder Machine SameDepth where
  refl := SameDepth.refl
  trans _ _ _ := SameDepth.trans

theorem SameCore.sameDepth {m m' : Machine} (h : m.SameCore m') : m.SameDepth m' := ⟨h.callDepth, h.maxCallDepth⟩

theorem SameControl.sameDepth {m m' : Machine} (h : m.SameControl m') : m.SameDepth m' :=
  ⟨h.callDepth, h.maxCallDepth⟩

end Machine

/-- After a function as many calls are under way as before, and as many are allowed, however it ends. -/
structure Bodies.KeepDepth (bodies : Bodies) : Prop where
  native : ∀ b this args (m : Machine), m.SameDepth (endOf (bodies.native b this args m))
  compiled : ∀ code frame (m : Machine), m.SameDepth (endOf (bodies.compiled code frame m))

/-! ## 2. Single operations -/

section Steps

variable {α β : Type} {bodies : Bodies}

theorem keepsDepth_modify {f : Machine → Machine} (hf : ∀ m : Machine, m.SameDepth (f m)) :
    Relates Machine.SameDepth bodies (modify f : Run PUnit) := hf

theorem keepsDepth_getHeap : Relates Machine.SameDepth bodies getHeap := fun _ => .refl _

theorem keepsDepth_setHeap (h : Heap) : Relates Machine.SameDepth bodies (setHeap h) := fun _ => ⟨rfl, rfl⟩

theorem keepsDepth_modifyHeap (f : Heap → Heap) : Relates Machine.SameDepth bodies (modifyHeap f) :=
  fun _ => ⟨rfl, rfl⟩

theorem keepsDepth_hold (v : Value) : Relates Machine.SameDepth bodies (hold v) := fun _ => ⟨rfl, rfl⟩

theorem keepsDepth_freeSlots (argc : Nat) : Relates Machine.SameDepth bodies (freeSlots argc) := fun _ => ⟨rfl, rfl⟩

theorem keepsDepth_takeArguments (argc : Nat) : Relates Machine.SameDepth bodies (takeArguments argc) :=
  fun _ => ⟨rfl, rfl⟩

theorem keepsDepth_holding {x : Run α} (hx : Relates Machine.SameDepth bodies x) (vs : List Value) :
    Relates Machine.SameDepth bodies (holding vs x) := by
  intro m
  have h := hx { m with held := vs ++ m.held }
  cases hrun : x bodies { m with held := vs ++ m.held } with
  | ok a m' =>
    rw [hrun] at h
    rw [holding_ok hrun]
    exact ⟨h.callDepth, h.maxCallDepth⟩
  | error e m' =>
    rw [hrun] at h
    rw [holding_error hrun]
    exact ⟨h.callDepth, h.maxCallDepth⟩

theorem keepsDepth_handleEach {σ : Type} {step : σ → Value → Run σ}
    (hstep : ∀ s v, Relates Machine.SameDepth bodies (step s v)) (s : σ) (vs : List Value) :
    Relates Machine.SameDepth bodies (handleEach step s vs) := by
  induction vs generalizing s with
  | nil => exact .pure s
  | cons v vs ih =>
    exact .bind (keepsDepth_holding (hstep s v) []) fun s => .bind (fun _ => ⟨rfl, rfl⟩) fun _ => ih s

/-- What is run as the rest of a call that has been counted leaves one call less. -/
theorem keepsDepth_leaving {x : Run α} (hx : Relates Machine.SameDepth bodies x) (m : Machine) :
    m.SameDepth (endOf (leaving x bodies { m with callDepth := m.callDepth + 1 })) := by
  have h := hx { m with callDepth := m.callDepth + 1 }
  rw [endOf_leaving]
  exact ⟨congrArg (· - 1) h.callDepth, h.maxCallDepth⟩

theorem keepsDepth_nestedCall {x : Run α} (hx : Relates Machine.SameDepth bodies x) :
    Relates Machine.SameDepth bodies (nestedCall x) := by
  intro m
  unfold nestedCall
  by_cases hfull : m.maxCallDepth ≤ m.callDepth
  · rw [bind_run_error (enterCall_full hfull)]
    exact .refl m
  · rw [bind_run_ok (enterCall_free hfull)]
    exact keepsDepth_leaving hx m

theorem keepsDepth_orDiscard {x : Run α} (hx : Relates Machine.SameDepth bodies x) (argc : Nat) :
    Relates Machine.SameDepth bodies (orDiscard argc x) :=
  hx.tryCatch fun _ => .bind (keepsDepth_freeSlots argc) fun _ => .throw _

theorem keepsDepth_newObjectOf (x : Object) : Relates Machine.SameDepth bodies (newObjectOf x) := by
  refine .bind (fun m => ?_) fun _ => .bind keepsDepth_getHeap fun _ => .bind (keepsDepth_setHeap _) fun _ => .pure _
  have hreserve : m.SameDepth m.reserve.1 := ⟨rfl, rfl⟩
  rw [allocate_run]
  split <;> exact hreserve

theorem keepsDepth_toObject (v : Value) : Relates Machine.SameDepth bodies (toObject v) := by
  unfold toObject
  split
  · exact .pure _
  · split
    · exact keepsDepth_newObjectOf _
    · exact .throw _

theorem keepsDepth_thisBinding (strict : Bool) (this : Value) :
    Relates Machine.SameDepth bodies (thisBinding strict this) := by
  unfold thisBinding
  split
  · exact .pure _
  · split
    · exact .pure _
    · exact .bind (keepsDepth_toObject this) fun _ => .pure _

theorem keepsDepth_settle (throws : Bool) (r : Heap.Outcome) : Relates Machine.SameDepth bodies (settle throws r) := by
  refine .bind (keepsDepth_setHeap _) fun _ => ?_
  split
  · exact .pure _
  · split
    · exact .throw _
    · exact .pure _

theorem keepsDepth_codeResult (succeeded : Bool) (result : Value) :
    Relates Machine.SameDepth bodies (codeResult succeeded result) := by
  unfold codeResult
  split
  · exact .pure _
  · refine .bind (fun _ => ⟨rfl, rfl⟩) fun v => ?_
    split
    · exact .pure _
    · exact .throw _

theorem keepsDepth_linkParameters (arguments : Value) (names : List Text) (i : Nat) :
    Relates Machine.SameDepth bodies (linkParameters arguments names i) := by
  induction names generalizing i with
  | nil => exact .pure _
  | cons name names ih =>
    refine .bind (.bind keepsDepth_getHeap fun h => ?_) fun _ => ih (i + 1)
    split
    · split
      · split
        · exact keepsDepth_setHeap _
        · exact .pure _
      · exact .pure _
    · exact .pure _

end Steps

/-! ## 3. Calls -/

section Calls

variable {bodies : Bodies} (hb : bodies.KeepDepth)

include hb

theorem keepsDepth_runCode (code : Code) (context : Context) (argc n : Nat) (callee : Value) :
    Relates Machine.SameDepth bodies (runCode code context argc n callee) := by
  have hcompiled (frame : Frame) : Relates Machine.SameDepth bodies (do (← read).compiled code frame : Run Bool) :=
    hb.compiled code frame
  rw [runCode_eq]
  refine .bind (fun m => .refl m) fun depth => .bind (fun _ => ⟨rfl, rfl⟩) fun frame => ?_
  exact .bind (hcompiled frame) fun succeeded => .bind (fun _ => ⟨rfl, rfl⟩) fun result =>
    keepsDepth_codeResult succeeded result

theorem keepsDepth_callCompiled (f : ObjectId) (this : Value) (argc : Nat) (code : Code) (scope : EnvironmentId)
    (n : Nat) (strict : Bool) :
    Relates Machine.SameDepth bodies (callCompiled f this argc code scope n strict) :=
  .bind (keepsDepth_orDiscard (keepsDepth_thisBinding strict this) argc) fun _ => .bind (fun _ => ⟨rfl, rfl⟩) fun _ =>
    keepsDepth_runCode hb code _ argc n _

/-- **A function made of code is entered and left**, also if too many calls are under way. -/
theorem keepsDepth_enterCompiled (f : ObjectId) (this : Value) (argc : Nat) (code : Code) (scope : EnvironmentId)
    (n : Nat) (strict : Bool) :
    Relates Machine.SameDepth bodies (enterCompiled f this argc code scope n strict) := by
  intro m
  unfold enterCompiled orDiscard
  by_cases hfull : m.maxCallDepth ≤ m.callDepth
  · rw [bind_run_error ((tryCatch_run_error (enterCall_full hfull) _).trans rfl)]
    exact ⟨rfl, rfl⟩
  · rw [bind_run_ok (tryCatch_run_ok (enterCall_free hfull) _)]
    exact keepsDepth_leaving (keepsDepth_holding (keepsDepth_callCompiled hb f this argc code scope n strict) _) m

theorem keepsDepth_callNative (f : ObjectId) (b : Builtin) (this : Value) (args : List Value) :
    Relates Machine.SameDepth bodies (callNative f b this args) := by
  have hnative : Relates Machine.SameDepth bodies (do (← read).native b this args : Run Value) := hb.native b this args
  exact keepsDepth_nestedCall (keepsDepth_holding hnative _)

theorem keepsDepth_call (f : ObjectId) (this : Value) (args : List Value) :
    Relates Machine.SameDepth bodies (call f this args) := by
  refine .bind keepsDepth_getHeap fun h => ?_
  dsimp only
  split
  · exact .throw _
  · exact keepsDepth_callNative hb _ _ _ _
  · refine .bind (keepsDepth_modify fun _ => ⟨rfl, rfl⟩) fun _ => ?_
    exact keepsDepth_enterCompiled hb _ _ _ _ _ _ _

theorem keepsDepth_callPushed (f : ObjectId) (this : Value) (argc : Nat) :
    Relates Machine.SameDepth bodies (callPushed f this argc) := by
  refine .bind keepsDepth_getHeap fun h => ?_
  split
  · exact keepsDepth_enterCompiled hb f this argc _ _ _ _
  · exact .bind (keepsDepth_takeArguments argc) fun args => keepsDepth_call hb f this args

theorem keepsDepth_invokePushed (f this : Value) (argc : Nat) (namesEval : Bool) :
    Relates Machine.SameDepth bodies (invokePushed f this argc namesEval) := by
  have hrefused : Relates Machine.SameDepth bodies (do freeSlots argc; raise .notAFunction : Run Value) :=
    .bind (keepsDepth_freeSlots argc) fun _ => .throw _
  refine .bind keepsDepth_getHeap fun h => ?_
  cases f with
  | object o =>
    dsimp only
    split
    · split
      · exact .bind (keepsDepth_modify fun _ => ⟨rfl, rfl⟩) fun _ => keepsDepth_callPushed hb o this argc
      · exact keepsDepth_callPushed hb o this argc
    · exact hrefused
  | _ => exact hrefused

/-! ## 4. Operations of the library and programs -/

/-- **Whatever is built from basic operations keeps the number of calls.** -/
theorem Built.keepsDepth {α : Type} {x : Run α} (h : Built x) : Relates Machine.SameDepth bodies x := by
  induction h with
  | pure a => exact .pure a
  | bind _ _ hx hf => exact .bind hx hf
  | throw _ => exact .throw _
  | get => exact .get
  | aside f hf => exact fun m => (hf m).sameDepth
  | holding vs _ hx => exact keepsDepth_holding hx vs
  | hold v => exact keepsDepth_hold v
  | consuming s vs _ hstep => exact keepsDepth_holding (keepsDepth_handleEach hstep s vs) vs
  | nestedCall _ hx => exact keepsDepth_nestedCall hx
  | call f this args => exact keepsDepth_call hb f this args
  | callNative f b this args => exact keepsDepth_callNative hb f b this args
  | runCode code context => exact keepsDepth_runCode hb code context 0 0 .undefined
  | newObjectOf _ _ => exact keepsDepth_newObjectOf _
  | newDate _ _ _ _ htime => exact .bind htime fun _ => keepsDepth_newObjectOf _
  | environments f _ => exact keepsDepth_modifyHeap f
  | newDeclarative outer => exact fun _ => ⟨rfl, rfl⟩
  | defineOwn o k d throws _ htoNumber =>
    refine .bind keepsDepth_getHeap fun h => ?_
    split
    · refine keepsDepth_holding (.bind keepsDepth_getHeap fun _ => ?_) _
      refine .bind (.bind (.bind (htoNumber _) fun _ => .pure _) fun n =>
        .bind (htoNumber _) fun x => ?_) fun _ => .bind keepsDepth_getHeap fun _ => keepsDepth_settle throws _
      split
      · exact .pure n
      · exact .throw _
    · exact keepsDepth_settle throws _
  | deleteOwn o k throws => exact .bind keepsDepth_getHeap fun _ => keepsDepth_settle throws _
  | restrictOwn o freeze => exact .bind keepsDepth_getHeap fun _ => keepsDepth_settle true _
  | closeOwn o => exact keepsDepth_modifyHeap _
  | newCompiledFunction code scope strict n =>
    exact .bind (keepsDepth_newObjectOf _) fun _ => keepsDepth_holding (.bind (keepsDepth_newObjectOf _) fun _ =>
      .bind (keepsDepth_modifyHeap _) fun _ => .pure _) _
  | constructError kind message _ htoText =>
    refine .bind (keepsDepth_newObjectOf _) fun o => .bind (keepsDepth_hold _) fun _ => ?_
    split
    · exact .pure _
    · exact .bind (htoText message) fun _ => .bind (keepsDepth_modifyHeap _) fun _ => .pure _
  | updateTime this f _ _ hnext =>
    have hthis : Relates Machine.SameDepth bodies (thisTime this f) := by
      unfold thisTime
      split
      · refine .bind keepsDepth_getHeap fun h => ?_
        split
        · exact .pure _
        · exact .throw _
      · exact .throw _
    exact .bind hthis fun _ => .bind (hnext _) fun _ => .bind (keepsDepth_modifyHeap _) fun _ => .pure _

theorem PushedCall.keepsDepth (c : PushedCall) (argc : Nat) : Relates Machine.SameDepth bodies (c.run argc) := by
  have hfound {find : Run Callee} (hfind : Built find) : Relates Machine.SameDepth bodies (callFound find argc) :=
    .bind (keepsDepth_orDiscard (hfind.keepsDepth hb) argc) fun c =>
      keepsDepth_invokePushed hb c.function c.this argc c.namesEval
  cases c with
  | function f this => exact keepsDepth_callPushed hb f this argc
  | value f => exact keepsDepth_invokePushed hb f .undefined argc false
  | member target k => exact hfound (built_findKeyed target (.pure k))
  | rawMember target raw => exact hfound (built_findKeyed target (built_rawKey raw))
  | element target key => exact hfound (built_findKeyed target (built_toKey key))
  | identifier name => exact hfound (built_findNamed name)
  | construct f =>
    exact .bind (keepsDepth_takeArguments argc) fun args => (built_constructWith f args).keepsDepth hb

/-- **Whatever is composed of well-understood parts keeps the number of calls.** -/
theorem Composed.keepsDepth {α : Type} {bound : ObjectId} {x : Run α} (h : Composed bound x) :
    Relates Machine.SameDepth bodies x := by
  induction h with
  | built hx => exact hx.keepsDepth hb
  | bind _ _ hx hf => exact .bind hx hf
  | tryCatch _ _ hx hf => exact .tryCatch hx hf
  | holding vs _ hx => exact keepsDepth_holding hx vs
  | aside f hf _ _ => exact fun m => (hf m).sameDepth
  | setStrict strict => exact keepsDepth_modify fun _ => ⟨rfl, rfl⟩
  | inContext c _ hx =>
    rw [run_inContext]
    exact .bind (keepsDepth_modify fun _ => ⟨rfl, rfl⟩) fun _ => .bind hx fun _ =>
      .bind (keepsDepth_modify fun _ => ⟨rfl, rfl⟩) fun _ => .pure _
  | pushedCall c args =>
    exact .bind (keepsDepth_modify fun _ => ⟨rfl, rfl⟩) fun _ => c.keepsDepth hb _
  | shareArguments frame names =>
    exact .bind ((built_bindArguments frame).keepsDepth hb) fun _ => keepsDepth_linkParameters _ names 0

end Calls

/-! ## 5. All functions -/

/-- **The functions of every level keep the number of calls.** -/
theorem bodiesAt_keepDepth (n : Nat) : (bodiesAt n).KeepDepth := by
  induction n with
  | zero => exact ⟨fun _ _ _ _ => ⟨rfl, rfl⟩, fun _ _ _ => ⟨rfl, rfl⟩⟩
  | succ n ih =>
    have hcode (code : Code) (frame : Frame) : Composed 0 (code.run frame) := composed_run code frame
    exact ⟨fun b this args => (built_run b this args).keepsDepth ih,
      fun code frame => (hcode code frame).keepsDepth ih⟩

end Ecma51
