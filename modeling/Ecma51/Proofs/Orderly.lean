import Ecma51.Proofs.Lifetime

/-!
# Orderly operations

A call of `eval` by its name sets a mark, which the function takes when it is entered. Nothing else sets the
mark, and between the call and the function nothing runs that could meet it. Only if the call is refused
because too many calls are under way, the mark stays.

* `Machine.Unmarked`: there is no mark, or one that a refused call has left.
* `Machine.Enters`: how functions are entered.
* `Orderly`: an operation leaves no other marks, and enters functions in no other way.
* **`Built.orderly`**: the operations of the library are orderly.
-/

namespace Ecma51

/-! ## 1. Marks -/

namespace Machine

/-- There is no mark, or one that was left by a call of `eval` at the depth at which calls are refused. -/
def Unmarked (m : Machine) : Prop := ∀ d, m.directEval = some d → m.maxCallDepth ≤ d

/-- The function is `eval`, and the call that enters it is one by its name. -/
def InFlight (m : Machine) (b : Builtin) : Prop :=
  b = .global .eval ∧ ∃ d, m.directEval = some d ∧ m.callDepth = d + 1 ∧ d < m.maxCallDepth

/-- How a built-in function may be entered. -/
def Enters (m : Machine) (b : Builtin) : Prop := m.Unmarked ∨ m.InFlight b

/-- No mark is left but by refused calls. -/
def Settles (m m' : Machine) : Prop :=
  m.Unmarked → m'.Unmarked ∧ m'.maxCallDepth = m.maxCallDepth

theorem Settles.refl (m : Machine) : m.Settles m := fun hm => ⟨hm, rfl⟩

theorem Settles.trans {m₁ m₂ m₃ : Machine} (h : m₁.Settles m₂) (h' : m₂.Settles m₃) :
    m₁.Settles m₃ := by
  intro hm
  obtain ⟨hm₂, hmax⟩ := h hm
  obtain ⟨hm₃, hmax'⟩ := h' hm₂
  exact ⟨hm₃, hmax'.trans hmax⟩

instance : IsPreorder Machine Settles where
  refl := Settles.refl
  trans _ _ _ := Settles.trans

variable {m m' : Machine}

theorem unmarked_of_none (h : m.directEval = none) : m.Unmarked := by
  intro d hd
  rw [h] at hd
  cases hd

theorem Unmarked.congr (hm : m.Unmarked) (hmark : m'.directEval = m.directEval ∨ m'.directEval = none)
    (hmax : m'.maxCallDepth = m.maxCallDepth) : m'.Unmarked := by
  rcases hmark with hsame | hnone
  · intro d hd
    rw [hmax]
    exact hm d (hsame ▸ hd)
  · exact unmarked_of_none hnone

/-- What leaves the mark and the limit alone, or forgets the mark. -/
theorem Settles.of_eq (hmark : m'.directEval = m.directEval ∨ m'.directEval = none)
    (hmax : m'.maxCallDepth = m.maxCallDepth) : m.Settles m' := fun hm => ⟨hm.congr hmark hmax, hmax⟩

theorem SameCore.settles (h : m.SameCore m') : m.Settles m' := .of_eq h.directEval h.maxCallDepth

theorem SameControl.settles (h : m.SameControl m') : m.Settles m' :=
  .of_eq (.inl h.directEval) h.maxCallDepth

end Machine

/-- Functions leave no marks but by refused calls, however they are entered. -/
structure Bodies.Heedful (bodies : Bodies) : Prop where
  native : ∀ b this args (m : Machine), m.Enters b →
    (endOf (bodies.native b this args m)).Unmarked ∧
      (endOf (bodies.native b this args m)).maxCallDepth = m.maxCallDepth
  compiled : ∀ code frame (m : Machine), m.Settles (endOf (bodies.compiled code frame m))

/-- The functions differ at most where they are entered in another way. -/
structure Bodies.AgreeOnEntry (bodies bodies' : Bodies) : Prop where
  native : ∀ b this args (m : Machine), m.Enters b →
    bodies'.native b this args m = bodies.native b this args m
  compiled : ∀ code frame (m : Machine), m.Unmarked →
    bodies'.compiled code frame m = bodies.compiled code frame m

/-! ## 2. Orderly operations -/

/-- The operation leaves no marks but by refused calls; and if it finds no other, it is the same with other
functions that agree wherever functions may be entered. -/
structure Orderly (bodies bodies' : Bodies) {α : Type} (x : Run α) : Prop where
  settles : Relates Machine.Settles bodies x
  enters : ∀ m : Machine, m.Unmarked → x bodies' m = x bodies m

section Steps

variable {α β : Type} {bodies bodies' : Bodies}

namespace Orderly

theorem pure (a : α) : Orderly bodies bodies' (pure a : Run α) :=
  ⟨.pure a, fun _ _ => rfl⟩

theorem throw (e : Failure) : Orderly bodies bodies' (throw e : Run α) :=
  ⟨.throw e, fun _ _ => rfl⟩

theorem get : Orderly bodies bodies' (get : Run Machine) := ⟨.get, fun _ _ => rfl⟩

theorem getHeap : Orderly bodies bodies' Ecma51.getHeap := ⟨fun _ => .refl _, fun _ _ => rfl⟩

theorem modify (f : Machine → Machine) (hf : ∀ m : Machine, m.Settles (f m)) :
    Orderly bodies bodies' (modify f : Run PUnit) := ⟨hf, fun _ _ => rfl⟩

theorem setHeap (h : Heap) : Orderly bodies bodies' (setHeap h) :=
  .modify _ fun _ => .of_eq (.inl rfl) rfl

theorem modifyHeap (f : Heap → Heap) : Orderly bodies bodies' (modifyHeap f) :=
  .modify _ fun _ => .of_eq (.inl rfl) rfl

theorem hold (v : Value) : Orderly bodies bodies' (hold v) :=
  .modify _ fun _ => .of_eq (.inl rfl) rfl

theorem freeSlots (argc : Nat) : Orderly bodies bodies' (freeSlots argc) :=
  .modify _ fun _ => .of_eq (.inl rfl) rfl

theorem bind {x : Run α} {f : α → Run β} (hx : Orderly bodies bodies' x)
    (hf : ∀ a, Orderly bodies bodies' (f a)) : Orderly bodies bodies' (x >>= f) where
  settles := hx.settles.bind fun a => (hf a).settles
  enters m hm := by
    refine bind_run_congr (hx.enters m hm) fun a m' hrun => (hf a).enters m' ?_
    have h := hx.settles m hm
    rw [hrun] at h
    exact h.1

theorem tryCatch {x : Run α} {f : Failure → Run α} (hx : Orderly bodies bodies' x)
    (hf : ∀ e, Orderly bodies bodies' (f e)) : Orderly bodies bodies' (tryCatch x f) where
  settles := hx.settles.tryCatch fun e => (hf e).settles
  enters m hm := by
    refine tryCatch_run_congr (hx.enters m hm) fun e m' hrun => (hf e).enters m' ?_
    have h := hx.settles m hm
    rw [hrun] at h
    exact h.1

/-- What is kept meanwhile makes no difference. -/
theorem holding {x : Run α} (hx : Orderly bodies bodies' x) (vs : List Value) :
    Orderly bodies bodies' (holding vs x) where
  settles m hm := by
    have h := hx.settles { m with held := vs ++ m.held } hm
    unfold Ecma51.holding
    cases hrun : x bodies { m with held := vs ++ m.held } with
    | ok a m' =>
      rw [hrun] at h
      exact h
    | error e m' =>
      rw [hrun] at h
      exact h
  enters m hm := by
    unfold Ecma51.holding
    rw [hx.enters { m with held := vs ++ m.held } hm]

theorem handleEach {σ : Type} {step : σ → Value → Run σ}
    (hstep : ∀ s v, Orderly bodies bodies' (step s v)) (s : σ) (vs : List Value) :
    Orderly bodies bodies' (handleEach step s vs) := by
  induction vs generalizing s with
  | nil => exact .pure s
  | cons v vs ih =>
    refine .bind ((hstep s v).holding []) fun s => .bind ?_ fun _ => ih s
    exact .modify _ fun _ => .of_eq (.inl rfl) rfl

theorem enterCall : Orderly bodies bodies' enterCall := by
  refine ⟨fun m => ?_, fun m _ => ?_⟩ <;> by_cases hfull : m.maxCallDepth ≤ m.callDepth
  · rw [enterCall_full hfull]
    exact .refl m
  · rw [enterCall_free hfull]
    exact .of_eq (.inl rfl) rfl
  · rw [enterCall_full hfull, enterCall_full hfull]
  · rw [enterCall_free hfull, enterCall_free hfull]

theorem leaving {x : Run α} (hx : Orderly bodies bodies' x) : Orderly bodies bodies' (leaving x) where
  settles m := by
    rw [endOf_leaving]
    exact (hx.settles m).trans (.of_eq (.inl rfl) rfl)
  enters m hm := leaving_run_congr (hx.enters m hm)

theorem nestedCall {x : Run α} (hx : Orderly bodies bodies' x) :
    Orderly bodies bodies' (nestedCall x) := .bind .enterCall fun _ => hx.leaving

theorem orDiscard {x : Run α} (hx : Orderly bodies bodies' x) (argc : Nat) :
    Orderly bodies bodies' (orDiscard argc x) :=
  hx.tryCatch fun _ => .bind (.freeSlots argc) fun _ => .throw _

/-! ## 3. Objects and environments -/

theorem allocate : Orderly bodies bodies' allocate := by
  have hreserve (m : Machine) : m.Settles m.reserve.1 := by
    unfold Machine.reserve Heap.reserve
    split
    · exact .of_eq (.inl rfl) rfl
    · exact .refl m
  refine ⟨fun m => ?_, fun m _ => (allocate_run bodies' m).trans (allocate_run bodies m).symm⟩
  rw [allocate_run]
  split
  · exact hreserve m
  · exact hreserve m

theorem newObjectOf (x : Object) : Orderly bodies bodies' (newObjectOf x) :=
  .bind .allocate fun _ => .bind .getHeap fun _ => .bind (.setHeap _) fun _ => .pure _

theorem newDeclarative (outer : EnvironmentId) : Orderly bodies bodies' (newDeclarative outer) :=
  .bind .getHeap fun _ => .bind (.setHeap _) fun _ => .pure _

theorem toObject (v : Value) : Orderly bodies bodies' (toObject v) := by
  unfold Ecma51.toObject
  split
  · exact .pure _
  · split
    · exact .newObjectOf _
    · exact .throw _

theorem thisBinding (strict : Bool) (this : Value) :
    Orderly bodies bodies' (thisBinding strict this) := by
  unfold Ecma51.thisBinding
  split
  · exact .pure _
  · split
    · exact .pure _
    · exact .bind (.toObject this) fun _ => .pure _

theorem settle (throws : Bool) (r : Heap.Outcome) : Orderly bodies bodies' (settle throws r) := by
  refine .bind (.setHeap _) fun _ => ?_
  split
  · exact .pure _
  · split
    · exact .throw _
    · exact .pure _

theorem takePending : Orderly bodies bodies' takePending :=
  ⟨fun _ => .of_eq (.inl rfl) rfl, fun _ _ => rfl⟩

theorem codeResult (succeeded : Bool) (result : Value) :
    Orderly bodies bodies' (Ecma51.codeResult succeeded result) := by
  unfold Ecma51.codeResult
  split
  · exact .pure _
  · refine .bind .takePending fun v => ?_
    split
    · exact .pure _
    · exact .throw _

theorem takeArguments (argc : Nat) : Orderly bodies bodies' (takeArguments argc) :=
  ⟨fun _ => .of_eq (.inl rfl) rfl, fun _ _ => rfl⟩

/-- Indices come to stand for parameters without anything being run. -/
theorem linkParameters (arguments : Value) (names : List Text) (i : Nat) :
    Orderly bodies bodies' (linkParameters arguments names i) := by
  induction names generalizing i with
  | nil => exact .pure _
  | cons name names ih =>
    refine .bind (.bind .getHeap fun h => ?_) fun _ => ih (i + 1)
    split
    · split
      · split
        · exact .setHeap _
        · exact .pure _
      · exact .pure _
    · exact .pure _

end Orderly

end Steps

/-! ## 4. Calls -/

section Calls

variable {bodies bodies' : Bodies} (hb : bodies.Heedful) (ha : bodies.AgreeOnEntry bodies')

include hb ha

theorem orderly_runCode (code : Code) (context : Context) (argc n : Nat) (callee : Value) :
    Orderly bodies bodies' (runCode code context argc n callee) := by
  have hcompiled (frame : Frame) :
      Orderly bodies bodies' (do (← read).compiled code frame : Run Bool) :=
    ⟨hb.compiled code frame, ha.compiled code frame⟩
  rw [runCode_eq]
  have haside {α : Type} (f : Machine → α × Machine) (hf : ∀ m : Machine, m.Settles (f m).2) :
      Orderly bodies bodies' (modifyGet f : Run α) := ⟨hf, fun _ _ => rfl⟩
  refine .bind (haside _ fun m => .refl m) fun depth => ?_
  refine .bind (haside _ fun m => .of_eq (.inl rfl) rfl) fun frame => ?_
  refine .bind (hcompiled frame) fun succeeded => ?_
  exact .bind (haside _ fun m => .of_eq (.inl rfl) rfl) fun result => .codeResult _ _

theorem orderly_callCompiled (f : ObjectId) (this : Value) (argc : Nat) (code : Code)
    (scope : EnvironmentId) (n : Nat) (strict : Bool) :
    Orderly bodies bodies' (callCompiled f this argc code scope n strict) :=
  .bind (.orDiscard (.thisBinding strict this) argc) fun _ => .bind (.newDeclarative scope) fun _ =>
    orderly_runCode hb ha code _ argc n _

theorem orderly_enterCompiled (f : ObjectId) (this : Value) (argc : Nat) (code : Code)
    (scope : EnvironmentId) (n : Nat) (strict : Bool) :
    Orderly bodies bodies' (enterCompiled f this argc code scope n strict) :=
  .bind (.orDiscard .enterCall argc) fun _ =>
    .leaving (.holding (orderly_callCompiled hb ha f this argc code scope n strict) _)

/-- A built-in function is entered with the mark as its caller finds it. -/
theorem orderly_callNative (f : ObjectId) (b : Builtin) (this : Value) (args : List Value) :
    Orderly bodies bodies' (callNative f b this args) := by
  have hnative : Orderly bodies bodies' (do (← read).native b this args : Run Value) :=
    ⟨fun m hm => hb.native b this args m (.inl hm), fun m hm => ha.native b this args m (.inl hm)⟩
  exact (hnative.holding _).nestedCall

theorem orderly_call (f : ObjectId) (this : Value) (args : List Value) :
    Orderly bodies bodies' (call f this args) := by
  refine .bind .getHeap fun h => ?_
  dsimp only
  split
  · exact .throw _
  · exact orderly_callNative hb ha _ _ _ _
  · refine .bind (.modify _ fun _ => .of_eq (.inl rfl) rfl) fun _ => ?_
    exact orderly_enterCompiled hb ha _ _ _ _ _ _ _

theorem orderly_callPushed (f : ObjectId) (this : Value) (argc : Nat) :
    Orderly bodies bodies' (callPushed f this argc) := by
  refine .bind .getHeap fun h => ?_
  split
  · exact orderly_enterCompiled hb ha f this argc _ _ _ _
  · exact .bind (.takeArguments argc) fun args => orderly_call hb ha f this args

/-! ## 5. Operations of the library -/

/-- **Whatever is built from basic operations is orderly.** -/
theorem Built.orderly {α : Type} {x : Run α} (h : Built x) : Orderly bodies bodies' x := by
  induction h with
  | pure a => exact .pure a
  | bind _ _ hx hf => exact .bind hx hf
  | throw _ => exact .throw _
  | get => exact .get
  | aside f hf => exact ⟨fun m => (hf m).settles, fun _ _ => rfl⟩
  | holding vs _ hx => exact hx.holding vs
  | hold v => exact .hold v
  | consuming s vs _ hstep => exact (Orderly.handleEach hstep s vs).holding vs
  | nestedCall _ hx => exact hx.nestedCall
  | call f this args => exact orderly_call hb ha f this args
  | callNative f b this args => exact orderly_callNative hb ha f b this args
  | runCode code context => exact orderly_runCode hb ha code context 0 0 .undefined
  | newObjectOf _ _ => exact .newObjectOf _
  | newDate _ _ _ _ htime => exact .bind htime fun _ => .newObjectOf _
  | environments f _ => exact .modifyHeap f
  | newDeclarative outer => exact .newDeclarative outer
  | defineOwn o k d throws _ htoNumber =>
    refine .bind .getHeap fun h => ?_
    split
    · refine .holding (.bind .getHeap fun _ => ?_) _
      refine .bind (.bind (.bind (htoNumber _) fun _ => .pure _) fun n =>
        .bind (htoNumber _) fun x => ?_) fun _ => .bind .getHeap fun _ => .settle throws _
      split
      · exact .pure n
      · exact .throw _
    · exact .settle throws _
  | deleteOwn o k throws => exact .bind .getHeap fun _ => .settle throws _
  | restrictOwn o freeze => exact .bind .getHeap fun _ => .settle true _
  | closeOwn o => exact .modifyHeap _
  | newCompiledFunction code scope strict n =>
    exact .bind (.newObjectOf _) fun _ => .holding (.bind (.newObjectOf _) fun _ =>
      .bind (.modifyHeap _) fun _ => .pure _) _
  | constructError kind message _ htoText =>
    refine .bind (.newObjectOf _) fun o => .bind (.hold _) fun _ => ?_
    split
    · exact .pure _
    · exact .bind (htoText message) fun _ => .bind (.modifyHeap _) fun _ => .pure _
  | updateTime this f _ _ hnext =>
    have hthis : Orderly bodies bodies' (thisTime this f) := by
      unfold thisTime
      split
      · refine .bind .getHeap fun h => ?_
        split
        · exact .pure _
        · exact .throw _
      · exact .throw _
    exact .bind hthis fun _ => .bind (hnext _) fun _ => .bind (.modifyHeap _) fun _ => .pure _

end Calls

end Ecma51
