import Ecma51.Proofs.BuiltLibrary
import Ecma51.Proofs.Relates

/-!
# Calls leave the stack as they found it

However a call ends, the value stack is the one from before its arguments were pushed, and frames,
contexts and call depth are as before. Code may leave slots, frames and contexts of its own behind; the
call removes them. A call counts itself before it runs anything, and does so only below the limit; so it
does not matter what functions would do beyond it.

* `Machine.Balanced`: stack, contexts and call depth are as before; `Machine.Freed`: the last values are
  gone from the stack.
* `Machine.Contained`: what code may do to a machine on whose latest frame it runs.
* `Bodies.Tidy`: functions keep to that.
* `Bodies.AgreeWithinLimit`: functions that differ at most where too many calls are under way.
* `Steady`: the machines before and after are related, and functions run only within the limit.
* **`Built.steady`**: whatever is built from basic operations is balanced, and within the limit.
-/

namespace Ecma51

/-! ## 1. The stack -/

namespace CallStack

@[ext] theorem ext {s t : CallStack} (hs : s.slots = t.slots) (hf : s.frames = t.frames) : s = t := by
  cases s
  cases t
  cases hs
  cases hf
  rfl

@[simp] theorem free_zero (s : CallStack) : s.free 0 = s := by
  refine CallStack.ext ?_ rfl
  show s.slots.take s.slots.size = s.slots
  apply Array.ext'
  simp

@[simp] theorem free_pushAll (s : CallStack) (vs : List Value) :
    (s.pushAll vs).free vs.length = s := by
  refine CallStack.ext ?_ rfl
  have hlist : (s.slots.appendList vs).toList = s.slots.toList ++ vs := Array.toList_appendList
  have hsize : (s.slots.appendList vs).size - vs.length = s.slots.size := by
    rw [← Array.length_toList, hlist, List.length_append, Nat.add_sub_cancel]
    rfl
  show (s.slots.appendList vs).take ((s.slots.appendList vs).size - vs.length) = s.slots
  apply Array.ext'
  rw [hsize, Array.take_eq_extract, Array.toList_extract, hlist]
  simp

theorem frames_pushFrame (s : CallStack) (argc n : Nat) (callee this : Value) :
    (s.pushFrame argc n callee this).1.frames = (s.pushFrame argc n callee this).2 :: s.frames := rfl

theorem fp_lt_size_pushFrame (s : CallStack) (argc n : Nat) (callee this : Value) :
    (s.pushFrame argc n callee this).2.fp < (s.pushFrame argc n callee this).1.size := by
  simp only [pushFrame, size, Array.size_push, Array.size_append]
  omega

theorem take_pushFrame (s : CallStack) (argc n : Nat) (callee this : Value) :
    (s.pushFrame argc n callee this).1.slots.take (s.size - argc) = s.slots.take (s.size - argc) := by
  apply Array.ext'
  have hsize : s.size = s.slots.toList.length := rfl
  simp [pushFrame, hsize]

/-- The frames that code left behind do not start where its own does, so that the frame to leave is found. -/
theorem framesBelow_append {own : List Frame} {frame : Frame} {frames : List Frame}
    (h : ∀ f ∈ own, f.fp ≠ frame.fp) : framesBelow frame.fp (own ++ frame :: frames) = frames := by
  have hdrop : (own ++ frame :: frames).dropWhile (fun f => f.fp != frame.fp) = frame :: frames := by
    rw [List.dropWhile_append_of_pos]
    · exact List.dropWhile_cons_of_neg (by simp)
    · intro f hf
      exact bne_iff_ne.mpr (h f hf)
  unfold framesBelow
  rw [hdrop]

end CallStack

/-! ## 2. Machines before and after -/

namespace Machine

/-- The last `argc` values are gone from the stack; frames, contexts and call depth are as before. -/
structure Freed (argc : Nat) (m m' : Machine) : Prop where
  stack : m'.stack = m.stack.free argc
  contexts : m'.contexts = m.contexts
  callDepth : m'.callDepth = m.callDepth
  maxCallDepth : m'.maxCallDepth = m.maxCallDepth

/-- Stack, contexts and call depth are as before. -/
structure Balanced (m m' : Machine) : Prop where
  stack : m'.stack = m.stack
  contexts : m'.contexts = m.contexts
  callDepth : m'.callDepth = m.callDepth
  maxCallDepth : m'.maxCallDepth = m.maxCallDepth

theorem Balanced.refl (m : Machine) : m.Balanced m := ⟨rfl, rfl, rfl, rfl⟩

theorem Balanced.trans {m₁ m₂ m₃ : Machine} (h : m₁.Balanced m₂) (h' : m₂.Balanced m₃) :
    m₁.Balanced m₃ :=
  ⟨h'.stack.trans h.stack, h'.contexts.trans h.contexts, h'.callDepth.trans h.callDepth,
    h'.maxCallDepth.trans h.maxCallDepth⟩

instance : IsPreorder Machine Balanced where
  refl := Balanced.refl
  trans _ _ _ := Balanced.trans

theorem Balanced.freed {m₁ m₂ m₃ : Machine} {argc : Nat} (h : m₁.Balanced m₂)
    (h' : m₂.Freed argc m₃) : m₁.Freed argc m₃ :=
  ⟨h'.stack.trans (by rw [h.stack]), h'.contexts.trans h.contexts, h'.callDepth.trans h.callDepth,
    h'.maxCallDepth.trans h.maxCallDepth⟩

theorem Freed.balanced {m₁ m₂ m₃ : Machine} {argc : Nat} (h : m₁.Freed argc m₂)
    (h' : m₂.Balanced m₃) : m₁.Freed argc m₃ :=
  ⟨h'.stack.trans h.stack, h'.contexts.trans h.contexts, h'.callDepth.trans h.callDepth,
    h'.maxCallDepth.trans h.maxCallDepth⟩

theorem SameCore.balanced {m m' : Machine} (h : m.SameCore m') : m.Balanced m' :=
  ⟨h.stack, h.contexts, h.callDepth, h.maxCallDepth⟩

/-- The machine with arguments pushed. -/
def pushed (m : Machine) (args : List Value) : Machine := { m with stack := m.stack.pushAll args }

theorem Freed.of_pushed {m m' : Machine} {args : List Value}
    (h : (m.pushed args).Freed args.length m') : m.Balanced m' :=
  ⟨h.stack.trans (m.stack.free_pushAll args), h.contexts, h.callDepth, h.maxCallDepth⟩

theorem Freed.of_zero {m m' : Machine} (h : m.Freed 0 m') : m.Balanced m' :=
  ⟨h.stack.trans m.stack.free_zero, h.contexts, h.callDepth, h.maxCallDepth⟩

/-- What code may do to a machine on whose latest frame it runs: slots below the frame, the frames
from its own on and the contexts below its own stay. It may leave slots, contexts and frames behind, but
no frame that starts where its own does: a frame is known by its first slot. -/
structure Contained (frame : Frame) (m m' : Machine) : Prop where
  slots : m'.stack.slots.take frame.fp = m.stack.slots.take frame.fp
  frames : ∃ own, m'.stack.frames = own ++ m.stack.frames ∧ ∀ f ∈ own, f.fp ≠ frame.fp
  contexts : m.contexts.tail <:+ m'.contexts
  callDepth : m'.callDepth = m.callDepth
  maxCallDepth : m'.maxCallDepth = m.maxCallDepth

end Machine

/-- Functions do to the machine only what is theirs to do: a built-in function, which has no frame of
its own and after which nothing is removed, leaves stack, contexts and call depth as it finds them; code
keeps to its frame, and succeeds or fails. -/
structure Bodies.Tidy (bodies : Bodies) : Prop where
  native : ∀ b this args (m : Machine), m.Balanced (endOf (bodies.native b this args m))
  compiled : ∀ code frame (m : Machine), m.stack.current? = some frame → frame.fp < m.stack.size →
    ∃ succeeded m', bodies.compiled code frame m = .ok succeeded m' ∧ m.Contained frame m'

/-- The functions differ at most where more calls are under way than the limit allows. -/
structure Bodies.AgreeWithinLimit (bodies bodies' : Bodies) : Prop where
  native : ∀ b this args (m : Machine), m.callDepth ≤ m.maxCallDepth →
    bodies'.native b this args m = bodies.native b this args m
  compiled : ∀ code frame (m : Machine), m.callDepth ≤ m.maxCallDepth →
    bodies'.compiled code frame m = bodies.compiled code frame m

/-! ## 3. Steady operations -/

section Congruence

variable {α β : Type} {bodies bodies' : Bodies} {m : Machine}

theorem bind_run_congr {x x' : Run α} {f : α → Run β} (hx : x' bodies' m = x bodies m)
    (hf : ∀ a m', x bodies m = .ok a m' → f a bodies' m' = f a bodies m') :
    (x' >>= f) bodies' m = (x >>= f) bodies m := by
  cases hm : x bodies m with
  | ok a m' => rw [bind_run_ok hm, bind_run_ok (hx.trans hm), hf a m' hm]
  | error e m' => rw [bind_run_error hm, bind_run_error (hx.trans hm)]

theorem tryCatch_run_congr {x : Run α} {f : Failure → Run α} (hx : x bodies' m = x bodies m)
    (hf : ∀ e m', x bodies m = .error e m' → f e bodies' m' = f e bodies m') :
    (tryCatch x f) bodies' m = (tryCatch x f) bodies m := by
  cases hm : x bodies m with
  | ok a m' => rw [tryCatch_run_ok hm, tryCatch_run_ok (hx.trans hm)]
  | error e m' => rw [tryCatch_run_error hm, tryCatch_run_error (hx.trans hm), hf e m' hm]

end Congruence

/-- The machines before and after the operation are related however it ends; and if it begins within
the limit, it is the same with other functions that agree within the limit. -/
structure Steady (R : Machine → Machine → Prop) (bodies bodies' : Bodies) {α : Type} (x : Run α) :
    Prop where
  relates : Relates R bodies x
  within : ∀ m : Machine, m.callDepth ≤ m.maxCallDepth → x bodies' m = x bodies m

theorem Machine.Balanced.withinLimit {m m' : Machine} (h : m.Balanced m')
    (hm : m.callDepth ≤ m.maxCallDepth) : m'.callDepth ≤ m'.maxCallDepth := by
  rw [h.callDepth, h.maxCallDepth]
  exact hm

theorem Machine.Freed.withinLimit {m m' : Machine} {argc : Nat} (h : m.Freed argc m')
    (hm : m.callDepth ≤ m.maxCallDepth) : m'.callDepth ≤ m'.maxCallDepth := by
  rw [h.callDepth, h.maxCallDepth]
  exact hm

section Steps

variable {α β : Type} {bodies bodies' : Bodies} {argc : Nat} {R : Machine → Machine → Prop}

theorem steady_modify {f : Machine → Machine} (h : ∀ m, R m (f m)) :
    Steady R bodies bodies' (modify f) := ⟨h, fun _ _ => rfl⟩

theorem steady_pure (a : α) : Steady Machine.Balanced bodies bodies' (pure a : Run α) :=
  ⟨.pure a, fun _ _ => rfl⟩

theorem steady_throw (e : Failure) : Steady Machine.Balanced bodies bodies' (throw e : Run α) :=
  ⟨.throw e, fun _ _ => rfl⟩

theorem steady_get : Steady Machine.Balanced bodies bodies' (get : Run Machine) :=
  ⟨.get, fun _ _ => rfl⟩

theorem steady_getHeap : Steady Machine.Balanced bodies bodies' getHeap :=
  ⟨fun _ => .refl _, fun _ _ => rfl⟩

theorem steady_setHeap (h : Heap) : Steady Machine.Balanced bodies bodies' (setHeap h) :=
  steady_modify fun _ => ⟨rfl, rfl, rfl, rfl⟩

theorem steady_modifyHeap (f : Heap → Heap) : Steady Machine.Balanced bodies bodies' (modifyHeap f) :=
  steady_modify fun _ => ⟨rfl, rfl, rfl, rfl⟩

theorem steady_hold (v : Value) : Steady Machine.Balanced bodies bodies' (hold v) :=
  steady_modify fun _ => ⟨rfl, rfl, rfl, rfl⟩

theorem Steady.bind {x : Run α} {f : α → Run β} (hx : Steady Machine.Balanced bodies bodies' x)
    (hf : ∀ a, Steady Machine.Balanced bodies bodies' (f a)) :
    Steady Machine.Balanced bodies bodies' (x >>= f) where
  relates := hx.relates.bind fun a => (hf a).relates
  within m hm := by
    refine bind_run_congr (hx.within m hm) fun a m' hrun => (hf a).within m' ?_
    have h := hx.relates m
    rw [hrun] at h
    exact h.withinLimit hm

/-- Nothing else is consumed after the arguments are. -/
theorem Steady.freed_bind {x : Run α} {f : α → Run β}
    (hx : Steady (Machine.Freed argc) bodies bodies' x)
    (hf : ∀ a, Steady Machine.Balanced bodies bodies' (f a)) :
    Steady (Machine.Freed argc) bodies bodies' (x >>= f) where
  relates m := by
    have h := hx.relates m
    cases hm : x bodies m with
    | ok a m' =>
      rw [bind_run_ok hm]
      rw [hm] at h
      exact h.balanced ((hf a).relates m')
    | error e m' =>
      rw [bind_run_error hm]
      rw [hm] at h
      exact h
  within m hm := by
    refine bind_run_congr (hx.within m hm) fun a m' hrun => (hf a).within m' ?_
    have h := hx.relates m
    rw [hrun] at h
    exact h.withinLimit hm

/-- A preparation that fails takes the arguments with it; one that succeeds leaves them to what
follows. -/
theorem Steady.orDiscard_bind {x : Run α} {f : α → Run β}
    (hx : Steady Machine.Balanced bodies bodies' x)
    (hf : ∀ a, Steady (Machine.Freed argc) bodies bodies' (f a)) :
    Steady (Machine.Freed argc) bodies bodies' (orDiscard argc x >>= f) where
  relates m := by
    have h := hx.relates m
    unfold orDiscard
    cases hm : x bodies m with
    | ok a m' =>
      rw [hm] at h
      rw [bind_run_ok (tryCatch_run_ok hm _)]
      exact h.freed ((hf a).relates m')
    | error e m' =>
      rw [hm] at h
      rw [bind_run_error ((tryCatch_run_error hm _).trans rfl)]
      exact h.freed ⟨rfl, rfl, rfl, rfl⟩
  within m hm := by
    have h := hx.relates m
    have hsame := hx.within m hm
    unfold orDiscard
    cases hrun : x bodies m with
    | ok a m' =>
      rw [hrun] at h hsame
      rw [bind_run_ok (tryCatch_run_ok hrun _), bind_run_ok (tryCatch_run_ok hsame _)]
      exact (hf a).within m' (h.withinLimit hm)
    | error e m' =>
      rw [hrun] at hsame
      rw [bind_run_error ((tryCatch_run_error hrun _).trans rfl),
        bind_run_error ((tryCatch_run_error hsame _).trans rfl)]

/-- What is kept meanwhile makes no difference to a relation that does not look at it. -/
theorem Steady.holding {x : Run α} (hx : Steady R bodies bodies' x) (vs : List Value)
    (hR : ∀ {m m' : Machine} (before after : List Value),
      R { m with held := before } m' → R m { m' with held := after }) :
    Steady R bodies bodies' (holding vs x) where
  relates m := by
    have h := hx.relates { m with held := vs ++ m.held }
    unfold Ecma51.holding
    cases hm : x bodies { m with held := vs ++ m.held } with
    | ok a m' =>
      rw [hm] at h
      exact hR _ _ h
    | error e m' =>
      rw [hm] at h
      exact hR _ _ h
  within m hm := by
    unfold Ecma51.holding
    rw [hx.within { m with held := vs ++ m.held } hm]

theorem Steady.balanced_holding {x : Run α} (hx : Steady Machine.Balanced bodies bodies' x)
    (vs : List Value) : Steady Machine.Balanced bodies bodies' (Ecma51.holding vs x) :=
  hx.holding vs fun _ _ h => ⟨h.stack, h.contexts, h.callDepth, h.maxCallDepth⟩

theorem Steady.freed_holding {x : Run α} (hx : Steady (Machine.Freed argc) bodies bodies' x)
    (vs : List Value) : Steady (Machine.Freed argc) bodies bodies' (Ecma51.holding vs x) :=
  hx.holding vs fun _ _ h => ⟨h.stack, h.contexts, h.callDepth, h.maxCallDepth⟩

theorem steady_handleEach {σ : Type} {step : σ → Value → Run σ}
    (hstep : ∀ s v, Steady Machine.Balanced bodies bodies' (step s v)) (s : σ) (vs : List Value) :
    Steady Machine.Balanced bodies bodies' (handleEach step s vs) := by
  induction vs generalizing s with
  | nil => exact steady_pure s
  | cons v vs ih =>
    refine .bind ((hstep s v).balanced_holding []) fun s => .bind ?_ fun _ => ih s
    exact steady_modify fun _ => ⟨rfl, rfl, rfl, rfl⟩

/-! ## 4. Objects and environments -/

theorem balanced_reserve (m : Machine) : m.Balanced m.reserve.1 := by
  unfold Machine.reserve Heap.reserve
  split
  · exact ⟨rfl, rfl, rfl, rfl⟩
  · exact .refl m

theorem steady_allocate : Steady Machine.Balanced bodies bodies' allocate := by
  refine ⟨fun m => ?_, fun m _ => (allocate_run bodies' m).trans (allocate_run bodies m).symm⟩
  rw [allocate_run]
  split
  · exact balanced_reserve m
  · exact balanced_reserve m

theorem steady_newObjectOf (x : Object) : Steady Machine.Balanced bodies bodies' (newObjectOf x) :=
  .bind steady_allocate fun _ => .bind steady_getHeap fun _ =>
    .bind (steady_setHeap _) fun _ => steady_pure _

theorem steady_newDeclarative (outer : EnvironmentId) :
    Steady Machine.Balanced bodies bodies' (newDeclarative outer) :=
  .bind steady_getHeap fun _ => .bind (steady_setHeap _) fun _ => steady_pure _

theorem steady_toObject (v : Value) : Steady Machine.Balanced bodies bodies' (toObject v) := by
  unfold toObject
  split
  · exact steady_pure _
  · split
    · exact steady_newObjectOf _
    · exact steady_throw _

theorem steady_thisBinding (strict : Bool) (this : Value) :
    Steady Machine.Balanced bodies bodies' (thisBinding strict this) := by
  unfold thisBinding
  split
  · exact steady_pure _
  · split
    · exact steady_pure _
    · exact .bind (steady_toObject this) fun _ => steady_pure _

theorem steady_settle (throws : Bool) (r : Heap.Outcome) :
    Steady Machine.Balanced bodies bodies' (settle throws r) := by
  refine .bind (steady_setHeap _) fun _ => ?_
  split
  · exact steady_pure _
  · split
    · exact steady_throw _
    · exact steady_pure _

end Steps

/-! ## 5. Calls under way -/

section Depth

variable {α : Type} {bodies bodies' : Bodies} {R : Machine → Machine → Prop}

theorem leaving_run_congr {x : Run α} {m : Machine} (hx : x bodies' m = x bodies m) :
    leaving x bodies' m = leaving x bodies m :=
  tryCatch_run_congr (bind_run_congr hx fun _ _ _ => rfl) fun _ _ _ => rfl

theorem Steady.nestedCall {x : Run α} (hx : Steady Machine.Balanced bodies bodies' x) :
    Steady Machine.Balanced bodies bodies' (nestedCall x) where
  relates m := by
    unfold Ecma51.nestedCall
    by_cases hfull : m.maxCallDepth ≤ m.callDepth
    · rw [bind_run_error (enterCall_full hfull)]
      exact .refl m
    · rw [bind_run_ok (enterCall_free hfull), endOf_leaving]
      have h := hx.relates { m with callDepth := m.callDepth + 1 }
      exact ⟨h.stack, h.contexts, by rw [h.callDepth, Nat.add_sub_cancel], h.maxCallDepth⟩
  within m _ := by
    unfold Ecma51.nestedCall
    by_cases hfull : m.maxCallDepth ≤ m.callDepth
    · rw [bind_run_error (enterCall_full hfull), bind_run_error (enterCall_full hfull)]
    · rw [bind_run_ok (enterCall_free hfull), bind_run_ok (enterCall_free hfull)]
      exact leaving_run_congr (hx.within _ (Nat.not_le.mp hfull))

end Depth

/-! ## 6. Running code -/

theorem drop_length_sub_of_suffix {α : Type} {l l' : List α} (h : l <:+ l') :
    l'.drop (l'.length - l.length) = l := by
  obtain ⟨t, rfl⟩ := h
  rw [List.length_append, Nat.add_sub_cancel]
  exact List.drop_left

/-- What code that failed gives: the pending exception, undefined if there is none. -/
theorem steady_pendingOrUndefined {bodies bodies' : Bodies} :
    Steady Machine.Balanced bodies bodies' (do
      match ← takePending with
      | .nothing => return .undefined
      | v => throw (.thrown v) : Run Value) := by
  refine .bind ⟨fun m => ⟨rfl, rfl, rfl, rfl⟩, fun _ _ => rfl⟩ fun v => ?_
  split
  · exact steady_pure _
  · exact steady_throw _

section Calls

variable {bodies bodies' : Bodies} (hb : bodies.Tidy) (ha : bodies.AgreeWithinLimit bodies')

include hb ha

/-- **Code is gone from the stack when it has run**, together with its arguments. -/
theorem steady_runCode (code : Code) (context : Context) (argc n : Nat) (callee : Value) :
    Steady (Machine.Freed argc) bodies bodies' (runCode code context argc n callee) := by
  refine ⟨fun m => ?_, fun m hm => ?_⟩
  · obtain ⟨succeeded, m', hrun, hc⟩ := hb.compiled code
      (m.stack.pushFrame argc n callee context.this).2
      { m with
        contexts := context :: m.contexts
        stack := (m.stack.pushFrame argc n callee context.this).1 }
      rfl (CallStack.fp_lt_size_pushFrame m.stack argc n callee context.this)
    have hstack : (m'.stack.popFrame (m.stack.pushFrame argc n callee context.this).2).1 =
        m.stack.free argc := by
      obtain ⟨own, hframes, hown⟩ := hc.frames
      refine CallStack.ext ?_ ?_
      · exact hc.slots.trans (CallStack.take_pushFrame m.stack argc n callee context.this)
      · show CallStack.framesBelow _ m'.stack.frames = m.stack.frames
        rw [hframes, CallStack.frames_pushFrame]
        exact CallStack.framesBelow_append hown
    have hcontexts : m'.contexts.drop (m'.contexts.length - m.contexts.length) = m.contexts :=
      drop_length_sub_of_suffix hc.contexts
    have hleft : m.Freed argc { m' with
        contexts := m'.contexts.drop (m'.contexts.length - m.contexts.length)
        stack := (m'.stack.popFrame (m.stack.pushFrame argc n callee context.this).2).1 } :=
      ⟨hstack, hcontexts, hc.callDepth, hc.maxCallDepth⟩
    have hlift : (liftM (bodies.compiled code (m.stack.pushFrame argc n callee context.this).2) :
        Run Bool) bodies _ = .ok succeeded m' := hrun
    unfold runCode
    rw [get_bind_run]
    dsimp only
    rw [set_bind_run, read_bind_run, bind_run_ok hlift, get_bind_run, set_bind_run]
    refine hleft.balanced ?_
    split
    · exact .refl _
    · have hpending : Steady Machine.Balanced bodies bodies _ := steady_pendingOrUndefined
      exact hpending.relates _
  · unfold runCode
    rw [get_bind_run, get_bind_run]
    dsimp only
    rw [set_bind_run, set_bind_run, read_bind_run, read_bind_run]
    refine bind_run_congr (ha.compiled code _ _ hm) fun succeeded m' _ => ?_
    rw [get_bind_run, get_bind_run, set_bind_run, set_bind_run]
    split
    · rfl
    · refine bind_run_congr rfl fun v m'' _ => ?_
      split <;> rfl

theorem steady_callCompiled (f : ObjectId) (this : Value) (argc : Nat) (code : Code)
    (scope : EnvironmentId) (n : Nat) (strict : Bool) :
    Steady (Machine.Freed argc) bodies bodies' (callCompiled f this argc code scope n strict) := by
  refine (steady_thisBinding strict this).orDiscard_bind fun this => ?_
  have hrun (e : EnvironmentId) := steady_runCode hb ha code
    { kind := .function, function := some f, lexical := e, declarations := e, this, strict } argc n
    (.object f)
  -- making the environment cannot fail, so the arguments are left to the code
  have hnew (m : Machine) : m.Balanced (endOf (newDeclarative scope bodies m)) := ⟨rfl, rfl, rfl, rfl⟩
  exact ⟨fun m => (hnew m).freed ((hrun m.heap.nextEnvironment).relates _),
    fun m hm => (hrun m.heap.nextEnvironment).within _ hm⟩

/-- **A function made of code is gone from the stack when it has returned**, also when too many calls
are under way or its `this` cannot be converted. -/
theorem steady_enterCompiled (f : ObjectId) (this : Value) (argc : Nat) (code : Code)
    (scope : EnvironmentId) (n : Nat) (strict : Bool) :
    Steady (Machine.Freed argc) bodies bodies' (enterCompiled f this argc code scope n strict) := by
  have hcall := (steady_callCompiled hb ha f this argc code scope n strict).freed_holding
    [.object f, this]
  refine ⟨fun m => ?_, fun m _ => ?_⟩ <;> unfold enterCompiled orDiscard <;>
    by_cases hfull : m.maxCallDepth ≤ m.callDepth
  · rw [bind_run_error ((tryCatch_run_error (enterCall_full hfull) _).trans rfl)]
    exact ⟨rfl, rfl, rfl, rfl⟩
  · rw [bind_run_ok (tryCatch_run_ok (enterCall_free hfull) _), endOf_leaving]
    have h := hcall.relates { m with callDepth := m.callDepth + 1 }
    exact ⟨h.stack, h.contexts, by rw [h.callDepth, Nat.add_sub_cancel], h.maxCallDepth⟩
  · rw [bind_run_error ((tryCatch_run_error (enterCall_full hfull) _).trans rfl),
      bind_run_error ((tryCatch_run_error (enterCall_full hfull) _).trans rfl)]
  · rw [bind_run_ok (tryCatch_run_ok (enterCall_free hfull) _),
      bind_run_ok (tryCatch_run_ok (enterCall_free hfull) _)]
    exact leaving_run_congr (hcall.within _ (Nat.not_le.mp hfull))

theorem steady_callNative (f : ObjectId) (b : Builtin) (this : Value) (args : List Value) :
    Steady Machine.Balanced bodies bodies' (callNative f b this args) := by
  have hnative : Steady Machine.Balanced bodies bodies' (do (← read).native b this args) :=
    ⟨hb.native b this args, ha.native b this args⟩
  exact (hnative.balanced_holding _).nestedCall

/-- **A call with its arguments in a list leaves the stack as it found it.** -/
theorem steady_call (f : ObjectId) (this : Value) (args : List Value) :
    Steady Machine.Balanced bodies bodies' (call f this args) := by
  refine .bind steady_getHeap fun h => ?_
  dsimp only
  split
  · exact steady_throw _
  · exact steady_callNative hb ha _ _ _ _
  · rename_i code scope n strict _ _
    have hcode := steady_enterCompiled hb ha (h.unbind f this args).1 (h.unbind f this args).2.1
      (h.unbind f this args).2.2.length code scope n strict
    exact ⟨fun m => (hcode.relates (m.pushed _)).of_pushed, fun m hm => hcode.within (m.pushed _) hm⟩

end Calls

/-! ## 7. Everything that is built from basic operations -/

section Built

variable {α : Type} {bodies bodies' : Bodies}

theorem steady_toLength (htoNumber : ∀ v, Steady Machine.Balanced bodies bodies' (toNumber v))
    (v : Value) : Steady Machine.Balanced bodies bodies' (toLength v) := by
  refine .bind (.bind (htoNumber v) fun _ => steady_pure _) fun n => .bind (htoNumber v) fun x => ?_
  split
  · exact steady_pure n
  · exact steady_throw _

theorem steady_defineOwn (htoNumber : ∀ v, Steady Machine.Balanced bodies bodies' (toNumber v))
    (o : ObjectId) (k : Key) (d : Descriptor) (throws : Bool) :
    Steady Machine.Balanced bodies bodies' (defineOwn o k d throws) := by
  refine .bind steady_getHeap fun h => ?_
  split
  · refine Steady.balanced_holding (.bind steady_getHeap fun _ => ?_) _
    exact .bind (steady_toLength htoNumber _) fun _ => .bind steady_getHeap fun _ =>
      steady_settle throws _
  · exact steady_settle throws _

theorem steady_newCompiledFunction (code : Code) (scope : EnvironmentId) (strict : Bool) (n : Nat) :
    Steady Machine.Balanced bodies bodies' (newCompiledFunction code scope strict n) :=
  .bind (steady_newObjectOf _) fun _ => Steady.balanced_holding (.bind (steady_newObjectOf _)
    fun _ => .bind (steady_modifyHeap _) fun _ => steady_pure _) _

theorem steady_constructError (htoText : ∀ v, Steady Machine.Balanced bodies bodies' (toText v))
    (kind : ErrorKind) (message : Value) :
    Steady Machine.Balanced bodies bodies' (constructError kind message) := by
  refine .bind (steady_newObjectOf _) fun o => .bind (steady_hold _) fun _ => ?_
  split
  · exact steady_pure _
  · exact .bind (htoText message) fun _ => .bind (steady_modifyHeap _) fun _ => steady_pure _

theorem steady_thisTime (this : Value) (f : DateFunction) :
    Steady Machine.Balanced bodies bodies' (thisTime this f) := by
  unfold thisTime
  split
  · refine .bind steady_getHeap fun h => ?_
    split
    · exact steady_pure _
    · exact steady_throw _
  · exact steady_throw _

theorem steady_updateTime (this : Value) (f : DateFunction) {next : Double → Run Double}
    (hnext : ∀ t, Steady Machine.Balanced bodies bodies' (next t)) :
    Steady Machine.Balanced bodies bodies' (updateTime this f next) :=
  .bind (steady_thisTime this f) fun _ => .bind (hnext _) fun _ =>
    .bind (steady_modifyHeap _) fun _ => steady_pure _

/-- **Whatever is built from basic operations leaves stack, contexts and call depth as it found them,
and runs functions only within the limit.** -/
theorem Built.steady {x : Run α} (h : Built x) (hb : bodies.Tidy)
    (ha : bodies.AgreeWithinLimit bodies') : Steady Machine.Balanced bodies bodies' x := by
  induction h with
  | pure a => exact steady_pure a
  | bind _ _ hx hf => exact .bind hx hf
  | throw _ => exact steady_throw _
  | get => exact steady_get
  | aside f hf => exact ⟨fun m => (hf m).balanced, fun _ _ => rfl⟩
  | holding vs _ hx => exact hx.balanced_holding vs
  | hold v => exact steady_hold v
  | consuming s vs _ hstep => exact (steady_handleEach hstep s vs).balanced_holding vs
  | nestedCall _ hx => exact hx.nestedCall
  | call f this args => exact steady_call hb ha f this args
  | callNative f b this args => exact steady_callNative hb ha f b this args
  | runCode code context =>
    have hcode := steady_runCode hb ha code context 0 0 .undefined
    exact ⟨fun m => (hcode.relates m).of_zero, hcode.within⟩
  | newObjectOf _ _ => exact steady_newObjectOf _
  | newDate _ _ _ _ htime => exact .bind htime fun _ => steady_newObjectOf _
  | environments f _ => exact steady_modifyHeap f
  | newDeclarative outer => exact steady_newDeclarative outer
  | defineOwn o k d throws _ htoNumber => exact steady_defineOwn htoNumber o k d throws
  | deleteOwn o k throws => exact .bind steady_getHeap fun _ => steady_settle throws _
  | restrictOwn o freeze => exact .bind steady_getHeap fun _ => steady_settle true _
  | closeOwn o => exact steady_modifyHeap _
  | newCompiledFunction code scope strict n => exact steady_newCompiledFunction code scope strict n
  | constructError kind message _ htoText => exact steady_constructError htoText kind message
  | updateTime this f _ _ hnext => exact steady_updateTime this f hnext

/-- **The built-in functions are tidy**, whatever functions they call themselves. -/
theorem balanced_run (hb : bodies.Tidy) (b : Builtin) (this : Value) (args : List Value) :
    Relates Machine.Balanced bodies (b.run this args) :=
  ((built_run b this args).steady hb ⟨fun _ _ _ _ _ => rfl, fun _ _ _ _ => rfl⟩).relates

end Built

end Ecma51
