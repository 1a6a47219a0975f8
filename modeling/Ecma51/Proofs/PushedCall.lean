import Ecma51.Code.Primitive
import Ecma51.Program
import Ecma51.Proofs.Balance
import Ecma51.Proofs.Store

/-!
# Calls on pushed arguments, and runs of global code

The arguments of a call are pushed first; then the function is looked up, which can fail in many ways,
and called. On every path the arguments are gone afterwards, and everything else is as before they were
pushed. No function runs while more calls are under way than the limit allows.

Global code runs on a frame of its own, which is gone afterwards with all slots and frames above it. The
contexts are not part of this: unlike a call or evaluated code, a run has no context of its own to
return from, and what the entry leaves of the contexts is what the next run starts with.

* `PushedCall`: the calls that find their arguments on the stack.
* **`pushedCall_restores`**: both statements, for these calls and for evaluated code.
* **`pushedCall_fails`**: functions that only add to what they find, and are not undone.
* `Machine.entered`, `Machine.entryFrame`: where an entry runs.
* **`runEntry_exact`**: the stack is as it was before; the contexts are as the entry left them.
-/

namespace Ecma51

/-! ## 1. The calls -/

/-- A call that finds its arguments on the stack. -/
inductive PushedCall where
  /-- A function object with a given `this`. -/
  | function (f : ObjectId) (this : Value)
  /-- Any value. -/
  | value (f : Value)
  /-- A method with a known name. -/
  | member (target : Value) (k : Key)
  /-- A method with a raw key number. -/
  | rawMember (target : Value) (raw : Nat)
  /-- A method named by a value. -/
  | element (target key : Value)
  /-- The value of an identifier. -/
  | identifier (name : Text)
  /-- A value as a constructor. -/
  | construct (f : Value)

/-- Performs a call on the last `argc` values of the stack. -/
def PushedCall.run (c : PushedCall) (argc : Nat) : Run Value :=
  match c with
  | .function f this => callPushed f this argc
  | .value f => invokePushed f .undefined argc false
  | .member target k => callKeyed target (pure k) argc
  | .rawMember target raw => callKeyed target (rawKey raw) argc
  | .element target key => callKeyed target (toKey key) argc
  | .identifier name => callNamed name argc
  | .construct f => constructPushed f argc

/-! ## 2. The arguments are consumed -/

section Consumed

variable {bodies bodies' : Bodies} {argc : Nat}

theorem Steady.getHeap_bind {R : Machine → Machine → Prop} {f : Heap → Run Value}
    (hf : ∀ h, Steady R bodies bodies' (f h)) : Steady R bodies bodies' (getHeap >>= f) :=
  ⟨fun m => (hf m.heap).relates m, fun m hm => (hf m.heap).within m hm⟩

theorem Steady.modify_bind {g : Machine → Machine} {x : Run Value} (hg : ∀ m : Machine, m.Balanced (g m))
    (hx : Steady (Machine.Freed argc) bodies bodies' x) :
    Steady (Machine.Freed argc) bodies bodies' (do modify g; x) :=
  ⟨fun m => (hg m).freed (hx.relates (g m)), fun m hm => hx.within (g m) ((hg m).withinLimit hm)⟩

theorem steady_takeArguments : Steady (Machine.Freed argc) bodies bodies' (takeArguments argc) :=
  ⟨fun _ => ⟨rfl, rfl, rfl, rfl⟩, fun _ _ => rfl⟩

theorem steady_discard (f : Fault) :
    Steady (Machine.Freed argc) bodies bodies' (do freeSlots argc; raise f : Run Value) :=
  ⟨fun _ => ⟨rfl, rfl, rfl, rfl⟩, fun _ _ => rfl⟩

variable (hb : bodies.Tidy) (ha : bodies.AgreeWithinLimit bodies')

include hb ha

theorem steady_callTaken (f : ObjectId) (this : Value) :
    Steady (Machine.Freed argc) bodies bodies' (do call f this (← takeArguments argc)) :=
  steady_takeArguments.freed_bind fun args => steady_call hb ha f this args

theorem steady_callPushed (f : ObjectId) (this : Value) :
    Steady (Machine.Freed argc) bodies bodies' (callPushed f this argc) := by
  refine .getHeap_bind fun h => ?_
  split
  · exact steady_enterCompiled hb ha f this argc _ _ _ _
  · exact steady_callTaken hb ha f this

theorem steady_invokePushed (f this : Value) (namesEval : Bool) :
    Steady (Machine.Freed argc) bodies bodies' (invokePushed f this argc namesEval) := by
  refine .getHeap_bind fun h => ?_
  cases f with
  | object o =>
    dsimp only
    split
    · split
      · exact .modify_bind (fun _ => ⟨rfl, rfl, rfl, rfl⟩) (steady_callPushed hb ha o this)
      · exact steady_callPushed hb ha o this
    · exact steady_discard _
  | _ => exact steady_discard _

/-- A lookup that fails takes the arguments with it; one that succeeds leaves them to the call. -/
theorem steady_callFound {find : Run Callee} (h : Built find) :
    Steady (Machine.Freed argc) bodies bodies' (callFound find argc) :=
  (h.steady hb ha).orDiscard_bind fun c =>
    steady_invokePushed hb ha c.function c.this c.namesEval

/-- **Every call consumes its arguments, and nothing else, however it ends.** -/
theorem PushedCall.steady (c : PushedCall) :
    Steady (Machine.Freed argc) bodies bodies' (c.run argc) := by
  cases c with
  | function f this => exact steady_callPushed hb ha f this
  | value f => exact steady_invokePushed hb ha f .undefined false
  | member target k => exact steady_callFound hb ha (built_findKeyed target (.pure k))
  | rawMember target raw => exact steady_callFound hb ha (built_findKeyed target (built_rawKey raw))
  | element target key => exact steady_callFound hb ha (built_findKeyed target (built_toKey key))
  | identifier name => exact steady_callFound hb ha (built_findNamed name)
  | construct f =>
    exact steady_takeArguments.freed_bind fun args => (built_constructWith f args).steady hb ha

end Consumed

/-! ## 3. What was there before -/

/-- **A call restores what was there before its arguments were pushed**, whatever is called, however the
lookup and the call end: the slots and frames of the stack, the contexts and the number of calls under
way. The same holds of evaluated code, and of the whole of `eval`. Functions are entered only while no
more calls are under way than the limit allows: with other functions that differ only beyond it, all of
this is the same. -/
theorem pushedCall_restores {bodies : Bodies} (hb : bodies.Tidy) (m : Machine) :
    (∀ (c : PushedCall) (args : List Value),
      m.Balanced (endOf (c.run args.length bodies (m.pushed args)))) ∧
    (∀ (code : Code) (context : Context),
      m.Balanced (endOf (runCode code context 0 0 .undefined bodies m))) ∧
    (∀ v, m.Balanced (endOf (evaluate v bodies m))) ∧
    (∀ bodies', bodies.AgreeWithinLimit bodies' → m.callDepth ≤ m.maxCallDepth →
      (∀ (c : PushedCall) (args : List Value),
        c.run args.length bodies' (m.pushed args) = c.run args.length bodies (m.pushed args)) ∧
      (∀ (code : Code) (context : Context),
        runCode code context 0 0 .undefined bodies' m = runCode code context 0 0 .undefined bodies m) ∧
      ∀ v, evaluate v bodies' m = evaluate v bodies m) := by
  have hself : bodies.AgreeWithinLimit bodies := ⟨fun _ _ _ _ _ => rfl, fun _ _ _ _ => rfl⟩
  refine ⟨fun c args => ?_, fun code context => ?_, fun v => ?_, fun bodies' ha hm => ⟨?_, ?_, ?_⟩⟩
  · exact ((c.steady hb hself).relates (m.pushed args)).of_pushed
  · exact ((steady_runCode hb hself code context 0 0 .undefined).relates m).of_zero
  · exact ((built_evaluate v).steady hb hself).relates m
  · exact fun c args => (c.steady hb ha).within (m.pushed args) hm
  · exact fun code context => (steady_runCode hb ha code context 0 0 .undefined).within m hm
  · exact fun v => ((built_evaluate v).steady hb ha).within m hm

/-- Functions of which code leaves a slot, a frame over no arguments and a context behind, and fails. -/
def litteringBodies : Bodies where
  native _ _ _ := pure .undefined
  compiled _ _ := fun m =>
    .ok false { m with
      stack := ((m.stack.push .null).pushFrame 0 0 .undefined .undefined).1
      contexts := m.contexts.head?.toList ++ m.contexts }

theorem litteringBodies_tidy : litteringBodies.Tidy where
  native _ _ _ m := .refl m
  compiled code frame m _ hfp := by
    refine ⟨false, _, rfl, ?_, ⟨[_], rfl, fun f hf => ?_⟩, ?_, rfl, rfl⟩
    · apply Array.ext'
      have hsize : frame.fp ≤ m.stack.slots.toList.length := Nat.le_of_lt hfp
      simp [CallStack.pushFrame, CallStack.push, List.take_append_of_le_length hsize]
    · obtain rfl := List.mem_singleton.mp hf
      show (m.stack.slots.push .null).size ≠ frame.fp
      rw [Array.size_push]
      exact Nat.ne_of_gt (Nat.lt_succ_of_lt hfp)
    · exact (List.tail_suffix _).trans (List.suffix_append _ _)

/-- A machine with one more function, made of code with two parameters. -/
def machineWithFunction : Machine :=
  { Machine.start {} with
    heap := (Heap.skeleton.add (.ofKind "Function" none
      (.function ⟨.compiled default globalEnvironment 2, false, .empty⟩))).1 }

/-- The function is called with one argument; it fails and leaves everything lying about. -/
theorem pushedCall_restores_littered :
    machineWithFunction.Balanced (endOf ((PushedCall.function Heap.skeleton.nextObject .null).run
      [Value.boolean true].length litteringBodies (machineWithFunction.pushed [.boolean true]))) :=
  (pushedCall_restores litteringBodies_tidy machineWithFunction).1 _ _

/-- A function may add slots, frames and contexts to what it finds; the first `n` slots, the frames that
are there, the given contexts and the call depth stay. -/
structure Machine.AddsTo (n : Nat) (contexts : List Context) (m m' : Machine) : Prop where
  slots : m'.stack.slots.take n = m.stack.slots.take n
  frames : m.stack.frames <:+ m'.stack.frames
  contexts : contexts <:+ m'.contexts
  callDepth : m'.callDepth = m.callDepth
  maxCallDepth : m'.maxCallDepth = m.maxCallDepth

/-- Functions only add to what is there when they begin: to all of it, if they are built in, and to the
slots and contexts below their own, if they are code. -/
structure Bodies.Adding (bodies : Bodies) : Prop where
  native : ∀ b this args (m : Machine), m.AddsTo m.stack.size m.contexts (endOf (bodies.native b this args m))
  compiled : ∀ code frame (m : Machine), m.stack.current? = some frame → frame.vp ≤ m.stack.size →
    ∃ succeeded m', bodies.compiled code frame m = .ok succeeded m' ∧ m.AddsTo frame.vp m.contexts.tail m'

/-- Functions of which built-in ones leave a slot, a frame and a context behind, and code a frame over its own
slots from the first argument on. -/
def strayBodies : Bodies where
  native _ _ _ := fun m =>
    .ok .undefined { m with
      stack := ((m.stack.push .null).pushFrame 0 0 .undefined .undefined).1
      contexts := m.contexts.head?.toList ++ m.contexts }
  compiled _ frame := fun m =>
    .ok true { m with stack := (m.stack.pushFrame (m.stack.size - frame.fp) 0 .undefined .undefined).1 }

theorem strayBodies_adding : strayBodies.Adding where
  native b this args m := by
    refine ⟨?_, List.suffix_cons _ _, List.suffix_append _ _, rfl, rfl⟩
    apply Array.ext'
    simp [strayBodies, endOf, CallStack.push, CallStack.pushFrame, CallStack.size]
  compiled code frame m _ hvp := by
    refine ⟨true, _, rfl, ?_, List.suffix_cons _ _, List.tail_suffix _, rfl, rfl⟩
    apply Array.ext'
    have hsize : frame.vp ≤ m.stack.slots.toList.length := hvp
    simp [CallStack.pushFrame, List.take_append_of_le_length hsize]

/-- A machine with one more function, which is built in. -/
def machineWithBuiltin : Machine :=
  { Machine.start {} with
    heap := (Heap.skeleton.add (.ofKind "Function" none
      (.function ⟨.native (.boolean .valueOf) none, false, .empty⟩))).1 }

/-- A function that was added to the heap is found, and it is not bound. -/
theorem function?_added {h : Heap} {d : FunctionData}
    (hadded : h = (Heap.skeleton.add (.ofKind "Function" none (.function d))).1) :
    h.function? Heap.skeleton.nextObject = some d ∧ ∀ this args,
      h.unbind Heap.skeleton.nextObject this args = (Heap.skeleton.nextObject, this, args) := by
  have hobject : h.object Heap.skeleton.nextObject = .ofKind "Function" none (.function d) := by
    rw [hadded]
    exact (Heap.object_add _ _ _).trans (if_pos rfl)
  constructor
  · unfold Heap.function?
    rw [hobject]
    rfl
  · intro this args
    unfold Heap.unbind Heap.unbindUpTo
    rw [hobject]
    rfl

theorem call_added {bodies : Bodies} {m : Machine} {b : Builtin} {construct : Option Builtin} {strict : Bool}
    {name : Text} (hadded : m.heap =
      (Heap.skeleton.add (.ofKind "Function" none (.function ⟨.native b construct, strict, name⟩))).1)
    (this : Value) (args : List Value) : call Heap.skeleton.nextObject this args bodies m =
      callNative Heap.skeleton.nextObject b this args bodies m := by
  obtain ⟨hfunction, hunbind⟩ := function?_added hadded
  unfold call
  rw [getHeap_bind_run, hunbind]
  dsimp only
  rw [hfunction]

/-- **Functions that only add to what is there need not be enough**: nothing is removed after a built-in
function, no slot, no frame and no context; and of code that leaves a frame from its own first argument on
only that frame is removed, not its own. -/
theorem pushedCall_fails :
    strayBodies.Adding ∧
    (let m := machineWithBuiltin
      let m' := endOf ((PushedCall.function Heap.skeleton.nextObject .null).run [Value.boolean true].length
        strayBodies (m.pushed [.boolean true]))
      m'.stack.size ≠ m.stack.size ∧ m'.stack.depth ≠ m.stack.depth ∧
        m'.contexts.length ≠ m.contexts.length) ∧
    (let m := machineWithFunction
      let m' := endOf ((PushedCall.function Heap.skeleton.nextObject .null).run [Value.boolean true].length
        strayBodies (m.pushed [.boolean true]))
      m'.stack.depth ≠ m.stack.depth) := by
  refine ⟨strayBodies_adding, ?_, ?_⟩
  · have hfunction := (function?_added (h := (machineWithBuiltin.pushed [.boolean true]).heap) rfl).1
    have htaken : takeArguments [Value.boolean true].length strayBodies
        (machineWithBuiltin.pushed [.boolean true]) = .ok _ _ := rfl
    unfold PushedCall.run callPushed
    dsimp only
    rw [getHeap_bind_run, hfunction]
    dsimp only
    rw [bind_run_ok htaken, call_added rfl]
    decide
  · have hfunction := (function?_added (h := (machineWithFunction.pushed [.boolean true]).heap) rfl).1
    unfold PushedCall.run callPushed
    dsimp only
    rw [getHeap_bind_run, hfunction]
    decide

/-! ## 4. The frame of a run -/

namespace Machine

/-- The frame on which global code runs. -/
def entryFrame (m : Machine) : Frame :=
  (m.stack.pushFrame 0 0 .undefined (.object globalObject)).2

/-- The machine on which global code runs. -/
def entered (m : Machine) : Machine :=
  { m with stack := (m.stack.pushFrame 0 0 .undefined (.object globalObject)).1 }

/-- What an entry left, without its frame. -/
def withoutFrame (m : Machine) (frame : Frame) : Machine :=
  { m with stack := (m.stack.popFrame frame).1 }

/-- Leaving the frame gives the stack from before it was entered. -/
theorem stack_withoutFrame {m m' : Machine} (hc : m.entered.Contained m.entryFrame m') :
    (m'.withoutFrame m.entryFrame).stack = m.stack := by
  obtain ⟨own, hframes, hown⟩ := hc.frames
  have hslots : m'.stack.slots.take m.entryFrame.fp = m.stack.slots.take m.stack.size :=
    hc.slots.trans (CallStack.take_pushFrame m.stack 0 0 .undefined (.object globalObject))
  refine CallStack.ext (hslots.trans ?_) ?_
  · apply Array.ext'
    simp [CallStack.size]
  · show CallStack.framesBelow m.entryFrame.fp m'.stack.frames = m.stack.frames
    rw [hframes]
    exact CallStack.framesBelow_append hown

end Machine

/-! ## 5. Runs -/

section Runs

variable {bodies : Bodies}

/-- Reporting the pending exception changes nothing else. -/
theorem endOf_failPending {α : Type} (m : Machine) :
    endOf ((failPending : Run α) bodies m) = { m with pending := .nothing } := by
  unfold failPending
  rw [bind_run_ok (show takePending bodies m = .ok m.pending { m with pending := .nothing } from rfl)]
  cases m.pending <;> rfl

variable {entry : Frame → Run Bool} {m m' : Machine} {succeeded : Bool}

theorem runEntry_run (hrun : entry m.entryFrame bodies m.entered = .ok succeeded m') :
    runEntry entry bodies m =
      (if succeeded then pure (m'.stack.get m.entryFrame.resultSlot) else failPending : Run Value) bodies
        (m'.withoutFrame m.entryFrame) := by
  unfold Machine.entryFrame Machine.entered at hrun
  unfold runEntry
  rw [get_bind_run]
  dsimp only
  rw [set_bind_run, bind_run_ok hrun, get_bind_run, set_bind_run]
  cases succeeded <;> rfl

/-- **After a run the value stack and the frames are exactly what they were**, whatever slots, frames and
contexts the entry left, and whether it succeeded or not. The contexts are exactly those that the entry
left, so that a run restores everything if and only if its entry has restored the contexts. -/
theorem runEntry_exact (hrun : entry m.entryFrame bodies m.entered = .ok succeeded m')
    (hc : m.entered.Contained m.entryFrame m') :
    (endOf (runEntry entry bodies m)).stack = m.stack ∧
      (endOf (runEntry entry bodies m)).contexts = m'.contexts ∧
      (m.Balanced (endOf (runEntry entry bodies m)) ↔ m'.contexts = m.contexts) := by
  have hend : ∃ v, endOf (runEntry entry bodies m) =
      { m'.withoutFrame m.entryFrame with pending := v } := by
    rw [runEntry_run hrun]
    cases succeeded with
    | true => exact ⟨m'.pending, rfl⟩
    | false => exact ⟨.nothing, endOf_failPending _⟩
  obtain ⟨v, hend⟩ := hend
  have hstack : (m'.withoutFrame m.entryFrame).stack = m.stack := Machine.stack_withoutFrame hc
  rw [hend]
  exact ⟨hstack, rfl, fun hbalanced => hbalanced.contexts,
    fun hcontexts => ⟨hstack, hcontexts, hc.callDepth, hc.maxCallDepth⟩⟩

/-- An entry that fails with a slot on the stack and one more context open. -/
def openEntry : Frame → Run Bool := fun _ _ m =>
  .ok false { m with stack := m.stack.push .null, contexts := m.contexts.head?.toList ++ m.contexts }

/-- A program that makes its code strict. -/
def strictProgram : Code := .ofTree (.apply (.setStrict true) []) false

end Runs

/-- A context that was left open is the running one of the next run, and a mode that was set is its mode. -/
theorem runEntry_exact_left :
    (endOf (runEntry openEntry (bodiesAt 0) (.start {}))).contexts.length = 2 ∧
    (Machine.start {}).isStrict = false ∧
    (endOf (runGlobal strictProgram (bodiesAt 0) (.start {}))).isStrict = true := by
  have hrun : openEntry (Machine.start {}).entryFrame (bodiesAt 0) (Machine.start {}).entered =
      .ok false _ := rfl
  have hopen := runEntry_exact hrun
    ⟨rfl, ⟨[], rfl, nofun⟩, List.suffix_append_of_suffix (List.tail_suffix _), rfl, rfl⟩
  have hrun' : strictProgram.run (Machine.start {}).entryFrame (bodiesAt 0)
      (Machine.start {}).entered = .ok true _ := rfl
  have hstrict := runEntry_exact hrun' ⟨rfl, ⟨[], rfl, nofun⟩, List.nil_suffix, rfl, rfl⟩
  refine ⟨?_, rfl, ?_⟩
  · rw [hopen.2.1]
    rfl
  · unfold Machine.isStrict Machine.context? runGlobal
    rw [hstrict.2.1]
    rfl

end Ecma51
