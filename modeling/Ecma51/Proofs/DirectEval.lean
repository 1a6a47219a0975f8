import Ecma51.Proofs.Orderly

/-!
# Calls of `eval` by its name

A call of `eval` by its name is marked, so that the function evaluates in the scope of its caller. A call
that is refused leaves its mark, and the next call of `eval` of any kind will find it.

* `Machine.marked`, `Machine.inside`: the machine on which `eval` is called, and the one on which it is
  entered.
* **`Composed.orderly`**, **`bodiesAt_heedful`**: whatever programs do is orderly, on every level.
* **`evalScope_exact`**: where `eval` evaluates.
-/

namespace Ecma51

/-! ## 1. The function -/

/-- The functions of a list of members, with their names. -/
def functionsOf (members : List Member) : List (String × Builtin) :=
  members.filterMap fun
    | .method name f _ => some (name, f)
    | .constant _ _ | .hidden _ _ => none

/-- The functions of an entry, with their names. -/
def GlobalEntry.functions : GlobalEntry → List (String × Builtin)
  | .constructor name _ call _ _ methods statics labels =>
    (name, call) :: functionsOf (methods ++ statics ++ labels)
  | .collection _ members => functionsOf members
  | .direct m => functionsOf [m]

/-- Among all functions of the catalogue, `eval` is exactly the one that is named so. -/
theorem isEval_catalogue : ∀ e ∈ catalogue, ∀ f ∈ e.functions,
    (f.1 = "eval" ↔ f.2 = .global .eval) := by
  decide +kernel

/-! ## 2. Calls by name -/

namespace Machine

/-- The machine with the mark of a call of `eval` by its name. -/
def marked (m : Machine) : Machine := { m with directEval := some m.callDepth }

/-- The machine on which a built-in function is entered: one more call is under way, and what it works with
is kept. -/
def inside (m : Machine) (f : ObjectId) (this : Value) (args : List Value) : Machine :=
  { m with callDepth := m.callDepth + 1, held := .object f :: this :: args ++ m.held }

/-- How a built-in function ended, where it was called: the call is over, and what was kept for it is let
go. -/
def leave (m : Machine) : EStateM.Result Failure Machine Value → EStateM.Result Failure Machine Value
  | .ok v m' => .ok v { m' with held := m.held, callDepth := m'.callDepth - 1 }
  | .error e m' => .error e { m' with held := m.held, callDepth := m'.callDepth - 1 }

end Machine

section Named

variable {bodies bodies' : Bodies} {m : Machine} {f : ObjectId}

theorem Heap.kind_of_isEval {h : Heap} (hf : h.isEval f = true) :
    ∃ construct strict name,
      (h.object f).kind = .function ⟨.native (.global .eval) construct, strict, name⟩ := by
  unfold isEval function? at hf
  cases hkind : (h.object f).kind with
  | function d =>
    rw [hkind] at hf
    obtain ⟨code, strict, name⟩ := d
    cases code with
    | native b construct =>
      cases b with
      | global g =>
        cases g with
        | eval => exact ⟨construct, strict, name, rfl⟩
        | _ => cases hf
      | _ => cases hf
    | compiled _ _ _ => cases hf
  | _ =>
    rw [hkind] at hf
    cases hf

/-- A call of `eval` in any way is refused at the limit, and enters the function otherwise. -/
theorem callNative_eval (bodies : Bodies) (m : Machine) (f : ObjectId) (this : Value)
    (args : List Value) :
    callNative f (.global .eval) this args bodies m =
      if m.maxCallDepth ≤ m.callDepth then .error (.fault .stackOverflow) m
      else m.leave (bodies.native (.global .eval) this args (m.inside f this args)) := by
  unfold callNative nestedCall
  by_cases hfull : m.maxCallDepth ≤ m.callDepth
  · rw [bind_run_error (enterCall_full hfull), if_pos hfull]
  · rw [bind_run_ok (enterCall_free hfull), if_neg hfull]
    have hlift : (do (← read).native (.global .eval) this args : Run Value) bodies
        (m.inside f this args) = bodies.native (.global .eval) this args (m.inside f this args) := rfl
    cases hrun : bodies.native (.global .eval) this args (m.inside f this args) with
    | ok v m' => exact leaving_ok (holding_ok (hlift.trans hrun))
    | error e m' => exact leaving_error (holding_error (hlift.trans hrun))

theorem call_eval (hf : m.heap.isEval f = true) (this : Value) (args : List Value) :
    call f this args bodies m = callNative f (.global .eval) this args bodies m := by
  obtain ⟨construct, strict, name, hkind⟩ := Heap.kind_of_isEval hf
  have hunbind : m.heap.unbind f this args = (f, this, args) := by
    simp only [Heap.unbind, Heap.unbindUpTo, hkind]
  have hfunction : m.heap.function? f = some ⟨.native (.global .eval) construct, strict, name⟩ := by
    simp only [Heap.function?, hkind]
  unfold call
  rw [getHeap_bind_run, hunbind]
  dsimp only
  rw [hfunction]

theorem callPushed_eval (hf : m.heap.isEval f = true) (this : Value) (argc : Nat) :
    callPushed f this argc bodies m =
      callNative f (.global .eval) this (m.stack.values (m.stack.size - argc) argc) bodies
        { m with stack := m.stack.free argc } := by
  obtain ⟨construct, strict, name, hkind⟩ := Heap.kind_of_isEval hf
  have hfunction : m.heap.function? f = some ⟨.native (.global .eval) construct, strict, name⟩ := by
    simp only [Heap.function?, hkind]
  unfold callPushed
  rw [getHeap_bind_run, hfunction]
  exact call_eval (m := { m with stack := m.stack.free argc }) hf this _

theorem CallStack.values_pushAll (s : CallStack) (vs : List Value) :
    (s.pushAll vs).values ((s.pushAll vs).size - vs.length) vs.length = vs := by
  have hlist : (s.slots.appendList vs).toList = s.slots.toList ++ vs := Array.toList_appendList
  have hsize : (s.pushAll vs).size - vs.length = s.slots.toList.length := by
    show (s.slots.appendList vs).size - vs.length = s.slots.toList.length
    rw [← Array.length_toList, hlist, List.length_append, Nat.add_sub_cancel]
  show ((s.slots.appendList vs).extract _ _).toList = vs
  rw [hsize, Array.toList_extract, hlist]
  simp

/-- A call of `eval` whose arguments are pushed is one on the arguments themselves; by its name it is
marked. -/
theorem invokePushed_eval (hf : m.heap.isEval f = true) (this : Value) (args : List Value)
    (namesEval : Bool) :
    invokePushed (.object f) this args.length namesEval bodies (m.pushed args) =
      callNative f (.global .eval) this args bodies (if namesEval then m.marked else m) := by
  have hcallable : (m.heap.object f).isCallable = true := by
    obtain ⟨construct, strict, name, hkind⟩ := Heap.kind_of_isEval hf
    unfold Object.isCallable
    rw [hkind]
  have htaken (m₀ : Machine) (hf₀ : m₀.heap.isEval f = true) :
      callPushed f this args.length bodies (m₀.pushed args) =
        callNative f (.global .eval) this args bodies m₀ := by
    rw [callPushed_eval (m := m₀.pushed args) hf₀]
    unfold Machine.pushed
    dsimp only
    rw [CallStack.values_pushAll, CallStack.free_pushAll]
  unfold invokePushed
  rw [getHeap_bind_run]
  dsimp only
  rw [if_pos (show ((m.pushed args).heap.object f).isCallable = true from hcallable)]
  cases namesEval with
  | true =>
    rw [if_pos (show (true && (m.pushed args).heap.isEval f) = true from hf)]
    exact htaken m.marked hf
  | false => exact htaken m hf

/-- All that a call of a value can do: it is refused, it is a call of a function object, or it is one of `eval`
by its name, which is marked. -/
theorem invokePushed_cases (v this : Value) (argc : Nat) (namesEval : Bool) (m : Machine) :
    (∀ bodies, invokePushed v this argc namesEval bodies m =
      (do freeSlots argc; raise .notAFunction : Run Value) bodies m) ∨
    (∃ f, v = .object f ∧ ∀ bodies, invokePushed v this argc namesEval bodies m =
      callPushed f this argc bodies m) ∨
    ∃ f, v = .object f ∧ namesEval = true ∧ m.heap.isEval f = true ∧
      ∀ bodies, invokePushed v this argc namesEval bodies m = callPushed f this argc bodies m.marked := by
  cases v with
  | object f =>
    unfold invokePushed
    by_cases hcallable : (m.heap.object f).isCallable = true
    · cases hmark : namesEval && m.heap.isEval f with
      | true =>
        obtain ⟨hnames, heval⟩ := Bool.and_eq_true_iff.mp hmark
        refine .inr (.inr ⟨f, rfl, hnames, heval, fun bodies => ?_⟩)
        rw [getHeap_bind_run]
        dsimp only
        rw [if_pos hcallable, if_pos hmark]
        rfl
      | false =>
        refine .inr (.inl ⟨f, rfl, fun bodies => ?_⟩)
        rw [getHeap_bind_run]
        dsimp only
        rw [if_pos hcallable, if_neg (by rw [hmark]; exact Bool.false_ne_true)]
    · refine .inl fun bodies => ?_
      rw [getHeap_bind_run]
      dsimp only
      rw [if_neg hcallable]
  | _ => exact .inl fun _ => rfl

variable (hb : bodies.Heedful) (ha : bodies.AgreeOnEntry bodies')

/-- At the limit the mark is left behind; otherwise it is the one with which `eval` is entered. -/
theorem Machine.marked_enters (m : Machine) (this : Value) (args : List Value) :
    m.maxCallDepth ≤ m.callDepth ∧ m.marked.Unmarked ∨
      ¬ m.maxCallDepth ≤ m.callDepth ∧
        (m.marked.inside f this args).Enters (.global .eval) := by
  by_cases hfull : m.maxCallDepth ≤ m.callDepth
  · refine .inl ⟨hfull, fun d hd => ?_⟩
    cases hd
    exact hfull
  · exact .inr ⟨hfull, .inr ⟨rfl, m.callDepth, rfl, rfl, Nat.not_le.mp hfull⟩⟩

include hb in
/-- A marked call takes its mark, unless it is refused. -/
theorem settles_callNative_marked (this : Value) (args : List Value) :
    (endOf (callNative f (.global .eval) this args bodies m.marked)).Unmarked ∧
      (endOf (callNative f (.global .eval) this args bodies m.marked)).maxCallDepth =
        m.maxCallDepth := by
  rw [callNative_eval]
  rcases m.marked_enters (f := f) this args with ⟨hfull, hunmarked⟩ | ⟨hfree, henters⟩
  · rw [if_pos (show m.marked.maxCallDepth ≤ m.marked.callDepth from hfull)]
    exact ⟨hunmarked, rfl⟩
  · rw [if_neg (show ¬ m.marked.maxCallDepth ≤ m.marked.callDepth from hfree)]
    have hnative := hb.native (.global .eval) this args _ henters
    cases hrun : bodies.native (.global .eval) this args (m.marked.inside f this args) with
    | ok v m' =>
      rw [hrun] at hnative
      exact hnative
    | error e m' =>
      rw [hrun] at hnative
      exact hnative

include ha in
theorem enters_callNative_marked (this : Value) (args : List Value) :
    callNative f (.global .eval) this args bodies' m.marked =
      callNative f (.global .eval) this args bodies m.marked := by
  rw [callNative_eval, callNative_eval]
  rcases m.marked_enters (f := f) this args with ⟨hfull, _⟩ | ⟨hfree, henters⟩
  · rw [if_pos (show m.marked.maxCallDepth ≤ m.marked.callDepth from hfull),
      if_pos (show m.marked.maxCallDepth ≤ m.marked.callDepth from hfull)]
  · rw [if_neg (show ¬ m.marked.maxCallDepth ≤ m.marked.callDepth from hfree),
      if_neg (show ¬ m.marked.maxCallDepth ≤ m.marked.callDepth from hfree),
      ha.native _ _ _ _ henters]

include hb ha

theorem orderly_invokePushed (v this : Value) (argc : Nat) (namesEval : Bool) :
    Orderly bodies bodies' (invokePushed v this argc namesEval) := by
  have hrefused : Orderly bodies bodies' (do freeSlots argc; raise .notAFunction : Run Value) :=
    .bind (.freeSlots argc) fun _ => .throw _
  refine ⟨fun m => ?_, fun m hm => ?_⟩ <;>
    rcases invokePushed_cases v this argc namesEval m with h | ⟨f, _, h⟩ | ⟨f, _, _, heval, h⟩
  · rw [h]
    exact hrefused.settles m
  · rw [h]
    exact (orderly_callPushed hb ha f this argc).settles m
  · rw [h, callPushed_eval (m := m.marked) heval]
    exact fun _ => settles_callNative_marked (m := { m with stack := m.stack.free argc }) hb this _
  · rw [h, h]
    exact hrefused.enters m hm
  · rw [h, h]
    exact (orderly_callPushed hb ha f this argc).enters m hm
  · rw [h, h, callPushed_eval (m := m.marked) heval, callPushed_eval (m := m.marked) heval]
    exact enters_callNative_marked (m := { m with stack := m.stack.free argc }) ha this _

theorem orderly_callFound {find : Run Callee} (hfind : Built find) (argc : Nat) :
    Orderly bodies bodies' (callFound find argc) :=
  .bind (.orDiscard (hfind.orderly hb ha) argc) fun c =>
    orderly_invokePushed hb ha c.function c.this argc c.namesEval

/-- **Every call on pushed arguments is orderly**, also one of `eval` by its name. -/
theorem PushedCall.orderly (c : PushedCall) (argc : Nat) : Orderly bodies bodies' (c.run argc) := by
  cases c with
  | function f this => exact orderly_callPushed hb ha f this argc
  | value f => exact orderly_invokePushed hb ha f .undefined argc false
  | member target k => exact orderly_callFound hb ha (built_findKeyed target (.pure k)) argc
  | rawMember target raw =>
    exact orderly_callFound hb ha (built_findKeyed target (built_rawKey raw)) argc
  | element target key =>
    exact orderly_callFound hb ha (built_findKeyed target (built_toKey key)) argc
  | identifier name => exact orderly_callFound hb ha (built_findNamed name) argc
  | construct f =>
    exact .bind (.takeArguments argc) fun args => (built_constructWith f args).orderly hb ha

/-! ## 3. Programs -/

/-- **Whatever is composed of well-understood parts is orderly.** -/
theorem Composed.orderly {α : Type} {bound : ObjectId} {x : Run α} (h : Composed bound x) :
    Orderly bodies bodies' x := by
  induction h with
  | built hx => exact hx.orderly hb ha
  | bind _ _ hx hf => exact .bind hx hf
  | tryCatch _ _ hx hf => exact .tryCatch hx hf
  | holding vs _ hx => exact hx.holding vs
  | aside f hf _ _ => exact ⟨fun m => (hf m).settles, fun _ _ => rfl⟩
  | setStrict strict => exact .modify _ fun _ => .of_eq (.inl rfl) rfl
  | inContext c _ hx =>
    rw [run_inContext]
    exact .bind (.modify _ fun _ => .of_eq (.inl rfl) rfl) fun _ => .bind hx fun _ =>
      .bind (.modify _ fun _ => .of_eq (.inl rfl) rfl) fun _ => .pure _
  | pushedCall c args =>
    exact .bind (.modify _ fun _ => .of_eq (.inl rfl) rfl) fun _ => c.orderly hb ha _
  | shareArguments frame names =>
    exact .bind ((built_bindArguments frame).orderly hb ha) fun _ => .linkParameters _ names 0

end Named

/-! ## 4. All levels -/

theorem Bodies.AgreeOnEntry.refl (bodies : Bodies) : bodies.AgreeOnEntry bodies :=
  ⟨fun _ _ _ _ _ => rfl, fun _ _ _ _ => rfl⟩

/-- A built-in function that is entered in an orderly way is orderly itself. -/
theorem orderly_run {bodies bodies' : Bodies} (hb : bodies.Heedful) (ha : bodies.AgreeOnEntry bodies')
    (b : Builtin) (this : Value) (args : List Value) {m : Machine} (hm : m.Enters b) :
    (endOf (b.run this args bodies m)).Unmarked ∧
      (endOf (b.run this args bodies m)).maxCallDepth = m.maxCallDepth ∧
      b.run this args bodies' m = b.run this args bodies m := by
  rcases hm with hunmarked | ⟨rfl, _⟩
  · have horderly := (built_run b this args).orderly hb ha
    obtain ⟨hend, hmax⟩ := horderly.settles m hunmarked
    exact ⟨hend, hmax, horderly.enters m hunmarked⟩
  · -- the mark is taken before anything else is done
    have hclear : Machine.Unmarked { m with directEval := none } := Machine.unmarked_of_none rfl
    have horderly := (built_evaluateIn m.directEval.isSome (argumentAt args 0)).orderly hb ha
    obtain ⟨hend, hmax⟩ := horderly.settles _ hclear
    exact ⟨hend, hmax, horderly.enters _ hclear⟩

/-- **The functions of every level leave no marks but by refused calls.** -/
theorem bodiesAt_heedful (n : Nat) : (bodiesAt n).Heedful := by
  -- functions of a level run with those of the level below
  induction n with
  | zero => exact ⟨fun _ _ _ _ _ => ⟨Machine.unmarked_of_none rfl, rfl⟩, fun _ _ m => .refl m⟩
  | succ n ih =>
    refine ⟨fun b this args m hm => ?_, fun code frame => ?_⟩
    · obtain ⟨hend, hmax, _⟩ := orderly_run ih (.refl _) b this args hm
      exact ⟨hend, hmax⟩
    · exact ((composed_run code frame : Composed 0 _).orderly ih (.refl _)).settles

/-- The machines that arise: from a start, by anything that can be done, however it ends, and by what
concerns neither marks nor the limit. -/
inductive Machine.Acted : Machine → Prop where
  | start (s : Surroundings) : Acted (.start s)
  | act {m : Machine} (a : Action) : Acted m → Acted (endOf (a.run.perform m))
  | aside {m m' : Machine} : Acted m → m'.directEval = m.directEval →
    m'.maxCallDepth = m.maxCallDepth → Acted m'

/-- Between actions there is no mark but one that a refused call has left. -/
theorem Machine.Acted.unmarked {m : Machine} (hm : m.Acted) : m.Unmarked := by
  induction hm with
  | start s => exact unmarked_of_none rfl
  | @act m a _ ih =>
    have horderly : Orderly (bodiesAt (levelsFor m.maxCallDepth)) _ a.run :=
      (composed_action a).orderly (bodiesAt_heedful _) (.refl _)
    exact (horderly.settles m ih).1
  | aside _ hmark hmax ih => exact ih.congr (.inl hmark) hmax

/-! ## 5. Where `eval` evaluates -/

namespace Machine

/-- A call of `eval` by its name was refused, and its mark is still there. -/
def Stale (m : Machine) : Prop := ∃ d, m.directEval = some d ∧ m.maxCallDepth ≤ d

/-- The call of `eval` that enters the machine was one by its name, or one by its name was refused before and
none has come through since. -/
theorem Enters.isSome_iff {m : Machine} {b : Builtin} (hm : m.Enters b) :
    m.directEval.isSome = true ↔ m.InFlight b ∨ m.Stale := by
  constructor
  · intro hsome
    obtain ⟨d, hd⟩ := Option.isSome_iff_exists.mp hsome
    exact hm.symm.imp_right fun hunmarked => ⟨d, hd, hunmarked d hd⟩
  · rintro (⟨_, d, hd, _⟩ | ⟨d, hd, _⟩) <;> rw [hd] <;> rfl

/-- A call finds no mark that is not its own exactly if no refused call has left one. -/
theorem Unmarked.or_isSome_iff {m : Machine} (hm : m.Unmarked) (namesEval : Bool) :
    (namesEval || m.directEval.isSome) = namesEval ↔ (namesEval = true ∨ ¬ m.Stale) := by
  cases namesEval with
  | true => exact iff_of_true rfl (.inl rfl)
  | false =>
    have hstale : m.directEval.isSome = true ↔ m.Stale :=
      ⟨fun hsome => (Option.isSome_iff_exists.mp hsome).imp fun d hd => ⟨hd, hm d hd⟩,
        fun ⟨d, hd, _⟩ => Option.isSome_iff_exists.mpr ⟨d, hd⟩⟩
    rw [Bool.false_or, ← Bool.not_eq_true, hstale]
    exact ⟨.inr, fun h => h.resolve_left Bool.false_ne_true⟩

end Machine

section Exact

variable {n : Nat} {m : Machine} {f : ObjectId}

/-- If there is room, `eval` evaluates where the mark says that its call finds, and takes it. -/
theorem callNative_eval_free (hfree : m.callDepth < m.maxCallDepth) (this : Value) (args : List Value) :
    callNative f (.global .eval) this args (bodiesAt (n + 1)) m =
      m.leave (evaluateIn m.directEval.isSome (argumentAt args 0) (bodiesAt n)
        { m.inside f this args with directEval := none }) := by
  rw [callNative_eval, if_neg (Nat.not_le.mpr hfree)]
  rfl

theorem callNative_eval_full {bodies : Bodies} (hfull : m.maxCallDepth ≤ m.callDepth) (this : Value)
    (args : List Value) :
    callNative f (.global .eval) this args bodies m = .error (.fault .stackOverflow) m := by
  rw [callNative_eval, if_pos hfull]

/-- A call by its name finds its own mark. -/
theorem invokePushed_eval_free (hf : m.heap.isEval f = true) (hfree : m.callDepth < m.maxCallDepth)
    (this : Value) (args : List Value) (namesEval : Bool) :
    invokePushed (.object f) this args.length namesEval (bodiesAt (n + 1)) (m.pushed args) =
      m.leave (evaluateIn (namesEval || m.directEval.isSome) (argumentAt args 0) (bodiesAt n)
        { m.inside f this args with directEval := none }) := by
  rw [invokePushed_eval hf]
  cases namesEval with
  | true => exact callNative_eval_free (m := m.marked) hfree this args
  | false => exact callNative_eval_free hfree this args

/-- At the limit the mark of a call by its name is left behind. -/
theorem invokePushed_eval_full {bodies : Bodies} (hf : m.heap.isEval f = true)
    (hfull : m.maxCallDepth ≤ m.callDepth) (this : Value) (args : List Value) (namesEval : Bool) :
    invokePushed (.object f) this args.length namesEval bodies (m.pushed args) =
      .error (.fault .stackOverflow) (if namesEval then m.marked else m) := by
  rw [invokePushed_eval hf]
  cases namesEval with
  | true => exact callNative_eval_full (m := m.marked) hfull this args
  | false => exact callNative_eval_full hfull this args

end Exact

/-- **Where `eval` evaluates.** Whatever is done with a machine, and however calls are nested, functions are
entered only without a mark, with one that a refused call has left, or as `eval` by its name: with other
functions that differ elsewhere everything is the same. A call of `eval` is refused exactly if too many are
under way, and if it is one by its name, it leaves its mark then. Otherwise it evaluates in the scope of its
caller if and only if it finds a mark; this is as it should be exactly if the call is one by its name or no
refused call has left a mark. -/
theorem evalScope_exact (n : Nat) (m : Machine) (f : ObjectId) (this : Value) (args : List Value)
    (namesEval : Bool) :
    (m.Acted → m.Unmarked) ∧
    (∀ bodies', (bodiesAt n).AgreeOnEntry bodies' →
      (∀ a : Action, Orderly (bodiesAt n) bodies' a.run) ∧
      (∀ (c : PushedCall) args, Orderly (bodiesAt n) bodies' (withArguments args c.run)) ∧
      (∀ (code : Code) frame, Orderly (bodiesAt n) bodies' (code.run frame)) ∧
      ∀ (b : Builtin) this args, m.Enters b →
        (endOf (b.run this args (bodiesAt n) m)).Unmarked ∧
        (endOf (b.run this args (bodiesAt n) m)).maxCallDepth = m.maxCallDepth ∧
        b.run this args bodies' m = b.run this args (bodiesAt n) m) ∧
    (m.Enters (.global .eval) →
      (Builtin.global .eval).run this args (bodiesAt n) m =
        evaluateIn m.directEval.isSome (argumentAt args 0) (bodiesAt n) { m with directEval := none } ∧
      (m.directEval.isSome = true ↔ m.InFlight (.global .eval) ∨ m.Stale)) ∧
    (m.heap.isEval f = true → m.Unmarked →
      (m.maxCallDepth ≤ m.callDepth →
        call f this args (bodiesAt (n + 1)) m = .error (.fault .stackOverflow) m ∧
        invokePushed (.object f) this args.length namesEval (bodiesAt (n + 1)) (m.pushed args) =
          .error (.fault .stackOverflow) (if namesEval then m.marked else m)) ∧
      (m.callDepth < m.maxCallDepth →
        call f this args (bodiesAt (n + 1)) m =
          m.leave (evaluateIn m.directEval.isSome (argumentAt args 0) (bodiesAt n)
            { m.inside f this args with directEval := none }) ∧
        invokePushed (.object f) this args.length namesEval (bodiesAt (n + 1)) (m.pushed args) =
          m.leave (evaluateIn (namesEval || m.directEval.isSome) (argumentAt args 0) (bodiesAt n)
            { m.inside f this args with directEval := none }) ∧
        ((namesEval || m.directEval.isSome) = namesEval ↔ (namesEval = true ∨ ¬ m.Stale)))) := by
  refine ⟨fun hm => hm.unmarked, fun bodies' ha => ⟨fun a => ?_, fun c args => ?_, fun code frame => ?_,
    fun b this args hm => orderly_run (bodiesAt_heedful n) ha b this args hm⟩,
    fun hm => ⟨rfl, hm.isSome_iff⟩, fun hf hm => ⟨fun hfull => ⟨?_, ?_⟩, fun hfree => ⟨?_, ?_, ?_⟩⟩⟩
  · exact (composed_action a).orderly (bodiesAt_heedful n) ha
  · exact (.pushedCall c args : Composed 0 _).orderly (bodiesAt_heedful n) ha
  · exact (composed_run code frame : Composed 0 _).orderly (bodiesAt_heedful n) ha
  · exact (call_eval hf this args).trans (callNative_eval_full hfull this args)
  · exact invokePushed_eval_full hf hfull this args namesEval
  · exact (call_eval hf this args).trans (callNative_eval_free hfree this args)
  · exact invokePushed_eval_free hf hfree this args namesEval
  · exact hm.or_isSome_iff namesEval

/-- A machine with `eval` as its only further function, on which one call is under way and no other may be. -/
def machineWithEval : Machine :=
  { Machine.start { config := { maxCallDepth := 1 } } with
    heap := (Heap.skeleton.add (nativeFunction (.ofString "eval") (.global .eval) none 1)).1
    callDepth := 1 }

/-- The same machine after a call of `eval` by its name was refused, when the call under way is over. -/
def machineAfterRefusal : Machine := { machineWithEval.marked with callDepth := 0 }

/-- A call of `eval` by its name is refused. The next one, which is not by its name, evaluates in the scope of
its caller all the same. -/
theorem evalScope_exact_refused :
    invokePushed (.object Heap.skeleton.nextObject) .undefined 0 true (bodiesAt 1)
        (machineWithEval.pushed []) = .error (.fault .stackOverflow) machineWithEval.marked ∧
      machineAfterRefusal.Stale ∧
      call Heap.skeleton.nextObject .undefined [] (bodiesAt 1) machineAfterRefusal =
        machineAfterRefusal.leave (evaluateIn true .undefined (bodiesAt 0)
          { machineAfterRefusal.inside Heap.skeleton.nextObject .undefined [] with
            directEval := none }) := by
  have heval : machineWithEval.heap.isEval Heap.skeleton.nextObject = true := by decide +kernel
  have hclear : machineWithEval.Unmarked := Machine.unmarked_of_none rfl
  have hleft : machineAfterRefusal.Unmarked := by
    intro d hd
    cases hd
    exact Nat.le_refl 1
  obtain ⟨hrefused, _⟩ :=
    (evalScope_exact 0 machineWithEval Heap.skeleton.nextObject .undefined [] true).2.2.2 heval hclear
  obtain ⟨_, hafter⟩ :=
    (evalScope_exact 0 machineAfterRefusal Heap.skeleton.nextObject .undefined [] false).2.2.2 heval hleft
  exact ⟨(hrefused (Nat.le_refl 1)).2, ⟨1, rfl, Nat.le_refl 1⟩, (hafter Nat.zero_lt_one).1⟩

end Ecma51
