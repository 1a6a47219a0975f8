import Ecma51.Code.Eval
import Ecma51.Proofs.PushedCall
import Ecma51.Proofs.TimesKept

/-!
# Programs and what they are composed of

What a program does to a machine is composed of the operations of the library, of calls on pushed arguments,
of contexts that are entered and left, and of changes that concern neither calls nor contexts and let the heap
evolve. What these preserve, every program preserves, by one induction; so it is worth knowing once that
programs are composed of nothing else.

* `Machine.SameControl`: contexts and calls are left alone.
* `Composed`: the operation is composed of such parts.
* **`composed_eval`**, **`composed_run`**: trees, and functions made of code are.
-/

namespace Ecma51

/-! ## 1. Parts -/

/-- The machines agree in their contexts and in everything about calls. -/
structure Machine.SameControl (m m' : Machine) : Prop where
  contexts : m'.contexts = m.contexts
  callDepth : m'.callDepth = m.callDepth
  maxCallDepth : m'.maxCallDepth = m.maxCallDepth
  directEval : m'.directEval = m.directEval

/-- The machines also agree in their heap, and in what is kept. -/
structure Machine.SameHeap (m m' : Machine) : Prop extends m.SameControl m' where
  heap : m'.heap = m.heap
  held : m'.held = m.held

/-- The running context is left again. -/
def Machine.popContext (m : Machine) : Machine := { m with contexts := m.contexts.drop 1 }

/-- An evaluation in a context of its own enters it, and leaves it however the evaluation ended. -/
theorem run_inContext {α : Type} (c : Context) (x : Eval α) :
    (inContext c x).run = (do
      modify fun m => { m with contexts := c :: m.contexts }
      let ended ← x.run
      modify Machine.popContext
      return ended : Run (Except Abrupt α)) := by
  funext bodies m
  let body : Eval α := do
    let a ← x
    modify Machine.popContext
    pure a
  cases hrun : x.run bodies { m with contexts := c :: m.contexts } with
  | error e m' =>
    have hbody : body.run bodies { m with contexts := c :: m.contexts } = .error e m' :=
      bind_run_error hrun _
    have hwhole : (inContext c x).run bodies m = .error e m' := bind_run_error hbody _
    exact hwhole.trans (bind_run_error hrun _).symm
  | ok r m' =>
    have hleft : (inContext c x).run bodies m = .ok r m'.popContext := by
      cases r with
      | ok a =>
        have hbody : body.run bodies { m with contexts := c :: m.contexts } =
            .ok (.ok a) m'.popContext := (bind_run_ok hrun _).trans rfl
        exact (bind_run_ok hbody _).trans rfl
      | error e =>
        have hbody : body.run bodies { m with contexts := c :: m.contexts } = .ok (.error e) m' :=
          (bind_run_ok hrun _).trans rfl
        exact (bind_run_ok hbody _).trans rfl
    refine hleft.trans (Eq.symm ?_)
    exact (bind_run_ok hrun _).trans rfl

/-- The operation is composed of parts of which each is well understood. Objects below the bound are old to
them. -/
inductive Composed (bound : ObjectId) : {α : Type} → Run α → Prop where
  /-- An operation of the library. -/
  | built {α : Type} {x : Run α} : Built x → Composed bound x
  | bind {α β : Type} {x : Run α} {f : α → Run β} :
      Composed bound x → (∀ a, Composed bound (f a)) → Composed bound (x >>= f)
  | tryCatch {α : Type} {x : Run α} {f : Failure → Run α} :
      Composed bound x → (∀ e, Composed bound (f e)) → Composed bound (tryCatch x f)
  | holding {α : Type} (vs : List Value) {x : Run α} : Composed bound x → Composed bound (holding vs x)
  /-- A change that concerns neither contexts nor calls, lets the heap evolve and keeps times. -/
  | aside {α : Type} (f : Machine → α × Machine) :
      (∀ m : Machine, m.SameControl (f m).2) → (∀ m : Machine, m.Leads bound (f m).2) →
      (∀ m : Machine, m.KeepsTimes (f m).2) → Composed bound (modifyGet f : Run α)
  | setStrict (strict : Bool) : Composed bound (setStrict strict)
  | inContext {α : Type} (c : Context) {x : Eval α} :
      Composed bound x.run → Composed bound (inContext c x).run
  /-- A call on arguments that are pushed for it. -/
  | pushedCall (c : PushedCall) (args : List Value) : Composed bound (withArguments args c.run)
  /-- A new arguments object, which comes to share its indices with the parameters. -/
  | shareArguments (frame : Frame) (names : List Text) : Composed bound (do
      let arguments ← bindArguments frame
      linkParameters arguments names 0)

namespace Composed

variable {α : Type} {bound : ObjectId}

theorem pure (a : α) : Composed bound (pure a : Run α) := .built (.pure a)

theorem throw {e : Failure} (he : e.IsProper) : Composed bound (throw e : Run α) := .built (.throw he)

theorem get : Composed bound (get : Run Machine) := .built .get

theorem modify (f : Machine → Machine) (hf : ∀ m : Machine, m.SameHeap (f m)) :
    Composed bound (modify f : Run PUnit) :=
  .aside (fun m => (PUnit.unit, f m)) (fun m => (hf m).toSameControl) (fun m => .aside (hf m).heap (hf m).held)
    fun m => .same (hf m).heap

theorem modifyHeap (f : Heap → Heap) (hf : ∀ m : Machine, m.Leads bound { m with heap := f m.heap })
    (htimes : ∀ h : Heap, h.KeepsTimes (f h)) : Composed bound (modifyHeap f) :=
  .aside (fun m => (PUnit.unit, { m with heap := f m.heap })) (fun _ => ⟨rfl, rfl, rfl, rfl⟩) hf fun m => htimes m.heap

theorem internName (t : Text) : Composed bound (internName t) := .built (built_internName t)

theorem hold (v : Value) : Composed bound (hold v) := .built (.hold v)

theorem takePending : Composed bound takePending :=
  .aside (fun m => (m.pending, { m with pending := .nothing })) (fun _ => ⟨rfl, rfl, rfl, rfl⟩)
    (fun _ => .aside rfl rfl) fun _ => .same rfl

theorem failureValue (f : Failure) : Composed bound (failureValue f) := by
  cases f with
  | thrown v => exact .pure v
  | fault f =>
    refine .bind (.aside (fun m => ((m.heap.add (errorOf f.kind (Text.ofString f.message))).2,
      { m with heap := (m.heap.add (errorOf f.kind (Text.ofString f.message))).1 }))
      (fun _ => ⟨rfl, rfl, rfl, rfl⟩) (fun m => ?_) fun m => ?_) fun o => .pure _
    · exact .edit (.add (made_errorOf _ _))
    · exact m.heap.keepsTimes_add (holdsTime_errorOf _ _)
  | exhausted => exact .throw trivial

theorem attempt {x : Run α} (hx : Composed bound x) : Composed bound (attempt x) := by
  refine .tryCatch (.bind hx fun _ => .pure _) fun e => .bind (.failureValue e) fun v => ?_
  exact .bind (.modify _ fun _ => ⟨⟨rfl, rfl, rfl, rfl⟩, rfl, rfl⟩) fun _ => .pure _

end Composed

/-! ## 2. Primitive operations -/

variable {bound : ObjectId}

theorem composed_setPrototype (o : ObjectId) (p : Option ObjectId) :
    Composed bound (setPrototype o p) := by
  have hparts : setPrototype o p = modifyGet fun m : Machine =>
      ((m.heap.setPrototype? o p).isSome, { m with heap := (m.heap.setPrototype? o p).getD m.heap }) := by
    funext bodies m
    show setPrototype o p bodies m = EStateM.Result.ok _ _
    unfold setPrototype
    rw [getHeap_bind_run]
    cases m.heap.setPrototype? o p <;> rfl
  rw [hparts]
  refine .aside _ (fun m => ?_) (fun m => ?_) fun m => ?_
  · cases m.heap.setPrototype? o p <;> exact ⟨rfl, rfl, rfl, rfl⟩
  · cases hset : m.heap.setPrototype? o p with
    | some h => exact .edit (.setPrototype o p hset)
    | none => exact .refl bound m
  · cases hset : m.heap.setPrototype? o p with
    | some h => exact Heap.keepsTimes_setPrototype hset
    | none => exact .refl m

theorem composed_countLive : Composed bound countLive :=
  .bind (.aside (fun m => (PUnit.unit, m.collect)) (fun _ => ⟨rfl, rfl, rfl, rfl⟩) leads_collect
    fun m => m.heap.keepsTimes_collect _ _) fun _ => .bind .get fun _ => .pure _

/-- **Every primitive operation is composed of well-understood parts.** -/
theorem composed_performPrimitive (frame : Frame) (p : Primitive) (operands : List Value) :
    Composed bound (performPrimitive frame p operands) := by
  refine .bind .get fun m => ?_
  cases p with
  | getName name =>
    exact .built (.bind (built_resolveName name) fun r => built_readReference r)
  | setName name => exact .built (.bind (built_assignName name _) fun _ => .pure _)
  | deleteName name => exact .built (.bind (built_deleteName name) fun _ => .pure _)
  | link kind name => exact .built (built_linkName kind name _)
  | locals count => exact .built (.bind (built_newArray _) fun _ => .pure _)
  | member name => exact .built (built_getProperty _ _)
  | setMember name => exact .built (built_assignProperty _ _ _)
  | deleteMember name => exact .built (built_deleteProperty _ _)
  | element => exact .built (.bind (built_toKey _) fun k => built_getProperty _ k)
  | setElement => exact .built (.bind (built_toKey _) fun k => built_assignProperty _ k _)
  | deleteElement => exact .built (.bind (built_toKey _) fun k => built_deleteProperty _ k)
  | rawMember raw => exact .built (.bind (built_rawKey raw) fun k => built_getProperty _ k)
  | array => exact .built (built_arrayLiteral operands)
  | accessor isSetter name => exact .built (built_addAccessor isSetter name _ _)
  | regExp source flags => exact .built (.bind (built_newRegExp source flags) fun _ => .pure _)
  | call => exact .pushedCall (.value _) _
  | callMember name => exact .pushedCall (.member _ (.ofText name)) _
  | callElement => exact .pushedCall (.element _ _) _
  | callName name => exact .pushedCall (.identifier name) operands
  | construct => exact .pushedCall (.construct _) _
  | setStrict strict => exact .bind (.setStrict strict) fun _ => .pure _
  | liveObjects => exact composed_countLive
  | unary op => exact .built (built_unaryOperator op _)
  | binary op => exact .built (built_binaryOperator op _ _)
  | convert target => exact .built (built_convertValue target _)
  | toPrimitive hint => exact .built (built_toPrimitive _ hint)
  | setPrototype =>
    exact .bind (.built (built_objectOf _)) fun o => .bind (composed_setPrototype o _) fun _ => .pure _
  | canPut =>
    exact .built (.bind (built_objectOf _) fun o => .bind (built_toKey _) fun k =>
      .bind built_getHeap fun _ => .pure _)
  | defineOwn =>
    exact .built (.bind (built_objectOf _) fun o => .bind (built_toKey _) fun k =>
      .bind (built_toDescriptor _) fun d => .bind (built_defineOwn o k d _) fun _ => .pure _)
  | deleteOwn =>
    exact .built (.bind (built_objectOf _) fun o => .bind (built_toKey _) fun k =>
      .bind (.deleteOwn o k _) fun _ => .pure _)
  | referenceGet => exact .built (built_readReference _)
  | referencePut => exact .built (.bind (built_assignReference _ _) fun _ => .pure _)
  | getOfValue => exact .built (built_getProperty _ _)
  | getMethod => exact .built (built_getMethod _ _)
  | invoke => exact .built (built_invoke _ _ _)
  | ownKeys =>
    exact .built (.bind (built_objectOf _) fun o => .bind (built_newArray _) fun _ => .pure _)
  | _ => exact .pure _

theorem composed_runPrimitive (frame : Frame) (p : Primitive) (operands : List Value) :
    Composed bound (runPrimitive frame p operands) := by
  have hrun : Composed bound (performPrimitive frame p operands) :=
    composed_performPrimitive frame p operands
  unfold runPrimitive
  dsimp only
  split
  · exact .bind (.internName _) fun _ => hrun
  · exact hrun

/-! ## 3. Evaluation -/

/-- The evaluation is composed of well-understood parts. -/
def Eval.Composed (bound : ObjectId) {α : Type} (x : Eval α) : Prop := Ecma51.Composed bound x.run

namespace Eval.Composed

variable {α β : Type} {bound : ObjectId}

theorem pure (a : α) : Eval.Composed bound (pure a) :=
  show Ecma51.Composed bound (Pure.pure (Except.ok a : Except Abrupt α)) from .pure _

theorem throw (e : Abrupt) : Eval.Composed bound (throw e : Eval α) :=
  show Ecma51.Composed bound (Pure.pure (Except.error e : Except Abrupt α)) from .pure _

/-- What ends early ends the whole. -/
theorem bind {x : Eval α} {f : α → Eval β} (hx : Eval.Composed bound x)
    (hf : ∀ a, Eval.Composed bound (f a)) : Eval.Composed bound (x >>= f) := by
  refine Ecma51.Composed.bind hx fun r => ?_
  cases r with
  | ok a => exact hf a
  | error e => exact Ecma51.Composed.pure _

theorem tryCatch {x : Eval α} {f : Abrupt → Eval α} (hx : Eval.Composed bound x)
    (hf : ∀ e, Eval.Composed bound (f e)) : Eval.Composed bound (tryCatch x f) := by
  refine Ecma51.Composed.bind hx fun r => ?_
  cases r with
  | ok a => exact Ecma51.Composed.pure _
  | error e => exact hf e

/-- An operation that cannot end early. -/
theorem lift {x : Run α} (hx : Ecma51.Composed bound x) : Eval.Composed bound (ExceptT.lift x) := by
  have hmap : (ExceptT.lift x).run = x >>= fun a => Pure.pure (.ok a : Except Abrupt α) :=
    (bind_pure_comp _ _).symm
  unfold Eval.Composed
  rw [hmap]
  exact .bind hx fun _ => .pure _

theorem get : Eval.Composed bound (get : Eval Machine) := lift .get

theorem getHeap : Eval.Composed bound (ExceptT.lift Ecma51.getHeap) := lift (.built built_getHeap)

theorem hold (v : Value) : Eval.Composed bound (ExceptT.lift (Ecma51.hold v)) := lift (.hold v)

theorem internName (t : Text) : Eval.Composed bound (ExceptT.lift (Ecma51.internName t)) :=
  lift (.internName t)

theorem modify (f : Machine → Machine) (hf : ∀ m : Machine, m.SameHeap (f m)) :
    Eval.Composed bound (modify f : Eval PUnit) := lift (.modify f hf)

theorem perform {x : Run α} (hx : Ecma51.Composed bound x) : Eval.Composed bound (perform x) := by
  refine .bind (.lift hx.attempt) fun r => ?_
  cases r with
  | none => exact .throw _
  | some a => exact .pure a

theorem keepingWith {x : Eval α} (hx : Eval.Composed bound x) (vs : List Value) :
    Eval.Composed bound (keepingWith vs x) := Ecma51.Composed.holding vs hx

theorem keeping {x : Eval α} (hx : Eval.Composed bound x) : Eval.Composed bound (keeping x) :=
  hx.keepingWith []

/-- A new environment is no concern of contexts and calls; the context for it is left again. -/
theorem inNewEnvironment {x : Eval α} (hx : Eval.Composed bound x) (record : Record) (kind : ContextKind) :
    Eval.Composed bound (inNewEnvironment record kind x) := by
  have hparts : (Ecma51.inNewEnvironment record kind x).run =
      (modifyGet fun m : Machine =>
        (m.nestedContext kind (m.heap.addEnvironment ⟨record, some m.lexical⟩).2,
          ({ m with heap := (m.heap.addEnvironment ⟨record, some m.lexical⟩).1 } : Machine)) :
        Run Context) >>= fun c => (inContext c x).run := rfl
  unfold Eval.Composed
  rw [hparts]
  refine .bind (.aside _ (fun _ => ⟨rfl, rfl, rfl, rfl⟩) (fun m => ?_) fun m => ?_) fun c => .inContext c hx
  · exact .edit (.environments ⟨rfl, rfl⟩)
  · exact Heap.KeepsTimes.of_objects rfl

theorem handling {x : Eval α} (hx : Eval.Composed bound x) (name : Text) :
    Eval.Composed bound (handling name x) :=
  .bind (.internName name) fun _ => .bind (.lift .takePending) fun _ => hx.inNewEnvironment _ _

theorem whileTrue {condition body : Eval Value} (hcondition : Eval.Composed bound condition)
    (hbody : Eval.Composed bound body) (n : Nat) : Eval.Composed bound (whileTrue condition body n) := by
  induction n with
  | zero => exact Ecma51.Composed.throw trivial
  | succ n ih =>
    refine .bind hcondition fun v => ?_
    split
    · exact .bind hbody fun _ => ih
    · exact .pure _

theorem makeFunction (signature : Signature) (body : List Tree) (scope : Machine → EnvironmentId) :
    Eval.Composed bound (makeFunction signature body scope) :=
  .bind (.perform (.built (.bind .get fun _ => .newCompiledFunction _ _ _ _))) fun _ => .pure _

theorem forEachKey {body : Eval Value} (hbody : Eval.Composed bound body) (name : Text) (o : ObjectId)
    (keys : List Key) : Eval.Composed bound (forEachKey name o body keys) := by
  induction keys with
  | nil => exact .pure _
  | cons k keys ih =>
    refine .bind .getHeap fun h => ?_
    split
    · exact .bind (.perform (.built (built_assignName name _))) fun _ => .bind hbody fun _ => ih
    · exact ih

end Eval.Composed

theorem composed_finishing {x last : Eval Value} (hx : Eval.Composed bound x)
    (hlast : Eval.Composed bound last) : Eval.Composed bound (finishing x last) := by
  have hpending (v : Value) :
      Eval.Composed bound (modify fun m : Machine => { m with pending := v } : Eval PUnit) :=
    .modify _ fun _ => ⟨⟨rfl, rfl, rfl, rfl⟩, rfl, rfl⟩
  refine .bind (.lift hx) fun ended => .keeping ?_
  refine .bind .get fun m => .bind (.hold _) fun _ => .bind (.hold _) fun _ => ?_
  refine .bind (hpending _) fun _ => .bind hlast fun _ => .bind (hpending _) fun _ => ?_
  cases ended with
  | ok v => exact .pure v
  | error e => exact .throw e

mutual

/-- **Every tree is composed of well-understood parts.** -/
theorem composed_eval (frame : Frame) (t : Tree) : Eval.Composed bound (t.eval frame) := by
  cases t with
  | literal v => exact .pure v
  | apply p operands =>
    unfold Tree.eval
    refine .bind (.keeping (composed_evalAll frame operands)) fun values => .keepingWith ?_ _
    exact .perform (composed_runPrimitive frame p values)
  | declare name =>
    unfold Tree.eval
    exact .bind (.internName name) fun _ =>
      .bind (.perform (.built (built_declareVariable name))) fun _ => .pure _
  | declareAs name first =>
    unfold Tree.eval
    refine .keeping (.bind (.internName name) fun _ => ?_)
    refine .bind (.perform (.built (built_declareVariable name))) fun _ => ?_
    refine .bind (composed_eval frame first) fun v => .bind (.hold v) fun _ => ?_
    exact .bind (.perform (.built (built_assignName name v))) fun _ => .pure _
  | declareFunction name signature body =>
    unfold Tree.eval
    refine .keeping (.bind (.internName name) fun _ => ?_)
    refine .bind (.makeFunction signature body _) fun f => .bind (.hold f) fun _ => ?_
    exact .bind (.perform (.built (built_declareFunction name f))) fun _ => .pure _
  | function signature body =>
    unfold Tree.eval
    exact .makeFunction signature body _
  | object entries =>
    unfold Tree.eval
    refine .keeping (.bind (.perform (.built built_newObject)) fun o => .bind (.hold _) fun _ => ?_)
    exact .bind (composed_evalEntries frame _ entries) fun _ => .pure _
  | sequence trees =>
    unfold Tree.eval
    exact composed_evalLast frame trees
  | ite condition consequent alternative =>
    unfold Tree.eval
    refine .bind (composed_eval frame condition) fun v => ?_
    split
    · exact composed_eval frame consequent
    · exact composed_eval frame alternative
  | and left right =>
    unfold Tree.eval
    refine .bind (composed_eval frame left) fun v => ?_
    split
    · exact composed_eval frame right
    · exact .pure _
  | or left right =>
    unfold Tree.eval
    refine .bind (composed_eval frame left) fun v => ?_
    split
    · exact .pure _
    · exact composed_eval frame right
  | loop condition body =>
    unfold Tree.eval
    refine .bind (.whileTrue ?_ ?_ _) fun _ => .pure _
    · exact composed_eval frame condition
    · exact composed_eval frame body
  | forIn name subject body =>
    unfold Tree.eval
    refine .keeping (.bind (.internName name) fun _ => ?_)
    refine .bind (composed_eval frame subject) fun v => ?_
    split
    · exact .pure _
    · refine .bind (.hold v) fun _ => .bind (.perform (.built (built_toObject v))) fun o => ?_
      refine .bind (.hold _) fun _ => .bind .getHeap fun h => ?_
      exact .bind (.forEachKey (composed_eval frame body) name o _) fun _ => .pure _
  | inScopeOf subject body =>
    unfold Tree.eval
    refine .keeping (.bind (composed_eval frame subject) fun v => ?_)
    refine .bind (.perform (.built (built_toObject v))) fun o => ?_
    exact (composed_eval frame body).inNewEnvironment _ _
  | leave result =>
    unfold Tree.eval
    exact .bind (composed_eval frame result) fun v => .throw _
  | throw exception =>
    unfold Tree.eval
    refine .bind (composed_eval frame exception) fun v => ?_
    exact .bind (.modify _ fun _ => ⟨⟨rfl, rfl, rfl, rfl⟩, rfl, rfl⟩) fun _ => .throw _
  | fail =>
    unfold Tree.eval
    exact .bind (.modify _ fun _ => ⟨⟨rfl, rfl, rfl, rfl⟩, rfl, rfl⟩) fun _ => .throw _
  | tryCatch body name handler =>
    unfold Tree.eval
    refine .tryCatch (composed_eval frame body) fun e => ?_
    cases e with
    | failed => exact (composed_eval frame handler).handling name
    | returned v => exact .throw _
  | tryFinally body last =>
    unfold Tree.eval
    exact composed_finishing (composed_eval frame body) (composed_eval frame last)

theorem composed_evalAll (frame : Frame) (ts : List Tree) : Eval.Composed bound (evalAll frame ts) := by
  cases ts with
  | nil => exact .pure _
  | cons t rest =>
    unfold evalAll
    exact .bind (composed_eval frame t) fun v => .bind (.hold v) fun _ =>
      .bind (composed_evalAll frame rest) fun _ => .pure _

theorem composed_evalEntries (frame : Frame) (o : Value) (ts : List Tree) :
    Eval.Composed bound (evalEntries frame o ts) := by
  match ts with
  | [] => exact .pure _
  | [_] => exact .pure _
  | k :: v :: rest =>
    unfold evalEntries
    refine .bind (.keeping (.bind (composed_eval frame k) fun k => .bind (.hold k) fun _ => ?_))
      fun _ => composed_evalEntries frame o rest
    refine .bind (composed_eval frame v) fun v => .bind (.hold v) fun _ => ?_
    exact .perform (.built (built_addMember o k v))

theorem composed_evalLast (frame : Frame) (ts : List Tree) : Eval.Composed bound (evalLast frame ts) := by
  match ts with
  | [] => exact .pure _
  | [t] => exact composed_eval frame t
  | t :: u :: rest =>
    unfold evalLast
    exact .bind (composed_eval frame t) fun _ => composed_evalLast frame (u :: rest)

end

/-! ## 4. Running code -/

theorem built_bindParameters (frame : Frame) (strict : Bool) (names : List Text) (i : Nat) :
    Built (bindParameters frame strict names i) := by
  induction names generalizing i with
  | nil => exact .pure _
  | cons name names ih =>
    exact .bind .get fun _ => .bind (built_internName name) fun _ =>
      .bind (built_declareParameter strict name _) fun _ => ih (i + 1)

theorem built_bindArguments (frame : Frame) : Built (bindArguments frame) := by
  refine .bind .get fun m => ?_
  dsimp only
  split
  · exact .pure _
  · refine .bind (.newObjectOf (made_argumentsObject _ _ _ _) (holdsTime_argumentsObject _ _ _ _)) fun o => ?_
    exact .bind (.environments _ fun h => h.sameObjects_modifyBindings _ _) fun _ => .pure _

theorem composed_bind (signature : Signature) (frame : Frame) :
    Composed bound (signature.bind frame) := by
  refine .bind (.built (built_bindParameters frame _ _ 0)) fun _ => ?_
  split
  · cases signature.strict with
    | true => exact .bind (.built (built_bindArguments frame)) fun _ => .pure _
    | false => exact .shareArguments frame signature.parameters
  · exact .pure _

/-- **Running code is composed of well-understood parts.** -/
theorem composed_run (code : Code) (frame : Frame) : Composed bound (code.run frame) := by
  have hbody : Eval.Composed bound (do
      perform (code.signature.bind frame)
      let v ← evalLast frame code.body
      return if code.yieldsValue then v else .undefined) :=
    .bind (.perform (composed_bind code.signature frame)) fun _ =>
      .bind (composed_evalLast frame code.body) fun _ => .pure _
  have hstore (v : Value) : Composed bound (do
      modify fun m => { m with stack := m.stack.set frame.resultSlot v }
      return true) := .bind (.modify _ fun _ => ⟨⟨rfl, rfl, rfl, rfl⟩, rfl, rfl⟩) fun _ => .pure _
  refine .bind hbody fun r => ?_
  match r with
  | .ok v => exact hstore v
  | .error (.returned v) => exact hstore v
  | .error .failed => exact .pure _

end Ecma51
