import Ecma51.Proofs.Evolution

/-!
# Times are kept

What is a date in a heap was one with the same time before, or has got a time value. Every operation of the library
keeps to that if the functions that it runs do.

* `Heap.KeepsTimes`, `Machine.KeepsTimes`: the times that dates have come from before, or are time values.
* `Bodies.KeepTimes`: functions keep to that.
* **`Built.keepsTimes`**: so does what is built from basic operations.
-/

namespace Ecma51

/-! ## 1. Heaps -/

namespace Heap

/-- The times that dates have afterwards are those that they had before, or time values. -/
def KeepsTimes (h h' : Heap) : Prop :=
  ∀ o t, (h'.object o).kind = .date t → (h.object o).kind = .date t ∨ t.IsTime

namespace KeepsTimes

variable {h h' h'' : Heap}

theorem refl (h : Heap) : h.KeepsTimes h := fun _ _ => .inl

theorem trans (hfirst : h.KeepsTimes h') (hthen : h'.KeepsTimes h'') : h.KeepsTimes h'' :=
  fun o t hkind => (hthen o t hkind).elim (hfirst o t) .inr

theorem of_objects (hobjects : h'.objects = h.objects) : h.KeepsTimes h' := by
  intro o t hkind
  rw [object_of_objects hobjects] at hkind
  exact .inl hkind

/-- One object is changed, and it holds a time value if it is a date. -/
theorem of_touches {o : ObjectId} (ht : Touches o h h')
    (hself : ∀ t, (h'.object o).kind = .date t → (h.object o).kind = .date t ∨ t.IsTime) : h.KeepsTimes h' := by
  intro o' t hkind
  by_cases ho : o' = o
  · subst ho
    exact hself t hkind
  · rw [ht.other o' ho] at hkind
    exact .inl hkind

/-- One object is changed, and is of the same kind. -/
theorem of_alike {o : ObjectId} (ht : Touches o h h') (halike : (h.object o).kind.Alike (h'.object o).kind) :
    h.KeepsTimes h' := by
  refine of_touches ht fun t hkind => .inl ?_
  rw [hkind] at halike
  generalize (h.object o).kind = k at halike
  cases halike
  rfl

theorem of_amends {o : ObjectId} (ha : Amends o h h') : h.KeepsTimes h' := of_alike ha.touches ha.alike

end KeepsTimes

theorem keepsTimes_add (h : Heap) {x : Object} (hx : x.HoldsTime) : h.KeepsTimes (h.add x).1 := by
  intro o t hkind
  rw [object_add] at hkind
  split at hkind
  · exact .inr (hx t hkind)
  · exact .inl hkind

/-- An object is changed, but not its kind. -/
theorem keepsTimes_modify (h : Heap) (o : ObjectId) {f : Object → Object} (hf : ∀ x, (f x).kind = x.kind) :
    h.KeepsTimes (h.modify o f) := by
  refine .of_alike (touches_modify h o f) ?_
  rw [object_modify_self, hf]
  exact .refl _

theorem keepsTimes_store (h : Heap) (o : ObjectId) (k : Key) (p : Property) : h.KeepsTimes (h.store o k p) :=
  h.keepsTimes_modify o fun _ => rfl

theorem keepsTimes_setTime (h : Heap) (o : ObjectId) {t : Double} (ht : t.IsTime) :
    h.KeepsTimes (h.modify o fun x => { x with kind := .date t }) := by
  refine .of_touches (touches_modify h o _) fun u hkind => .inr ?_
  rw [object_modify_self] at hkind
  cases hkind
  exact ht

theorem keepsTimes_link (h : Heap) {o : ObjectId} {a : ArgumentsData} (ha : (h.object o).kind = .arguments a)
    (a' : ArgumentsData) : h.KeepsTimes (h.modify o fun x => { x with kind := .arguments a' }) := by
  refine .of_alike (touches_modify h o _) ?_
  rw [object_modify_self, ha]
  exact .arguments a a'

theorem keepsTimes_restrictKeys (h : Heap) (o : ObjectId) (freeze : Bool) (keys : List Key) :
    h.KeepsTimes (h.restrictKeys o freeze keys).heap := by
  induction keys generalizing h with
  | nil => exact .refl h
  | cons k keys ih =>
    unfold restrictKeys
    split
    · exact ih h
    · dsimp only
      split
      · exact (KeepsTimes.of_amends (amends_define h o k _)).trans (ih _)
      · exact .of_amends (amends_define h o k _)

theorem keepsTimes_restrict (h : Heap) (o : ObjectId) (freeze : Bool) : h.KeepsTimes (h.restrict o freeze).heap := by
  have hkeys := keepsTimes_restrictKeys h o freeze (h.ownKeys o)
  unfold restrict
  dsimp only
  split
  · exact hkeys.trans (keepsTimes_modify _ o fun _ => rfl)
  · exact hkeys

theorem keepsTimes_setPrototype {h h' : Heap} {o : ObjectId} {p : Option ObjectId}
    (hset : h.setPrototype? o p = some h') : h.KeepsTimes h' := by
  obtain ⟨ht, hobject⟩ := touches_setPrototype hset
  refine .of_alike ht ?_
  rcases hobject with hsame | ⟨hchanged, _⟩
  · rw [hsame]
    exact .refl _
  · rw [hchanged]
    exact .refl _

/-- What is collected is no date afterwards. -/
theorem keepsTimes_collect (h : Heap) (outside borrowed : List Nat) : h.KeepsTimes (h.collect outside borrowed) := by
  intro o t hkind
  rcases h.object_collect outside borrowed o with hsame | ⟨hgone, _⟩
  · rw [hsame] at hkind
    exact .inl hkind
  · rw [hgone] at hkind
    cases hkind

theorem keepsTimes_completeFunction (h : Heap) (f p : ObjectId) (strict : Bool) :
    let h₁ := h.store p (.ofString "constructor") (.hidden (.object f))
    let h₂ := h₁.store f (.ofString "prototype") (.data (.object p) true false false)
    h.KeepsTimes (if strict then h₂.modify f (poisoned ["caller", "arguments"]) else h₂) := by
  intro h₁ h₂
  have hboth : h.KeepsTimes h₂ := (keepsTimes_store h p _ _).trans (keepsTimes_store h₁ f _ _)
  cases strict with
  | false => exact hboth
  | true => exact hboth.trans (keepsTimes_modify h₂ f (kind_poisoned _))

end Heap

/-! ## 2. Machines -/

/-- The times that dates have afterwards are those that they had before, or time values. -/
def Machine.KeepsTimes (m m' : Machine) : Prop := m.heap.KeepsTimes m'.heap

namespace Machine.KeepsTimes

variable {m m' m'' : Machine}

theorem refl (m : Machine) : m.KeepsTimes m := Heap.KeepsTimes.refl m.heap

theorem trans (h : m.KeepsTimes m') (h' : m'.KeepsTimes m'') : m.KeepsTimes m'' := Heap.KeepsTimes.trans h h'

instance : IsPreorder Machine Machine.KeepsTimes where
  refl := .refl
  trans _ _ _ := .trans

/-- The heap is the same. -/
theorem same (hheap : m'.heap = m.heap) : m.KeepsTimes m' := by
  unfold KeepsTimes
  rw [hheap]
  exact .refl m.heap

end Machine.KeepsTimes

/-- After a function, dates have the times that they had before, or time values. -/
structure Bodies.KeepTimes (bodies : Bodies) : Prop where
  native : ∀ b this args (m : Machine), m.KeepsTimes (endOf (bodies.native b this args m))
  compiled : ∀ code frame (m : Machine), m.KeepsTimes (endOf (bodies.compiled code frame m))

/-! ## 3. Single operations -/

section Steps

variable {α β : Type} {bodies : Bodies}

theorem keepsTimes_modify {f : Machine → Machine} (hheap : ∀ m, (f m).heap = m.heap) :
    Relates Machine.KeepsTimes bodies (modify f) := fun m => .same (hheap m)

theorem keepsTimes_getHeap : Relates Machine.KeepsTimes bodies getHeap := fun m => .refl m

theorem keepsTimes_modifyHeap {f : Heap → Heap} (hf : ∀ h : Heap, h.KeepsTimes (f h)) :
    Relates Machine.KeepsTimes bodies (modifyHeap f) := fun m => hf m.heap

theorem keepsTimes_hold (v : Value) : Relates Machine.KeepsTimes bodies (hold v) := fun _ => .same rfl

theorem keepsTimes_holding {x : Run α} (hx : Relates Machine.KeepsTimes bodies x) (vs : List Value) :
    Relates Machine.KeepsTimes bodies (holding vs x) := by
  intro m
  have h := hx { m with held := vs ++ m.held }
  cases hrun : x bodies { m with held := vs ++ m.held } with
  | ok a m' =>
    rw [hrun] at h
    rw [holding_ok hrun]
    exact h
  | error e m' =>
    rw [hrun] at h
    rw [holding_error hrun]
    exact h

theorem keepsTimes_handleEach {σ : Type} {step : σ → Value → Run σ}
    (hstep : ∀ s v, Relates Machine.KeepsTimes bodies (step s v)) (s : σ) (vs : List Value) :
    Relates Machine.KeepsTimes bodies (handleEach step s vs) := by
  induction vs generalizing s with
  | nil => exact .pure s
  | cons v vs ih =>
    exact .bind (keepsTimes_holding (hstep s v) []) fun s =>
      .bind (keepsTimes_modify fun _ => rfl) fun _ => ih s

theorem keepsTimes_leaving {x : Run α} (hx : Relates Machine.KeepsTimes bodies x) :
    Relates Machine.KeepsTimes bodies (leaving x) := by
  intro m
  rw [endOf_leaving]
  exact (hx m).trans (.same rfl)

theorem keepsTimes_enterCall : Relates Machine.KeepsTimes bodies enterCall := by
  intro m
  by_cases hfull : m.maxCallDepth ≤ m.callDepth
  · rw [enterCall_full hfull]
    exact .refl m
  · rw [enterCall_free hfull]
    exact .same rfl

theorem keepsTimes_nestedCall {x : Run α} (hx : Relates Machine.KeepsTimes bodies x) :
    Relates Machine.KeepsTimes bodies (nestedCall x) := .bind keepsTimes_enterCall fun _ => keepsTimes_leaving hx

theorem keepsTimes_orDiscard {x : Run α} (hx : Relates Machine.KeepsTimes bodies x) (argc : Nat) :
    Relates Machine.KeepsTimes bodies (orDiscard argc x) :=
  hx.tryCatch fun _ => .bind (keepsTimes_modify fun _ => rfl) fun _ => .throw _

theorem keepsTimes_newObjectOf {x : Object} (hx : x.HoldsTime) :
    Relates Machine.KeepsTimes bodies (newObjectOf x) := by
  refine .bind (fun m => ?_) fun _ m => m.heap.keepsTimes_add hx
  have hreserve : m.KeepsTimes m.reserve.1 := by
    unfold Machine.reserve Heap.reserve
    split
    · exact m.heap.keepsTimes_collect _ _
    · exact .refl m
  rw [allocate_run]
  split <;> exact hreserve

/-- A date whose time is worked out first. -/
theorem keepsTimes_newDate {time : Run Double} (htime : Relates Machine.KeepsTimes bodies time)
    (hgives : Gives Double.IsTime time) (className : String) (p : Option ObjectId) :
    Relates Machine.KeepsTimes bodies (do newObjectOf (.ofKind className p (.date (← time)))) := fun m =>
  Relates.bind_at (htime m) fun t m' hrun =>
    keepsTimes_newObjectOf (holdsTime_date (hgives bodies m t m' hrun) className p) m'

theorem keepsTimes_toObject (v : Value) : Relates Machine.KeepsTimes bodies (toObject v) := by
  unfold toObject
  split
  · exact .pure _
  · split
    · rename_i hx
      exact keepsTimes_newObjectOf (holdsTime_wrapperOf hx)
    · exact .throw _

theorem keepsTimes_thisBinding (strict : Bool) (this : Value) :
    Relates Machine.KeepsTimes bodies (thisBinding strict this) := by
  unfold thisBinding
  split
  · exact .pure _
  · split
    · exact .pure _
    · exact .bind (keepsTimes_toObject this) fun _ => .pure _

theorem keepsTimes_newDeclarative (outer : EnvironmentId) :
    Relates Machine.KeepsTimes bodies (newDeclarative outer) := fun _ => Heap.KeepsTimes.of_objects rfl

theorem keepsTimes_settle (throws : Bool) {r : Heap.Outcome} {m : Machine} (h : m.heap.KeepsTimes r.heap) :
    m.KeepsTimes (endOf (settle throws r bodies m)) := by
  rw [endOf_settle]
  exact h

theorem keepsTimes_defineLength (htoNumber : ∀ v, Relates Machine.KeepsTimes bodies (toNumber v)) (o : ObjectId)
    (d : Descriptor) (v : Value) (throws : Bool) :
    Relates Machine.KeepsTimes bodies (defineLength o d v throws) := by
  have htoLength : Relates Machine.KeepsTimes bodies (toLength v) := by
    refine .bind (.bind (htoNumber v) fun _ => .pure _) fun n => .bind (htoNumber v) fun x => ?_
    split
    · exact .pure n
    · exact .throw _
  refine .bind keepsTimes_getHeap fun h => .bind htoLength fun n => ?_
  exact fun m => keepsTimes_settle throws (.of_amends (Heap.amends_setLength m.heap o d n _ _))

theorem keepsTimes_defineOwn (htoNumber : ∀ v, Relates Machine.KeepsTimes bodies (toNumber v)) (o : ObjectId)
    (k : Key) (d : Descriptor) (throws : Bool) : Relates Machine.KeepsTimes bodies (defineOwn o k d throws) := by
  intro m
  unfold defineOwn
  rw [getHeap_bind_run]
  cases lengthValue? (m.heap.object o) k d with
  | some v => exact keepsTimes_holding (keepsTimes_defineLength htoNumber o d v throws) _ m
  | none => exact keepsTimes_settle throws (.of_amends (Heap.amends_define m.heap o k d))

theorem keepsTimes_newCompiledFunction (code : Code) (scope : EnvironmentId) (strict : Bool) (n : Nat) :
    Relates Machine.KeepsTimes bodies (newCompiledFunction code scope strict n) := by
  refine .bind (keepsTimes_newObjectOf (Object.holdsTime_of_isDate rfl)) fun f => keepsTimes_holding ?_ _
  refine .bind (keepsTimes_newObjectOf (holdsTime_ordinary _)) fun p => .bind ?_ fun _ => .pure _
  exact keepsTimes_modifyHeap fun h => h.keepsTimes_completeFunction f p strict

theorem keepsTimes_constructError (htoText : ∀ v, Relates Machine.KeepsTimes bodies (toText v)) (kind : ErrorKind)
    (message : Value) : Relates Machine.KeepsTimes bodies (constructError kind message) := by
  refine .bind (keepsTimes_newObjectOf (holdsTime_errorOf _ _)) fun o => .bind (keepsTimes_hold _) fun _ => ?_
  split
  · exact .pure _
  · exact .bind (htoText message) fun t =>
      .bind (keepsTimes_modifyHeap fun h => h.keepsTimes_store o _ _) fun _ => .pure _

theorem keepsTimes_thisTime (this : Value) (f : DateFunction) :
    Relates Machine.KeepsTimes bodies (thisTime this f) := by
  unfold thisTime
  split
  · refine .bind keepsTimes_getHeap fun h => ?_
    split
    · exact .pure _
    · exact .throw _
  · exact .throw _

/-- **A date whose time is replaced gets a time value.** -/
theorem keepsTimes_updateTime (this : Value) (f : DateFunction) {next : Double → Run Double}
    (hnext : ∀ t, Relates Machine.KeepsTimes bodies (next t)) (hgives : ∀ t, Gives Double.IsTime (next t)) :
    Relates Machine.KeepsTimes bodies (updateTime this f next) := by
  refine .bind (keepsTimes_thisTime this f) fun r m => ?_
  refine Relates.bind_at (hnext r.2 m) fun t m' hrun => ?_
  have htime := hgives r.2 bodies m t m' hrun
  exact Relates.bind_at (m'.heap.keepsTimes_setTime r.1 htime) fun _ m'' _ => .refl m''

end Steps

/-! ## 4. Calls -/

/-- What a call gives once its code has ended, and its result was taken off the stack. -/
def codeResult (succeeded : Bool) (result : Value) : Run Value := do
  if succeeded then return result
  else
    match ← takePending with
    | .nothing => return .undefined
    | v => throw (.thrown v)

/-- Running code, in parts: its frame is put down, the code runs, and the frame is taken away. -/
theorem runCode_eq (code : Code) (context : Context) (argc n : Nat) (callee : Value) :
    runCode code context argc n callee = (do
      let depth ← (modifyGet fun m : Machine => (m.contexts.length, m) : Run Nat)
      let frame ← (modifyGet fun m : Machine =>
        ((m.stack.pushFrame argc n callee context.this).2,
          ({ m with
            contexts := context :: m.contexts
            stack := (m.stack.pushFrame argc n callee context.this).1 } : Machine)) : Run Frame)
      let succeeded ← (do (← read).compiled code frame : Run Bool)
      let result ← (modifyGet fun m : Machine =>
        ((m.stack.popFrame frame).2,
          ({ m with
            contexts := m.contexts.drop (m.contexts.length - depth)
            stack := (m.stack.popFrame frame).1 } : Machine)) : Run Value)
      codeResult succeeded result) := rfl

section Calls

variable {bodies : Bodies}

theorem keepsTimes_codeResult (succeeded : Bool) (result : Value) :
    Relates Machine.KeepsTimes bodies (codeResult succeeded result) := by
  unfold codeResult
  split
  · exact .pure _
  · refine .bind (fun _ => .same rfl) fun v => ?_
    split
    · exact .pure _
    · exact .throw _

variable (hb : bodies.KeepTimes)

include hb

theorem keepsTimes_runCode (code : Code) (context : Context) (argc n : Nat) (callee : Value) :
    Relates Machine.KeepsTimes bodies (runCode code context argc n callee) := by
  have hcompiled (frame : Frame) : Relates Machine.KeepsTimes bodies (do (← read).compiled code frame : Run Bool) :=
    hb.compiled code frame
  rw [runCode_eq]
  refine .bind (fun m => .refl m) fun depth => .bind (fun _ => .same rfl) fun frame => ?_
  exact .bind (hcompiled frame) fun succeeded => .bind (fun _ => .same rfl) fun result =>
    keepsTimes_codeResult succeeded result

theorem keepsTimes_enterCompiled (f : ObjectId) (this : Value) (argc : Nat) (code : Code) (scope : EnvironmentId)
    (n : Nat) (strict : Bool) :
    Relates Machine.KeepsTimes bodies (enterCompiled f this argc code scope n strict) := by
  have hcalled : Relates Machine.KeepsTimes bodies (callCompiled f this argc code scope n strict) :=
    .bind (keepsTimes_orDiscard (keepsTimes_thisBinding strict this) argc) fun _ =>
      .bind (keepsTimes_newDeclarative scope) fun _ => keepsTimes_runCode hb code _ argc n _
  exact .bind (keepsTimes_orDiscard keepsTimes_enterCall argc) fun _ =>
    keepsTimes_leaving (keepsTimes_holding hcalled _)

theorem keepsTimes_callNative (f : ObjectId) (b : Builtin) (this : Value) (args : List Value) :
    Relates Machine.KeepsTimes bodies (callNative f b this args) := by
  have hnative : Relates Machine.KeepsTimes bodies (do (← read).native b this args : Run Value) :=
    hb.native b this args
  exact keepsTimes_nestedCall (keepsTimes_holding hnative _)

theorem keepsTimes_call (f : ObjectId) (this : Value) (args : List Value) :
    Relates Machine.KeepsTimes bodies (call f this args) := by
  refine .bind keepsTimes_getHeap fun h => ?_
  dsimp only
  split
  · exact .throw _
  · exact keepsTimes_callNative hb _ _ _ _
  · exact .bind (keepsTimes_modify fun _ => rfl) fun _ => keepsTimes_enterCompiled hb _ _ _ _ _ _ _

/-- **Whatever is built from basic operations keeps times.** -/
theorem Built.keepsTimes {α : Type} {x : Run α} (h : Built x) : Relates Machine.KeepsTimes bodies x := by
  induction h with
  | pure a => exact .pure a
  | bind _ _ hx hf => exact .bind hx hf
  | throw _ => exact .throw _
  | get => exact .get
  | aside f hf => exact fun m => .same (hf m).heap
  | holding vs _ hx => exact keepsTimes_holding hx vs
  | hold v => exact keepsTimes_hold v
  | consuming s vs _ hstep => exact keepsTimes_holding (keepsTimes_handleEach hstep s vs) vs
  | nestedCall _ hx => exact keepsTimes_nestedCall hx
  | call f this args => exact keepsTimes_call hb f this args
  | callNative f b this args => exact keepsTimes_callNative hb f b this args
  | runCode code context => exact keepsTimes_runCode hb code context 0 0 .undefined
  | newObjectOf _ hx => exact keepsTimes_newObjectOf hx
  | newDate className p _ hgives htime => exact keepsTimes_newDate htime hgives className p
  | environments f hf => exact keepsTimes_modifyHeap fun h => .of_objects (hf h).objects
  | newDeclarative outer => exact keepsTimes_newDeclarative outer
  | defineOwn o k d throws _ htoNumber => exact keepsTimes_defineOwn htoNumber o k d throws
  | deleteOwn o k throws => exact fun m => keepsTimes_settle throws (.of_amends (.single (.delete k)))
  | restrictOwn o freeze => exact fun m => keepsTimes_settle true (m.heap.keepsTimes_restrict o freeze)
  | closeOwn o => exact keepsTimes_modifyHeap fun h => h.keepsTimes_modify o fun _ => rfl
  | newCompiledFunction code scope strict n => exact keepsTimes_newCompiledFunction code scope strict n
  | constructError kind message _ htoText => exact keepsTimes_constructError htoText kind message
  | updateTime this f _ hgives hnext => exact keepsTimes_updateTime this f hnext hgives

end Calls

end Ecma51
