import Ecma51.Proofs.BuiltLibrary
import Ecma51.Proofs.Edit
import Ecma51.Proofs.Relates
import Ecma51.Proofs.WholeNumber

/-!
# Whatever runs, the heap only evolves

Operations of the library change the heap in the ways that `Heap.Edit` lists, if the functions that they
run do. Objects that were there before are old meanwhile, and values that were kept stay kept.

* `Machine.Leads`: the heap has evolved, and what was kept is still kept.
* `Bodies.Tame`: functions do no more than that.
* **`Built.leads`**: neither does what is built from basic operations.
-/

namespace Ecma51

/-! ## 1. The relation -/

/-- If the objects below a number are there, then the heap has evolved from one machine to the other
with these objects being old and what the first keeps being kept; and the other keeps that, too. -/
def Machine.Leads (bound : ObjectId) (m m' : Machine) : Prop :=
  bound ≤ m.heap.nextObject →
    m.held ⊆ m'.held ∧ Heap.Evolves bound m.held m.heap m'.heap

namespace Machine.Leads

variable {bound : ObjectId} {m m' m'' : Machine}

theorem refl (bound : ObjectId) (m : Machine) : m.Leads bound m :=
  fun _ => ⟨List.Subset.refl _, .refl⟩

theorem trans (h : m.Leads bound m') (h' : m'.Leads bound m'') : m.Leads bound m'' := by
  intro hb
  obtain ⟨hheld, hheap⟩ := h hb
  obtain ⟨hheld', hheap'⟩ := h' (Nat.le_trans hb hheap.nextObject_le)
  exact ⟨List.Subset.trans hheld hheld',
    hheap.trans (hheap'.mono (Nat.le_refl _) hheld)⟩

instance (bound : ObjectId) : IsPreorder Machine (Machine.Leads bound) where
  refl := .refl bound
  trans _ _ _ := .trans

/-- The heap is the same. -/
theorem same (hheap : m'.heap = m.heap) (hheld : m.held ⊆ m'.held) : m.Leads bound m' := by
  intro _
  rw [hheap]
  exact ⟨hheld, .refl⟩

/-- The heap is the same, and so is what is kept. -/
theorem aside (hheap : m'.heap = m.heap) (hheld : m'.held = m.held) : m.Leads bound m' := by
  refine .same hheap ?_
  rw [hheld]
  exact List.Subset.refl _

/-- The heap is changed in admitted ways. -/
theorem evolve {h : Heap} (he : Heap.Evolves bound m.held m.heap h) :
    m.Leads bound { m with heap := h } := fun _ => ⟨List.Subset.refl _, he⟩

/-- The heap is changed once. -/
theorem edit {h : Heap} (he : Heap.Edit bound m.held m.heap.lengthOf m.heap h) :
    m.Leads bound { m with heap := h } := .evolve (.single he)

/-- That the old objects are there may be assumed. -/
theorem of_bound (h : bound ≤ m.heap.nextObject → m.Leads bound m') : m.Leads bound m' :=
  fun hb => h hb hb

end Machine.Leads

/-- Functions change the heap only in the ways that are admitted. -/
structure Bodies.Tame (bodies : Bodies) : Prop where
  native : ∀ bound b this args (m : Machine), m.Leads bound (endOf (bodies.native b this args m))
  compiled : ∀ bound code frame (m : Machine),
    m.Leads bound (endOf (bodies.compiled code frame m))

/-! ## 2. Keeping values -/

section Steps

variable {α β : Type} {bodies : Bodies} {bound : ObjectId}

/-- Values that an operation holds are kept while it runs. -/
theorem evolves_holding {x : Run α} (hx : Relates (Machine.Leads bound) bodies x) (vs : List Value)
    {m : Machine} (hb : bound ≤ m.heap.nextObject) :
    Heap.Evolves bound (vs ++ m.held) m.heap (endOf (holding vs x bodies m)).heap := by
  have h := (hx { m with held := vs ++ m.held } hb).2
  unfold holding
  cases hm : x bodies { m with held := vs ++ m.held } with
  | ok a m' =>
    rw [hm] at h
    exact h
  | error e m' =>
    rw [hm] at h
    exact h

theorem held_holding (vs : List Value) (x : Run α) (m : Machine) :
    (endOf (holding vs x bodies m)).held = m.held := by
  unfold holding
  split <;> rfl

theorem leads_holding {x : Run α} (hx : Relates (Machine.Leads bound) bodies x) (vs : List Value) :
    Relates (Machine.Leads bound) bodies (holding vs x) := by
  intro m hb
  rw [held_holding]
  refine ⟨List.Subset.refl _, ?_⟩
  exact (evolves_holding hx vs hb).mono (Nat.le_refl _) (List.subset_append_right _ _)

theorem leads_hold (v : Value) : Relates (Machine.Leads bound) bodies (hold v) :=
  fun _ => .same rfl (List.subset_cons_self _ _)

/-- However far the values are handled, those kept before them are kept. -/
theorem leads_handleEach {σ : Type} {step : σ → Value → Run σ}
    (hstep : ∀ s v, Relates (Machine.Leads bound) bodies (step s v)) (s : σ) (vs base : List Value)
    (m : Machine) (hm : m.held = vs ++ base) :
    Machine.Leads bound { m with held := base } (endOf (handleEach step s vs bodies m)) := by
  induction vs generalizing s m with
  | nil => exact .aside rfl hm
  | cons v vs ih =>
    have hfirst := leads_holding (hstep s v) [] m
    have hbase : Machine.Leads bound { m with held := base } m := by
      refine .same rfl ?_
      rw [hm]
      exact List.subset_append_right _ _
    have hheld : (endOf (holding [] (step s v) bodies m)).held = m.held := held_holding _ _ m
    unfold handleEach
    cases hrun : holding [] (step s v) bodies m with
    | ok s' m' =>
      rw [hrun] at hfirst hheld
      rw [bind_run_ok hrun]
      have hrest := ih s' { m' with held := m'.held.drop 1 } (by
        show m'.held.drop 1 = _
        have hheld : m'.held = m.held := hheld
        rw [hheld, hm]
        rfl)
      refine .trans ?_ hrest
      exact fun hb => ⟨List.Subset.refl _, (hbase.trans hfirst hb).2⟩
    | error e m' =>
      rw [hrun] at hfirst
      rw [bind_run_error hrun]
      exact hbase.trans hfirst

theorem leads_consuming {σ : Type} {step : σ → Value → Run σ}
    (hstep : ∀ s v, Relates (Machine.Leads bound) bodies (step s v)) (s : σ) (vs : List Value) :
    Relates (Machine.Leads bound) bodies (consuming step s vs) := by
  intro m
  have h := leads_handleEach hstep s vs m.held { m with held := vs ++ m.held } rfl
  unfold consuming holding
  cases hm : handleEach step s vs bodies { m with held := vs ++ m.held } with
  | ok a m' =>
    rw [hm] at h
    exact fun hb => ⟨List.Subset.refl _, (h hb).2⟩
  | error e m' =>
    rw [hm] at h
    exact fun hb => ⟨List.Subset.refl _, (h hb).2⟩

/-! ## 3. Objects -/

theorem leads_getHeap : Relates (Machine.Leads bound) bodies getHeap := fun m => .refl bound m

theorem leads_collect (m : Machine) : m.Leads bound m.collect := by
  refine .edit (.collect _ fun o ho => ?_)
  refine Heap.objectNode_mem_nodesOf.mpr ?_
  exact List.mem_append_right _ (List.mem_cons_of_mem _ ho)

theorem leads_reserve (m : Machine) : m.Leads bound m.reserve.1 := by
  unfold Machine.reserve Heap.reserve
  split
  · exact (leads_collect m).trans (.aside rfl rfl)
  · exact .refl bound m

theorem nextObject_reserve (m : Machine) : m.reserve.1.heap.nextObject = m.heap.nextObject := by
  unfold Machine.reserve Heap.reserve
  split <;> rfl

theorem held_reserve (m : Machine) : m.reserve.1.held = m.held := by
  unfold Machine.reserve Heap.reserve
  split <;> rfl

theorem leads_allocate : Relates (Machine.Leads bound) bodies allocate := by
  intro m
  rw [allocate_run]
  split
  · exact leads_reserve m
  · exact leads_reserve m

theorem leads_addObject {x : Object} (hx : x.Made) : Relates (Machine.Leads bound) bodies (addObject x) :=
  fun _ => .edit (.add hx)

theorem leads_newObjectOf {x : Object} (hx : x.Made) :
    Relates (Machine.Leads bound) bodies (newObjectOf x) := .bind leads_allocate fun _ => leads_addObject hx

/-- A new object gets the next number. -/
theorem newObjectOf_ok {x : Object} {m m' : Machine} {o : ObjectId}
    (h : newObjectOf x bodies m = .ok o m') :
    o = m.heap.nextObject ∧ m'.heap.object o = x ∧ m'.held = m.held := by
  unfold newObjectOf at h
  by_cases hfits : m.reserve.2 = true
  · rw [bind_run_ok ((allocate_run bodies m).trans (if_pos hfits))] at h
    cases h
    refine ⟨nextObject_reserve m, ?_, held_reserve m⟩
    exact (Heap.object_add _ x _).trans (if_pos rfl)
  · rw [bind_run_error ((allocate_run bodies m).trans (if_neg hfits))] at h
    cases h

/-! ## 4. Own properties -/

theorem endOf_settle (throws : Bool) (r : Heap.Outcome) (bodies : Bodies) (m : Machine) :
    endOf (settle throws r bodies m) = { m with heap := r.heap } := by
  unfold settle
  cases r.refusal with
  | none => rfl
  | some f => cases throws <;> rfl

theorem leads_settle (throws : Bool) {r : Heap.Outcome} {m : Machine}
    (he : Heap.Evolves bound m.held m.heap r.heap) :
    m.Leads bound (endOf (settle throws r bodies m)) := by
  rw [endOf_settle]
  exact .evolve he

theorem leads_modifyHeap {f : Heap → Heap}
    (hf : ∀ (h : Heap) (kept : List Value), Heap.Edit bound kept h.lengthOf h (f h)) :
    Relates (Machine.Leads bound) bodies (modifyHeap f) := fun m => .edit (hf m.heap _)

theorem leads_toLength (htoNumber : ∀ v, Relates (Machine.Leads bound) bodies (toNumber v)) (v : Value) :
    Relates (Machine.Leads bound) bodies (toLength v) := by
  refine .bind (.bind (htoNumber v) fun _ => .pure _) fun n => .bind (htoNumber v) fun x => ?_
  split
  · exact .pure n
  · exact .throw _

/-- A length is below the limit. -/
theorem toLength_lt {v : Value} {m m' : Machine} {n : Nat} (h : toLength v bodies m = .ok n m') :
    n < 2 ^ 32 := by
  unfold toLength toUint32 at h
  cases hfirst : toNumber v bodies m with
  | error e m₁ =>
    rw [bind_run_error (bind_run_error hfirst _)] at h
    cases h
  | ok x m₁ =>
    rw [bind_run_ok ((bind_run_ok hfirst _).trans rfl)] at h
    cases hsecond : toNumber v bodies m₁ with
    | error e m₂ =>
      rw [bind_run_error hsecond] at h
      cases h
    | ok y m₂ =>
      rw [bind_run_ok hsecond] at h
      split at h
      · cases h
        exact x.toUint32_lt
      · cases h

/-- The length is found before the conversion and set after it. -/
theorem leads_defineLength (htoNumber : ∀ v, Relates (Machine.Leads bound) bodies (toNumber v))
    (o : ObjectId) (d : Descriptor) (v : Value) (throws : Bool) :
    Relates (Machine.Leads bound) bodies (defineLength o d v throws) := by
  intro m hb
  have hconverted := leads_toLength htoNumber v m hb
  unfold defineLength
  rw [getHeap_bind_run]
  dsimp only
  cases hn : toLength v bodies m with
  | error e m' =>
    rw [hn] at hconverted
    rw [bind_run_error hn]
    exact hconverted
  | ok n m' =>
    rw [hn] at hconverted
    obtain ⟨hheld, hheap⟩ := hconverted
    rw [bind_run_ok hn, getHeap_bind_run, endOf_settle]
    exact ⟨hheld, .tail .refl hheap (.setLength o d n (toLength_lt hn))⟩

theorem leads_defineOwn (htoNumber : ∀ v, Relates (Machine.Leads bound) bodies (toNumber v))
    (o : ObjectId) (k : Key) (d : Descriptor) (throws : Bool) :
    Relates (Machine.Leads bound) bodies (defineOwn o k d throws) := by
  intro m
  unfold defineOwn
  rw [getHeap_bind_run]
  cases hd : lengthValue? (m.heap.object o) k d with
  | some v => exact leads_holding (leads_defineLength htoNumber o d v throws) _ m
  | none => exact leads_settle throws (.single (.define o k d hd))

theorem lengthValue?_restriction (x : Object) (k : Key) (freeze : Bool) (p : Property) :
    lengthValue? x k (Heap.restriction freeze p) = none := by
  unfold lengthValue?
  split <;> rfl

theorem evolves_restrictKeys (bound : ObjectId) (kept : List Value) (h : Heap) (o : ObjectId)
    (freeze : Bool) (keys : List Key) :
    Heap.Evolves bound kept h (h.restrictKeys o freeze keys).heap := by
  induction keys generalizing h with
  | nil => exact .refl
  | cons k keys ih =>
    unfold Heap.restrictKeys
    split
    · exact ih h
    · rename_i p _
      have hfirst : Heap.Edit bound kept h.lengthOf h
          (h.define o k (Heap.restriction freeze p)).heap :=
        .define o k _ (lengthValue?_restriction _ k freeze p)
      dsimp only
      split
      · exact .head hfirst (ih _)
      · exact .single hfirst

theorem evolves_restrict (bound : ObjectId) (kept : List Value) (h : Heap) (o : ObjectId)
    (freeze : Bool) : Heap.Evolves bound kept h (h.restrict o freeze).heap := by
  have hkeys := evolves_restrictKeys bound kept h o freeze (h.ownKeys o)
  unfold Heap.restrict
  dsimp only
  split
  · exact hkeys.trans (.single (.close o))
  · exact hkeys

theorem leads_restrictOwn (o : ObjectId) (freeze : Bool) :
    Relates (Machine.Leads bound) bodies (restrictOwn o freeze) :=
  fun m => leads_settle (m := m) true (evolves_restrict _ _ m.heap o freeze)

theorem leads_deleteOwn (o : ObjectId) (k : Key) (throws : Bool) :
    Relates (Machine.Leads bound) bodies (deleteOwn o k throws) :=
  fun m => leads_settle (m := m) throws (.single (.delete o k))

/-! ## 5. Objects that are completed after they are made -/

/-- The properties that a new function gets, and those of its prototype. -/
theorem evolves_completeFunction {f p : ObjectId} (hf : bound ≤ f) (hp : bound ≤ p) (strict : Bool)
    (kept : List Value) (h : Heap) :
    let h₁ := h.store p (.ofString "constructor") (.hidden (.object f))
    let h₂ := h₁.store f (.ofString "prototype") (.data (.object p) true false false)
    Heap.Evolves bound kept h
      (if strict then h₂.modify f (poisoned ["caller", "arguments"]) else h₂) := by
  intro h₁ h₂
  have hfirst : Heap.Edit bound kept h.lengthOf h h₁ :=
    .complete p _ hp (Object.completes_withProperty _ (by decide) _)
  have hsecond : Heap.Edit bound kept h₁.lengthOf h₁ h₂ :=
    .complete f _ hf (Object.completes_withProperty _ (by decide) _)
  have hboth : Heap.Evolves bound kept h h₂ := .head hfirst (.single hsecond)
  cases strict with
  | false => exact hboth
  | true => exact hboth.trans (.single
      (.complete f _ hf (Object.completes_poisoned (by decide) _)))

theorem leads_newCompiledFunction (code : Code) (scope : EnvironmentId) (strict : Bool) (n : Nat) :
    Relates (Machine.Leads bound) bodies (newCompiledFunction code scope strict n) := by
  intro m
  refine .of_bound fun hb => ?_
  refine Relates.bind_at (leads_newObjectOf (Object.made_of_isPlain rfl) m) fun f m₁ hf => ?_
  have hf : bound ≤ f := by
    rw [(newObjectOf_ok hf).1]
    exact hb
  refine leads_holding (fun m₂ => .of_bound fun hb₂ => ?_) [.object f] m₁
  refine Relates.bind_at (leads_newObjectOf (made_ordinary _) m₂) fun p m₃ hp => ?_
  have hp : bound ≤ p := by
    rw [(newObjectOf_ok hp).1]
    exact hb₂
  exact Relates.bind_at (.evolve (evolves_completeFunction hf hp strict _ _))
    fun _ m₄ _ => .refl bound m₄

theorem leads_constructError (htoText : ∀ v, Relates (Machine.Leads bound) bodies (toText v))
    (kind : ErrorKind) (message : Value) :
    Relates (Machine.Leads bound) bodies (constructError kind message) := by
  intro m
  refine .of_bound fun hb => ?_
  refine Relates.bind_at (leads_newObjectOf (made_errorOf _ _) m) fun o m₁ ho => ?_
  have ho : bound ≤ o := by
    rw [(newObjectOf_ok ho).1]
    exact hb
  refine Relates.bind (leads_hold _) (fun _ => ?_) m₁
  split
  · exact .pure _
  · refine .bind (htoText message) fun t => .bind (fun m₂ => ?_) fun _ => .pure _
    exact .edit (.complete o _ ho (Object.completes_withProperty _ (by decide) _))

theorem thisTime_ok {this : Value} {f : DateFunction} {r : ObjectId × Double} {m m' : Machine}
    (h : thisTime this f bodies m = .ok r m') : m' = m ∧ Heap.MayBeDate (m.heap.object r.1) := by
  cases this with
  | object o =>
    unfold thisTime at h
    dsimp only at h
    rw [getHeap_bind_run] at h
    cases hkind : (m.heap.object o).kind with
    | date t =>
      rw [hkind] at h
      cases h
      exact ⟨rfl, .inr ⟨t, hkind⟩⟩
    | _ =>
      rw [hkind] at h
      cases h
  | _ => cases h

theorem leads_thisTime (this : Value) (f : DateFunction) :
    Relates (Machine.Leads bound) bodies (thisTime this f) := by
  unfold thisTime
  split
  · refine .bind leads_getHeap fun h => ?_
    split
    · exact .pure _
    · exact .throw _
  · exact .throw _

/-- What was a date before its new time is worked out may be one afterwards. -/
theorem leads_updateTime (this : Value) (f : DateFunction) {next : Double → Run Double}
    (hnext : ∀ t, Relates (Machine.Leads bound) bodies (next t)) :
    Relates (Machine.Leads bound) bodies (updateTime this f next) := by
  intro m
  refine .of_bound fun hb => ?_
  refine Relates.bind_at (leads_thisTime this f m) fun r m₁ hr => ?_
  obtain ⟨rfl, hdate⟩ := thisTime_ok hr
  refine Relates.bind_at (hnext r.2 m₁) fun t m₂ ht => ?_
  have hthen := hnext r.2 m₁ hb
  rw [ht] at hthen
  refine Relates.bind_at (.edit (.setTime r.1 t fun ho => ?_)) fun _ m₃ _ => .refl bound m₃
  exact hthen.2.mayBeDate (Nat.lt_of_lt_of_le ho hb) hdate

/-! ## 6. Calls -/

theorem leads_modify {f : Machine → Machine} (hheap : ∀ m, (f m).heap = m.heap)
    (hheld : ∀ m, (f m).held = m.held) : Relates (Machine.Leads bound) bodies (modify f) :=
  fun m => .aside (hheap m) (hheld m)

theorem leads_freeSlots (argc : Nat) : Relates (Machine.Leads bound) bodies (freeSlots argc) :=
  leads_modify (fun _ => rfl) fun _ => rfl

theorem leads_takePending : Relates (Machine.Leads bound) bodies takePending :=
  fun _ => .aside rfl rfl

theorem leads_newDeclarative (outer : EnvironmentId) :
    Relates (Machine.Leads bound) bodies (newDeclarative outer) :=
  fun _ => .edit (.environments ⟨rfl, rfl⟩)

theorem leads_toObject (v : Value) : Relates (Machine.Leads bound) bodies (toObject v) := by
  unfold toObject
  split
  · exact .pure _
  · split
    · rename_i hx
      exact leads_newObjectOf (made_wrapperOf hx)
    · exact .throw _

theorem leads_thisBinding (strict : Bool) (this : Value) :
    Relates (Machine.Leads bound) bodies (thisBinding strict this) := by
  unfold thisBinding
  split
  · exact .pure _
  · split
    · exact .pure _
    · exact .bind (leads_toObject this) fun _ => .pure _

theorem leads_orDiscard {x : Run α} (hx : Relates (Machine.Leads bound) bodies x) (argc : Nat) :
    Relates (Machine.Leads bound) bodies (orDiscard argc x) :=
  hx.tryCatch fun _ => .bind (leads_freeSlots argc) fun _ => .throw _

theorem leads_leaving {x : Run α} (hx : Relates (Machine.Leads bound) bodies x) :
    Relates (Machine.Leads bound) bodies (leaving x) := by
  intro m
  rw [endOf_leaving]
  exact (hx m).trans (.aside rfl rfl)

theorem leads_enterCall : Relates (Machine.Leads bound) bodies enterCall := by
  intro m
  by_cases hfull : m.maxCallDepth ≤ m.callDepth
  · rw [enterCall_full hfull]
    exact .refl bound m
  · rw [enterCall_free hfull]
    exact .aside rfl rfl

theorem leads_nestedCall {x : Run α} (hx : Relates (Machine.Leads bound) bodies x) :
    Relates (Machine.Leads bound) bodies (nestedCall x) :=
  .bind leads_enterCall fun _ => leads_leaving hx

variable (hb : bodies.Tame)

include hb

theorem leads_runCode (code : Code) (context : Context) (argc n : Nat) (callee : Value) :
    Relates (Machine.Leads bound) bodies (runCode code context argc n callee) := by
  intro m
  unfold runCode
  rw [get_bind_run]
  dsimp only
  rw [set_bind_run, read_bind_run]
  -- the frame and the context are no part of the heap
  have hentered : m.Leads bound { m with
      contexts := context :: m.contexts
      stack := (m.stack.pushFrame argc n callee context.this).1 } := .aside rfl rfl
  refine hentered.trans (Relates.bind_at (hb.compiled bound code _ _) fun succeeded m' _ => ?_)
  have hleft : m'.Leads bound { m' with
      contexts := m'.contexts.drop (m'.contexts.length - m.contexts.length)
      stack := (m'.stack.popFrame (m.stack.pushFrame argc n callee context.this).2).1 } :=
    .aside rfl rfl
  rw [get_bind_run, set_bind_run]
  refine hleft.trans ?_
  cases succeeded with
  | true => exact .refl bound _
  | false =>
    refine Relates.bind_at (leads_takePending _) fun v m'' _ => ?_
    cases v with
    | nothing => exact .refl bound m''
    | _ => exact .refl bound m''

theorem leads_callCompiled (f : ObjectId) (this : Value) (argc : Nat) (code : Code)
    (scope : EnvironmentId) (n : Nat) (strict : Bool) :
    Relates (Machine.Leads bound) bodies (callCompiled f this argc code scope n strict) :=
  .bind (leads_orDiscard (leads_thisBinding strict this) argc) fun _ =>
    .bind (leads_newDeclarative scope) fun _ => leads_runCode hb code _ argc n _

theorem leads_enterCompiled (f : ObjectId) (this : Value) (argc : Nat) (code : Code)
    (scope : EnvironmentId) (n : Nat) (strict : Bool) :
    Relates (Machine.Leads bound) bodies (enterCompiled f this argc code scope n strict) :=
  .bind (leads_orDiscard leads_enterCall argc) fun _ =>
    leads_leaving (leads_holding (leads_callCompiled hb f this argc code scope n strict) _)

theorem leads_callNative (f : ObjectId) (b : Builtin) (this : Value) (args : List Value) :
    Relates (Machine.Leads bound) bodies (callNative f b this args) := by
  have hnative : Relates (Machine.Leads bound) bodies (do (← read).native b this args) :=
    hb.native bound b this args
  exact leads_nestedCall (leads_holding hnative _)

theorem leads_call (f : ObjectId) (this : Value) (args : List Value) :
    Relates (Machine.Leads bound) bodies (call f this args) := by
  refine .bind leads_getHeap fun h => ?_
  dsimp only
  split
  · exact .throw _
  · exact leads_callNative hb _ _ _ _
  · refine .bind (leads_modify (fun _ => rfl) fun _ => rfl) fun _ => ?_
    exact leads_enterCompiled hb _ _ _ _ _ _ _

/-- **Whatever is built from basic operations only makes the heap evolve.** -/
theorem Built.leads {x : Run α} (h : Built x) : Relates (Machine.Leads bound) bodies x := by
  induction h with
  | pure a => exact .pure a
  | bind _ _ hx hf => exact .bind hx hf
  | throw _ => exact .throw _
  | get => exact .get
  | aside f hf => exact fun m => .aside (hf m).heap (hf m).held
  | holding vs _ hx => exact leads_holding hx vs
  | hold v => exact leads_hold v
  | consuming s vs _ hstep => exact leads_consuming hstep s vs
  | nestedCall _ hx => exact leads_nestedCall hx
  | call f this args => exact leads_call hb f this args
  | callNative f b this args => exact leads_callNative hb f b this args
  | runCode code context => exact leads_runCode hb code context 0 0 .undefined
  | newObjectOf hx _ => exact leads_newObjectOf hx
  | newDate _ _ _ _ htime => exact .bind htime fun _ => leads_newObjectOf (made_ofKind rfl)
  | environments f hf => exact leads_modifyHeap fun h _ => .environments (hf h)
  | newDeclarative outer => exact leads_newDeclarative outer
  | defineOwn o k d throws _ htoNumber => exact leads_defineOwn htoNumber o k d throws
  | deleteOwn o k throws => exact leads_deleteOwn o k throws
  | restrictOwn o freeze => exact leads_restrictOwn o freeze
  | closeOwn o => exact leads_modifyHeap fun _ _ => .close o
  | newCompiledFunction code scope strict n => exact leads_newCompiledFunction code scope strict n
  | constructError kind message _ htoText => exact leads_constructError htoText kind message
  | updateTime this f _ _ hnext => exact leads_updateTime this f hnext

end Steps

end Ecma51
