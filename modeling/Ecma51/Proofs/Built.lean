import Ecma51.Proofs.TimeValues

/-!
# Operations and what they are built from

Almost everything in the library is put together from a few basic operations. What the basic ones
preserve, everything built from them preserves, by one induction; so it is worth knowing once for each
operation that it is built from them.

* `Built`: the operation is put together from basic ones.
* `built_getProperty`, `built_toNumber`, `built_putTo`, `built_construct` and the like: operations.
-/

namespace Ecma51

/-! ## 1. Basic operations -/

/-- The machines agree in all that other operations depend on: at most the pending exception, the
output, the names and the random numbers differ, and that `eval` was called by its name may be
forgotten. -/
structure Machine.SameCore (m m' : Machine) : Prop where
  heap : m'.heap = m.heap
  held : m'.held = m.held
  stack : m'.stack = m.stack
  contexts : m'.contexts = m.contexts
  callDepth : m'.callDepth = m.callDepth
  maxCallDepth : m'.maxCallDepth = m.maxCallDepth
  directEval : m'.directEval = m.directEval ∨ m'.directEval = none

/-- The heaps have the same objects: at most their environments differ. -/
structure Heap.SameObjects (h h' : Heap) : Prop where
  objects : h'.objects = h.objects
  nextObject : h'.nextObject = h.nextObject

/-- There is something to report: no program sees the throwing of `nothing`. -/
def Failure.IsProper : Failure → Prop
  | .thrown v => v ≠ .nothing
  | _ => True

/-- The operation is put together from basic ones. -/
inductive Built : {α : Type} → Run α → Prop where
  | pure {α : Type} (a : α) : Built (pure a)
  | bind {α β : Type} {x : Run α} {f : α → Run β} :
      Built x → (∀ a, Built (f a)) → Built (x >>= f)
  | throw {α : Type} {e : Failure} : e.IsProper → Built (throw e : Run α)
  | get : Built (get : Run Machine)
  | aside {α : Type} (f : Machine → α × Machine) :
      (∀ m : Machine, m.SameCore (f m).2) → Built (modifyGet f : Run α)
  | holding {α : Type} (vs : List Value) {x : Run α} : Built x → Built (holding vs x)
  | hold (v : Value) : Built (hold v)
  | consuming {σ : Type} {step : σ → Value → Run σ} (s : σ) (vs : List Value) :
      (∀ s v, Built (step s v)) → Built (consuming step s vs)
  | nestedCall {α : Type} {x : Run α} : Built x → Built (nestedCall x)
  | call (f : ObjectId) (this : Value) (args : List Value) : Built (call f this args)
  | callNative (f : ObjectId) (b : Builtin) (this : Value) (args : List Value) :
      Built (callNative f b this args)
  | runCode (code : Code) (context : Context) : Built (runCode code context 0 0 .undefined)
  | newObjectOf {x : Object} : x.Made → x.HoldsTime → Built (newObjectOf x)
  /-- A date gets a time value. -/
  | newDate {time : Run Double} (className : String) (p : Option ObjectId) : Built time → Gives Double.IsTime time →
      Built (do newObjectOf (.ofKind className p (.date (← time))))
  | environments (f : Heap → Heap) : (∀ h : Heap, h.SameObjects (f h)) → Built (modifyHeap f)
  | newDeclarative (outer : EnvironmentId) : Built (newDeclarative outer)
  /-- A new length is converted to a number first. -/
  | defineOwn (o : ObjectId) (k : Key) (d : Descriptor) (throws : Bool) :
      (∀ v, Built (toNumber v)) → Built (defineOwn o k d throws)
  | deleteOwn (o : ObjectId) (k : Key) (throws : Bool) : Built (deleteOwn o k throws)
  | restrictOwn (o : ObjectId) (freeze : Bool) : Built (restrictOwn o freeze)
  | closeOwn (o : ObjectId) : Built (closeOwn o)
  | newCompiledFunction (code : Code) (scope : EnvironmentId) (strict : Bool) (n : Nat) :
      Built (newCompiledFunction code scope strict n)
  /-- The message is converted to a text first. -/
  | constructError (kind : ErrorKind) (message : Value) :
      (∀ v, Built (toText v)) → Built (constructError kind message)
  | updateTime (this : Value) (f : DateFunction) {next : Double → Run Double} :
      (∀ t, Built (next t)) → (∀ t, Gives Double.IsTime (next t)) → Built (updateTime this f next)

attribute [grind ←] Built.pure Built.bind Built.get Built.holding Built.hold
  Built.consuming Built.nestedCall Built.call Built.callNative Built.runCode Built.newObjectOf
  Built.newDeclarative Built.deleteOwn Built.restrictOwn Built.closeOwn Built.newCompiledFunction
  Built.updateTime

/-! ## 2. Small steps -/

section Steps

variable {α β : Type}

@[grind ←] theorem built_map (f : α → β) {x : Run α} (h : Built x) : Built (f <$> x) := by
  rw [← bind_pure_comp]
  exact .bind h fun _ => .pure _

@[grind ←] theorem built_raise (f : Fault) : Built (raise f : Run α) := .throw trivial

@[grind ←] theorem built_orRaise (x : Except Fault α) : Built (orRaise x) := by
  unfold orRaise
  grind

@[grind ←] theorem built_getHeap : Built getHeap := .bind .get fun _ => .pure _

theorem built_forM {f : α → Run PUnit} (h : ∀ a, Built (f a)) (l : List α) : Built (l.forM f) := by
  induction l with
  | nil => exact .pure _
  | cons a l ih => exact .bind (h a) fun _ => ih

theorem built_mapM {f : α → Run β} (h : ∀ a, Built (f a)) (l : List α) : Built (l.mapM f) := by
  induction l with
  | nil => exact .pure _
  | cons a l ih =>
    rw [List.mapM_cons]
    exact .bind (h a) fun _ => .bind ih fun _ => .pure _

@[grind ←] theorem built_internName (t : Text) : Built (internName t) :=
  .aside _ fun _ => ⟨rfl, rfl, rfl, rfl, rfl, rfl, .inl rfl⟩

@[grind ←] theorem built_newArray (items : List Value) : Built (newArray items) :=
  .newObjectOf (made_arrayOf items) (holdsTime_arrayOf items)

@[grind ←] theorem built_newObjectWith (p : Option ObjectId) : Built (newObjectWith p) :=
  .newObjectOf (made_ordinary p) (holdsTime_ordinary p)

@[grind ←] theorem built_newObject : Built newObject := built_newObjectWith _

theorem Heap.sameObjects_setRecord (h : Heap) (e : EnvironmentId) (r : Record) :
    h.SameObjects (h.setRecord e r) := ⟨rfl, rfl⟩

theorem Heap.sameObjects_modifyBindings (h : Heap) (e : EnvironmentId) (f : Bindings → Bindings) :
    h.SameObjects (h.modifyBindings e f) := by
  unfold modifyBindings
  split <;> exact ⟨rfl, rfl⟩

theorem built_modifyBindings (e : EnvironmentId) (f : Bindings → Bindings) :
    Built (modifyHeap (·.modifyBindings e f)) := .environments _ fun h => h.sameObjects_modifyBindings e f

theorem built_setRecord (e : EnvironmentId) (r : Record) : Built (modifyHeap (·.setRecord e r)) :=
  .environments _ fun h => h.sameObjects_setRecord e r

end Steps

/-! ## 3. Reading and converting -/

@[grind ←] theorem built_toObject (v : Value) : Built (toObject v) := by
  unfold toObject
  split
  · exact .pure _
  · split
    · rename_i hx
      exact .newObjectOf (made_wrapperOf hx) (holdsTime_wrapperOf hx)
    · exact built_raise _

@[grind ←] theorem built_callValue (f this : Value) (args : List Value) :
    Built (callValue f this args) := by
  unfold callValue
  grind

@[grind ←] theorem built_getFor (o : ObjectId) (k : Key) (receiver : Value) :
    Built (getFor o k receiver) := by grind [getFor]

@[grind ←] theorem built_getFrom (o : ObjectId) (k : Key) : Built (getFrom o k) := by grind [getFrom]

@[grind ←] theorem built_getNamed (o : ObjectId) (name : String) : Built (getNamed o name) :=
  built_getFrom o _

@[grind ←] theorem built_getProperty (v : Value) (k : Key) : Built (getProperty v k) := by
  unfold getProperty
  grind

@[grind ←] theorem built_firstPrimitive (o : ObjectId) (names : List String) :
    Built (firstPrimitive o names) := by
  induction names with
  | nil => exact built_raise _
  | cons name rest ih => grind [firstPrimitive]

@[grind ←] theorem built_toPrimitive (v : Value) (hint : Hint) : Built (toPrimitive v hint) := by
  unfold toPrimitive
  grind

/-- **Conversion to a number is built from basic operations**; so defining a length is. -/
@[grind ←] theorem built_toNumber (v : Value) : Built (toNumber v) := by
  unfold toNumber
  grind

@[grind ←] theorem built_toInteger (v : Value) : Built (toInteger v) := by grind [toInteger]

@[grind ←] theorem built_toUint32 (v : Value) : Built (toUint32 v) := by grind [toUint32]

@[grind ←] theorem built_toInt32 (v : Value) : Built (toInt32 v) := by grind [toInt32]

@[grind ←] theorem built_toUint16 (v : Value) : Built (toUint16 v) := by grind [toUint16]

@[grind ←] theorem built_toText (v : Value) : Built (toText v) := by
  unfold toText
  grind

@[grind ←] theorem built_toKey (v : Value) : Built (toKey v) := by
  unfold toKey
  grind

/-! ## 4. Writing -/

@[grind ←] theorem built_defineOwn (o : ObjectId) (k : Key) (d : Descriptor) (throws : Bool) :
    Built (defineOwn o k d throws) := .defineOwn o k d throws built_toNumber

@[grind ←] theorem built_createData (o : ObjectId) (k : Key) (v : Value) :
    Built (createData o k v) := built_defineOwn o k _ _

@[grind ←] theorem built_refuse (throws : Bool) (f : Fault) : Built (refuse throws f) := by
  grind [refuse]

@[grind ←] theorem built_putFor (o : ObjectId) (k : Key) (v receiver : Value) (throws : Bool) :
    Built (putFor o k v receiver throws) := by grind [putFor]

@[grind ←] theorem built_putTo (o : ObjectId) (k : Key) (v : Value) (throws : Bool) :
    Built (putTo o k v throws) := built_putFor o k v _ throws

@[grind ←] theorem built_putNamed (o : ObjectId) (name : String) (v : Value) :
    Built (putNamed o name v) := built_putTo o _ v _

@[grind ←] theorem built_putProperty (target : Value) (k : Key) (v : Value) (throws : Bool) :
    Built (putProperty target k v throws) := by
  unfold putProperty
  grind

/-! ## 5. Methods and array-likes -/

@[grind ←] theorem built_getMethod (v : Value) (k : Key) : Built (getMethod v k) := by
  grind [getMethod]

@[grind ←] theorem built_invoke (v : Value) (name : Text) (args : List Value) :
    Built (invoke v name args) := by grind [invoke]

@[grind ←] theorem built_lengthOfArrayLike (o : ObjectId) : Built (lengthOfArrayLike o) := by
  grind [lengthOfArrayLike]

@[grind ←] theorem built_elementsFrom (o : ObjectId) (n i : Nat) (acc : List Value) :
    Built (elementsFrom o n i acc) := by
  induction n generalizing i acc with
  | zero => exact .pure _
  | succ n ih => grind [elementsFrom]

@[grind ←] theorem built_listOfArrayLike (v : Value) : Built (listOfArrayLike v) := by
  unfold listOfArrayLike
  grind

/-! ## 6. Descriptors -/

@[grind ←] theorem built_field (o : ObjectId) (name : String) : Built (field? o name) := by
  grind [field?]

@[grind ←] theorem built_keptField (o : ObjectId) (name : String) : Built (keptField? o name) := by
  refine .bind (built_field o name) fun v => ?_
  cases v with
  | none => exact .bind (.pure _) fun _ => .pure _
  | some v => exact .bind (.hold v) fun _ => .pure _

@[grind ←] theorem built_accessorField (o : ObjectId) (name : String) (refusal : Fault) :
    Built (accessorField? o name refusal) := by grind [accessorField?]

@[grind ←] theorem built_toDescriptor (v : Value) : Built (toDescriptor v) := by
  unfold toDescriptor
  split
  · refine .bind (built_field _ _) fun _ => .bind (built_field _ _) fun _ => ?_
    refine .bind (built_keptField _ _) fun _ => .bind (built_field _ _) fun _ => ?_
    refine .bind (built_accessorField _ _ _) fun _ => .bind (built_accessorField _ _ _) fun _ => ?_
    grind
  · exact built_raise _

@[grind ←] theorem built_describe (p : Option Property) : Built (describe p) := by
  unfold describe
  grind

/-! ## 7. Constructing -/

@[grind ←] theorem built_construct (f : ObjectId) (args : List Value) : Built (construct f args) := by
  refine .bind built_getHeap fun h => ?_
  dsimp only
  split
  · exact built_raise _
  · exact built_raise _
  · exact .callNative _ _ _ _
  · refine .holding _ (.bind (built_getNamed _ _) fun p => .bind (.hold p) fun _ => ?_)
    refine .bind (built_newObjectWith _) fun o => .bind (.hold _) fun _ => ?_
    grind

@[grind ←] theorem built_hasInstance (f : ObjectId) (v : Value) : Built (hasInstance f v) := by
  refine .bind built_getHeap fun h => ?_
  dsimp only
  split
  · refine .bind (built_getNamed _ _) fun p => ?_
    grind
  · exact .pure _

@[grind ←] theorem built_newBoundFunction (target : ObjectId) (this : Value) (args : List Value) :
    Built (newBoundFunction target this args) := by grind [newBoundFunction]

@[grind ←] theorem built_newRegExp (source flags : Text) : Built (newRegExp source flags) := by
  grind [newRegExp]

/-! ## 8. Names -/

@[grind ←] theorem built_createBinding (e : EnvironmentId) (name : Text) (deletable : Bool) :
    Built (createBinding e name deletable) := by
  refine .bind built_getHeap fun h => ?_
  split
  · exact built_modifyBindings e _
  · exact .bind (built_defineOwn _ _ _ _) fun _ => .pure _

@[grind ←] theorem built_assignBinding (e : EnvironmentId) (name : Text) (v : Value) (strict : Bool) :
    Built (assignBinding e name v strict) := by
  refine .bind built_getHeap fun h => ?_
  split
  · exact .bind (built_orRaise _) fun b => built_setRecord e _
  · exact built_putTo _ _ v strict

@[grind ←] theorem built_readBinding (e : EnvironmentId) (name : Text) (strict : Bool) :
    Built (readBinding e name strict) := by grind [readBinding]

@[grind ←] theorem built_deleteBinding (e : EnvironmentId) (name : Text) :
    Built (deleteBinding e name) := by
  refine .bind built_getHeap fun h => ?_
  split
  · exact .bind (built_setRecord e _) fun _ => .pure _
  · exact .deleteOwn _ _ _

@[grind ←] theorem built_resolveName (name : Text) : Built (resolveName name) := by
  grind [resolveName]

@[grind ←] theorem built_readReference (r : Reference) : Built (readReference r) := by
  unfold readReference
  grind

@[grind ←] theorem built_assignReference (r : Reference) (v : Value) :
    Built (assignReference r v) := by
  unfold assignReference
  grind

@[grind ←] theorem built_declareParameter (strict : Bool) (name : Text) (v : Value) :
    Built (declareParameter strict name v) := by grind [declareParameter]

@[grind ←] theorem built_declareVariable (name : Text) : Built (declareVariable name) := by
  grind [declareVariable]

@[grind ←] theorem built_prepareGlobal (k : Key) (deletable : Bool) :
    Built (prepareGlobal k deletable) := by grind [prepareGlobal]

@[grind ←] theorem built_declareFunction (name : Text) (f : Value) :
    Built (declareFunction name f) := by grind [declareFunction]

/-! ## 9. Operators -/

@[grind ←] theorem built_looseEq (x y : Value) : Built (looseEq x y) := by
  unfold looseEq
  grind

@[grind ←] theorem built_lessThan (x y : Value) (leftFirst : Bool) :
    Built (lessThan x y leftFirst) := by grind [lessThan]

@[grind ←] theorem built_unaryOperator (op : UnaryOperator) (v : Value) :
    Built (unaryOperator op v) := by
  unfold unaryOperator
  grind

@[grind ←] theorem built_addValues (l r : Value) : Built (addValues l r) := by
  unfold addValues
  grind

@[grind ←] theorem built_isInside (l r : Value) : Built (isInside l r) := by
  unfold isInside
  grind

@[grind ←] theorem built_isInstance (l r : Value) : Built (isInstance l r) := by
  unfold isInstance
  grind

@[grind ←] theorem built_binaryOperator (op : BinaryOperator) (l r : Value) :
    Built (binaryOperator op l r) := by
  unfold binaryOperator
  grind [numeric, bitwise]

/-! ## 10. Primitive operations -/

theorem built_rawKey (raw : Nat) : Built (rawKey raw) := by
  refine .bind .get fun m => ?_
  split
  · exact .pure _
  · exact built_raise _

theorem built_findKeyed (target : Value) {key : Run Key} (h : Built key) :
    Built (findKeyed target key) :=
  .bind h fun k => .bind (built_getProperty target k) fun _ => .pure _

theorem built_findNamed (name : Text) : Built (findNamed name) := by
  refine .bind (built_resolveName name) fun r => ?_
  split
  · refine .bind built_getHeap fun h => .bind (built_readReference r) fun f => ?_
    refine .bind built_getHeap fun h => ?_
    split
    · exact .pure _
    · exact built_raise _
  · exact built_raise _

theorem built_constructWith (f : Value) (args : List Value) : Built (constructWith f args) := by
  unfold constructWith
  split
  · refine .bind built_getHeap fun h => ?_
    split
    · exact built_construct _ args
    · exact built_raise _
  · exact built_raise _

theorem built_assignName (name : Text) (v : Value) : Built (assignName name v) := by
  refine .bind (built_resolveName name) fun r => ?_
  split
  · exact built_raise _
  · exact built_assignReference r v

theorem built_deleteName (name : Text) : Built (deleteName name) := by
  refine .bind (built_resolveName name) fun r => ?_
  split
  · exact built_deleteBinding _ name
  · split
    · exact built_raise _
    · exact .pure _

theorem built_linkName (kind : LinkKind) (name : Text) (v : Value) : Built (linkName kind name v) := by
  refine .bind .get fun m => ?_
  dsimp only
  split
  · exact .pure _
  · split
    · exact .pure _
    · exact .pure _
    · exact .bind (built_modifyBindings _ _) fun _ => .pure _

theorem built_deleteProperty (v : Value) (k : Key) : Built (deleteProperty v k) :=
  .bind (built_toObject v) fun _ => .bind .get fun _ => .bind (.deleteOwn _ k _) fun _ => .pure _

theorem built_assignProperty (target : Value) (k : Key) (v : Value) :
    Built (assignProperty target k v) :=
  .bind .get fun _ => .bind (built_putProperty target k v _) fun _ => .pure _

theorem built_arrayLiteral (items : List Value) : Built (arrayLiteral items) :=
  .bind (.newObjectOf (made_literalArray items) (Object.holdsTime_of_isDate rfl)) fun _ => .pure _

theorem built_addAccessor (isSetter : Bool) (name : Text) (target f : Value) :
    Built (addAccessor isSetter name target f) :=
  .bind (built_toObject target) fun _ => .bind (built_defineOwn _ _ _ _) fun _ => .pure _

theorem built_addMember (target k v : Value) : Built (addMember target k v) :=
  .bind (built_toKey k) fun _ => .bind (built_toObject target) fun _ =>
    .bind (built_createData _ _ v) fun _ => .pure _

theorem built_convertValue (target : Conversion) (v : Value) : Built (convertValue target v) := by
  unfold convertValue
  grind

theorem built_objectOf (v : Value) : Built (objectOf v) := by
  unfold objectOf
  grind

end Ecma51
