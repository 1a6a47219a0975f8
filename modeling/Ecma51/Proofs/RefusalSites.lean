import Ecma51.Operation.Refusing
import Ecma51.Proofs.Settling

/-!
# One operation, with errors and without

An operation that is told whether a refusal is an error is run twice on one machine. Place by place the two runs do the
same, up to a refusal: there the one ends with a type error and the other with the answer that it was refused, and they
have left the same machine behind. This is shown for each place that refuses, and is handed on by operations that run
others, whether they pass the flag on or ask for an answer.

The same operations are then compared with those that come to an outcome first.

* `Refusing.Alike`: the two ends of such runs; `Refusing.AlikeAt`: of an operation on a machine.
* **`Refusing.AlikeAt.goesOn`**: an operation that goes on unless another one was refused.
* **`Refusing.alike_defineOwn`**, **`Refusing.alike_deleteOwn`**, **`Refusing.alike_putFor`**: the two runs of
  definitions, deletions and assignments.
* **`Refusing.defineOwn_eq`**, **`Refusing.deleteOwn_eq`**, **`Refusing.putFor_eq`**: a refusal may as well be made an
  error at the end.
-/

namespace Ecma51

namespace Refusing

variable {bodies : Bodies} {m : Machine} {o : ObjectId} {k : Key} {d : Descriptor} {throws : Bool}

/-! ## 1. Two runs -/

/-- How an operation ends if its refusals are errors, and how it ends if they are answers. -/
inductive Alike : EStateM.Result Failure Machine Bool → EStateM.Result Failure Machine Bool → Prop
  /-- It was carried out. -/
  | done (m : Machine) : Alike (.ok true m) (.ok true m)
  /-- It was refused. -/
  | refused {f : Fault} (m : Machine) (hf : f.kind = .typeError) : Alike (.error (.fault f) m) (.ok false m)
  /-- It was given a number out of range, which is an error either way. -/
  | failed {f : Fault} (m : Machine) (hf : f.kind = .rangeError) :
      Alike (.error (.fault f) m) (.error (.fault f) m)

/-- The two runs of an operation on a machine end alike. -/
def AlikeAt (bodies : Bodies) (m : Machine) (strict lax : Run Bool) : Prop := Alike (strict bodies m) (lax bodies m)

theorem alike_reject {f : Fault} (hf : f.kind = .typeError) : AlikeAt bodies m (reject true f) (reject false f) :=
  .refused m hf

theorem alike_write (o : ObjectId) (k : Key) (p : Property) : AlikeAt bodies m (write o k p) (write o k p) := .done _

theorem alike_pure : AlikeAt bodies m (pure true) (pure true) := .done m

/-- What is done before, in the same way by both. -/
theorem AlikeAt.after {α : Type} {x : Run α} {a : α} {m' : Machine} {f g : α → Run Bool}
    (hx : x bodies m = .ok a m') (h : AlikeAt bodies m' (f a) (g a)) : AlikeAt bodies m (x >>= f) (x >>= g) := by
  unfold AlikeAt
  rw [bind_run_ok hx, bind_run_ok hx]
  exact h

/-- A case distinction that both make. -/
theorem AlikeAt.ite {c : Prop} [Decidable c] {x y x' y' : Run Bool} (hx : c → AlikeAt bodies m x x')
    (hy : ¬ c → AlikeAt bodies m y y') : AlikeAt bodies m (if c then x else y) (if c then x' else y') := by
  by_cases hc : c
  · rw [if_pos hc, if_pos hc]
    exact hx hc
  · rw [if_neg hc, if_neg hc]
    exact hy hc

/-- **An operation that goes on unless another one was refused**, to which it hands on whether that is an error. -/
theorem AlikeAt.goesOn {x x' rest rest' : Run Bool} (hx : AlikeAt bodies m x x')
    (hrest : ∀ m', AlikeAt bodies m' rest rest') :
    AlikeAt bodies m (x >>= fun b => if b = true then rest else pure false)
      (x' >>= fun b => if b = true then rest' else pure false) := by
  unfold AlikeAt at hx ⊢
  generalize hstrict : x bodies m = strict at hx
  generalize hlax : x' bodies m = lax at hx
  cases hx with
  | done m' =>
    rw [bind_run_ok hstrict, bind_run_ok hlax]
    exact hrest m'
  | refused m' hf =>
    rw [bind_run_error hstrict, bind_run_ok hlax]
    exact .refused m' hf
  | failed m' hf =>
    rw [bind_run_error hstrict, bind_run_error hlax]
    exact .failed m' hf

theorem AlikeAt.holding {x x' : Run Bool} {vs : List Value} (hx : AlikeAt bodies { m with held := vs ++ m.held } x x') :
    AlikeAt bodies m (Ecma51.holding vs x) (Ecma51.holding vs x') := by
  unfold AlikeAt at hx ⊢
  generalize hstrict : x bodies _ = strict at hx
  generalize hlax : x' bodies _ = lax at hx
  cases hx with
  | done m' =>
    rw [holding_ok hstrict, holding_ok hlax]
    exact .done _
  | refused m' hf =>
    rw [holding_error hstrict, holding_ok hlax]
    exact .refused _ hf
  | failed m' hf =>
    rw [holding_error hstrict, holding_error hlax]
    exact .failed _ hf

/-! ## 2. Operations and their outcomes -/

theorem reject_run (throws : Bool) (f : Fault) :
    reject throws f bodies m = (Heap.Outcome.refused m.heap f).ended throws m := by
  cases throws <;> rfl

theorem write_run (throws : Bool) (p : Property) :
    write o k p bodies m = (Heap.Outcome.done (m.heap.store o k p)).ended throws m := rfl

/-- An operation with an outcome, asked for an answer. -/
theorem ended_false (r : Heap.Outcome) (m : Machine) :
    r.ended false m = .ok r.succeeded { m with heap := r.heap } := by
  obtain ⟨h, refusal⟩ := r
  cases refusal <;> rfl

section Branching

variable {x a b : Run Bool} {r : Heap.Outcome}

/-- An operation that goes on unless another one was refused: it is refused with it. -/
theorem goesOn_run (hx : x bodies m = r.ended throws m) :
    (x >>= fun b => if b = true then a else pure false) bodies m =
      if r.succeeded then a bodies { m with heap := r.heap } else r.ended throws m := by
  obtain ⟨h, refusal⟩ := r
  cases refusal with
  | none => exact bind_run_ok hx _
  | some f =>
    cases throws with
    | true => exact bind_run_error hx _
    | false => exact bind_run_ok hx _

/-- An operation that asks another one for an answer. -/
theorem asking_run (hx : x bodies m = r.ended false m) :
    (x >>= fun c => if c = true then a else b) bodies m =
      if r.succeeded then a bodies { m with heap := r.heap } else b bodies { m with heap := r.heap } := by
  rw [bind_run_ok (hx.trans (ended_false r m))]
  cases r.succeeded <;> rfl

/-- An operation of which the answer is of no interest. -/
theorem asked_run (hx : x bodies m = r.ended false m) :
    (x >>= fun _ => a) bodies m = a bodies { m with heap := r.heap } :=
  bind_run_ok (hx.trans (ended_false r m)) _

end Branching

/-! ### Ordinary objects -/

/-- A change comes to a property that is stored, or is refused. -/
def changed (h : Heap) (o : ObjectId) (k : Key) : Option Property → Heap.Outcome
  | some q => .done (h.store o k q)
  | none => .refused h (.cannotRedefine k.toText)

theorem changeContent_run (p : Property) (throws : Bool) :
    changeContent o k d p throws bodies m =
      (changed m.heap o k (if d.keepsContent p then some (d.update p) else none)).ended throws m := by
  have hreject : reject throws (.cannotRedefine k.toText) bodies m = _ := reject_run throws _
  cases p with
  | data v w e c =>
    by_cases hvalue : Descriptor.agrees d.value v = true <;> by_cases hwritable : d.writable = some true <;>
      cases c <;> cases w <;>
      simp [changeContent, Descriptor.keepsContent, Property.configurable, changed, hvalue, hwritable, hreject,
        write_run throws]
  | accessor g s e c =>
    by_cases hget : Descriptor.agrees d.get g = true <;> by_cases hset : Descriptor.agrees d.set s = true <;>
      cases c <;>
      simp [changeContent, Descriptor.keepsContent, Property.configurable, changed, hget, hset, hreject,
        write_run throws]

/-- The places that refuse a change are those where a description makes nothing of a property. -/
theorem change_run {p : Property} (hp : ¬ d.holdsOf p = true) (throws : Bool) :
    change o k d p throws bodies m = (changed m.heap o k (d.redefine? p)).ended throws m := by
  have hreject : reject throws (.cannotRedefine k.toText) bodies m = _ := reject_run throws _
  have hcontent : changeContent o k d p throws bodies m = _ := changeContent_run p throws
  have hne : (d.configurable != some true) = !(d.configurable == some true) := rfl
  unfold change Descriptor.redefine? Descriptor.keepsAttributes Descriptor.switchesKind
  rw [if_neg hp, hne]
  cases hconfigurable : p.configurable with
  | true =>
    cases hgeneric : d.isGeneric with
    | true => rfl
    | false =>
      cases hkind : p.isData != d.isData with
      | true => rfl
      | false => exact hcontent
  | false =>
    cases d.configurable == some true with
    | true => exact hreject
    | false =>
      cases Descriptor.agreesFlag d.enumerable p.enumerable with
      | false => exact hreject
      | true =>
        cases d.isGeneric with
        | true => rfl
        | false =>
          cases p.isData != d.isData with
          | true => exact hreject
          | false => exact hcontent

theorem defineOrdinary_run (o : ObjectId) (k : Key) (d : Descriptor) (throws : Bool) :
    defineOrdinary o k d throws bodies m = (m.heap.defineOrdinary o k d).ended throws m := by
  unfold defineOrdinary Heap.defineOrdinary
  rw [getHeap_bind_run]
  cases m.heap.getOwn? o k with
  | none =>
    cases (m.heap.object o).extensible with
    | true => exact write_run throws _
    | false => exact reject_run throws _
  | some p =>
    dsimp only
    by_cases hholds : d.holdsOf p = true
    · rw [if_pos hholds, if_pos hholds]
      rfl
    · rw [if_neg hholds, if_neg hholds, change_run hholds]
      cases d.redefine? p <;> rfl

theorem deleteOwn_run (o : ObjectId) (k : Key) (throws : Bool) :
    deleteOwn o k throws bodies m = (m.heap.deleteOwn o k).ended throws m := by
  unfold deleteOwn Heap.deleteOwn
  rw [getHeap_bind_run]
  cases m.heap.getOwn? o k with
  | none => rfl
  | some p =>
    dsimp only
    cases p.configurable with
    | true => rfl
    | false => exact reject_run throws _

/-! ### Arguments objects and arrays -/

/-- What is passed on, if the definition was carried out. -/
theorem pass_run (shared : Option (EnvironmentId × Text)) (throws : Bool) :
    (pass o k d shared >>= fun _ => pure true : Run Bool) bodies m =
      (Heap.Outcome.done (match shared with
        | none => m.heap
        | some (e, name) =>
          if d.isAccessor then m.heap.unmapArgument o k
          else if d.writable == some false then (m.heap.passOn e name d.value).unmapArgument o k
          else m.heap.passOn e name d.value)).ended throws m := by
  rcases shared with _ | ⟨e, name⟩
  · rfl
  · unfold pass
    cases d.isAccessor with
    | true => rfl
    | false => cases d.writable == some false <;> rfl

theorem defineArguments_run (o : ObjectId) (k : Key) (d : Descriptor) (throws : Bool) :
    defineArguments o k d throws bodies m = (m.heap.defineArguments o k d).ended throws m := by
  unfold defineArguments Heap.defineArguments
  rw [getHeap_bind_run, goesOn_run (defineOrdinary_run o k d throws), pass_run _ throws]
  unfold sharedParameter? Heap.Outcome.succeeded
  generalize m.heap.defineOrdinary o k d = r
  obtain ⟨h, refusal⟩ := r
  cases refusal with
  | some f => rfl
  | none =>
    dsimp only
    rw [Option.isNone_none, if_pos rfl]
    split
    · rename_i hshared
      rw [hshared]
      rfl
    · rename_i hshared
      rw [hshared]
      dsimp only
      split
      · rfl
      · split <;> rfl

theorem defineElement_run (o : ObjectId) (i : ArrayIndex) (d : Descriptor) (n : Nat) (w throws : Bool) :
    defineElement o i d n w throws bodies m = (m.heap.defineElement o i d n w).ended throws m := by
  unfold defineElement Heap.defineElement
  by_cases hlocked : n ≤ i ∧ (!w) = true
  · rw [if_pos hlocked, if_pos hlocked]
    exact reject_run throws _
  rw [if_neg hlocked, if_neg hlocked, asking_run (defineOrdinary_run o _ d false)]
  dsimp only
  cases hdone : (m.heap.defineOrdinary o (.index i) d).succeeded with
  | false => exact reject_run throws _
  | true =>
    rw [if_pos rfl, Bool.not_true, if_neg Bool.false_ne_true]
    by_cases hgrows : n ≤ i
    · rw [if_pos hgrows, if_pos hgrows]
      exact (asked_run (defineOrdinary_run o .length _ false)).trans rfl
    · rw [if_neg hgrows, if_neg hgrows, Heap.Outcome.eq_done (Option.isNone_iff_eq_none.mp hdone)]
      rfl

/-- What is left of the elements to go decides, from the first that stays. -/
theorem cutElements_run (o : ObjectId) (d : Descriptor) (freezes throws : Bool) (doomed : List ArrayIndex)
    (m : Machine) :
    cutElements o d freezes throws doomed bodies m =
      Heap.Outcome.ended (match m.heap.deleteElements o doomed with
        | (h, some i) =>
          .refused (h.defineOrdinary o .length { d with
            value := some (.ofNat (i + 1))
            writable := if freezes then some false else d.writable }).heap (.cannotDelete (Text.ofNat i))
        | (h, none) =>
          .done (if freezes then (h.defineOrdinary o .length { writable := some false }).heap else h)) throws m := by
  induction doomed generalizing m with
  | nil =>
    unfold cutElements
    cases freezes with
    | false => rfl
    | true => exact (asked_run (defineOrdinary_run o .length _ false)).trans rfl
  | cons i rest ih =>
    unfold cutElements Heap.deleteElements
    rw [asking_run (deleteOwn_run o (.index i) false)]
    dsimp only
    cases (m.heap.deleteOwn o (.index i)).succeeded with
    | true => exact ih _
    | false =>
      exact (asked_run (defineOrdinary_run o .length _ false)).trans (reject_run throws _)

/-- A length is set first, and then the elements behind it go. -/
theorem shrink_run (o : ObjectId) (d : Descriptor) (n : Nat) (freezes throws : Bool) (m : Machine) :
    (defineOrdinary o .length d throws >>= fun b =>
        if b = true then getHeap >>= fun h =>
          cutElements o d freezes throws ((h.object o).properties.indexKeys.filter fun i => n ≤ i.val).reverse
        else pure false) bodies m =
      (if (m.heap.defineOrdinary o .length d).succeeded then
        (m.heap.defineOrdinary o .length d).heap.cutElements o d n freezes
      else m.heap.defineOrdinary o .length d).ended throws m := by
  rw [goesOn_run (defineOrdinary_run o _ _ throws), getHeap_bind_run]
  split
  · exact cutElements_run o d freezes throws _ _
  · rfl

theorem setLength_run (o : ObjectId) (d : Descriptor) (n n₀ : Nat) (w throws : Bool) (m : Machine) :
    setLength o d n n₀ w throws bodies m = (m.heap.setLength o d n n₀ w).ended throws m := by
  unfold setLength Heap.setLength
  dsimp only
  by_cases hgrows : n₀ ≤ n
  · rw [if_pos hgrows, if_pos hgrows]
    exact defineOrdinary_run o _ _ throws
  rw [if_neg hgrows, if_neg hgrows]
  cases w with
  | false => exact reject_run throws _
  | true => exact shrink_run o _ n _ throws m

/-! ### All objects -/

/-- An outcome that the heap comes to, as a run. -/
theorem eq_settling {x : Run Bool} {f : Heap → Heap.Outcome}
    (hx : ∀ bodies m, x bodies m = (f m.heap).ended throws m) : x = getHeap >>= fun h => settle throws (f h) := by
  funext bodies m
  rw [getHeap_bind_run, settle_run]
  exact hx bodies m

theorem defineLength_eq (o : ObjectId) (d : Descriptor) (v : Value) (throws : Bool) :
    defineLength o d v throws = Ecma51.defineLength o d v throws := by
  have hset (n n₀ : Nat) (w : Bool) :
      setLength o d n n₀ w throws = getHeap >>= fun h => settle throws (h.setLength o d n n₀ w) :=
    eq_settling fun _ m => setLength_run o d n n₀ w throws m
  unfold defineLength Ecma51.defineLength
  simp only [hset]

/-- **Whether a refusal is an error may be settled at the end**: of definitions, -/
theorem defineOwn_eq (o : ObjectId) (k : Key) (d : Descriptor) (throws : Bool) :
    defineOwn o k d throws = Ecma51.defineOwn o k d throws := by
  funext bodies m
  have hsettled {x : Run Bool} {r : Heap.Outcome} (hx : x bodies m = r.ended throws m) :
      x bodies m = settle throws r bodies m := hx.trans (settle_run throws r).symm
  unfold defineOwn Ecma51.defineOwn
  rw [getHeap_bind_run, getHeap_bind_run]
  unfold lengthValue? Heap.define Object.isArray
  cases (m.heap.object o).kind with
  | array =>
    dsimp only
    by_cases hk : k = .length
    · subst hk
      cases d.value with
      | none => exact hsettled (defineOrdinary_run o _ d throws)
      | some v =>
        dsimp only
        rw [defineLength_eq]
        rfl
    · rw [decide_eq_false hk, if_neg hk, Bool.and_false, if_neg Bool.false_ne_true]
      cases k with
      | index i => exact hsettled (defineElement_run o i d _ _ throws)
      | name t => exact hsettled (defineOrdinary_run o _ d throws)
  | arguments a => exact hsettled (defineArguments_run o k d throws)
  | _ => exact hsettled (defineOrdinary_run o k d throws)

/-- of deletions, -/
theorem deleteOwn_eq (o : ObjectId) (k : Key) (throws : Bool) :
    deleteOwn o k throws = Ecma51.deleteOwn o k throws :=
  eq_settling fun _ _ => deleteOwn_run o k throws

/-- and of assignments. -/
theorem putFor_eq (o : ObjectId) (k : Key) (v receiver : Value) (throws : Bool) :
    putFor o k v receiver throws = Ecma51.putFor o k v receiver throws := by
  funext bodies m
  have hreject (f : Fault) :
      (reject throws f >>= fun _ => pure ⟨⟩ : Run Unit) bodies m = refuse throws f bodies m := by
    cases throws <;> rfl
  unfold putFor Ecma51.putFor
  rw [getHeap_bind_run, getHeap_bind_run]
  simp only [defineOwn_eq]
  cases m.heap.canPut o k with
  | false => exact hreject _
  | true =>
    rw [Bool.not_true, if_neg Bool.false_ne_true, if_neg Bool.false_ne_true]
    generalize (receiver == Value.object o) = isSelf
    rcases hown : m.heap.getOwn? o k with _ | ⟨u, w, e, c⟩ | ⟨g, s, e, c⟩
    · rcases m.heap.getProperty? o k with _ | ⟨u', w', e', c'⟩ | ⟨g', s', e', c'⟩
      · cases isSelf with
        | true => rfl
        | false => exact hreject _
      · cases isSelf with
        | true => rfl
        | false => exact hreject _
      · cases isSelf <;> rfl
    · -- an own value is what the lookup finds
      rw [Heap.getProperty?_of_own hown]
      cases isSelf with
      | true => rfl
      | false => exact hreject _
    · rw [Heap.getProperty?_of_own hown]

/-! ## 3. The two runs of definitions, deletions and assignments -/

theorem alike_changeContent (o : ObjectId) (k : Key) (d : Descriptor) (p : Property) :
    AlikeAt bodies m (changeContent o k d p true) (changeContent o k d p false) := by
  cases p with
  | data v w e c =>
    exact .ite (fun _ => .ite (fun _ => alike_reject rfl) fun _ => .ite (fun _ => alike_reject rfl) fun _ =>
      alike_write o k _) fun _ => alike_write o k _
  | accessor g s e c => exact .ite (fun _ => alike_reject rfl) fun _ => alike_write o k _

theorem alike_change (o : ObjectId) (k : Key) (d : Descriptor) (p : Property) :
    AlikeAt bodies m (change o k d p true) (change o k d p false) := by
  unfold change
  refine .ite (fun _ => alike_reject rfl) fun _ => .ite (fun _ => alike_reject rfl) fun _ =>
    .ite (fun _ => alike_write o k _) fun _ => .ite (fun _ => ?_) fun _ => alike_changeContent o k d p
  exact .ite (fun _ => alike_reject rfl) fun _ => alike_write o k _

theorem alike_defineOrdinary (o : ObjectId) (k : Key) (d : Descriptor) (m : Machine) :
    AlikeAt bodies m (defineOrdinary o k d true) (defineOrdinary o k d false) := by
  unfold defineOrdinary
  refine .after (a := m.heap) rfl ?_
  cases m.heap.getOwn? o k with
  | none => exact .ite (fun _ => alike_reject rfl) fun _ => alike_write o k _
  | some p => exact .ite (fun _ => alike_pure) fun _ => alike_change o k d p

/-- **A deletion.** -/
theorem alike_deleteOwn (o : ObjectId) (k : Key) (m : Machine) :
    AlikeAt bodies m (deleteOwn o k true) (deleteOwn o k false) := by
  unfold deleteOwn
  refine .after (a := m.heap) rfl ?_
  cases m.heap.getOwn? o k with
  | none => exact alike_pure
  | some p => exact .ite (fun _ => alike_reject rfl) fun _ => .done _

theorem alike_defineArguments (o : ObjectId) (k : Key) (d : Descriptor) (m : Machine) :
    AlikeAt bodies m (defineArguments o k d true) (defineArguments o k d false) := by
  unfold defineArguments
  refine .after (a := m.heap) rfl (.goesOn (alike_defineOrdinary o k d m) fun m' => ?_)
  -- what is passed on does not depend on whether a refusal is an error
  unfold AlikeAt
  rw [pass_run _ true]
  exact .done _

/-- An operation that decides by the answer of another one. -/
theorem AlikeAt.asking {x a b a' b' : Run Bool} {r : Heap.Outcome} (hx : x bodies m = r.ended false m)
    (ha : ∀ m', AlikeAt bodies m' a a') (hb : ∀ m', AlikeAt bodies m' b b') :
    AlikeAt bodies m (x >>= fun c => if c = true then a else b) (x >>= fun c => if c = true then a' else b') :=
  .after (hx.trans (ended_false r m)) (.ite (fun _ => ha _) fun _ => hb _)

theorem alike_defineElement (o : ObjectId) (i : ArrayIndex) (d : Descriptor) (n : Nat) (w : Bool) (m : Machine) :
    AlikeAt bodies m (defineElement o i d n w true) (defineElement o i d n w false) := by
  unfold defineElement
  refine .ite (fun _ => alike_reject rfl) fun _ =>
    .asking (defineOrdinary_run o _ d false) (fun m' => ?_) fun _ => alike_reject rfl
  exact .ite (fun _ => .after ((defineOrdinary_run o _ _ false).trans (ended_false _ _)) alike_pure) fun _ => alike_pure

/-- Elements that go, from the first that stays. -/
theorem alike_cutElements (o : ObjectId) (d : Descriptor) (freezes : Bool) (doomed : List ArrayIndex) (m : Machine) :
    AlikeAt bodies m (cutElements o d freezes true doomed) (cutElements o d freezes false doomed) := by
  induction doomed generalizing m with
  | nil =>
    exact .ite (fun _ => .after ((defineOrdinary_run o _ _ false).trans (ended_false _ _)) alike_pure)
      fun _ => alike_pure
  | cons i rest ih =>
    exact .asking (deleteOwn_run o _ false) ih fun _ =>
      .after ((defineOrdinary_run o _ _ false).trans (ended_false _ _)) (alike_reject rfl)

theorem alike_setLength (o : ObjectId) (d : Descriptor) (n n₀ : Nat) (w : Bool) (m : Machine) :
    AlikeAt bodies m (setLength o d n n₀ w true) (setLength o d n n₀ w false) := by
  unfold setLength
  refine .ite (fun _ => alike_defineOrdinary o _ _ m) fun _ => .ite (fun _ => alike_reject rfl) fun _ => ?_
  refine .goesOn (alike_defineOrdinary o _ _ m) fun m' => ?_
  exact .after (a := m'.heap) rfl (alike_cutElements o _ _ _ m')

theorem alike_defineLength (o : ObjectId) (d : Descriptor) {v : Value} (hv : v.isObject = false) (m : Machine) :
    AlikeAt bodies m (defineLength o d v true) (defineLength o d v false) := by
  unfold defineLength
  refine .after (a := m.heap) rfl ?_
  dsimp only
  by_cases hvalid : (Double.ofNat (primitiveNumber v).toUint32).eq (primitiveNumber v) = true
  · exact .after ((toLength_run hv).trans (if_pos hvalid)) (alike_setLength o d _ _ _ m)
  · have herror : toLength v bodies m = _ := (toLength_run hv).trans (if_neg hvalid)
    unfold AlikeAt
    rw [bind_run_error herror, bind_run_error herror]
    exact .failed m rfl

/-- **A definition**, unless an object is to be converted to a length. -/
theorem alike_defineOwn (hd : m.heap.GivesPrimitive o k d) :
    AlikeAt bodies m (defineOwn o k d true) (defineOwn o k d false) := by
  unfold Heap.GivesPrimitive lengthValue? Object.isArray at hd
  unfold defineOwn
  refine .after (a := m.heap) rfl ?_
  cases hkind : (m.heap.object o).kind with
  | array =>
    rw [hkind] at hd
    refine .ite (fun hk => ?_) fun hk => ?_
    · cases hvalue : d.value with
      | none => exact alike_defineOrdinary o k d m
      | some v =>
        refine .holding (alike_defineLength o d (hd v ?_) _)
        rw [decide_eq_true hk]
        exact hvalue
    · cases k with
      | index i => exact alike_defineElement o i d _ _ m
      | name t => exact alike_defineOrdinary o _ d m
  | arguments a => exact alike_defineArguments o k d m
  | _ => exact alike_defineOrdinary o k d m

/-- The write of an assignment is refused: there is no assigning, or no object to assign to, or the definition by which
the value is stored is refused. -/
def RefusesPut (bodies : Bodies) (m : Machine) (o : ObjectId) (k : Key) (v receiver : Value) : Prop :=
  m.heap.canPut o k = false ∨ receiver ≠ .object o ∨
    ∃ m', defineOwn o k (m.heap.putDescriptor o k v) false bodies m = .ok false m'

/-- How two runs of an assignment end: as those of an operation that says whether it was refused. -/
structure PutAlike (refused : Prop) (strict lax : EStateM.Result Failure Machine Unit) : Prop where
  ends : ∃ strict' lax', Alike strict' lax' ∧ strict = discarding strict' ∧ lax = discarding lax' ∧
    (refused ↔ ∃ m', lax' = .ok false m')

theorem putAlike_reject {refused : Prop} {f : Fault} (hf : f.kind = .typeError) (hrefused : refused) :
    PutAlike refused ((reject true f >>= fun _ => pure ⟨⟩ : Run Unit) bodies m)
      ((reject false f >>= fun _ => pure ⟨⟩ : Run Unit) bodies m) :=
  ⟨_, _, .refused m hf, rfl, rfl, iff_of_true hrefused ⟨m, rfl⟩⟩

theorem putAlike_defineOwn {refused : Prop} (hd : m.heap.GivesPrimitive o k d)
    (hrefused : refused ↔ ∃ m', defineOwn o k d false bodies m = .ok false m') :
    PutAlike refused ((defineOwn o k d true >>= fun _ => pure ⟨⟩ : Run Unit) bodies m)
      ((defineOwn o k d false >>= fun _ => pure ⟨⟩ : Run Unit) bodies m) :=
  ⟨_, _, alike_defineOwn hd, discarding_run _, discarding_run _, hrefused⟩

/-- **An assignment** of a primitive value that runs no setter. -/
theorem alike_putFor {v : Value} (hv : v.isObject = false) (hplain : m.heap.RunsNoSetter o k) (receiver : Value) :
    PutAlike (RefusesPut bodies m o k v receiver) (putFor o k v receiver true bodies m)
      (putFor o k v receiver false bodies m) := by
  unfold putFor
  rw [getHeap_bind_run, getHeap_bind_run]
  cases hcan : m.heap.canPut o k with
  | false => exact putAlike_reject (Heap.kind_putRefusal _ _ _) (.inl hcan)
  | true =>
    rw [Bool.not_true, if_neg Bool.false_ne_true, if_neg Bool.false_ne_true]
    by_cases hself : receiver = .object o
    · have hstored {d : Descriptor} (hd : m.heap.putDescriptor o k v = d) :
          RefusesPut bodies m o k v receiver ↔ ∃ m', defineOwn o k d false bodies m = .ok false m' := by
        unfold RefusesPut
        rw [hcan, hd]
        exact ⟨fun h => (h.resolve_left Bool.noConfusion).resolve_left (absurd hself), fun h => .inr (.inr h)⟩
      unfold Heap.putDescriptor at hstored
      have hisSelf : (receiver == Value.object o) = true := beq_iff_eq.mpr hself
      rw [hisSelf]
      rcases hown : m.heap.getOwn? o k with _ | ⟨u, w, e, c⟩ | ⟨g, s, e, c⟩
      · rcases hfound : m.heap.getProperty? o k with _ | ⟨u, w, e, c⟩ | ⟨g, s, e, c⟩
        · exact putAlike_defineOwn (Heap.givesPrimitive_of_value rfl hv) (hstored (by rw [hown]))
        · exact putAlike_defineOwn (Heap.givesPrimitive_of_value rfl hv) (hstored (by rw [hown]))
        · exact absurd hfound (hplain hcan g s e c)
      · exact putAlike_defineOwn (Heap.givesPrimitive_of_value rfl hv) (hstored (by rw [hown]))
      · exact absurd (Heap.getProperty?_of_own hown) (hplain hcan g s e c)
    · have hisSelf : (receiver == Value.object o) = false := beq_eq_false_iff_ne.mpr hself
      rw [hisSelf]
      have hreject : PutAlike (RefusesPut bodies m o k v receiver)
          ((reject true (.cannotPut k.toText) >>= fun _ => pure ⟨⟩ : Run Unit) bodies m)
          ((reject false (.cannotPut k.toText) >>= fun _ => pure ⟨⟩ : Run Unit) bodies m) :=
        putAlike_reject rfl (.inr (.inl hself))
      rcases hown : m.heap.getOwn? o k with _ | ⟨u, w, e, c⟩ | ⟨g, s, e, c⟩
      · rcases hfound : m.heap.getProperty? o k with _ | ⟨u, w, e, c⟩ | ⟨g, s, e, c⟩
        · exact hreject
        · exact hreject
        · exact absurd hfound (hplain hcan g s e c)
      · rw [Heap.getProperty?_of_own hown]
        exact hreject
      · exact absurd (Heap.getProperty?_of_own hown) (hplain hcan g s e c)

end Refusing

end Ecma51
