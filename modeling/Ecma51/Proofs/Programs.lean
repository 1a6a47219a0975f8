import Ecma51.Library
import Ecma51.Proofs.Composed

/-!
# Programs and the heap

Programs are composed of few kinds of parts, each of which only lets the heap evolve if the functions that it
runs do; and functions are run by levels.

* **`PushedCall.leads`**: calls on pushed arguments.
* `Object.Sharable`: indices that may stand for parameters.
* **`Composed.leads`**: whatever programs are composed of.
* **`bodiesAt_tame`**: the functions of every level only let the heap evolve.
-/

namespace Ecma51

/-! ## 1. Calls on pushed arguments -/

section Calls

variable {bodies : Bodies} {bound : ObjectId}

theorem leads_takeArguments (argc : Nat) :
    Relates (Machine.Leads bound) bodies (takeArguments argc) := fun _ => .aside rfl rfl

variable (hb : bodies.Tame)

include hb

theorem leads_callPushed (f : ObjectId) (this : Value) (argc : Nat) :
    Relates (Machine.Leads bound) bodies (callPushed f this argc) := by
  refine .bind leads_getHeap fun h => ?_
  split
  · exact leads_enterCompiled hb f this argc _ _ _ _
  · exact .bind (leads_takeArguments argc) fun args => leads_call hb f this args

theorem leads_invokePushed (f this : Value) (argc : Nat) (namesEval : Bool) :
    Relates (Machine.Leads bound) bodies (invokePushed f this argc namesEval) := by
  have hrefused : Relates (Machine.Leads bound) bodies
      (do freeSlots argc; raise .notAFunction : Run Value) :=
    .bind (leads_freeSlots argc) fun _ => .throw _
  refine .bind leads_getHeap fun h => ?_
  cases f with
  | object o =>
    dsimp only
    split
    · split
      · refine .bind (leads_modify (fun _ => rfl) fun _ => rfl) fun _ => ?_
        exact leads_callPushed hb o this argc
      · exact leads_callPushed hb o this argc
    · exact hrefused
  | _ => exact hrefused

theorem leads_callFound {find : Run Callee} (hfind : Built find) (argc : Nat) :
    Relates (Machine.Leads bound) bodies (callFound find argc) :=
  .bind (leads_orDiscard (hfind.leads hb) argc) fun c =>
    leads_invokePushed hb c.function c.this argc c.namesEval

/-- **A call on pushed arguments only lets the heap evolve.** -/
theorem PushedCall.leads (c : PushedCall) (argc : Nat) :
    Relates (Machine.Leads bound) bodies (c.run argc) := by
  cases c with
  | function f this => exact leads_callPushed hb f this argc
  | value f => exact leads_invokePushed hb f .undefined argc false
  | member target k => exact leads_callFound hb (built_findKeyed target (.pure k)) argc
  | rawMember target raw => exact leads_callFound hb (built_findKeyed target (built_rawKey raw)) argc
  | element target key => exact leads_callFound hb (built_findKeyed target (built_toKey key)) argc
  | identifier name => exact leads_callFound hb (built_findNamed name) argc
  | construct f =>
    exact .bind (leads_takeArguments argc) fun args => (built_constructWith f args).leads hb

end Calls

/-! ## 2. Sharing parameters -/

/-- Every index holds a writable value, so that it may stand for a parameter. -/
def Object.Sharable (x : Object) : Prop :=
  ∀ (j : ArrayIndex) (p : Property), x.properties.get? (.index j) = some p →
    ∃ v e c, p = .data v true e c

theorem Object.Sharable.withProperty {x : Object} (hx : x.Sharable) (k : Key) {p : Property}
    (hp : (∃ v, p = .plain v) ∨ k.index? = none) : (x.withProperty k p).Sharable := by
  intro j q hq
  have hq : (x.properties.insert k p).get? (.index j) = some q := hq
  rw [PropertyTable.get?_insert] at hq
  split at hq
  · rename_i hk
    cases hq
    rcases hp with ⟨v, rfl⟩ | hk'
    · exact ⟨v, true, true, rfl⟩
    · rw [hk] at hk'
      cases hk'
  · exact hx j q hq

theorem sharable_argumentsObject (callee : Value) (args : List Value) (e : EnvironmentId)
    (strict : Bool) : (argumentsObject callee args e strict).Sharable := by
  have hempty : ((Object.ofKind "Arguments" (some Intrinsic.objectPrototype.id)
      (.arguments ⟨e, []⟩)).withProperty .length (.hidden (.ofNat args.length))).Sharable := by
    refine Object.Sharable.withProperty (fun j p hp => ?_) _ (.inr rfl)
    have hp : PropertyTable.empty.get? (.index j) = some p := hp
    rw [PropertyTable.get?_empty] at hp
    cases hp
  have hplain : ∀ (l : List (Value × Nat)) (x : Object), x.Sharable →
      (l.foldl (fun x e => x.withProperty (.ofNat e.2) (.plain e.1)) x).Sharable := by
    intro l
    induction l with
    | nil => exact fun _ hx => hx
    | cons a l ih => exact fun x hx => ih _ (hx.withProperty _ (.inl ⟨_, rfl⟩))
  have hargs := hplain args.zipIdx _ hempty
  unfold argumentsObject
  dsimp only
  split
  · exact (hargs.withProperty _ (.inr rfl)).withProperty _ (.inr rfl)
  · exact hargs.withProperty _ (.inr rfl)

section Sharing

variable {bodies : Bodies} {bound : ObjectId}

/-- The value is an arguments object that may come to share its indices, or no object. -/
def Heap.SharableValue (h : Heap) (v : Value) : Prop := ∀ o, v = .object o → (h.object o).Sharable

theorem bindArguments_sharable {frame : Frame} {m m' : Machine} {v : Value}
    (h : bindArguments frame bodies m = .ok v m') : m'.heap.SharableValue v := by
  unfold bindArguments at h
  rw [get_bind_run] at h
  dsimp only at h
  split at h
  · cases h
    exact fun o ho => by cases ho
  · cases hnew : newObjectOf (argumentsObject (m.stack.get frame.calleeSlot)
        (m.stack.values frame.fp frame.argc) m.declarations m.isStrict) bodies m with
    | error e m₁ =>
      rw [bind_run_error hnew] at h
      cases h
    | ok o m₁ =>
      rw [bind_run_ok hnew] at h
      cases h
      rintro _ ⟨⟩
      show ((m₁.heap.modifyBindings _ _).object o).Sharable
      rw [Heap.object_modifyBindings, (newObjectOf_ok hnew).2.1]
      exact sharable_argumentsObject _ _ _ _

/-- A parameter that is linked leaves the properties as they are. -/
theorem linkParameter_run {arguments : Value} {m : Machine}
    (hs : m.heap.SharableValue arguments) (i : Nat) (name : Text) :
    ∃ m', linkParameter arguments i name bodies m = .ok ⟨⟩ m' ∧ m.Leads bound m' ∧
      m'.heap.SharableValue arguments := by
  unfold linkParameter
  rw [getHeap_bind_run]
  cases arguments with
  | object o =>
    dsimp only
    cases ha : m.heap.argumentsOf? o with
    | none => exact ⟨m, rfl, .refl bound m, hs⟩
    | some a =>
      dsimp only
      by_cases hpassed : (m.heap.stored? o (.ofNat i)).isSome = true
      · rw [if_pos hpassed]
        refine ⟨_, rfl, .edit (.link o i name (Heap.kind_of_argumentsOf? ha) ?_), ?_⟩
        · rintro j rfl
          rw [Key.ofNat_val] at hpassed
          obtain ⟨p, hp⟩ := Option.isSome_iff_exists.mp hpassed
          obtain ⟨v, e, c, rfl⟩ := hs o rfl j p hp
          exact ⟨v, e, c, hp⟩
        · rintro _ ⟨⟩
          show ((m.heap.modify o _).object o).Sharable
          rw [Heap.object_modify_self]
          exact hs o rfl
      · rw [if_neg hpassed]
        exact ⟨m, rfl, .refl bound m, hs⟩
  | _ => exact ⟨m, rfl, .refl bound m, hs⟩

theorem leads_linkParameters {arguments : Value} (names : List Text) (i : Nat) {m : Machine}
    (hs : m.heap.SharableValue arguments) :
    m.Leads bound (endOf (linkParameters arguments names i bodies m)) := by
  induction names generalizing i m with
  | nil => exact .refl bound m
  | cons name names ih =>
    obtain ⟨m', hrun, hleads, hs'⟩ := linkParameter_run hs i name
    unfold linkParameters
    rw [bind_run_ok hrun]
    exact hleads.trans (ih (i + 1) hs')

end Sharing

/-! ## 3. Programs -/

section Programs

variable {bodies : Bodies} {bound : ObjectId} (hb : bodies.Tame)

include hb

theorem leads_shareArguments (frame : Frame) (names : List Text) :
    Relates (Machine.Leads bound) bodies (do
      let arguments ← bindArguments frame
      linkParameters arguments names 0) := by
  intro m
  refine Relates.bind_at ((built_bindArguments frame).leads hb m) fun arguments m' hrun => ?_
  -- that indices hold values is known of the new object only
  exact leads_linkParameters names 0 (bindArguments_sharable hrun)

/-- **Whatever is composed of well-understood parts only lets the heap evolve.** -/
theorem Composed.leads {α : Type} {x : Run α} (h : Composed bound x) :
    Relates (Machine.Leads bound) bodies x := by
  induction h with
  | built hx => exact hx.leads hb
  | bind _ _ hx hf => exact .bind hx hf
  | tryCatch _ _ hx hf => exact .tryCatch hx hf
  | holding vs _ hx => exact leads_holding hx vs
  | aside f _ hf _ => exact hf
  | setStrict strict => exact leads_modify (fun _ => rfl) fun _ => rfl
  | inContext c _ hx =>
    rw [run_inContext]
    exact .bind (leads_modify (fun _ => rfl) fun _ => rfl) fun _ => .bind hx fun _ =>
      .bind (leads_modify (fun _ => rfl) fun _ => rfl) fun _ => .pure _
  | pushedCall c args =>
    exact .bind (leads_modify (fun _ => rfl) fun _ => rfl) fun _ => c.leads hb _
  | shareArguments frame names => exact leads_shareArguments hb frame names

end Programs

/-! ## 4. All functions -/

/-- **The functions of every level are tame.** -/
theorem bodiesAt_tame (n : Nat) : (bodiesAt n).Tame := by
  induction n with
  | zero => exact ⟨fun _ _ _ _ _ => .aside rfl rfl, fun bound _ _ m => .refl bound m⟩
  | succ n ih =>
    exact ⟨fun _ b this args => (built_run b this args).leads ih,
      fun _ code frame => (composed_run code frame).leads ih⟩

end Ecma51
