import Ecma51.Program
import Ecma51.Proofs.Programs

/-!
# The life of a machine

A machine is started with a skeleton of objects, the catalogue is installed, and then anything may be done
with it, any number of times. From the empty heap on, all of this is evolution.

* `Action`: what can be done with a machine.
* **`composed_action`**: all of it is composed of well-understood parts.
* `Machine.Reachable`: the machines that arise.
* **`Machine.Reachable.evolves`**: their heaps have evolved from the empty one.
-/

namespace Ecma51

/-! ## 1. The catalogue -/

/-- The name of a member. -/
def Member.name : Member → String
  | .method name _ _ => name
  | .constant name _ => name
  | .hidden name _ => name

/-- All names of an entry. -/
def GlobalEntry.names : GlobalEntry → List String
  | .constructor name _ _ _ _ methods statics labels =>
    name :: (methods ++ statics ++ labels).map Member.name
  | .collection name members => name :: members.map Member.name
  | .direct m => [m.name]

/-- No name of the catalogue is an index or `length`. -/
theorem isLabel_catalogue : ∀ e ∈ catalogue, ∀ n ∈ e.names, (Key.ofString n).isLabel = true := by
  decide +kernel

theorem composed_installMember (o : ObjectId) {m : Member}
    (hm : (Key.ofString m.name).isLabel = true) : Composed 0 (installMember o m) := by
  have hput (p : Property) : Composed 0 (do
      internName m.name
      modifyHeap (·.store o (.ofString m.name) p)) := by
    refine .bind (.internName _) fun _ => .modifyHeap _ (fun m' => ?_) fun h => h.keepsTimes_store o _ p
    exact .edit (.complete o _ (Nat.zero_le o) (Object.completes_withProperty _ hm p))
  cases m with
  | method name f length =>
    exact .bind (.built (.newObjectOf (made_nativeFunction _ _ _ _) (Object.holdsTime_of_isDate rfl))) fun _ => hput _
  | constant name v => exact hput _
  | hidden name v => exact hput _

theorem composed_installMembers (o : ObjectId) {members : List Member}
    (hm : ∀ m ∈ members, (Key.ofString m.name).isLabel = true) :
    Composed 0 (installMembers o members) := by
  induction members with
  | nil => exact .pure _
  | cons m members ih =>
    exact .bind (composed_installMember o (hm m List.mem_cons_self)) fun _ =>
      ih fun m hm' => hm m (List.mem_cons_of_mem _ hm')

theorem composed_installEntry {e : GlobalEntry}
    (he : ∀ n ∈ e.names, (Key.ofString n).isLabel = true) : Composed 0 (installEntry e) := by
  refine .holding [] ?_
  cases e with
  | constructor name prototype call construct length methods statics labels =>
    have hmember : ∀ m ∈ methods ++ statics ++ labels, (Key.ofString m.name).isLabel = true :=
      fun m hm => he _ (List.mem_cons_of_mem _ (List.mem_map_of_mem hm))
    refine .bind (.internName _) fun _ => ?_
    refine .bind (.built (.newObjectOf (made_nativeFunction _ _ _ _) (Object.holdsTime_of_isDate rfl))) fun f => ?_
    refine .bind (.modifyHeap _ (fun m => .evolve (.head (.complete f _ (Nat.zero_le f) ?_) (.single
      (.complete prototype.id _ (Nat.zero_le _) ?_)))) fun h => ?_) fun _ => ?_
    · exact Object.completes_withProperty _ (by decide) _
    · exact Object.completes_withProperty _ (by decide) _
    · exact (h.keepsTimes_store f _ _).trans (Heap.keepsTimes_store _ prototype.id _ _)
    refine .bind (composed_installMembers _ fun m hm => hmember m ?_) fun _ => ?_
    · exact List.mem_append_left _ (List.mem_append_left _ hm)
    refine .bind (composed_installMembers _ fun m hm => hmember m ?_) fun _ => ?_
    · exact List.mem_append_left _ (List.mem_append_right _ hm)
    refine .bind (composed_installMember _ (he name List.mem_cons_self)) fun _ => ?_
    exact composed_installMembers _ fun m hm => hmember m (List.mem_append_right _ hm)
  | collection name members =>
    refine .bind (.built (.newObjectOf (made_ofKind rfl) (holdsTime_ofKind rfl))) fun o => .bind (.hold _) fun _ => ?_
    refine .bind (composed_installMembers o fun m hm => he _ ?_) fun _ => ?_
    · exact List.mem_cons_of_mem _ (List.mem_map_of_mem hm)
    · exact composed_installMember _ (he name List.mem_cons_self)
  | direct m => exact composed_installMember _ (he m.name List.mem_cons_self)

theorem composed_installCatalogue : Composed 0 installCatalogue := by
  have hall : ∀ es : List GlobalEntry,
      (∀ e ∈ es, ∀ n ∈ e.names, (Key.ofString n).isLabel = true) → Composed 0 (installEntries es) := by
    intro es
    induction es with
    | nil => exact fun _ => .pure _
    | cons e es ih =>
      exact fun he => .bind (composed_installEntry (he e List.mem_cons_self)) fun _ =>
        ih fun e he' => he e (List.mem_cons_of_mem _ he')
  exact hall catalogue isLabel_catalogue

/-! ## 2. Steps and actions -/

/-- A step on the own properties of an object. -/
inductive OwnStep where
  | define (k : Key) (d : Descriptor) (throws : Bool)
  | put (k : Key) (v : Value) (throws : Bool)
  | delete (k : Key) (throws : Bool)
  /-- Seals the object, or freezes it. -/
  | restrict (freeze : Bool)
  | preventExtensions

/-- Does a step on an object. -/
def OwnStep.act (s : OwnStep) (o : ObjectId) : Run Unit := do
  match s with
  | .define k d throws => let _ ← defineOwn o k d throws
  | .put k v throws => putTo o k v throws
  | .delete k throws => let _ ← deleteOwn o k throws
  | .restrict freeze =>
    let _ ← objectFunction (if freeze then .freeze else .seal) .undefined [.object o]
  | .preventExtensions => let _ ← objectFunction .preventExtensions .undefined [.object o]

/-- Does a step on an object, which is kept meanwhile. -/
def OwnStep.run (s : OwnStep) (o : ObjectId) : Run Unit := holding [.object o] (s.act o)

/-- Something that is done with a machine. -/
inductive Action where
  | install
  | prepare (data : Code)
  | runGlobal (code : Code)
  | describeFailure (f : Failure)
  | primitive (frame : Frame) (p : Primitive) (operands : List Value)
  | evaluate (frame : Frame) (t : Tree)
  | native (b : Builtin) (this : Value) (args : List Value)
  | call (f : ObjectId) (this : Value) (args : List Value)
  | construct (f : ObjectId) (args : List Value)
  | own (o : ObjectId) (s : OwnStep)

/-- Does it, for its effect on the machine. -/
def Action.run : Action → Run Unit
  | install => installCatalogue
  | prepare data => Ecma51.prepare data
  | runGlobal code => do let _ ← Ecma51.runGlobal code
  | describeFailure f => do let _ ← Ecma51.describeFailure f
  | primitive frame p operands => do let _ ← runPrimitive frame p operands
  | evaluate frame t => do let _ ← (t.eval frame).run
  | native b this args => do let _ ← b.run this args
  | call f this args => do let _ ← Ecma51.call f this args
  | construct f args => do let _ ← Ecma51.construct f args
  | own o s => s.run o

/-- The machines that arise: from a start, by anything that can be done, however it ends, and by what
does not concern the heap. -/
inductive Machine.Reachable : Machine → Prop where
  | start (s : Surroundings) : Reachable (.start s)
  | act {m : Machine} (a : Action) : Reachable m → Reachable (endOf (a.run.perform m))
  | collect {m : Machine} : Reachable m → Reachable m.collect
  | aside {m m' : Machine} : Reachable m → m'.heap = m.heap → Reachable m'

/-! ## 3. Evolution -/

section Actions

variable {bound : ObjectId}

theorem composed_failPending {α : Type} : Composed bound (failPending : Run α) := by
  refine .bind .takePending fun v => ?_
  split
  · exact .throw trivial
  · rename_i hv
    exact .throw hv

theorem composed_prepare (data : Code) : Composed bound (prepare data) := by
  refine .bind (composed_run data default) fun succeeded => ?_
  split
  · exact .pure _
  · exact composed_failPending

/-- A frame of its own is no concern of contexts, calls and the heap. -/
theorem composed_runGlobal (code : Code) : Composed bound (runGlobal code) := by
  have hparts : runGlobal code =
      (modifyGet fun m : Machine =>
        ((m.stack.pushFrame 0 0 .undefined (.object globalObject)).2,
          ({ m with stack := (m.stack.pushFrame 0 0 .undefined (.object globalObject)).1 } : Machine)) :
        Run Frame) >>= fun frame => code.run frame >>= fun succeeded =>
          (modifyGet fun m : Machine =>
            ((m.stack.popFrame frame).2, ({ m with stack := (m.stack.popFrame frame).1 } : Machine)) :
            Run Value) >>= fun result => if succeeded then pure result else failPending := rfl
  rw [hparts]
  refine .bind (.aside _ (fun _ => ⟨rfl, rfl, rfl, rfl⟩) (fun _ => .aside rfl rfl) fun _ => .same rfl) fun frame => ?_
  refine .bind (composed_run code frame) fun succeeded => ?_
  refine .bind (.aside _ (fun _ => ⟨rfl, rfl, rfl, rfl⟩) (fun _ => .aside rfl rfl) fun _ => .same rfl) fun result => ?_
  split
  · exact .pure _
  · exact composed_failPending

theorem composed_describeFailure (f : Failure) : Composed bound (describeFailure f) := by
  refine .bind (.failureValue f) fun v => .tryCatch ?_ fun _ => ?_
  · exact .built (.bind (built_toText v) fun _ => .pure _)
  · exact .built (.bind built_getHeap fun _ => .pure _)

theorem built_ownStep (s : OwnStep) (o : ObjectId) : Built (s.act o) := by
  cases s with
  | define k d throws => exact .bind (built_defineOwn o k d throws) fun _ => .pure _
  | put k v throws => exact built_putTo o k v throws
  | delete k throws => exact .bind (.deleteOwn o k throws) fun _ => .pure _
  | restrict freeze => exact .bind (built_objectFunction _ _ _) fun _ => .pure _
  | preventExtensions => exact .bind (built_objectFunction _ _ _) fun _ => .pure _

/-- Whatever is done with a machine leaves old objects to the rules, unless the catalogue is installed. -/
theorem composed_action_of_ne {a : Action} (ha : a ≠ .install) : Composed bound a.run := by
  cases a with
  | install => exact absurd rfl ha
  | prepare data => exact composed_prepare data
  | runGlobal code => exact .bind (composed_runGlobal code) fun _ => .pure _
  | describeFailure f => exact .bind (composed_describeFailure f) fun _ => .pure _
  | primitive frame p operands => exact .bind (composed_runPrimitive frame p operands) fun _ => .pure _
  | evaluate frame t => exact .bind (composed_eval frame t) fun _ => .pure _
  | native b this args => exact .built (.bind (built_run b this args) fun _ => .pure _)
  | call f this args => exact .built (.bind (.call f this args) fun _ => .pure _)
  | construct f args => exact .built (.bind (built_construct f args) fun _ => .pure _)
  | own o s => exact .holding _ (.built (built_ownStep s o))

/-- **Whatever is done with a machine is composed of well-understood parts**, if nothing is taken to be
old. -/
theorem composed_action (a : Action) : Composed 0 a.run := by
  cases a with
  | install => exact composed_installCatalogue
  | _ => exact composed_action_of_ne nofun

end Actions

theorem evolves_skeleton : Heap.Evolves 0 [] Heap.empty Heap.skeleton := by
  have hall : ∀ (is : List Intrinsic) (h : Heap),
      Heap.Evolves 0 [] h (is.foldl (fun h i => (h.add i.skeleton).1) h) := by
    intro is
    induction is with
    | nil => exact fun _ => .refl
    | cons i is ih => exact fun h => .head (.add (made_skeleton i)) (ih _)
  refine .trans (hall Intrinsic.all Heap.empty) ?_
  exact .head (.add (made_ofKind rfl)) (.single (.environments ⟨rfl, rfl⟩))

/-- **The heaps of all machines that arise have evolved from the empty one.** -/
theorem Machine.Reachable.evolves {m : Machine} (hm : m.Reachable) :
    Heap.Evolves 0 [] Heap.empty m.heap := by
  induction hm with
  | start s => exact evolves_skeleton
  | @act m a _ ih =>
    have h := (composed_action a).leads (bodiesAt_tame (levelsFor m.maxCallDepth)) m (Nat.zero_le _)
    exact ih.trans (h.2.mono (Nat.le_refl _) (List.nil_subset _))
  | @collect m _ ih =>
    have h : m.Leads 0 m.collect := leads_collect m
    exact ih.trans ((h (Nat.zero_le _)).2.mono (Nat.le_refl _) (List.nil_subset _))
  | aside _ hheap ih =>
    rw [hheap]
    exact ih

end Ecma51
