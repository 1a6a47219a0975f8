import Ecma51.Code.Primitive
import Ecma51.Program
import Ecma51.Proofs.Links
import Ecma51.Proofs.Relates

/-!
# Machines whose links change

Objects and environments are made, prototypes are replaced, functions are bound, and what can no longer be
reached is dropped, in any order. On every machine that arises in this way, whoever follows links comes to
an end.

* `Machine.Relinks`, `Machine.Relinked`: one change of links, and the machines that arise.
* `Machine.PassesOn`: operations on a bound function go on with its target.
* `Heap.Grounded`: the invariant.
* **`links_end`**: chains are without repetition, loops and recursions go along them to the end, and a
  prototype is refused exactly if the object is not extensible or the link would close a cycle.
-/

namespace Ecma51

open Relation (TransGen)

/-! ## 1. Machines -/

section Steps

variable {bodies : Bodies} {m m' : Machine}

theorem setPrototype_run (o : ObjectId) (p : Option ObjectId) (bodies : Bodies) (m : Machine) :
    setPrototype o p bodies m =
      match m.heap.setPrototype? o p with
      | some h => .ok true { m with heap := h }
      | none => .ok false m := by
  unfold setPrototype
  rw [getHeap_bind_run]
  cases m.heap.setPrototype? o p <;> rfl

/-- Operations on a bound function go on with its target. -/
structure Machine.PassesOn (m : Machine) (bodies : Bodies) (f : ObjectId) (b : BoundFunction) : Prop where
  call (this : Value) (args : List Value) :
    call f this args bodies m = call b.target b.this (b.arguments ++ args) bodies m
  construct (args : List Value) :
    construct f args bodies m = construct b.target (b.arguments ++ args) bodies m
  hasInstance (v : Value) : hasInstance f v bodies m = hasInstance b.target v bodies m
  isConstructor : m.heap.isConstructor f = m.heap.isConstructor b.target

theorem Heap.WellLinked.passesOn (hh : m.heap.WellLinked) (bodies : Bodies) {f : ObjectId}
    {b : BoundFunction} (hf : (m.heap.object f).kind = .bound b) : m.PassesOn bodies f b := by
  have hfunction (this this' : Value) (args args' : List Value) :
      (m.heap.unbind f this args).1 = (m.heap.unbind b.target this' args').1 := by
    rw [hh.unbind_bound hf]
    exact Heap.unbindUpTo_function _ _ _ _ _ _
  have harguments (args : List Value) : (m.heap.unbind f .undefined args).2.2 =
      (m.heap.unbind b.target .undefined (b.arguments ++ args)).2.2 := by
    rw [hh.unbind_bound hf]
    exact (Heap.unbindUpTo_this _ _ _ _ _).2
  refine ⟨fun this args => ?_, fun args => ?_, fun v => ?_, ?_⟩
  · unfold Ecma51.call
    rw [getHeap_bind_run, getHeap_bind_run, hh.unbind_bound hf]
  · have hboth := harguments args
    have hsame := hfunction .undefined .undefined args (b.arguments ++ args)
    unfold Ecma51.construct
    rw [getHeap_bind_run, getHeap_bind_run]
    revert hboth hsame
    obtain ⟨g, _, rest⟩ := m.heap.unbind f .undefined args
    obtain ⟨g', _, rest'⟩ := m.heap.unbind b.target .undefined (b.arguments ++ args)
    rintro rfl rfl
    rfl
  · have hsame := hfunction .undefined .undefined [] []
    unfold Ecma51.hasInstance
    rw [getHeap_bind_run, getHeap_bind_run]
    revert hsame
    obtain ⟨g, _, _⟩ := m.heap.unbind f .undefined []
    obtain ⟨g', _, _⟩ := m.heap.unbind b.target .undefined []
    rintro rfl
    rfl
  · unfold Heap.isConstructor
    rw [hfunction .undefined .undefined [] []]

/-- One change of links. What is linked to was made before. -/
inductive Machine.Relinks : Machine → Machine → Prop where
  /-- A new object of any kind, with any prototype, if it fits. -/
  | create {m : Machine} (bodies : Bodies) {x : Object} :
      m.heap.Precedes x → Relinks m (endOf (newObjectOf x bodies m))
  /-- The error object for a failure, which needs no room. -/
  | report {m : Machine} (bodies : Bodies) (f : Failure) : Relinks m (endOf (failureValue f bodies m))
  | setPrototype {m : Machine} (bodies : Bodies) (o : ObjectId) {p : Option ObjectId} :
      (∀ q, p = some q → q < m.heap.nextObject) → Relinks m (endOf (setPrototype o p bodies m))
  /-- A new environment of any kind. -/
  | surround {m : Machine} {x : Environment} :
      (∀ e, x.outer = some e → e < m.heap.nextEnvironment) →
      Relinks m { m with heap := (m.heap.addEnvironment x).1 }
  | collect {m : Machine} (outside borrowed : List Nat) :
      Relinks m { m with heap := m.heap.collect outside borrowed }
  /-- Anything that leaves all links as they are. -/
  | aside {m m' : Machine} : m.heap.SameLinks m'.heap → Relinks m m'

/-- The machines that arise by changes of links. -/
inductive Machine.Relinked : Machine → Prop where
  | start (s : Surroundings) : Relinked (.start s)
  | step {m m' : Machine} : Relinked m → m.Relinks m' → Relinked m'

/-! ## 2. The invariant -/

theorem Intrinsic.id_lt (i : Intrinsic) : i.id < globalObject := by
  cases i with
  | errorPrototype kind => cases kind <;> decide
  | _ => decide

/-- Links are well, and the objects that the library itself needs were made. -/
structure Heap.Grounded (h : Heap) : Prop where
  links : h.WellLinked
  made : globalObject < h.nextObject

namespace Heap.Grounded

variable {h h' : Heap}

theorem add (hh : h.Grounded) {x : Object} (hx : h.Precedes x) : (h.add x).1.Grounded :=
  ⟨hh.links.add hx, Nat.lt_succ_of_lt hh.made⟩

theorem same (hh : h.Grounded) (hs : h.SameLinks h') : h'.Grounded :=
  ⟨hh.links.same hs, Nat.lt_of_lt_of_le hh.made hs.objects⟩

theorem collect (hh : h.Grounded) (outside borrowed : List Nat) :
    (h.collect outside borrowed).Grounded := ⟨hh.links.collect outside borrowed, hh.made⟩

/-- An object with an intrinsic prototype that is no bound function may be made at any time. -/
theorem precedes (hh : h.Grounded) {x : Object} {i : Intrinsic} (hp : x.prototype = some i.id)
    (hkind : ∀ b, x.kind ≠ .bound b) : h.Precedes x where
  prototype p hxp := by
    have hid : p = i.id := Option.some.inj (hxp.symm.trans hp)
    rw [hid]
    exact Nat.lt_trans i.id_lt hh.made
  target b hb := absurd hb (hkind b)

end Heap.Grounded

theorem prototype_errorOf (kind : ErrorKind) (message : Text) :
    (errorOf kind message).prototype = some (Intrinsic.errorPrototype kind).id := by
  unfold errorOf
  dsimp only
  split <;> rfl

theorem kind_errorOf (kind : ErrorKind) (message : Text) : (errorOf kind message).kind = .error := by
  unfold errorOf
  dsimp only
  split <;> rfl

theorem grounded_reserve (hm : m.heap.Grounded) : m.reserve.1.heap.Grounded := by
  unfold Machine.reserve Heap.reserve
  split
  · exact hm.collect _ _
  · exact hm

theorem grounded_newObjectOf (hm : m.heap.Grounded) {x : Object} (hx : m.heap.Precedes x) :
    (endOf (newObjectOf x bodies m)).heap.Grounded := by
  have hroom := grounded_reserve hm
  have hnext : m.reserve.1.heap.nextObject = m.heap.nextObject := by
    unfold Machine.reserve Heap.reserve
    split <;> rfl
  have hx' : m.reserve.1.heap.Precedes x :=
    ⟨fun p hp => hnext ▸ hx.prototype p hp, fun b hb => hnext ▸ hx.target b hb⟩
  unfold newObjectOf
  by_cases hfits : m.reserve.2 = true
  · rw [bind_run_ok ((allocate_run bodies m).trans (if_pos hfits))]
    exact hroom.add hx'
  · rw [bind_run_error ((allocate_run bodies m).trans (if_neg hfits))]
    exact hroom

theorem grounded_failureValue (hm : m.heap.Grounded) (f : Failure) :
    (endOf (failureValue f bodies m)).heap.Grounded := by
  cases f with
  | thrown v => exact hm
  | fault f =>
    refine hm.add (hm.precedes (prototype_errorOf _ _) fun b hb => ?_)
    rw [kind_errorOf] at hb
    cases hb
  | exhausted => exact hm

/-- **A change of links keeps the invariant.** -/
theorem Machine.Relinks.grounded (hs : m.Relinks m') (hm : m.heap.Grounded) : m'.heap.Grounded := by
  cases hs with
  | create bodies hx => exact grounded_newObjectOf hm hx
  | report bodies f => exact grounded_failureValue hm f
  | @setPrototype bodies o p hp =>
    rw [setPrototype_run]
    cases hset : m.heap.setPrototype? o p with
    | none => exact hm
    | some h =>
      obtain ⟨_, _, hnext, _, _⟩ := Heap.setPrototype?_links hset
      refine ⟨hm.links.setPrototype hp hset, ?_⟩
      show globalObject < h.nextObject
      rw [hnext]
      exact hm.made
  | surround hx => exact ⟨hm.links.addEnvironment hx, hm.made⟩
  | collect outside borrowed => exact hm.collect outside borrowed
  | aside hsame => exact hm.same hsame

theorem Intrinsic.kind_skeleton (i : Intrinsic) (b : BoundFunction) : i.skeleton.kind ≠ .bound b := by
  cases i with
  | errorPrototype kind => cases kind <;> nofun
  | _ => nofun

/-- Intrinsic objects are added one after the other, each after its prototype. -/
theorem wellLinked_intrinsics (is : List Intrinsic) {h : Heap} (hh : h.WellLinked)
    (hplaces : ∀ e ∈ is.zipIdx h.nextObject, e.1.skeleton.prototype.all (· < e.2) = true) :
    (is.foldl (fun h i => (h.add i.skeleton).1) h).WellLinked := by
  induction is generalizing h with
  | nil => exact hh
  | cons i is ih =>
    rw [List.zipIdx_cons] at hplaces
    have hfirst : i.skeleton.prototype.all (· < h.nextObject) = true :=
      hplaces (i, h.nextObject) List.mem_cons_self
    have hprecedes : h.Precedes i.skeleton := by
      refine ⟨fun p hp => ?_, fun b hb => absurd hb (i.kind_skeleton b)⟩
      rw [hp] at hfirst
      exact of_decide_eq_true hfirst
    exact ih (hh.add hprecedes) fun e he => hplaces e (List.mem_cons_of_mem _ he)

theorem grounded_skeleton : Heap.skeleton.Grounded := by
  have hintrinsics := wellLinked_intrinsics Intrinsic.all Heap.wellLinked_empty (by decide)
  have hglobal := hintrinsics.add (x := globalSkeleton)
    ⟨fun p hp => by cases hp; decide, fun b hb => by cases hb⟩
  have hall := hglobal.addEnvironment (x := ⟨.object globalObject false, none⟩) fun e he => by
    cases he
  exact ⟨hall, by decide⟩

/-- **The invariant holds of every machine that arises.** -/
theorem Machine.Relinked.grounded (hm : m.Relinked) : m.heap.Grounded := by
  induction hm with
  | start s => exact grounded_skeleton
  | step _ hs ih => exact hs.grounded ih

/-! ## 3. The operations that make objects and environments -/

/-- What makes an ordinary object with any prototype is a change of links. -/
theorem relinks_newObjectWith {p : Option ObjectId} (hp : ∀ q, p = some q → q < m.heap.nextObject) :
    m.Relinks (endOf (newObjectWith p bodies m)) :=
  .create bodies ⟨hp, fun b hb => by cases hb⟩

theorem relinks_newDeclarative {e : EnvironmentId} (he : e < m.heap.nextEnvironment) :
    m.Relinks (endOf (newDeclarative e bodies m)) :=
  .surround fun e' he' => by
    cases he'
    exact he

theorem prototype_foldl_withProperty {ι : Type} (k : ι → Key) (p : ι → Property) (l : List ι)
    (x : Object) :
    (l.foldl (fun x i => x.withProperty (k i) (p i)) x).prototype = x.prototype := by
  induction l generalizing x with
  | nil => rfl
  | cons i l ih => exact ih _

/-- Binding makes an object whose target was made before. -/
theorem precedes_boundFunction (hm : m.heap.Grounded) {target : ObjectId}
    (ht : target < m.heap.nextObject) (this : Value) (args : List Value) (length : Double) :
    m.heap.Precedes (boundFunction target this args length) where
  prototype p hp := by
    have hid : (boundFunction target this args length).prototype =
        some Intrinsic.functionPrototype.id := prototype_foldl_withProperty _ _ _ _
    rw [hid] at hp
    cases hp
    exact Nat.lt_trans (Intrinsic.id_lt .functionPrototype) hm.made
  target b hb := by
    have hkind : (boundFunction target this args length).kind = .bound ⟨target, this, args⟩ :=
      Object.kind_foldl_withProperty _ _ _ _
    rw [hkind] at hb
    cases hb
    exact ht

/-- Binding is a change of links, after what finds the length of the target. -/
theorem relinked_newBoundFunction {target : ObjectId}
    (hfound : (endOf (getNamed target "length" bodies m)).Relinked)
    (ht : target < (endOf (getNamed target "length" bodies m)).heap.nextObject) (this : Value)
    (args : List Value) : (endOf (newBoundFunction target this args bodies m)).Relinked := by
  unfold newBoundFunction
  cases hrun : getNamed target "length" bodies m with
  | error e m' =>
    rw [hrun] at hfound
    rw [bind_run_error hrun]
    exact hfound
  | ok length m' =>
    rw [hrun] at hfound ht
    rw [bind_run_ok hrun]
    exact hfound.step (.create bodies (precedes_boundFunction hfound.grounded ht this args _))

/-- What arises from a machine that arises does so, too. -/
abbrev Machine.StaysRelinked (m m' : Machine) : Prop := m.Relinked → m'.Relinked

instance : IsPreorder Machine Machine.StaysRelinked where
  refl _ := id
  trans _ _ _ h h' hm := h' (h hm)

/-! ## 4. The catalogue -/

theorem sameLinks_refl (h : Heap) : h.SameLinks h := ⟨rfl, rfl, rfl, Nat.le_refl _, Nat.le_refl _⟩

/-- A property that is stored is no link. -/
theorem sameLinks_store (h : Heap) (o : ObjectId) (k : Key) (p : Property) :
    h.SameLinks (h.store o k p) := by
  have hlinks (x : ObjectId) : (h.store o k p).prototypeOf x = h.prototypeOf x ∧
      (h.store o k p).targetOf x = h.targetOf x := by
    by_cases hx : x = o
    · subst hx
      unfold Heap.prototypeOf Heap.targetOf
      rw [Heap.object_store_self]
      exact ⟨rfl, rfl⟩
    · exact Heap.links_of_object ((Heap.touches_store h o k p).other x hx)
  exact ⟨funext fun x => (hlinks x).1, funext fun x => (hlinks x).2, rfl, Nat.le_refl _,
    Nat.le_refl _⟩

theorem stays_modify {f : Machine → Machine} (hf : ∀ m : Machine, m.heap.SameLinks (f m).heap) :
    Relates Machine.StaysRelinked bodies (modify f) := fun m hm => hm.step (.aside (hf m))

theorem stays_holding {α : Type} {x : Run α} (hx : Relates Machine.StaysRelinked bodies x)
    (vs : List Value) : Relates Machine.StaysRelinked bodies (holding vs x) := by
  intro m hm
  have hheld : { m with held := vs ++ m.held }.Relinked := hm.step (.aside (sameLinks_refl _))
  have hthen := hx _ hheld
  unfold holding
  cases hrun : x bodies { m with held := vs ++ m.held } with
  | ok a m' =>
    rw [hrun] at hthen
    exact hthen.step (.aside (sameLinks_refl _))
  | error e m' =>
    rw [hrun] at hthen
    exact hthen.step (.aside (sameLinks_refl _))

/-- An object with an intrinsic prototype that is no bound function. -/
theorem stays_newObjectOf {x : Object} {i : Intrinsic} (hp : x.prototype = some i.id)
    (hkind : ∀ b, x.kind ≠ .bound b) : Relates Machine.StaysRelinked bodies (newObjectOf x) :=
  fun _ hm => hm.step (.create bodies (hm.grounded.precedes hp hkind))

theorem stays_nativeFunction (name : Text) (f : Builtin) (construct : Option Builtin) (length : Nat) :
    Relates Machine.StaysRelinked bodies (newObjectOf (nativeFunction name f construct length)) :=
  stays_newObjectOf (i := .functionPrototype) rfl fun b hb => by cases hb

theorem stays_installMember (o : ObjectId) (member : Member) :
    Relates Machine.StaysRelinked bodies (installMember o member) := by
  have hput (name : String) (p : Property) : Relates Machine.StaysRelinked bodies (do
      internName name
      modifyHeap (·.store o (.ofString name) p)) :=
    .bind (stays_modify fun m : Machine => sameLinks_refl m.heap) fun _ =>
      stays_modify fun m : Machine => sameLinks_store m.heap o _ p
  cases member with
  | method name f length => exact .bind (stays_nativeFunction _ _ _ _) fun _ => hput _ _
  | constant name v => exact hput _ _
  | hidden name v => exact hput _ _

theorem stays_installMembers (o : ObjectId) (members : List Member) :
    Relates Machine.StaysRelinked bodies (installMembers o members) := by
  induction members with
  | nil => exact .pure _
  | cons member members ih => exact .bind (stays_installMember o member) fun _ => ih

theorem stays_installEntry (entry : GlobalEntry) :
    Relates Machine.StaysRelinked bodies (installEntry entry) := by
  refine stays_holding ?_ []
  cases entry with
  | constructor name prototype call construct length methods statics labels =>
    refine .bind (stays_modify fun m : Machine => sameLinks_refl m.heap) fun _ => ?_
    refine .bind (stays_nativeFunction _ _ _ _) fun f => ?_
    have hlinked : Relates Machine.StaysRelinked bodies (modifyHeap fun h =>
        (h.store f (.ofString "prototype") (.constant (.object prototype.id))).store prototype.id
          (.ofString "constructor") (.hidden (.object f))) := fun m hm =>
      let stored := m.heap.store f (.ofString "prototype") (.constant (.object prototype.id))
      have hfirst : { m with heap := stored }.Relinked := hm.step (.aside (sameLinks_store _ _ _ _))
      hfirst.step (.aside (sameLinks_store stored _ _ _))
    refine .bind hlinked fun _ => .bind (stays_installMembers _ methods) fun _ => ?_
    refine .bind (stays_installMembers _ statics) fun _ => ?_
    refine .bind (stays_installMember _ _) fun _ => stays_installMembers _ labels
  | collection name members =>
    refine .bind (stays_newObjectOf (i := .objectPrototype) rfl fun b hb => by cases hb) fun o => ?_
    refine .bind (stays_modify fun m : Machine => sameLinks_refl m.heap) fun _ => ?_
    exact .bind (stays_installMembers o members) fun _ => stays_installMember _ _
  | direct member => exact stays_installMember _ member

/-- **A machine with the whole catalogue is one that arises.** -/
theorem relinked_boot (s : Surroundings) : (endOf (boot s)).Relinked := by
  have hall (bodies : Bodies) (entries : List GlobalEntry) :
      Relates Machine.StaysRelinked bodies (installEntries entries) := by
    induction entries with
    | nil => exact .pure _
    | cons entry entries ih => exact .bind (stays_installEntry entry) fun _ => ih
  exact hall _ catalogue _ (.start s)

end Steps

/-! ## 5. Every machine that arises -/

/-- **Whoever follows links comes to an end.** On every machine that arises, prototypes, targets of bound
functions and environments form chains without repetition. Lookups go along them to the end, as do calls,
constructions and instance tests along targets, however long the chains are. A new prototype is refused, and
then nothing is changed, exactly if the object is not extensible and has another, or the link would close a
cycle; otherwise only that link is new. -/
theorem links_end {m : Machine} (hm : m.Relinked) (bodies : Bodies) :
    (∀ o, ¬ TransGen (LinksTo m.heap.prototypeOf) o o ∧
      ∃ l, Walk m.heap.prototypeOf (some o) l ∧ l.Nodup ∧ m.heap.LooksAlong o l) ∧
    (∀ e, ¬ TransGen (LinksTo m.heap.outerOf) e e ∧
      ∃ l, Walk m.heap.outerOf (some e) l ∧ l.Nodup ∧
        ∀ name, m.heap.resolve e name = l.find? (m.heap.hasBinding · name)) ∧
    (∀ f, ¬ TransGen (LinksTo m.heap.targetOf) f f ∧
      ∃ l, Walk m.heap.targetOf (some f) l ∧ l.Nodup) ∧
    (∀ f b, (m.heap.object f).kind = .bound b → m.PassesOn bodies f b) ∧
    ∀ o p, m.heap.RefusesPrototype o p ∧ setPrototype o p bodies m = .ok false m ∨
      ¬ m.heap.RefusesPrototype o p ∧ ∃ h, setPrototype o p bodies m = .ok true { m with heap := h } ∧
        h.object o = { m.heap.object o with prototype := p } ∧
        ∀ x, x ≠ o → h.object x = m.heap.object x := by
  have hlinks := hm.grounded.links
  refine ⟨fun o => ⟨hlinks.prototypes.ending.not_cycle o, ?_⟩,
    fun e => ⟨hlinks.outers.ending.not_cycle e, ?_⟩,
    fun f => ⟨hlinks.targets.ending.not_cycle f, ?_⟩,
    fun f b hf => hlinks.passesOn bodies hf, fun o p => ?_⟩
  · obtain ⟨l, hl⟩ := Walk.exists_of_ending hlinks.prototypes.ending (some o)
    exact ⟨l, hl, hl.nodup hlinks.prototypes.ending, hlinks.looksAlong hl⟩
  · obtain ⟨l, hl⟩ := Walk.exists_of_ending hlinks.outers.ending (some e)
    exact ⟨l, hl, hl.nodup hlinks.outers.ending, hlinks.resolve_eq hl⟩
  · obtain ⟨l, hl⟩ := Walk.exists_of_ending hlinks.targets.ending (some f)
    exact ⟨l, hl, hl.nodup hlinks.targets.ending⟩
  · rw [← hlinks.setPrototype?_eq_none_iff, setPrototype_run]
    cases hset : m.heap.setPrototype? o p with
    | none => exact .inl ⟨rfl, rfl⟩
    | some h =>
      obtain ⟨ht, hobject⟩ := Heap.touches_setPrototype hset
      refine .inr ⟨nofun, h, rfl, ?_, fun x hx => ht.other x hx⟩
      rcases hobject with hsame | ⟨hnew, _⟩
      · -- the prototype was the same before
        have hp : (h.object o).prototype = p :=
          (congrFun (Heap.setPrototype?_links hset).1 o).trans (if_pos rfl)
        rw [← hsame, ← hp]
      · exact hnew

/-- The root of all prototypes cannot get one of the objects below it as its own prototype. -/
theorem links_end_root : (Machine.start {}).Relinked ∧ ∀ bodies : Bodies,
    setPrototype Intrinsic.objectPrototype.id (some Intrinsic.functionPrototype.id) bodies
      (.start {}) = .ok false (.start {}) := by
  refine ⟨.start {}, fun bodies => ?_⟩
  have hcloses : (Machine.start {}).heap.RefusesPrototype Intrinsic.objectPrototype.id
      (some Intrinsic.functionPrototype.id) := by
    refine .inr (.head (b := Intrinsic.functionPrototype.id) rfl (.single ?_))
    show Heap.skeleton.prototypeOf Intrinsic.functionPrototype.id = some Intrinsic.objectPrototype.id
    rfl
  rcases (links_end (.start {}) bodies).2.2.2.2 _ _ with ⟨_, hrefused⟩ | ⟨hadmitted, _⟩
  · exact hrefused
  · exact absurd hcloses hadmitted

end Ecma51
