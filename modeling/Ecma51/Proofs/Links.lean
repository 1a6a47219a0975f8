import Ecma51.Operation.Scope
import Ecma51.Proofs.Edit
import Ecma51.Proofs.Walk

/-!
# Links between objects and between environments

An object has a prototype, a bound function has a target, and an environment has one around it. New objects
and environments are linked to older ones only, a collection takes links away, and a prototype is replaced
only if the new one does not lead back. So whoever follows such links comes to an end, and every loop along
them is as if its steps were not counted.

* `Heap.WellLinked`: following links ends, and they lead to what was made.
* `Heap.LooksAlong`: what the loops along prototypes give.
* `WellLinked.unbind_bound`: the recursion along the targets of bound functions.
* **`WellLinked.setPrototype?_eq_none_iff`**: which prototypes are refused.
-/

namespace Ecma51

open Relation (ReflTransGen TransGen)

/-! ## 1. Numbered places -/

/-- Whoever follows the links comes to an end, and all of them lead to numbers in use. -/
structure Linking (next : Nat → Option Nat) (used : Nat) : Prop where
  ending : Ending next
  below : ∀ x y, LinksTo next x y → y < used

namespace Linking

variable {next next' : Nat → Option Nat} {used used' : Nat}

theorem none (used : Nat) : Linking (fun _ => Option.none) used where
  ending := .of_forall_none fun _ => rfl
  below _ _ h := by cases h

/-- Links that are taken away do no harm. -/
theorem of_subset (h : Linking next used) (hsub : ∀ x y, LinksTo next' x y → LinksTo next x y)
    (hle : used ≤ used') : Linking next' used' where
  ending := h.ending.of_subset hsub
  below x y hxy := Nat.lt_of_lt_of_le (h.below x y (hsub x y hxy)) hle

/-- Another link from one place, if it does not lead back there. -/
theorem relink (h : Linking next used) {a : Nat}
    (hused : ∀ p, next' a = some p → p < used')
    (hback : ∀ p, next' a = some p → ¬ ReflTransGen (LinksTo next) p a)
    (hother : ∀ x, x ≠ a → next' x = next x) (hle : used ≤ used') : Linking next' used' where
  ending := h.ending.relink hback hother
  below x y hxy := by
    by_cases hx : x = a
    · subst hx
      exact hused y hxy
    · have hold : LinksTo next x y := (hother x hx).symm.trans hxy
      exact Nat.lt_of_lt_of_le (h.below x y hold) hle

/-- A number that comes into use is linked to one that was in use before. -/
theorem extend (h : Linking next used) (hnew : ∀ p, next' used = some p → p < used)
    (hother : ∀ x, x ≠ used → next' x = next x) : Linking next' (used + 1) := by
  refine h.relink (fun p hp => Nat.lt_succ_of_lt (hnew p hp)) (fun p hp hback => ?_) hother
    (Nat.le_succ used)
  -- nothing leads to a number that is not in use
  rcases hback.cases_tail with heq | ⟨x, _, hx⟩
  · exact Nat.lt_irrefl _ (heq ▸ hnew p hp)
  · exact Nat.lt_irrefl _ (h.below x used hx)

end Linking

/-! ## 2. The links of a heap -/

namespace Heap

/-- The prototype of an object. -/
def prototypeOf (h : Heap) (o : ObjectId) : Option ObjectId := (h.object o).prototype

/-- The target of a bound function. -/
def targetOf (h : Heap) (f : ObjectId) : Option ObjectId :=
  match (h.object f).kind with
  | .bound b => some b.target
  | _ => none

/-- The environment around another. -/
def outerOf (h : Heap) (e : EnvironmentId) : Option EnvironmentId := (h.environment e).outer

theorem targetOf_eq_some {h : Heap} {f t : ObjectId} :
    h.targetOf f = some t ↔ ∃ b, (h.object f).kind = .bound b ∧ b.target = t := by
  unfold targetOf
  cases (h.object f).kind <;> simp

/-- Whoever follows the links of a heap comes to an end; all of them lead to what was made. -/
structure WellLinked (h : Heap) : Prop where
  prototypes : Linking h.prototypeOf h.nextObject
  targets : Linking h.targetOf h.nextObject
  outers : Linking h.outerOf h.nextEnvironment

/-- All links are as before, and nothing that was made is forgotten. -/
structure SameLinks (h h' : Heap) : Prop where
  prototypes : h'.prototypeOf = h.prototypeOf
  targets : h'.targetOf = h.targetOf
  outers : h'.outerOf = h.outerOf
  objects : h.nextObject ≤ h'.nextObject
  environments : h.nextEnvironment ≤ h'.nextEnvironment

/-- The prototype and the target of a new object were made before. -/
structure Precedes (h : Heap) (x : Object) : Prop where
  prototype : ∀ p, x.prototype = some p → p < h.nextObject
  target : ∀ b, x.kind = .bound b → b.target < h.nextObject

/-! ## 3. Changes of links -/

variable {h h' : Heap}

theorem links_of_object {o : ObjectId} (ho : h'.object o = h.object o) :
    h'.prototypeOf o = h.prototypeOf o ∧ h'.targetOf o = h.targetOf o := by
  unfold prototypeOf targetOf
  rw [ho]
  exact ⟨rfl, rfl⟩

theorem wellLinked_empty : empty.WellLinked := ⟨.none 0, .none 0, .none 0⟩

theorem WellLinked.same (hh : h.WellLinked) (hs : h.SameLinks h') : h'.WellLinked where
  prototypes := hh.prototypes.of_subset (fun x y hxy => by rwa [hs.prototypes] at hxy) hs.objects
  targets := hh.targets.of_subset (fun x y hxy => by rwa [hs.targets] at hxy) hs.objects
  outers := hh.outers.of_subset (fun x y hxy => by rwa [hs.outers] at hxy) hs.environments

theorem WellLinked.add (hh : h.WellLinked) {x : Object} (hx : h.Precedes x) :
    (h.add x).1.WellLinked := by
  have hnew : (h.add x).1.object h.nextObject = x := (object_add h x _).trans (if_pos rfl)
  have hold (o : ObjectId) (ho : o ≠ h.nextObject) : (h.add x).1.object o = h.object o :=
    (object_add h x o).trans (if_neg ho.symm)
  refine ⟨hh.prototypes.extend (fun p hp => ?_) (fun o ho => (links_of_object (hold o ho)).1),
    hh.targets.extend (fun t ht => ?_) (fun o ho => (links_of_object (hold o ho)).2), hh.outers⟩
  · unfold prototypeOf at hp
    rw [hnew] at hp
    exact hx.prototype p hp
  · obtain ⟨b, hb, rfl⟩ := targetOf_eq_some.mp ht
    rw [hnew] at hb
    exact hx.target b hb

theorem environment_addEnvironment (h : Heap) (x : Environment) (e : EnvironmentId) :
    (h.addEnvironment x).1.environment e = if h.nextEnvironment = e then x else h.environment e := by
  unfold environment addEnvironment
  rw [Std.TreeMap.getD_insert]
  simp only [Std.LawfulEqCmp.compare_eq_iff_eq]

theorem WellLinked.addEnvironment (hh : h.WellLinked) {x : Environment}
    (hx : ∀ e, x.outer = some e → e < h.nextEnvironment) : (h.addEnvironment x).1.WellLinked := by
  refine ⟨hh.prototypes, hh.targets, hh.outers.extend (fun e he => hx e ?_) fun e he => ?_⟩
  · unfold outerOf at he
    rwa [environment_addEnvironment, if_pos rfl] at he
  · unfold outerOf
    rw [environment_addEnvironment, if_neg he.symm]

/-- A collection keeps an environment or removes it altogether. -/
theorem environment_collect (h : Heap) (outside borrowed : List Nat) (e : EnvironmentId) :
    (h.collect outside borrowed).environment e = h.environment e ∨
      (h.collect outside borrowed).environment e = default := by
  obtain ⟨hkept, hdropped⟩ := h.collect_environments outside borrowed e
  unfold environment
  rw [Std.TreeMap.getD_eq_getD_getElem?, Std.TreeMap.getD_eq_getD_getElem?]
  by_cases hu : h.InUse outside borrowed (environmentNode e)
  · exact .inl (by rw [hkept hu])
  · exact .inr (by rw [hdropped hu]; rfl)

theorem WellLinked.collect (hh : h.WellLinked) (outside borrowed : List Nat) :
    (h.collect outside borrowed).WellLinked := by
  refine ⟨hh.prototypes.of_subset (fun o p hp => ?_) (Nat.le_refl _),
    hh.targets.of_subset (fun f t ht => ?_) (Nat.le_refl _),
    hh.outers.of_subset (fun e e' he => ?_) (Nat.le_refl _)⟩
  · rcases h.object_collect outside borrowed o with hkept | ⟨hgone, _⟩
    · exact (links_of_object hkept).1.symm.trans hp
    · unfold LinksTo prototypeOf at hp
      rw [hgone] at hp
      cases hp
  · rcases h.object_collect outside borrowed f with hkept | ⟨hgone, _⟩
    · exact (links_of_object hkept).2.symm.trans ht
    · unfold LinksTo targetOf at ht
      rw [hgone] at ht
      cases ht
  · unfold LinksTo outerOf at he ⊢
    rcases h.environment_collect outside borrowed e with hkept | hgone
    · rwa [hkept] at he
    · rw [hgone] at he
      cases he

/-! ## 4. Loops -/

theorem object_of_not_mem_keys {o : ObjectId} (h : Heap) (ho : o ∉ h.objects.keys) :
    h.object o = default := by
  unfold object
  rw [Std.TreeMap.getD_eq_getD_getElem?, Std.TreeMap.getElem?_eq_none]
  · rfl
  · rwa [Std.TreeMap.mem_keys] at ho

/-- A walk along prototypes is no longer than the loops go. -/
theorem length_prototypes_of_nodup {start : Option ObjectId} {l : List ObjectId}
    (hw : Walk h.prototypeOf start l) (hnodup : l.Nodup) : l.length ≤ h.size + 1 := by
  have hplaces (o p : ObjectId) (hp : LinksTo h.prototypeOf o p) : o ∈ h.objects.keys := by
    by_contra ho
    unfold LinksTo prototypeOf at hp
    rw [object_of_not_mem_keys h ho] at hp
    cases hp
  have hle := hw.length_le hnodup hplaces
  rwa [Std.TreeMap.length_keys] at hle

namespace WellLinked

variable {start : Option Nat} {l : List Nat}

theorem length_prototypes (hh : h.WellLinked) (hw : Walk h.prototypeOf start l) :
    l.length ≤ h.size + 1 := length_prototypes_of_nodup hw (hw.nodup hh.prototypes.ending)

/-- A walk along targets is no longer than the recursion goes. -/
theorem length_targets (hh : h.WellLinked) (hw : Walk h.targetOf start l) :
    l.length ≤ h.size + 1 := by
  have hplaces (f t : ObjectId) (ht : LinksTo h.targetOf f t) : f ∈ h.objects.keys := by
    by_contra hf
    unfold LinksTo targetOf at ht
    rw [object_of_not_mem_keys h hf] at ht
    cases ht
  have hle := hw.length_le (hw.nodup hh.targets.ending) hplaces
  rwa [Std.TreeMap.length_keys] at hle

/-- A walk along environments is no longer than the loop goes. -/
theorem length_outers (hh : h.WellLinked) (hw : Walk h.outerOf start l) :
    l.length ≤ h.environments.size + 1 := by
  have hplaces (e e' : EnvironmentId) (he : LinksTo h.outerOf e e') : e ∈ h.environments.keys := by
    by_contra hnot
    unfold LinksTo outerOf environment at he
    rw [Std.TreeMap.mem_keys] at hnot
    rw [Std.TreeMap.getD_eq_getD_getElem?, Std.TreeMap.getElem?_eq_none hnot] at he
    cases he
  have hle := hw.length_le (hw.nodup hh.outers.ending) hplaces
  rwa [Std.TreeMap.length_keys] at hle

end WellLinked

section Bounded

variable {start : Option Nat} {l : List Nat} {n : Nat}

theorem chainUpTo_of_walk (hw : Walk h.prototypeOf start l) (hn : l.length ≤ n) :
    h.chainUpTo n start = l := by
  induction hw generalizing n with
  | done => cases n <;> rfl
  | @step o l _ ih =>
    cases n with
    | zero => cases hn
    | succ n =>
      have hrest : h.chainUpTo n (h.object o).prototype = l := ih (Nat.le_of_succ_le_succ hn)
      unfold chainUpTo
      rw [hrest]

theorem findUpTo_of_walk (hw : Walk h.prototypeOf start l) (hn : l.length ≤ n) (k : Key) :
    h.findUpTo k n start = l.findSome? (h.getOwn? · k) := by
  induction hw generalizing n with
  | done => cases n <;> rfl
  | @step o l _ ih =>
    cases n with
    | zero => cases hn
    | succ n =>
      have hrest : h.findUpTo k n (h.object o).prototype = l.findSome? (h.getOwn? · k) :=
        ih (Nat.le_of_succ_le_succ hn)
      unfold findUpTo
      rw [hrest, List.findSome?_cons]
      cases h.getOwn? o k <;> rfl

theorem resolveUpTo_of_walk (hw : Walk h.outerOf start l) (hn : l.length ≤ n) (name : Text) :
    h.resolveUpTo name n start = l.find? (h.hasBinding · name) := by
  induction hw generalizing n with
  | done => cases n <;> rfl
  | @step e l _ ih =>
    cases n with
    | zero => cases hn
    | succ n =>
      have hrest : h.resolveUpTo name n (h.environment e).outer = l.find? (h.hasBinding · name) :=
        ih (Nat.le_of_succ_le_succ hn)
      unfold resolveUpTo
      rw [hrest, List.find?_cons]
      cases h.hasBinding e name <;> rfl

/-- One step more changes nothing once the walk is at its end. -/
theorem unbindUpTo_of_walk {f : ObjectId} (hw : Walk h.targetOf (some f) l) (hn : l.length ≤ n + 1)
    (this : Value) (args : List Value) :
    h.unbindUpTo (n + 1) f this args = h.unbindUpTo n f this args := by
  induction n generalizing f l this args with
  | zero =>
    obtain ⟨rest, rfl, hrest⟩ := hw.tail rfl
    have hend : h.targetOf f = none := by
      cases hf : h.targetOf f with
      | none => rfl
      | some t =>
        obtain ⟨rest', rfl, _⟩ := hrest.tail hf
        rw [List.length_cons, List.length_cons] at hn
        omega
    unfold unbindUpTo
    unfold targetOf at hend
    split
    · rename_i b hb
      rw [hb] at hend
      cases hend
    · rfl
  | succ n ih =>
    obtain ⟨rest, rfl, hrest⟩ := hw.tail rfl
    unfold unbindUpTo
    split
    · rename_i b hb
      have ht : h.targetOf f = some b.target := targetOf_eq_some.mpr ⟨b, hb, rfl⟩
      rw [ht] at hrest
      exact ih hrest (Nat.le_of_succ_le_succ hn) _ _
    · rfl

/-- The function and the arguments that a bound function stands for do not depend on `this`, and the
function does not depend on the arguments either. -/
theorem unbindUpTo_this (n : Nat) (f : ObjectId) (this this' : Value) (args : List Value) :
    (h.unbindUpTo n f this args).1 = (h.unbindUpTo n f this' args).1 ∧
      (h.unbindUpTo n f this args).2.2 = (h.unbindUpTo n f this' args).2.2 := by
  induction n generalizing f this this' args with
  | zero => exact ⟨rfl, rfl⟩
  | succ n ih =>
    unfold unbindUpTo
    split
    · exact ih _ _ _ _
    · exact ⟨rfl, rfl⟩

theorem unbindUpTo_function (n : Nat) (f : ObjectId) (this this' : Value) (args args' : List Value) :
    (h.unbindUpTo n f this args).1 = (h.unbindUpTo n f this' args').1 := by
  induction n generalizing f this this' args args' with
  | zero => rfl
  | succ n ih =>
    unfold unbindUpTo
    split
    · exact ih _ _ _ _ _
    · rfl

end Bounded

/-! ## 5. What loops and recursions give -/

/-- What loops from an object on give, where `l` is the object and all its prototypes. -/
structure LooksAlong (h : Heap) (o : ObjectId) (l : List ObjectId) : Prop where
  chain : h.chain o = l
  getProperty (k : Key) : h.getProperty? o k = l.findSome? (h.getOwn? · k)
  canPut (k : Key) : h.canPut o k =
    match h.getOwn? o k, l.tail.findSome? (h.getOwn? · k) with
    | some p, _ => acceptsPut p
    | none, none => (h.object o).extensible
    | none, some p => acceptsPut p && (!p.isData || (h.object o).extensible)
  isPrototypeOf (p : ObjectId) : h.isPrototypeOf p o = l.tail.contains p
  forInKeys : h.forInKeys o = h.visibleKeys l []

/-- The link from an object to a new prototype would close a cycle. -/
def Closes (h : Heap) (o : ObjectId) (p : Option ObjectId) : Prop :=
  TransGen (LinksTo fun x => if x = o then p else h.prototypeOf x) o o

/-- A new prototype is not admitted. -/
def RefusesPrototype (h : Heap) (o : ObjectId) (p : Option ObjectId) : Prop :=
  (h.object o).extensible = false ∧ h.prototypeOf o ≠ p ∨ h.Closes o p

/-- A new prototype that is admitted is the only link that changes. -/
theorem setPrototype?_links {o : ObjectId} {p : Option ObjectId} (hset : h.setPrototype? o p = some h') :
    (h'.prototypeOf = fun x => if x = o then p else h.prototypeOf x) ∧
    h'.targetOf = h.targetOf ∧ h'.nextObject = h.nextObject ∧
    h'.outerOf = h.outerOf ∧ h'.nextEnvironment = h.nextEnvironment := by
  unfold setPrototype? at hset
  dsimp only at hset
  split at hset
  · rename_i hsame
    cases hset
    refine ⟨funext fun x => ?_, rfl, rfl, rfl, rfl⟩
    split
    · rename_i hx
      rw [hx]
      exact hsame
    · rfl
  · split at hset
    · cases hset
    · split at hset
      · cases hset
      · cases hset
        refine ⟨funext fun x => ?_, funext fun x => ?_, rfl, rfl, rfl⟩
        · unfold prototypeOf
          rw [object_set]
          by_cases hx : x = o
          · rw [if_pos hx.symm, if_pos hx]
          · rw [if_neg (Ne.symm hx), if_neg hx]
        · unfold targetOf
          rw [object_set]
          by_cases hx : x = o
          · rw [if_pos hx.symm, hx]
          · rw [if_neg (Ne.symm hx)]

namespace WellLinked

theorem chainFrom_eq (hh : h.WellLinked) {start : Option ObjectId} {l : List ObjectId}
    (hw : Walk h.prototypeOf start l) : h.chainFrom start = l :=
  chainUpTo_of_walk hw (hh.length_prototypes hw)

theorem looksAlong (hh : h.WellLinked) {o : ObjectId} {l : List ObjectId}
    (hw : Walk h.prototypeOf (some o) l) : h.LooksAlong o l := by
  obtain ⟨rest, rfl, hrest⟩ := hw.tail rfl
  have hchain : h.chain o = o :: rest := hh.chainFrom_eq hw
  -- a lookup that starts at the prototype goes through the rest
  have hinherited (k : Key) :
      (h.object o).prototype.bind (h.getProperty? · k) = rest.findSome? (h.getOwn? · k) := by
    cases hp : h.prototypeOf o with
    | none =>
      rw [hp] at hrest
      cases hrest
      have hp : (h.object o).prototype = none := hp
      rw [hp]
      rfl
    | some p =>
      rw [hp] at hrest
      have hp : (h.object o).prototype = some p := hp
      rw [hp]
      exact findUpTo_of_walk hrest (hh.length_prototypes hrest) k
  refine ⟨hchain, fun k => findUpTo_of_walk hw (hh.length_prototypes hw) k, fun k => ?_,
    fun p => ?_, ?_⟩
  · unfold canPut
    dsimp only
    rw [hinherited, List.tail_cons]
    cases h.getOwn? o k with
    | some p => rfl
    | none => cases rest.findSome? (h.getOwn? · k) <;> rfl
  · unfold isPrototypeOf
    rw [show (h.object o).prototype = h.prototypeOf o from rfl, hh.chainFrom_eq hrest,
      List.tail_cons]
  · unfold forInKeys
    rw [hchain]

theorem resolve_eq (hh : h.WellLinked) {e : EnvironmentId} {l : List EnvironmentId}
    (hw : Walk h.outerOf (some e) l) (name : Text) :
    h.resolve e name = l.find? (h.hasBinding · name) :=
  resolveUpTo_of_walk hw (hh.length_outers hw) name

/-- A bound function stands for what its target stands for. -/
theorem unbind_bound (hh : h.WellLinked) {f : ObjectId} {b : BoundFunction}
    (hf : (h.object f).kind = .bound b) (this : Value) (args : List Value) :
    h.unbind f this args = h.unbind b.target b.this (b.arguments ++ args) := by
  obtain ⟨l, hl⟩ := Walk.exists_of_ending hh.targets.ending (some b.target)
  have hfirst : h.unbind f this args =
      h.unbindUpTo h.size b.target b.this (b.arguments ++ args) := by
    simp only [unbind, unbindUpTo, hf]
  exact hfirst.trans (unbindUpTo_of_walk hl (hh.length_targets hl) _ _).symm

/-- **A prototype is refused exactly if the object is not extensible and has another, or the link would
close a cycle.** -/
theorem setPrototype?_eq_none_iff (hh : h.WellLinked) (o : ObjectId) (p : Option ObjectId) :
    h.setPrototype? o p = none ↔ h.RefusesPrototype o p := by
  obtain ⟨l, hl⟩ := Walk.exists_of_ending hh.prototypes.ending p
  have hother (x : ObjectId) (hx : x ≠ o) :
      (if x = o then p else h.prototypeOf x) = h.prototypeOf x := if_neg hx
  have hcloses : h.Closes o p ↔ (h.chainFrom p).contains o = true := by
    rw [hh.chainFrom_eq hl, List.contains_iff_mem, hl.mem_iff]
    unfold Closes
    rw [hh.prototypes.ending.cycle_iff hother, if_pos rfl]
  unfold setPrototype? RefusesPrototype
  rw [hcloses]
  dsimp only
  by_cases hsame : (h.object o).prototype = p
  · -- the object is not among its own prototypes
    have hsame' : h.prototypeOf o = p := hsame
    have hnot : o ∉ h.chainFrom p := by
      rw [hh.chainFrom_eq hl, hl.mem_iff]
      rintro ⟨q, hq, hqo⟩
      exact hh.prototypes.ending.not_cycle o (.head' (hsame'.trans hq) hqo)
    simp [hsame, hsame', hnot]
  · have hdiffers : h.prototypeOf o ≠ p := hsame
    cases hextensible : (h.object o).extensible <;>
      cases hback : (h.chainFrom p).contains o <;> simp [hsame, hdiffers]

theorem setPrototype (hh : h.WellLinked) {o : ObjectId} {p : Option ObjectId}
    (hp : ∀ q, p = some q → q < h.nextObject) (hset : h.setPrototype? o p = some h') :
    h'.WellLinked := by
  have hadmitted : ¬ h.Closes o p := fun hcloses => by
    rw [(hh.setPrototype?_eq_none_iff o p).mpr (.inr hcloses)] at hset
    cases hset
  have hother (x : ObjectId) (hx : x ≠ o) :
      (if x = o then p else h.prototypeOf x) = h.prototypeOf x := if_neg hx
  obtain ⟨hprototypes, htargets, hobjects, houters, henvironments⟩ := setPrototype?_links hset
  refine ⟨?_, ?_, ?_⟩
  · rw [hprototypes, hobjects]
    refine hh.prototypes.relink (a := o) (fun q hq => hp q (by rwa [if_pos rfl] at hq))
      (fun q hq hback => hadmitted ?_) hother (Nat.le_refl _)
    exact (hh.prototypes.ending.cycle_iff hother).mpr ⟨q, hq, hback⟩
  · rw [htargets, hobjects]
    exact hh.targets
  · rw [houters, henvironments]
    exact hh.outers

end WellLinked

end Heap

end Ecma51
