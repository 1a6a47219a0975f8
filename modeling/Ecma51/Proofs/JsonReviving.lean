import Ecma51.Proofs.Assignment
import Ecma51.Proofs.CallDepth
import Ecma51.Proofs.JsonRoundTrip

/-!
# Reviving what was read

A function that is given for it revives a value from the inside out. It is called with the object that holds a
property, which it may change, also where the walk has yet to come. The walk counts none of its levels: how deep it
goes is up to the function.

* `reviveText`: a text is read and revived, on at most so many levels.
* **`revive_outlasts`**: more levels do no harm.
* **`revive_staysAtDepth`**: all that is done is done with as many calls under way as when the walk began.
* `Heap.IsTree`: values in which different properties have no object in common.
* `GraftsNothing`: a function that leaves alone what has yet to be visited.
* **`revive_tree`**: the walk over a tree ends if the function grafts nothing.
-/

namespace Ecma51

/-! ## 1. The walk -/

/-- A new object that has a value under the empty name. -/
def rootFor (v : Value) : Run ObjectId := do
  hold v
  let root ← newObject
  let _ ← createData root (.name .empty) v
  return root

/-- The value of a text, revived on at most so many levels. -/
def reviveText (n : Nat) (t : Text) (f : Value) : Run Value := do
  let v ← parseJson t
  if !(← getHeap).isCallable f then return v
  revive f n (← rootFor v) (.name .empty)

theorem parseAndRevive_eq (t : Text) (f : Value) : parseAndRevive t f = reviveText reviveBound t f := by
  unfold parseAndRevive reviveText rootFor
  simp only [bind_assoc, pure_bind]

/-- What becomes of a property takes its place. -/
def reviveProperty (f : Value) (n : Nat) (o : ObjectId) (k : Key) : Run Unit := do
  putRevived o k (← revive f n o k)

/-- The properties of an object are revived. -/
def reviveInside (f : Value) (n : Nat) : Value → Run Unit
  | .object o => do
    let h ← getHeap
    if (h.object o).isArray then forIndices (reviveProperty f n o) (← lengthOfArrayLike o) 0
    else forKeys (reviveProperty f n o) (h.ownEnumerableKeys o)
  | _ => pure ()

theorem revive_succ (f : Value) (n : Nat) (holder : ObjectId) (k : Key) :
    revive f (n + 1) holder k = (do
      let v ← getFrom holder k
      holding [.object holder, v] do
        reviveInside f n v
        callValue f (.object holder) [.string k.toText, v]) := by
  unfold revive
  refine congrArg (getFrom holder k >>= ·) (funext fun v => congrArg (holding _) ?_)
  cases v with
  | object o =>
    funext bodies m
    unfold reviveInside
    dsimp only
    rw [getHeap_bind_run, bind_assoc, getHeap_bind_run]
    split
    · rw [bind_assoc]
      rfl
    · rfl
  | _ => rfl

theorem forIndices_eq (body : Key → Run Unit) (n i : Nat) :
    forIndices body n i = forKeys body ((List.range' i n).map Key.ofNat) := by
  induction n generalizing i with
  | zero => rfl
  | succ n ih =>
    unfold forIndices
    rw [ih, List.range'_succ]
    rfl

/-! ## 2. Levels -/

/-- The second operation does what the first one does, unless that is exhausted. -/
def Outlasts {α : Type} (bodies : Bodies) (x x' : Run α) : Prop :=
  ∀ m, (∃ m', x bodies m = .error .exhausted m') ∨ x' bodies m = x bodies m

namespace Outlasts

variable {α β : Type} {bodies : Bodies}

theorem refl (x : Run α) : Outlasts bodies x x := fun _ => .inr rfl

theorem trans {x x' x'' : Run α} (hx : Outlasts bodies x x') (hx' : Outlasts bodies x' x'') :
    Outlasts bodies x x'' := fun m => by
  rcases hx m with hx | hx
  · exact .inl hx
  · rw [← hx]
    exact hx' m

theorem bind {x x' : Run α} {g g' : α → Run β} (hx : Outlasts bodies x x') (hg : ∀ a, Outlasts bodies (g a) (g' a)) :
    Outlasts bodies (x >>= g) (x' >>= g') := fun m => by
  rcases hx m with ⟨m', hx⟩ | hx
  · exact .inl ⟨m', bind_run_error hx g⟩
  · cases hrun : x bodies m with
    | error e m' =>
      rw [hrun] at hx
      exact .inr ((bind_run_error hx g').trans (bind_run_error hrun g).symm)
    | ok a m' =>
      rw [hrun] at hx
      rw [bind_run_ok hrun, bind_run_ok hx]
      exact hg a m'

theorem holding {x x' : Run α} (hx : Outlasts bodies x x') (vs : List Value) :
    Outlasts bodies (holding vs x) (holding vs x') := fun m => by
  rcases hx { m with held := vs ++ m.held } with ⟨m', hx⟩ | hx
  · exact .inl ⟨_, holding_error hx⟩
  · unfold Ecma51.holding
    rw [hx]
    exact .inr rfl

theorem forKeys {body body' : Key → Run Unit} (hbody : ∀ k, Outlasts bodies (body k) (body' k)) :
    ∀ ks : List Key, Outlasts bodies (forKeys body ks) (forKeys body' ks)
  | [] => refl _
  | k :: ks => .bind (hbody k) fun _ => forKeys hbody ks

end Outlasts

/-- More levels do no harm. -/
theorem revive_outlasts (bodies : Bodies) (f : Value) (n : Nat) (holder : ObjectId) (k : Key) :
    Outlasts bodies (revive f n holder k) (revive f (n + 1) holder k) := by
  induction n generalizing holder k with
  | zero => exact fun m => .inl ⟨m, rfl⟩
  | succ n ih =>
    rw [revive_succ, revive_succ]
    refine .bind (.refl _) fun v => .holding (.bind ?_ fun _ => .refl _) _
    have hproperty (o : ObjectId) (k : Key) :
        Outlasts bodies (reviveProperty f n o k) (reviveProperty f (n + 1) o k) :=
      .bind (ih o k) fun _ => .refl _
    cases v with
    | object o =>
      refine .bind (.refl _) fun h => ?_
      split
      · refine .bind (.refl _) fun length => ?_
        rw [forIndices_eq, forIndices_eq]
        exact .forKeys (hproperty o) _
      · exact .forKeys (hproperty o) _
    | _ => exact .refl _

theorem reviveText_outlasts (bodies : Bodies) (t : Text) (f : Value) {n n' : Nat} (hle : n ≤ n') :
    Outlasts bodies (reviveText n t f) (reviveText n' t f) := by
  have hrevive (root : ObjectId) :
      Outlasts bodies (revive f n root (.name .empty)) (revive f n' root (.name .empty)) := by
    induction hle with
    | refl => exact .refl _
    | step _ ih => exact ih.trans (revive_outlasts bodies f _ _ _)
  unfold reviveText
  refine .bind (.refl _) fun v => .bind (.refl _) fun h => ?_
  split
  · exact .refl _
  · exact .bind (.refl _) hrevive

/-! ## 3. Failures -/

/-- What the walk does besides walking on. -/
inductive RevivePart (f : Value) : {α : Type} → Run α → Prop where
  | read (o : ObjectId) (k : Key) : RevivePart f (getFrom o k)
  | count (o : ObjectId) : RevivePart f (lengthOfArrayLike o)
  | putBack (o : ObjectId) (k : Key) (v : Value) : RevivePart f (putRevived o k v)
  | call (o : ObjectId) (k : Key) (v : Value) : RevivePart f (callValue f (.object o) [.string k.toText, v])

/-- A part fails in this way when as many calls are under way as on the given machine. -/
def PartFails (bodies : Bodies) (f : Value) (m : Machine) (e : Failure) : Prop :=
  ∃ (α : Type) (x : Run α) (m₁ m₂ : Machine), RevivePart f x ∧ m.SameDepth m₁ ∧ x bodies m₁ = .error e m₂

/-- From machines with as many calls under way as on the given one the operation comes to such machines, and if it
fails, in one of the given ways. -/
def StaysAtDepth {α : Type} (bodies : Bodies) (m : Machine) (E : Failure → Prop) (x : Run α) : Prop :=
  ∀ m₁, m.SameDepth m₁ → m.SameDepth (endOf (x bodies m₁)) ∧ ∀ e m₂, x bodies m₁ = .error e m₂ → E e

namespace StaysAtDepth

variable {α β : Type} {bodies : Bodies} {m : Machine} {E : Failure → Prop}

theorem pure (a : α) : StaysAtDepth bodies m E (pure a : Run α) := fun _ hdepth =>
  ⟨hdepth, fun _ _ hrun => nomatch hrun⟩

theorem throw {e : Failure} (he : E e) : StaysAtDepth bodies m E (throw e : Run α) := by
  refine fun m₁ hdepth => ⟨hdepth, fun e' m₂ hrun => ?_⟩
  cases hrun
  exact he

theorem bind {x : Run α} {g : α → Run β} (hx : StaysAtDepth bodies m E x) (hg : ∀ a, StaysAtDepth bodies m E (g a)) :
    StaysAtDepth bodies m E (x >>= g) := fun m₁ hdepth => by
  obtain ⟨hend, hfails⟩ := hx m₁ hdepth
  cases hrun : x bodies m₁ with
  | error e m₂ =>
    rw [hrun] at hend
    rw [bind_run_error hrun]
    refine ⟨hend, fun e' m₃ he => ?_⟩
    cases he
    exact hfails e m₂ hrun
  | ok a m₂ =>
    rw [hrun] at hend
    rw [bind_run_ok hrun]
    exact hg a m₂ hend

theorem holding {x : Run α} (hx : StaysAtDepth bodies m E x) (vs : List Value) :
    StaysAtDepth bodies m E (holding vs x) := fun m₁ hdepth => by
  obtain ⟨hend, hfails⟩ := hx { m₁ with held := vs ++ m₁.held } ⟨hdepth.callDepth, hdepth.maxCallDepth⟩
  cases hrun : x bodies { m₁ with held := vs ++ m₁.held } with
  | error e m₂ =>
    rw [hrun] at hend
    rw [holding_error hrun]
    refine ⟨⟨hend.callDepth, hend.maxCallDepth⟩, fun e' m₃ he => ?_⟩
    cases he
    exact hfails e m₂ hrun
  | ok a m₂ =>
    rw [hrun] at hend
    rw [holding_ok hrun]
    exact ⟨⟨hend.callDepth, hend.maxCallDepth⟩, fun _ _ he => nomatch he⟩

theorem forKeys {body : Key → Run Unit} (hbody : ∀ k, StaysAtDepth bodies m E (body k)) :
    ∀ ks : List Key, StaysAtDepth bodies m E (forKeys body ks)
  | [] => pure ()
  | k :: ks => .bind (hbody k) fun _ => forKeys hbody ks

end StaysAtDepth

theorem RevivePart.keepsDepth {bodies : Bodies} (hbodies : bodies.KeepDepth) {f : Value} {α : Type} {x : Run α}
    (hx : RevivePart f x) : Relates Machine.SameDepth bodies x := by
  have hbuilt : Built x := by
    cases hx with
    | read o k => exact built_getFrom o k
    | count o => exact built_lengthOfArrayLike o
    | putBack o k v => exact built_putRevived o k v
    | call o k v => exact built_callValue _ _ _
  exact hbuilt.keepsDepth hbodies

/-- **The walk counts none of its levels.** However deep it has come, what it does is done with as many calls
under way as when it began, and it fails only where one of its parts does, or where it is out of levels. -/
theorem revive_staysAtDepth {bodies : Bodies} (hbodies : bodies.KeepDepth) (f : Value) (m : Machine) (n : Nat)
    (holder : ObjectId) (k : Key) :
    StaysAtDepth bodies m (fun e => e = .exhausted ∨ PartFails bodies f m e) (revive f n holder k) := by
  have hpart {α : Type} {x : Run α} (hx : RevivePart f x) :
      StaysAtDepth bodies m (fun e => e = .exhausted ∨ PartFails bodies f m e) x := fun m₁ hdepth =>
    ⟨hdepth.trans (hx.keepsDepth hbodies m₁), fun e m₂ hrun => .inr ⟨α, x, m₁, m₂, hx, hdepth, hrun⟩⟩
  induction n generalizing holder k with
  | zero => exact .throw (.inl rfl)
  | succ n ih =>
    rw [revive_succ]
    refine .bind (hpart (.read holder k)) fun v => .holding (.bind ?_ fun _ => hpart (.call holder k v)) _
    have hproperty (o : ObjectId) (k : Key) := (ih o k).bind fun v => hpart (.putBack o k v)
    cases v with
    | object o =>
      refine .bind (fun m₁ hdepth => ⟨hdepth, fun _ _ hrun => nomatch hrun⟩) fun h => ?_
      split
      · refine .bind (hpart (.count o)) fun length => ?_
        rw [forIndices_eq]
        exact .forKeys (hproperty o) _
      · exact .forKeys (hproperty o) _
    | _ => exact .pure ()

/-! ## 4. Trees -/

namespace Heap

/-- The objects of `S` that can be reached from a value through such objects. -/
inductive ReachesWithin (h : Heap) (S : ObjectId → Prop) : Value → ObjectId → Prop where
  | self {o : ObjectId} : S o → ReachesWithin h S (.object o) o
  | inner {v : Value} {o p : ObjectId} {k : Key} {w e c : Bool} : ReachesWithin h S v o →
      h.stored? o k = some (.data (.object p) w e c) → S p → ReachesWithin h S v p

theorem stored?_same {h h' : Heap} {o : ObjectId} (hsame : h'.object o = h.object o) (k : Key) :
    h'.stored? o k = h.stored? o k := by
  unfold stored?
  rw [hsame]

section ReachesWithin

variable {h h' : Heap} {S S' : ObjectId → Prop} {v : Value} {o p : ObjectId}

theorem ReachesWithin.mem (hr : h.ReachesWithin S v o) : S o := by
  cases hr with
  | self ho => exact ho
  | inner _ _ ho => exact ho

theorem ReachesWithin.start (hr : h.ReachesWithin S v o) : ∃ p, v = .object p ∧ S p := by
  induction hr with
  | self ho => exact ⟨_, rfl, ho⟩
  | inner _ _ _ ih => exact ih

theorem ReachesWithin.mono (hr : h.ReachesWithin S v o) (hS : ∀ p, S p → S' p) : h.ReachesWithin S' v o := by
  induction hr with
  | self ho => exact .self (hS _ ho)
  | inner _ hget hp ih => exact .inner ih hget (hS _ hp)

/-- What is reached is reached still if all of that is as before. -/
theorem ReachesWithin.same (hr : h.ReachesWithin S v o)
    (hsame : ∀ p, h.ReachesWithin S v p → h'.object p = h.object p) :
    h'.ReachesWithin S v o := by
  induction hr with
  | self ho => exact .self ho
  | inner hr hget hp ih =>
    exact .inner (ih hsame) ((stored?_same (hsame _ hr) _).trans hget) hp

theorem ReachesWithin.trans (hr : h.ReachesWithin S v o) (hr' : h.ReachesWithin S (.object o) p) :
    h.ReachesWithin S v p := by
  generalize hw : Value.object o = w at hr'
  induction hr' with
  | self ho =>
    cases hw
    exact hr
  | inner _ hget hp ih => exact .inner (ih hw) hget hp

/-- What the value of a property reaches, the object does. -/
theorem ReachesWithin.through {k : Key} (hr : h.ReachesWithin S' v p) (ho : S o)
    (hget : h.stored? o k = some (.plain v))
    (hS : ∀ q, S' q → S q) : h.ReachesWithin S (.object o) p := by
  obtain ⟨q, rfl, hq⟩ := hr.start
  exact ReachesWithin.trans (.inner (.self ho) hget (hS q hq)) (hr.mono hS)

end ReachesWithin

/-- The keys under which the walk visits the properties of an array or an ordinary object. -/
def WalkedKeys (h : Heap) (o : ObjectId) (ks : List Key) : Prop :=
  ((h.object o).kind = .array ∧ ∃ n < 2 ^ 32, h.HasOwn o .length (.ofNat n) ∧ ks = (List.range n).map .ofNat) ∨
    ((h.object o).kind = .ordinary ∧ ks = h.ownEnumerableKeys o)

/-- The value is a tree of at most so many levels of arrays and ordinary objects, all of them in `Q`: what is
below different properties has no object in common. -/
def IsTree (h : Heap) : Nat → (ObjectId → Prop) → Value → Prop
  | 0, _, v => v.isObject = false
  | n + 1, Q, v => ∀ o, v = .object o → Q o ∧ ∃ (ks : List Key) (owner : ObjectId → Key), h.WalkedKeys o ks ∧
      ∀ k ∈ ks, ∃ u, h.stored? o k = some (.plain u) ∧ h.IsTree n (fun p => Q p ∧ p ≠ o ∧ owner p = k) u

section Trees

variable {h h' : Heap} {Q Q' : ObjectId → Prop} {v : Value} {o p : ObjectId} {n n' : Nat} {ks : List Key}

theorem WalkedKeys.isPlain (hw : h.WalkedKeys o ks) : h.IsPlain o := hw.imp (·.1) (·.1)

theorem WalkedKeys.nodup (hw : h.WalkedKeys o ks) : ks.Nodup := by
  rcases hw with ⟨_, n, hn, _, rfl⟩ | ⟨hkind, rfl⟩
  · refine List.Nodup.map_on (fun i hi j hj heq => ?_) List.nodup_range
    exact Key.eq_of_ofNat_eq (Nat.lt_trans (List.mem_range.mp hi) hn) (Nat.lt_trans (List.mem_range.mp hj) hn) heq
  · unfold ownEnumerableKeys
    rw [ownKeys_of_ordinary hkind]
    exact (PropertyTable.nodup_keys _).filter _

/-- The length of an array is not among them. -/
theorem WalkedKeys.length_not_mem (hw : h.WalkedKeys o ks) (hkind : (h.object o).kind = .array) :
    Key.length ∉ ks := by
  rcases hw with ⟨_, n, hn, _, rfl⟩ | ⟨hordinary, _⟩
  · intro hmem
    obtain ⟨i, hi, heq⟩ := List.mem_map.mp hmem
    exact Key.length_ne_ofNat (Nat.lt_trans (List.mem_range.mp hi) hn) heq.symm
  · rw [hordinary] at hkind
    cases hkind

theorem WalkedKeys.same (hw : h.WalkedKeys o ks) (hsame : h'.object o = h.object o) : h'.WalkedKeys o ks := by
  have hown := hw.isPlain.same hsame
  rcases hw with ⟨hkind, n, hn, hlength, rfl⟩ | ⟨hkind, rfl⟩
  · exact .inl ⟨by rw [hsame, hkind], n, hn, hlength.same (.inl hkind) hsame, rfl⟩
  · refine .inr ⟨by rw [hsame, hkind], ?_⟩
    unfold ownEnumerableKeys
    rw [ownKeys_same hsame, hown]

theorem isTree_of_not_object (hv : v.isObject = false) : h.IsTree n Q v := by
  cases n with
  | zero => exact hv
  | succ n =>
    rintro o rfl
    cases hv

theorem IsTree.mono (ht : h.IsTree n Q v) (hn : n ≤ n') (hQ : ∀ p, Q p → Q' p) : h.IsTree n' Q' v := by
  induction n generalizing n' Q Q' v with
  | zero => exact isTree_of_not_object ht
  | succ n ih =>
    obtain ⟨n', rfl⟩ := Nat.exists_eq_add_of_le' (Nat.le_trans (Nat.le_add_left 1 n) hn)
    intro o ho
    obtain ⟨hQo, ks, owner, hw, htrees⟩ := ht o ho
    refine ⟨hQ o hQo, ks, owner, hw, fun k hk => ?_⟩
    obtain ⟨u, hget, hu⟩ := htrees k hk
    exact ⟨u, hget, ih hu (Nat.le_of_succ_le_succ hn) fun p hp => ⟨hQ p hp.1, hp.2⟩⟩

/-- **A tree is one still if its objects are as before.** -/
theorem IsTree.same (ht : h.IsTree n Q v) (hsame : ∀ p, h.ReachesWithin Q v p → h'.object p = h.object p) :
    h'.IsTree n Q v := by
  induction n generalizing Q v with
  | zero => exact ht
  | succ n ih =>
    rintro o rfl
    obtain ⟨hQo, ks, owner, hw, htrees⟩ := ht o rfl
    have ho := hsame o (.self hQo)
    refine ⟨hQo, ks, owner, hw.same ho, fun k hk => ?_⟩
    obtain ⟨u, hget, hu⟩ := htrees k hk
    exact ⟨u, (stored?_same ho k).trans hget, ih hu fun p hp => hsame p (hp.through hQo hget fun q hq => hq.1)⟩

end Trees

end Heap

/-! ## 5. Writing back -/

namespace Heap

/-- At most the property with the key is another, and for an array its length. -/
structure PutBackAt (o : ObjectId) (k : Key) (h h' : Heap) : Prop where
  kind : (h'.object o).kind = (h.object o).kind
  own (j : Key) : j ≠ k → ((h.object o).kind = .array → j ≠ .length) → (h'.object o).own? j = (h.object o).own? j
  object (p : ObjectId) : p ≠ o → h'.object p = h.object p
  frame : h' = { h with objects := h'.objects }

section PutBackAt

variable {h h' h'' : Heap} {o : ObjectId} {k : Key}

theorem PutBackAt.refl (o : ObjectId) (k : Key) (h : Heap) : PutBackAt o k h h :=
  ⟨rfl, fun _ _ _ => rfl, fun _ _ => rfl, rfl⟩

theorem StoredAt.putBackAt (hs : StoredAt o k h h') : PutBackAt o k h h' :=
  ⟨by rw [hs.rest], fun j hj _ => hs.own j hj, hs.object, hs.frame⟩

theorem PutBackAt.length (hr : PutBackAt o k h h') (hkind : (h.object o).kind = .array)
    (hs : StoredAt o .length h' h'') : PutBackAt o k h h'' where
  kind := by rw [hs.rest, hr.kind]
  own j hj hlength := (hs.own j (hlength hkind)).trans (hr.own j hj hlength)
  object p hp := (hs.object p hp).trans (hr.object p hp)
  frame := by rw [hs.frame, hr.frame]

theorem IsPlain.stored? (ho : h.IsPlain o) (k : Key) : h.stored? o k = (h.object o).own? k := by
  refine (own?_of_stored (fun t ht => ?_) k).symm
  rcases ho with ho | ho <;> rw [ho] at ht <;> cases ht

theorem PutBackAt.isPlain (hr : PutBackAt o k h h') (ho : h.IsPlain o) : h'.IsPlain o := by
  unfold IsPlain
  rw [hr.kind]
  exact ho

theorem PutBackAt.stored? (hr : PutBackAt o k h h') (ho : h.IsPlain o) {j : Key} (hj : j ≠ k)
    (hlength : (h.object o).kind = .array → j ≠ .length) : h'.stored? o j = h.stored? o j := by
  rw [ho.stored?, (hr.isPlain ho).stored?, hr.own j hj hlength]

theorem putBackAt_define (ho : h.IsPlain o) (k : Key) (d : Descriptor) : PutBackAt o k h (h.define o k d).heap := by
  have hordinary := (storedAt_defineOrdinary h o k d).putBackAt
  unfold define
  split
  · rename_i i hkind
    unfold defineElement
    dsimp only
    split
    · exact .refl o _ h
    · split
      · exact hordinary
      · split
        · exact hordinary.length hkind (storedAt_defineOrdinary _ o .length _)
        · exact hordinary
  · rename_i a hkind
    rcases ho with ho | ho <;> rw [ho] at hkind <;> cases hkind
  · exact hordinary

theorem putBackAt_deleteOwn (ho : h.IsPlain o) (k : Key) : PutBackAt o k h (h.deleteOwn o k).heap := by
  have hunmap (h' : Heap) (hsame : (h'.object o).kind = (h.object o).kind) : h'.unmapArgument o k = h' := by
    unfold unmapArgument argumentsOf?
    rw [hsame]
    rcases ho with ho | ho <;> rw [ho]
  rcases h.deleteOwn_cases o k with ⟨hr, _⟩ | ⟨f, p, hr, _⟩ | ⟨p, hr, _, _⟩ <;> rw [hr]
  · exact .refl o k h
  · exact .refl o k h
  · have hself : (h.modify o (·.withoutProperty k)).object o = (h.object o).withoutProperty k :=
      object_modify_self h o _
    show PutBackAt o k h ((h.modify o (·.withoutProperty k)).unmapArgument o k)
    rw [hunmap _ (by rw [hself]; rfl)]
    refine ⟨by rw [hself]; rfl, fun j hj _ => ?_, (touches_modify h o _).other, rfl⟩
    rw [hself]
    exact Object.own?_withoutProperty_of_ne _ hj.symm

end PutBackAt

end Heap

section Walk

variable {bodies : Bodies} {f : Value} {S : ObjectId → Prop} {I : Machine → Prop}

variable (bodies) in
/-- What became of a property takes its place, or the property is gone, or nothing happens. -/
theorem putRevived_run {m : Machine} {o : ObjectId} {k : Key} (ho : m.heap.IsPlain o)
    (hk : (m.heap.object o).kind = .array → k ≠ .length) (v : Value) :
    ∃ h', putRevived o k v bodies m = .ok () { m with heap := h' } ∧ Heap.PutBackAt o k m.heap h' := by
  have hended (r : Heap.Outcome) : ∃ b, r.ended false m = .ok b { m with heap := r.heap } := by
    unfold Heap.Outcome.ended
    cases r.refusal with
    | none => exact ⟨true, rfl⟩
    | some f => exact ⟨false, rfl⟩
  unfold putRevived
  split
  · obtain ⟨b, hrun⟩ := hended (m.heap.deleteOwn o k)
    exact ⟨_, (bind_run_ok ((deleteOwn_run o k false).trans hrun) _).trans rfl, Heap.putBackAt_deleteOwn ho k⟩
  · have hlength : lengthValue? (m.heap.object o) k (.data v true true true) = none := by
      unfold lengthValue?
      refine if_neg fun hboth => ?_
      obtain ⟨harray, hlength⟩ := Bool.and_eq_true_iff.mp hboth
      rcases ho with ho | ho
      · exact hk ho (of_decide_eq_true hlength)
      · unfold Object.isArray at harray
        rw [ho] at harray
        cases harray
    obtain ⟨b, hrun⟩ := hended (m.heap.define o k (.data v true true true))
    have hcreate : createData o k v bodies m =
        .ok b { m with heap := (m.heap.define o k (.data v true true true)).heap } := by
      unfold createData defineOwn
      rw [getHeap_bind_run, hlength]
      exact (settle_run false _).trans hrun
    exact ⟨_, (bind_run_ok hcreate _).trans rfl, Heap.putBackAt_define ho k _⟩

end Walk

/-! ## 6. Functions that graft nothing -/

/-- The objects of `S` that held values reach through such objects. -/
def Machine.Keeps (m : Machine) (S : ObjectId → Prop) (o : ObjectId) : Prop :=
  ∃ v ∈ m.held, m.heap.ReachesWithin S v o

section Keeps

variable {m m' : Machine} {S S' : ObjectId → Prop} {o : ObjectId}

theorem Machine.Keeps.mono (hk : m.Keeps S o) (hheap : m'.heap = m.heap) (hheld : m.held ⊆ m'.held)
    (hS : ∀ p, S p → S' p) : m'.Keeps S' o := by
  obtain ⟨v, hv, hr⟩ := hk
  rw [Machine.Keeps, hheap]
  exact ⟨v, hheld hv, hr.mono hS⟩

theorem Machine.Keeps.same (hk : m.Keeps S o) (hheld : m'.held = m.held)
    (hsame : ∀ p, m.Keeps S p → m'.heap.object p = m.heap.object p) : m'.Keeps S o := by
  obtain ⟨v, hv, hr⟩ := hk
  exact ⟨v, hheld ▸ hv, hr.same fun p hp => hsame p ⟨v, hv, hp⟩⟩

end Keeps

/-- **The function grafts nothing.** As long as an invariant holds, a call returns and leaves alone those objects of
`S` that held values reach without the value that is given. The invariant withstands calls and what the walk itself
does, which is to hold values for a time and to write to objects of `S`. -/
structure GraftsNothing (bodies : Bodies) (f : Value) (S : ObjectId → Prop) (I : Machine → Prop) : Prop where
  returns {m : Machine} (holder : ObjectId) (k : Key) (v : Value) : I m → .object holder ∈ m.held → v ∈ m.held →
    ∃ w m', callValue f (.object holder) [.string k.toText, v] bodies m = .ok w m' ∧ I m' ∧
      ∀ o, m.Keeps (fun p => S p ∧ v ≠ .object p) o → m'.heap.object o = m.heap.object o
  holds {m : Machine} (vs : List Value) : I m → I { m with held := vs ++ m.held }
  releases {m m' : Machine} : I m → I m' → I { m' with held := m.held }
  writes {m : Machine} {o : ObjectId} {k : Key} {h : Heap} : S o → I m → m.heap.IsPlain o →
    Heap.PutBackAt o k m.heap h → I { m with heap := h }

/-- What is left of the tree below an object once some of its properties were visited. -/
structure Heap.Pending (h : Heap) (n : Nat) (Q : ObjectId → Prop) (owner : ObjectId → Key) (o : ObjectId)
    (ks : List Key) : Prop where
  plain : h.IsPlain o
  distinct : ks.Nodup
  elements : (h.object o).kind = .array → Key.length ∉ ks
  trees : ∀ k ∈ ks, ∃ u, h.stored? o k = some (.plain u) ∧ h.IsTree n (fun p => Q p ∧ p ≠ o ∧ owner p = k) u

/-- The walk succeeds, and the invariant holds after it; the values that are held are the same, and so are the
objects of `S` outside of `Q` that they reach through such objects. -/
def Machine.Revives {α : Type} (m : Machine) (bodies : Bodies) (S Q : ObjectId → Prop) (I : Machine → Prop)
    (x : Run α) : Prop :=
  ∃ w m', x bodies m = .ok w m' ∧ I m' ∧ m'.held = m.held ∧
    ∀ o, m.Keeps (fun p => S p ∧ ¬ Q p) o → m'.heap.object o = m.heap.object o

section Walk

variable {bodies : Bodies} {f : Value} {S Q : ObjectId → Prop} {I : Machine → Prop}

/-- **One property is visited**: what is left below the object is as it was. -/
theorem reviveProperty_run (hf : GraftsNothing bodies f S I) (hQS : ∀ p, Q p → S p) {n level : Nat} {m : Machine}
    {o : ObjectId} {k : Key} {ks : List Key} {owner : ObjectId → Key} (ho : .object o ∈ m.held) (hQo : Q o)
    (hp : m.heap.Pending n Q owner o (k :: ks))
    (hwalk : m.Revives bodies S (fun p => Q p ∧ p ≠ o ∧ owner p = k) I (revive f level o k)) :
    ∃ m', reviveProperty f level o k bodies m = .ok () m' ∧ I m' ∧ m'.held = m.held ∧
      m'.heap.Pending n Q owner o ks ∧
      ∀ p, m.Keeps (fun p => S p ∧ ¬ Q p) p → m'.heap.object p = m.heap.object p := by
  obtain ⟨w, m₁, hrun, hI, hheld, hsame⟩ := hwalk
  obtain ⟨hnew, hdistinct⟩ := List.nodup_cons.mp hp.distinct
  have hroot : m.heap.ReachesWithin (fun p => S p ∧ ¬ (Q p ∧ p ≠ o ∧ owner p = k)) (.object o) o :=
    .self ⟨hQS o hQo, fun h => h.2.1 rfl⟩
  have hobject := hsame o ⟨_, ho, hroot⟩
  have hplain : m₁.heap.IsPlain o := by
    unfold Heap.IsPlain
    rw [hobject]
    exact hp.plain
  have hlength : (m₁.heap.object o).kind = .array → Key.length ∉ k :: ks := by
    rw [hobject]
    exact hp.elements
  obtain ⟨h', hput, hwritten⟩ := putRevived_run bodies hplain
    (fun harray heq => hlength harray (heq ▸ List.mem_cons_self)) w
  refine ⟨{ m₁ with heap := h' }, (bind_run_ok hrun _).trans hput, hf.writes (hQS o hQo) hI hplain hwritten, hheld,
    ⟨hwritten.isPlain hplain, hdistinct, fun harray hmem => ?_, fun j hj => ?_⟩, fun p hkept => ?_⟩
  · exact hlength (hwritten.kind ▸ harray) (List.mem_cons_of_mem k hmem)
  · obtain ⟨u, hget, htree⟩ := hp.trees j (List.mem_cons_of_mem k hj)
    have hne : j ≠ k := fun heq => hnew (heq ▸ hj)
    refine ⟨u, ?_, htree.same fun p hr => ?_⟩
    · rw [hwritten.stored? hplain hne fun harray heq => hlength harray (heq ▸ List.mem_cons_of_mem k hj),
        Heap.stored?_same hobject, hget]
    · -- what is below another property belongs to that one, and can be reached from the object
      have hr' := hr.through (S := fun p => S p ∧ ¬ (Q p ∧ p ≠ o ∧ owner p = k)) hroot.mem hget
        fun q hq => ⟨hQS q hq.1, fun h => hne (hq.2.2.symm.trans h.2.2)⟩
      rw [hwritten.object p hr.mem.2.1, hsame p ⟨_, ho, hr'⟩]
  · obtain ⟨v, hv, hr⟩ := hkept
    rw [hwritten.object p fun heq => hr.mem.2 (heq ▸ hQo)]
    exact hsame p ⟨v, hv, hr.mono fun q hq => ⟨hq.1, fun h => hq.2 h.1⟩⟩

/-- **The properties are visited one after the other.** -/
theorem forKeys_run (hf : GraftsNothing bodies f S I) (hQS : ∀ p, Q p → S p) {n level : Nat} {o : ObjectId}
    {owner : ObjectId → Key} (hQo : Q o)
    (hwalk : ∀ (m : Machine) (k : Key) (u : Value), I m → m.heap.IsPlain o → m.heap.stored? o k = some (.plain u) →
      m.heap.IsTree n (fun p => Q p ∧ p ≠ o ∧ owner p = k) u →
      m.Revives bodies S (fun p => Q p ∧ p ≠ o ∧ owner p = k) I (revive f level o k)) :
    ∀ (ks : List Key) {m : Machine}, I m → .object o ∈ m.held → m.heap.Pending n Q owner o ks →
      m.Revives bodies S Q I (forKeys (reviveProperty f level o) ks)
  | [], m, hI, _, _ => ⟨(), m, rfl, hI, rfl, fun _ _ => rfl⟩
  | k :: ks, m, hI, ho, hp => by
    obtain ⟨u, hget, htree⟩ := hp.trees k List.mem_cons_self
    obtain ⟨m₁, hrun, hI₁, hheld, hp₁, hsame⟩ :=
      reviveProperty_run hf hQS ho hQo hp (hwalk m k u hI hp.plain hget htree)
    obtain ⟨_, m₂, hrun₂, hI₂, hheld₂, hsame₂⟩ := forKeys_run hf hQS hQo hwalk ks hI₁ (hheld ▸ ho) hp₁
    exact ⟨(), m₂, (bind_run_ok hrun _).trans hrun₂, hI₂, hheld₂.trans hheld, fun p hkept =>
      (hsame₂ p (hkept.same hheld hsame)).trans (hsame p hkept)⟩

/-- All properties of an object are visited, in the order of the keys. -/
theorem reviveInside_run {m : Machine} {o : ObjectId} {ks : List Key} (hw : m.heap.WalkedKeys o ks) (level : Nat) :
    reviveInside f level (.object o) bodies m = forKeys (reviveProperty f level o) ks bodies m := by
  unfold reviveInside
  dsimp only
  rw [getHeap_bind_run]
  rcases hw with ⟨hkind, n, hn, hlength, rfl⟩ | ⟨hkind, rfl⟩
  · have harray : (m.heap.object o).isArray = true := by
      unfold Object.isArray
      rw [hkind]
    rw [if_pos harray, bind_run_ok (lengthOfArrayLike_run hn (.inl hkind) hlength), forIndices_eq,
      List.range_eq_range']
  · have harray : ¬ (m.heap.object o).isArray = true := by
      unfold Object.isArray
      rw [hkind]
      exact Bool.false_ne_true
    rw [if_neg harray]

/-- The function is called once what is inside has been revived. -/
theorem revive_of_inside (hf : GraftsNothing bodies f S I) {level : Nat} {m : Machine} {holder : ObjectId} {k : Key}
    {v : Value} (hI : I m) (hget : getFrom holder k bodies m = .ok v m) (hQ : ∀ o, v = .object o → Q o)
    (hinside : Machine.Revives { m with held := [.object holder, v] ++ m.held } bodies S Q I
      (reviveInside f level v)) :
    m.Revives bodies S Q I (revive f (level + 1) holder k) := by
  obtain ⟨_, m₁, hrun, hI₁, hheld, hsame⟩ := hinside
  have hmem (w : Value) (hw : w ∈ [.object holder, v]) : w ∈ m₁.held := by
    rw [hheld]
    exact List.mem_append_left _ hw
  obtain ⟨w, m₂, hcall, hI₂, hsame₂⟩ := hf.returns holder k v hI₁ (hmem _ List.mem_cons_self)
    (hmem _ (List.mem_cons_of_mem _ List.mem_cons_self))
  refine ⟨w, { m₂ with held := m.held }, ?_, hf.releases hI hI₂, rfl, fun p hkept => ?_⟩
  · rw [revive_succ, bind_run_ok hget]
    exact holding_ok ((bind_run_ok hrun _).trans hcall)
  · have hkept₁ : Machine.Keeps { m with held := [.object holder, v] ++ m.held } (fun q => S q ∧ ¬ Q q) p :=
      hkept.mono rfl (List.subset_append_right _ _) fun _ hq => hq
    have hkept₂ := (hkept₁.same hheld hsame).mono rfl (List.Subset.refl _) fun q hq =>
      (⟨hq.1, fun heq => hq.2 (hQ q heq)⟩ : S q ∧ v ≠ .object q)
    exact (hsame₂ p hkept₂).trans (hsame p hkept₁)

theorem revive_scalar (hf : GraftsNothing bodies f S I) (level : Nat) {m : Machine} {holder : ObjectId} {k : Key}
    {v : Value} (hI : I m) (hget : getFrom holder k bodies m = .ok v m) (hv : v.isObject = false) :
    m.Revives bodies S Q I (revive f (level + 1) holder k) := by
  refine revive_of_inside hf hI hget (fun o ho => by rw [ho] at hv; cases hv)
    ⟨(), _, ?_, hf.holds _ hI, rfl, fun _ _ => rfl⟩
  cases v with
  | object o => cases hv
  | _ => rfl

/-- **The walk over a tree ends**, if the function grafts nothing, with one level more than the tree has, however
many calls may still be nested. -/
theorem revive_tree (hf : GraftsNothing bodies f S I) {n level : Nat} (hn : n < level) {m : Machine}
    {holder : ObjectId} {k : Key} {v : Value} {Q : ObjectId → Prop} (hQS : ∀ p, Q p → S p) (hI : I m)
    (hplain : m.heap.IsPlain holder) (hv : m.heap.HasOwn holder k v) (htree : m.heap.IsTree n Q v) :
    m.Revives bodies S Q I (revive f level holder k) := by
  have hget {m : Machine} {holder : ObjectId} {k : Key} {v : Value} (hplain : m.heap.IsPlain holder)
      (hv : m.heap.HasOwn holder k v) : getFrom holder k bodies m = .ok v m := getFrom_own hplain hv
  induction n generalizing level m holder k v Q with
  | zero =>
    obtain ⟨level, rfl⟩ := Nat.exists_eq_add_of_lt hn
    exact revive_scalar hf _ hI (hget hplain hv) htree
  | succ n ih =>
    obtain ⟨level, rfl⟩ := Nat.exists_eq_add_of_le' (Nat.le_trans (Nat.le_add_left 1 _) hn)
    cases v with
    | object o =>
      obtain ⟨hQo, ks, owner, hw, htrees⟩ := htree o rfl
      have hwalk (m₁ : Machine) (k' : Key) (u : Value) (hI₁ : I m₁) (ho : m₁.heap.IsPlain o)
          (hstored : m₁.heap.stored? o k' = some (.plain u))
          (hu : m₁.heap.IsTree n (fun p => Q p ∧ p ≠ o ∧ owner p = k') u) :
          m₁.Revives bodies S (fun p => Q p ∧ p ≠ o ∧ owner p = k') I (revive f level o k') := by
        refine ih (Nat.lt_of_succ_lt_succ hn) (fun p hp => hQS p hp.1) hI₁ ho ⟨true, true, true, ?_⟩ hu
        rw [ho.getOwn?]
        exact hstored
      refine revive_of_inside hf hI (hget hplain hv) (fun p hp => by cases hp; exact hQo) ?_
      let m₁ : Machine := { m with held := [.object holder, .object o] ++ m.held }
      obtain ⟨w, m', hrun, hend⟩ := forKeys_run (m := m₁) hf hQS hQo hwalk ks (hf.holds _ hI)
        (List.mem_append_left _ (List.mem_cons_of_mem _ List.mem_cons_self))
        ⟨hw.isPlain, hw.nodup, hw.length_not_mem, htrees⟩
      exact ⟨w, m', (reviveInside_run (m := m₁) hw level).trans hrun, hend⟩
    | _ => exact revive_scalar hf level hI (hget hplain hv) rfl

end Walk

end Ecma51
