import Ecma51.Library.String
import Ecma51.Proofs.ArraySplice
import Ecma51.Proofs.Assignment
import Ecma51.Proofs.Splitting

/-!
# Where a search goes on

A global regular expression remembers in a property where its next search begins. While that property can be written,
nothing but its value is changed by a search. The value is a double, so that positions are told apart up to its
precision.

* `Heap.Resumes`: a regular expression, and where it goes on.
* `Machine.resuming`, **`putLastIndex_run`**: the property with another value.
* **`execRegExp_some`**, **`execRegExp_none`**: a search that finds something, and one that does not.
* `execRegExp_found`: whatever a search gives was found.
-/

namespace Ecma51

-- powers mean the same whether or not there are other instances in scope
attribute [local instance (high)] instPowNat

/-! ## 1. The property -/

/-- The key of the property that says where a search begins. -/
def lastIndexKey : Key := .ofString "lastIndex"

namespace Heap

variable {h : Heap} {o : ObjectId} {k : Key} {r : RegExp} {u v : Value} {e c : Bool}

/-- The object is a regular expression. Its property that says where a search begins has this value, and can be
written. -/
structure Resumes (h : Heap) (o : ObjectId) (r : RegExp) (v : Value) : Prop where
  kind : (h.object o).kind = .regExp r
  own : ∃ e c, h.getOwn? o lastIndexKey = some (.data v true e c)

theorem Resumes.asRegExp? (hr : h.Resumes o r v) : h.asRegExp? (.object o) = some (o, r) := by
  have hregExp : h.regExp? o = some r := by
    unfold regExp?
    rw [hr.kind]
  unfold Heap.asRegExp?
  rw [Value.object?, Option.bind_eq_bind, Option.bind_some, hregExp]
  rfl

/-- A value that can be written gets another value, and remains as it is otherwise. -/
theorem redefine?_ofValue_writable (u v : Value) (e c : Bool) :
    (Descriptor.ofValue v).redefine? (.data u true e c) = some (.data v true e c) := by
  unfold Descriptor.redefine?
  split
  · rename_i hholds
    have hvalue : v = u := by
      simpa [Descriptor.holdsOf, Descriptor.ofValue, Descriptor.isAccessor, Descriptor.agrees, Descriptor.agreesFlag,
        Value.same] using hholds
    rw [hvalue]
  · cases e <;> cases c <;> rfl

/-- What an object shows of itself that is neither an array, nor an arguments object, nor a string. -/
theorem getOwn?_regExp (hkind : (h.object o).kind = .regExp r) (k : Key) :
    h.getOwn? o k = (h.object o).own? k := by
  have hnone : h.shared? o k = none := by
    rw [shared?_eq_valueOf?, sharedParameter?_of_not_arguments (fun a ha => by rw [hkind] at ha; cases ha)]
    rfl
  rw [getOwn?_eq, hnone]
  cases (h.object o).own? k with
  | none => rfl
  | some p => cases p <;> rfl

/-- Another heap in which the object is the same. -/
theorem Resumes.of_object {h' : Heap} (hr : h.Resumes o r v) (hobject : h'.object o = h.object o) :
    h'.Resumes o r v := by
  have hkind : (h'.object o).kind = .regExp r := by rw [hobject, hr.kind]
  obtain ⟨e, c, hown⟩ := hr.own
  refine ⟨hkind, e, c, ?_⟩
  rw [getOwn?_regExp hkind, hobject, ← getOwn?_regExp hr.kind, hown]

end Heap

/-- The machine in which a regular expression goes on elsewhere. -/
def Machine.resuming (m : Machine) (o : ObjectId) (v : Value) : Machine :=
  { m with heap := (m.heap.defineOrdinary o lastIndexKey (.ofValue v)).heap }

section Runs

variable {bodies : Bodies} {m : Machine} {o : ObjectId} {r : RegExp} {u v : Value} {t : Text} {i : Nat}
  {x : Pattern.Match}

theorem storedAt_resuming (m : Machine) (o : ObjectId) (v : Value) :
    Heap.StoredAt o lastIndexKey m.heap (m.resuming o v).heap := Heap.storedAt_defineOrdinary m.heap o lastIndexKey _

theorem Heap.Resumes.resuming (hr : m.heap.Resumes o r u) (v : Value) : (m.resuming o v).heap.Resumes o r v := by
  obtain ⟨e, c, hown⟩ := hr.own
  have hkind : ((m.resuming o v).heap.object o).kind = .regExp r := by
    rw [(storedAt_resuming m o v).rest]
    exact hr.kind
  refine ⟨hkind, e, c, ?_⟩
  obtain ⟨q, hq, hheap⟩ := Heap.redefine_of_refusal hown (Heap.defineOrdinary_ofValue hown v)
  rw [Heap.redefine?_ofValue_writable] at hq
  cases hq
  rcases hheap with ⟨hsame, hvalue⟩ | hstored
  · show (m.heap.defineOrdinary o lastIndexKey (.ofValue v)).heap.getOwn? o lastIndexKey = _
    rw [hsame, hown, hvalue]
  · rw [Heap.getOwn?_regExp hkind]
    show ((m.heap.defineOrdinary o lastIndexKey (.ofValue v)).heap.object o).own? lastIndexKey = _
    rw [hstored, Heap.object_store_self, Object.own?_withProperty, if_pos rfl]

/-- A function can be called wherever an expression goes on. -/
theorem isCallable_resuming (m : Machine) (o : ObjectId) (v f : Value) :
    (m.resuming o v).heap.isCallable f = m.heap.isCallable f := by
  have hstored := storedAt_resuming m o v
  cases f with
  | object p =>
    show ((m.resuming o v).heap.object p).isCallable = (m.heap.object p).isCallable
    by_cases hp : p = o
    · rw [hp, hstored.rest]
      rfl
    · rw [hstored.object p hp]
  | _ => rfl

/-- To go on where it does already is to change nothing. -/
theorem Machine.resuming_self (hr : m.heap.Resumes o r v) : m.resuming o v = m := by
  obtain ⟨e, c, hown⟩ := hr.own
  have hholds : (Descriptor.ofValue v).holdsOf (.data v true e c) = true := by
    simp [Descriptor.holdsOf, Descriptor.ofValue, Descriptor.isAccessor, Descriptor.agrees, Descriptor.agreesFlag,
      Value.same]
  have hsame : m.heap.defineOrdinary o lastIndexKey (.ofValue v) = .done m.heap := by
    unfold Heap.defineOrdinary
    rw [hown]
    exact if_pos hholds
  unfold Machine.resuming
  rw [hsame]
  rfl

/-- **The property is assigned**, without an error. -/
theorem putLastIndex_run (bodies : Bodies) (hr : m.heap.Resumes o r u) (hv : v.isObject = false) :
    putNamed o "lastIndex" v bodies m = .ok () (m.resuming o v) := by
  obtain ⟨e, c, hown⟩ := hr.own
  have hplain : m.heap.RunsNoSetter o lastIndexKey := fun _ g s e c hfound => by
    rw [Heap.getProperty?_of_own hown] at hfound
    cases hfound
  have hlength (d : Descriptor) : lengthValue? (m.heap.object o) lastIndexKey d = none :=
    Option.eq_none_iff_forall_ne_some.mpr fun u hu => by
      have hkind := (Heap.array_of_lengthValue? hu).1
      rw [hr.kind] at hkind
      cases hkind
  have hdefine (d : Descriptor) : m.heap.define o lastIndexKey d = m.heap.defineOrdinary o lastIndexKey d :=
    Heap.define_unshared (fun hkind => by rw [hr.kind] at hkind; cases hkind)
      (Heap.sharedParameter?_of_not_arguments (fun a ha => by rw [hr.kind] at ha; cases ha) _) d
  have hputting : m.heap.putting o lastIndexKey v (.object o) =
      .ok (m.heap.defineOrdinary o lastIndexKey (.ofValue v)) := by
    have hcan : m.heap.canPut o lastIndexKey = true := by
      unfold Heap.canPut
      rw [hown]
      rfl
    have hd : m.heap.putDescriptor o lastIndexKey v = .ofValue v := by
      unfold Heap.putDescriptor
      rw [hown]
    unfold Heap.putting
    rw [hcan, beq_self_eq_true, hd]
    exact (Heap.defining_of_lengthValue? (hlength _)).trans (congrArg _ (hdefine _))
  unfold putNamed putTo
  show putFor o lastIndexKey v (.object o) true bodies m = _
  rw [putFor_run hv hplain, hputting]
  exact discarding_done (Heap.defineOrdinary_ofValue hown v) true

theorem setLastIndex_run (bodies : Bodies) (hr : m.heap.Resumes o r u) (i : Nat) :
    setLastIndex o i bodies m = .ok () (m.resuming o (.ofNat i)) := putLastIndex_run bodies hr rfl

/-- The property is read. -/
theorem getLastIndex_run (bodies : Bodies) (hr : m.heap.Resumes o r v) : getNamed o "lastIndex" bodies m = .ok v m := by
  obtain ⟨e, c, hown⟩ := hr.own
  refine getFrom_shown ?_ (getFor_data (Heap.getProperty?_of_own hown) _)
  unfold hidesCaller
  rw [hr.kind]
  rfl

/-! ## 2. Searches -/

/-- Where a search may begin. -/
theorem beyond_ofNat {n : Nat} (hi : i ≤ 2 ^ 53) (hn : n ≤ 2 ^ 53) :
    ((Double.ofNat i).lt .zero || (Double.ofNat n).lt (Double.ofNat i)) = decide (n < i) := by
  have hlow := Double.ofNat_lt_ofNat hi (Nat.zero_le (2 ^ 53))
  rw [decide_eq_false (Nat.not_lt_zero i)] at hlow
  have hhigh := Double.ofNat_lt_ofNat hn hi
  rw [hhigh]
  exact (congrArg (· || decide (n < i)) hlow).trans (Bool.false_or _)

theorem toInteger_ofNat_run (bodies : Bodies) (m : Machine) (hi : i ≤ 2 ^ 53) :
    toInteger (.ofNat i) bodies m = .ok (Double.ofNat i) m :=
  (toInteger_run rfl).trans (congrArg (EStateM.Result.ok · m) (Double.toInteger_ofNat hi))

section Searches

variable (hr : m.heap.Resumes o r (.ofNat i)) (hglobal : r.flags.global = true) (ht : t.length ≤ 2 ^ 53)

include hr hglobal ht

/-- **A search of a global expression that finds something**: it goes on behind it. -/
theorem execRegExp_some (bodies : Bodies) (hi : i ≤ t.length) (hx : r.pattern.find? t i = some x) :
    execRegExp o r t bodies m = .ok (some x) (m.resuming o (.ofNat x.span.2)) := by
  have hi' : i ≤ 2 ^ 53 := Nat.le_trans hi ht
  unfold execRegExp
  rw [bind_run_ok (getLastIndex_run bodies hr), bind_run_ok (toInteger_ofNat_run bodies m hi'), if_pos hglobal]
  dsimp only
  rw [beyond_ofNat hi' ht, decide_eq_false (Nat.not_lt.mpr hi), if_neg Bool.false_ne_true,
    Double.truncInt_ofNat_le hi', Int.toNat_natCast, hx]
  dsimp only
  rw [if_pos hglobal]
  exact (bind_run_ok (setLastIndex_run bodies hr x.span.2) _).trans rfl

/-- **A search of a global expression that finds nothing**: the next one begins at the start. -/
theorem execRegExp_none (bodies : Bodies) (hi : i ≤ 2 ^ 53) (hx : i ≤ t.length → r.pattern.find? t i = none) :
    execRegExp o r t bodies m = .ok none (m.resuming o (.ofNat 0)) := by
  unfold execRegExp
  rw [bind_run_ok (getLastIndex_run bodies hr), bind_run_ok (toInteger_ofNat_run bodies m hi), if_pos hglobal]
  dsimp only
  rw [beyond_ofNat hi ht]
  rcases Nat.lt_or_ge t.length i with hlt | hle
  · rw [decide_eq_true hlt, if_pos rfl]
    exact (bind_run_ok (setLastIndex_run bodies hr 0) _).trans rfl
  · rw [decide_eq_false (Nat.not_lt.mpr hle), if_neg Bool.false_ne_true, Double.truncInt_ofNat_le hi,
      Int.toNat_natCast, hx hle]
    exact (bind_run_ok (setLastIndex_run bodies hr 0) _).trans rfl

end Searches

/-- A search of an expression that is not global begins at the start, and changes where the expression goes on only if
it finds nothing. -/
theorem execRegExp_local (bodies : Bodies) (hr : m.heap.Resumes o r v) (hv : v.isObject = false)
    (hlocal : r.flags.global = false) (t : Text) :
    ∃ m', execRegExp o r t bodies m = .ok (r.pattern.find? t 0) m' ∧
      (m' = m ∨ r.pattern.find? t 0 = none ∧ m' = m.resuming o (.ofNat 0)) := by
  have hread : toInteger v bodies m = _ := toInteger_run hv
  have hzero : (Double.zero.lt .zero || (Double.ofNat t.length).lt .zero) = false := by
    rw [Double.not_lt_self, Double.not_ofNat_lt_zero, Bool.or_self]
  have hstart : Double.zero.truncInt.toNat = 0 := by decide
  unfold execRegExp
  rw [bind_run_ok (getLastIndex_run bodies hr), bind_run_ok hread, if_neg (Bool.eq_false_iff.mp hlocal)]
  dsimp only
  rw [hzero, if_neg Bool.false_ne_true, hstart]
  cases r.pattern.find? t 0 with
  | none => exact ⟨_, (bind_run_ok (setLastIndex_run bodies hr 0) _).trans rfl, .inr ⟨rfl, rfl⟩⟩
  | some x =>
    dsimp only
    rw [if_neg (Bool.eq_false_iff.mp hlocal)]
    exact ⟨m, rfl, .inl rfl⟩

/-- What came first did not fail, if all of it did not. -/
theorem exists_of_bind_run_ok {α β : Type} {x : Run α} {f : α → Run β} {m' : Machine} {b : β}
    (h : (x >>= f) bodies m = .ok b m') : ∃ a m₁, x bodies m = .ok a m₁ ∧ f a bodies m₁ = .ok b m' := by
  cases hx : x bodies m with
  | error e m₁ =>
    rw [bind_run_error hx] at h
    cases h
  | ok a m₁ =>
    rw [bind_run_ok hx] at h
    exact ⟨a, m₁, rfl, h⟩

/-- **What a search gives was found at some position**, whatever the property does when it is read. -/
theorem execRegExp_found {m' : Machine} (hrun : execRegExp o r t bodies m = .ok (some x) m') :
    ∃ i, r.pattern.find? t i = some x := by
  unfold execRegExp at hrun
  obtain ⟨u, m₁, _, hrun⟩ := exists_of_bind_run_ok hrun
  obtain ⟨lastIndex, m₂, _, hrun⟩ := exists_of_bind_run_ok hrun
  dsimp only at hrun
  generalize (if r.flags.global then lastIndex else .zero) = start at hrun
  split at hrun
  · obtain ⟨_, m₃, _, hrun⟩ := exists_of_bind_run_ok hrun
    cases hrun
  · cases hfound : r.pattern.find? t start.truncInt.toNat with
    | none =>
      rw [hfound] at hrun
      obtain ⟨_, m₃, _, hrun⟩ := exists_of_bind_run_ok hrun
      cases hrun
    | some y =>
      rw [hfound] at hrun
      dsimp only at hrun
      split at hrun
      · obtain ⟨_, m₃, _, hrun⟩ := exists_of_bind_run_ok hrun
        cases hrun
        exact ⟨_, hfound⟩
      · cases hrun
        exact ⟨_, hfound⟩

end Runs

end Ecma51
