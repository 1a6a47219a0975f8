import Ecma51.Operation.Access
import Ecma51.Proofs.Relates
import Ecma51.Proofs.Store

/-!
# Definitions, deletions and assignments as outcomes

An operation on own properties that runs no function of the program comes to an outcome on the heap, or to a
fault before anything was tried. How it ends depends on the outcome and on whether refusals are errors.

* `Heap.Outcome.ended`: how an operation with an outcome ends.
* `Heap.defining`, `Heap.putting`: what definitions and assignments come to.
* **`defineOwn_run`**, **`deleteOwn_run`**, **`putFor_run`**: they end accordingly.
-/

namespace Ecma51

namespace Heap

/-! ## 1. Outcomes -/

theorem Outcome.eq_done {r : Outcome} (hr : r.refusal = none) : r = .done r.heap := by
  obtain ⟨h, refusal⟩ := r
  subst hr
  rfl

theorem Outcome.eq_refused {r : Outcome} {f : Fault} (hr : r.refusal = some f) : r = .refused r.heap f := by
  obtain ⟨h, refusal⟩ := r
  subst hr
  rfl

/-- How an operation with an outcome ends, if refusals are errors and if they are not. -/
def Outcome.ended (r : Outcome) (throws : Bool) (m : Machine) : EStateM.Result Failure Machine Bool :=
  match r.refusal with
  | none => .ok true { m with heap := r.heap }
  | some f =>
    if throws then .error (.fault f) { m with heap := r.heap } else .ok false { m with heap := r.heap }

/-- How an operation ends that may fail before anything is tried. -/
def endedBy : Except Fault Outcome → Bool → Machine → EStateM.Result Failure Machine Bool
  | .ok r, throws, m => r.ended throws m
  | .error f, _, m => .error (.fault f) m

/-- What setting the length of an array to a number comes to. The number must be whole and in range. -/
def settingLength (h : Heap) (o : ObjectId) (d : Descriptor) (x : Double) : Except Fault Outcome :=
  if (Double.ofNat x.toUint32).eq x then
    .ok (h.setLength o d x.toUint32 (h.lengthOf o).1 (h.lengthOf o).2)
  else .error (.invalidArrayLength x.toPlain)

/-- What the definition of an own property comes to, unless an object has to be converted to a number. -/
def defining (h : Heap) (o : ObjectId) (k : Key) (d : Descriptor) : Except Fault Outcome :=
  match lengthValue? (h.object o) k d with
  | none => .ok (h.define o k d)
  | some v => h.settingLength o d (primitiveNumber v)

/-- The description by which an assignment defines: an own value is replaced, anything else is made new. -/
def putDescriptor (h : Heap) (o : ObjectId) (k : Key) (v : Value) : Descriptor :=
  match h.getOwn? o k with
  | some (.data _ _ _ _) => .ofValue v
  | _ => .data v true true true

/-- What an assignment comes to that runs no setter. -/
def putting (h : Heap) (o : ObjectId) (k : Key) (v receiver : Value) : Except Fault Outcome :=
  if !h.canPut o k then .ok (.refused h (putRefusal h o k))
  else if receiver == .object o then h.defining o k (h.putDescriptor o k v)
  else .ok (.refused h (.cannotPut k.toText))

/-- An assignment runs no setter: it does not go ahead, or what it finds is no accessor. -/
def RunsNoSetter (h : Heap) (o : ObjectId) (k : Key) : Prop :=
  h.canPut o k = true → ∀ g s e c, h.getProperty? o k ≠ some (.accessor g s e c)

/-- The description gives no object as the length of an array. -/
def GivesPrimitive (h : Heap) (o : ObjectId) (k : Key) (d : Descriptor) : Prop :=
  ∀ v, lengthValue? (h.object o) k d = some v → v.isObject = false

variable {h : Heap} {o : ObjectId} {k : Key} {d : Descriptor}

theorem value_of_lengthValue? {x : Object} {v : Value} (hv : lengthValue? x k d = some v) :
    d.value = some v := by
  unfold lengthValue? at hv
  split at hv
  · exact hv
  · cases hv

theorem array_of_lengthValue? {x : Object} {v : Value} (hv : lengthValue? x k d = some v) :
    x.kind = .array ∧ k = .length := by
  unfold lengthValue? at hv
  split at hv
  · rename_i h
    rw [Bool.and_eq_true, decide_eq_true_iff] at h
    exact ⟨Object.kind_of_isArray h.1, h.2⟩
  · cases hv

theorem givesPrimitive_of_value {v : Value} (hd : d.value = some v) (hv : v.isObject = false) :
    h.GivesPrimitive o k d := by
  intro u hu
  obtain rfl := Option.some.inj (hd.symm.trans (value_of_lengthValue? hu))
  exact hv

theorem kind_putRefusal (h : Heap) (o : ObjectId) (k : Key) : (putRefusal h o k).kind = .typeError := by
  unfold putRefusal
  split <;> rfl

/-- Nothing is converted unless a length is given to an array. -/
theorem defining_of_lengthValue? (hnone : lengthValue? (h.object o) k d = none) :
    h.defining o k d = .ok (h.define o k d) := by
  unfold defining
  rw [hnone]

theorem lengthValue?_index (x : Object) (i : ArrayIndex) (d : Descriptor) :
    lengthValue? x (.index i) d = none := by
  have hne : Key.index i ≠ .length := Key.noConfusion
  unfold lengthValue?
  rw [decide_eq_false hne, Bool.and_false, if_neg Bool.false_ne_true]

theorem givesPrimitive_index (i : ArrayIndex) (d : Descriptor) : h.GivesPrimitive o (.index i) d := by
  intro v hv
  rw [lengthValue?_index] at hv
  cases hv

end Heap

/-! ## 2. Runs -/

section Runs

variable {bodies : Bodies} {m : Machine}

theorem settle_run (throws : Bool) (r : Heap.Outcome) : settle throws r bodies m = r.ended throws m := by
  unfold settle Heap.Outcome.ended
  cases r.refusal with
  | none => rfl
  | some f => cases throws <;> rfl

theorem toNumber_run {v : Value} (hv : v.isObject = false) :
    toNumber v bodies m = .ok (primitiveNumber v) m := by
  cases v with
  | object o => cases hv
  | _ => rfl

theorem toLength_run {v : Value} (hv : v.isObject = false) :
    toLength v bodies m =
      if (Double.ofNat (primitiveNumber v).toUint32).eq (primitiveNumber v) then
        .ok (primitiveNumber v).toUint32 m
      else .error (.fault (.invalidArrayLength (primitiveNumber v).toPlain)) m := by
  have huint32 : toUint32 v bodies m = .ok (primitiveNumber v).toUint32 m :=
    (bind_run_ok (toNumber_run hv) _).trans rfl
  unfold toLength
  rw [bind_run_ok huint32, bind_run_ok (toNumber_run hv)]
  split <;> rfl

theorem defineLength_run {v : Value} (hv : v.isObject = false) (o : ObjectId) (d : Descriptor)
    (throws : Bool) :
    defineLength o d v throws bodies m =
      Heap.endedBy (m.heap.settingLength o d (primitiveNumber v)) throws m := by
  unfold defineLength Heap.settingLength
  rw [getHeap_bind_run]
  dsimp only
  split
  · rename_i hvalid
    rw [bind_run_ok ((toLength_run hv).trans (if_pos hvalid)), getHeap_bind_run]
    exact settle_run throws _
  · rename_i hinvalid
    exact bind_run_error ((toLength_run hv).trans (if_neg hinvalid)) _

/-- What is kept meanwhile makes no difference. -/
theorem holding_endedBy {x : Run Bool} {vs : List Value} {r : Except Fault Heap.Outcome} {throws : Bool}
    (hx : x bodies { m with held := vs ++ m.held } = Heap.endedBy r throws { m with held := vs ++ m.held }) :
    holding vs x bodies m = Heap.endedBy r throws m := by
  unfold holding
  rw [hx]
  cases r with
  | error f => rfl
  | ok r =>
    obtain ⟨h, refusal⟩ := r
    cases refusal with
    | none => rfl
    | some f => cases throws <;> rfl

/-- **A definition ends as its outcome says.** -/
theorem defineOwn_run {o : ObjectId} {k : Key} {d : Descriptor} (hd : m.heap.GivesPrimitive o k d)
    (throws : Bool) :
    defineOwn o k d throws bodies m = Heap.endedBy (m.heap.defining o k d) throws m := by
  unfold defineOwn Heap.defining
  rw [getHeap_bind_run]
  cases hlength : lengthValue? (m.heap.object o) k d with
  | none => exact settle_run throws _
  | some v => exact holding_endedBy (defineLength_run (hd v hlength) o d throws)

/-- **So does a deletion.** -/
theorem deleteOwn_run (o : ObjectId) (k : Key) (throws : Bool) :
    deleteOwn o k throws bodies m = (m.heap.deleteOwn o k).ended throws m :=
  settle_run throws _

/-- The result of an operation whose answer is of no interest. -/
def discarding : EStateM.Result Failure Machine Bool → EStateM.Result Failure Machine Unit
  | .ok _ m => .ok () m
  | .error e m => .error e m

theorem discarding_run (x : Run Bool) :
    (do let _ ← x : Run Unit) bodies m = discarding (x bodies m) := by
  cases hx : x bodies m with
  | ok b m' => exact bind_run_ok hx _
  | error e m' => exact bind_run_error hx _

theorem refuse_run (throws : Bool) (f : Fault) :
    refuse throws f bodies m = discarding ((Heap.Outcome.refused m.heap f).ended throws m) := by
  cases throws <;> rfl

/-- An assignment that runs no setter ends as its outcome says, if no object has to be converted to a length. -/
theorem putFor_run_of_givesPrimitive {o : ObjectId} {k : Key} {v : Value}
    (hv : ∀ d : Descriptor, d.value = some v → m.heap.GivesPrimitive o k d)
    (hplain : m.heap.RunsNoSetter o k) (receiver : Value) (throws : Bool) :
    putFor o k v receiver throws bodies m =
      discarding (Heap.endedBy (m.heap.putting o k v receiver) throws m) := by
  have hdefine {d : Descriptor} (hd : d.value = some v) :
      (do let _ ← defineOwn o k d throws : Run Unit) bodies m =
        discarding (Heap.endedBy (m.heap.defining o k d) throws m) := by
    rw [discarding_run, defineOwn_run (hv d hd)]
  unfold putFor Heap.putting
  rw [getHeap_bind_run]
  cases hcan : m.heap.canPut o k with
  | false => exact refuse_run throws _
  | true =>
    rw [Bool.not_true, if_neg Bool.false_ne_true, if_neg Bool.false_ne_true]
    have hnew : (if (receiver == .object o) = true then do
          let _ ← defineOwn o k (.data v true true true) throws
        else refuse throws (.cannotPut k.toText) : Run Unit) bodies m =
        discarding (Heap.endedBy (if (receiver == .object o) = true then
          m.heap.defining o k (.data v true true true)
        else .ok (.refused m.heap (.cannotPut k.toText))) throws m) := by
      split
      · exact hdefine rfl
      · exact refuse_run throws _
    unfold Heap.putDescriptor
    -- an own accessor would be what the lookup finds
    rcases hown : m.heap.getOwn? o k with _ | ⟨u, w, e, c⟩ | ⟨g, s, e, c⟩
    · rcases hfound : m.heap.getProperty? o k with _ | ⟨u, w, e, c⟩ | ⟨g, s, e, c⟩
      · exact hnew
      · exact hnew
      · exact absurd hfound (hplain hcan g s e c)
    · dsimp only
      split
      · exact hdefine rfl
      · exact refuse_run throws _
    · rcases hfound : m.heap.getProperty? o k with _ | ⟨u, w, e, c⟩ | ⟨g, s, e, c⟩
      · exact hnew
      · exact hnew
      · exact absurd hfound (hplain hcan g s e c)

/-- **An assignment that runs no setter ends as its outcome says.** -/
theorem putFor_run {o : ObjectId} {k : Key} {v : Value} (hv : v.isObject = false)
    (hplain : m.heap.RunsNoSetter o k) (receiver : Value) (throws : Bool) :
    putFor o k v receiver throws bodies m =
      discarding (Heap.endedBy (m.heap.putting o k v receiver) throws m) :=
  putFor_run_of_givesPrimitive (fun _ hd => Heap.givesPrimitive_of_value hd hv) hplain receiver throws

end Runs

end Ecma51
