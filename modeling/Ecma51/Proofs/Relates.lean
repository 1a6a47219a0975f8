import Mathlib.Order.Defs.Unbundled
import Ecma51.Machine

/-!
# What an operation does to the machine

An operation may succeed or fail; in both cases it leaves a machine behind. A relation between the
machine before and the machine after that can be chained is respected by everything that is put
together from operations that respect it.

* `endOf`: the machine that is left behind.
* `Relates`: the machines before and after are related, however the operation ends.
-/

namespace Ecma51

variable {α β : Type}

/-- The machine after an operation, however it ended. -/
def endOf : EStateM.Result Failure Machine α → Machine
  | .ok _ m => m
  | .error _ m => m

/-! ## 1. Operations one after the other -/

theorem bind_run_ok {x : Run α} {bodies : Bodies} {m m' : Machine} {a : α}
    (h : x bodies m = .ok a m') (f : α → Run β) : (x >>= f) bodies m = f a bodies m' := by
  show EStateM.bind (x bodies) (fun a => f a bodies) m = _
  unfold EStateM.bind
  rw [h]

/-- What is found of each in turn, without changing the machine. -/
theorem mapM_run_ok {bodies : Bodies} {m : Machine} {xs : List α} {f : α → Run β} {g : α → β}
    (hf : ∀ x ∈ xs, f x bodies m = .ok (g x) m) : xs.mapM f bodies m = .ok (xs.map g) m := by
  induction xs with
  | nil => rfl
  | cons x xs ih =>
    have hrest := ih fun y hy => hf y (List.mem_cons_of_mem x hy)
    rw [List.mapM_cons, bind_run_ok (hf x List.mem_cons_self), bind_run_ok hrest]
    rfl

theorem bind_run_error {x : Run α} {bodies : Bodies} {m m' : Machine} {e : Failure}
    (h : x bodies m = .error e m') (f : α → Run β) : (x >>= f) bodies m = .error e m' := by
  show EStateM.bind (x bodies) (fun a => f a bodies) m = _
  unfold EStateM.bind
  rw [h]

theorem tryCatch_run_ok {x : Run α} {bodies : Bodies} {m m' : Machine} {a : α}
    (h : x bodies m = .ok a m') (f : Failure → Run α) : (tryCatch x f) bodies m = .ok a m' := by
  show EStateM.tryCatch (x bodies) (fun e => f e bodies) m = _
  unfold EStateM.tryCatch
  rw [h]

theorem tryCatch_run_error {x : Run α} {bodies : Bodies} {m m' : Machine} {e : Failure}
    (h : x bodies m = .error e m') (f : Failure → Run α) :
    (tryCatch x f) bodies m = f e bodies m' := by
  show EStateM.tryCatch (x bodies) (fun e => f e bodies) m = _
  unfold EStateM.tryCatch
  rw [h]
  rfl

theorem get_bind_run (f : Machine → Run β) (bodies : Bodies) (m : Machine) :
    ((get : Run Machine) >>= f) bodies m = f m bodies m := rfl

theorem set_bind_run (m' : Machine) (f : PUnit → Run β) (bodies : Bodies) (m : Machine) :
    ((set m' : Run PUnit) >>= f) bodies m = f ⟨⟩ bodies m' := rfl

theorem read_bind_run (f : Bodies → Run β) (bodies : Bodies) (m : Machine) :
    ((read : Run Bodies) >>= f) bodies m = f bodies bodies m := rfl

theorem getHeap_bind_run (f : Heap → Run β) (bodies : Bodies) (m : Machine) :
    (getHeap >>= f) bodies m = f m.heap bodies m := rfl

/-! ## 2. Single operations -/

section Single

variable {bodies : Bodies}

theorem allocate_run (bodies : Bodies) (m : Machine) : allocate bodies m =
    if m.reserve.2 then .ok ⟨⟩ m.reserve.1 else .error (.fault .outOfMemory) m.reserve.1 := by
  unfold allocate
  rw [get_bind_run]
  dsimp only
  rw [set_bind_run]
  split <;> rfl

theorem enterCall_full {m : Machine} (h : m.maxCallDepth ≤ m.callDepth) :
    enterCall bodies m = .error (.fault .stackOverflow) m := by
  unfold enterCall
  rw [get_bind_run, if_pos h]
  rfl

theorem enterCall_free {m : Machine} (h : ¬ m.maxCallDepth ≤ m.callDepth) :
    enterCall bodies m = .ok ⟨⟩ { m with callDepth := m.callDepth + 1 } := by
  unfold enterCall
  rw [get_bind_run, if_neg h]
  rfl

section Ended

variable {x : Run α} {m m' : Machine} {vs : List Value} {a : α} {e : Failure}

theorem holding_ok (hx : x bodies { m with held := vs ++ m.held } = .ok a m') :
    holding vs x bodies m = .ok a { m' with held := m.held } := by
  unfold holding
  rw [hx]

theorem holding_error (hx : x bodies { m with held := vs ++ m.held } = .error e m') :
    holding vs x bodies m = .error e { m' with held := m.held } := by
  unfold holding
  rw [hx]

theorem leaving_ok (hx : x bodies m = .ok a m') :
    leaving x bodies m = .ok a { m' with callDepth := m'.callDepth - 1 } :=
  tryCatch_run_ok ((bind_run_ok hx _).trans rfl) _

theorem leaving_error (hx : x bodies m = .error e m') :
    leaving x bodies m = .error e { m' with callDepth := m'.callDepth - 1 } :=
  (tryCatch_run_error (bind_run_error hx _) _).trans rfl

end Ended

/-- One call less is under way after an operation, however it ended. -/
theorem endOf_leaving (x : Run α) (m : Machine) :
    endOf (leaving x bodies m) =
      { endOf (x bodies m) with callDepth := (endOf (x bodies m)).callDepth - 1 } := by
  cases hm : x bodies m with
  | ok a m' =>
    rw [leaving_ok hm]
    rfl
  | error e m' =>
    rw [leaving_error hm]
    rfl

end Single

/-! ## 3. Relations -/

/-- However the operation ends, the machine before it and the machine after it are related. -/
def Relates (R : Machine → Machine → Prop) (bodies : Bodies) (x : Run α) : Prop :=
  ∀ m, R m (endOf (x bodies m))

namespace Relates

variable {R : Machine → Machine → Prop} [IsPreorder Machine R] {bodies : Bodies}

theorem pure (a : α) : Relates R bodies (pure a : Run α) := refl_of R

theorem throw (e : Failure) : Relates R bodies (throw e : Run α) := refl_of R

theorem get : Relates R bodies (get : Run Machine) := refl_of R

/-- What follows an operation has to be related to where that operation ended. -/
theorem bind_at {x : Run α} {f : α → Run β} {m : Machine} (hx : R m (endOf (x bodies m)))
    (hf : ∀ a m', x bodies m = .ok a m' → R m' (endOf (f a bodies m'))) :
    R m (endOf ((x >>= f) bodies m)) := by
  cases hm : x bodies m with
  | ok a m' =>
    rw [bind_run_ok hm]
    rw [hm] at hx
    exact trans_of R hx (hf a m' hm)
  | error e m' =>
    rw [bind_run_error hm]
    rw [hm] at hx
    exact hx

theorem bind {x : Run α} {f : α → Run β} (hx : Relates R bodies x)
    (hf : ∀ a, Relates R bodies (f a)) : Relates R bodies (x >>= f) :=
  fun m => bind_at (hx m) fun a m' _ => hf a m'

theorem tryCatch {x : Run α} {f : Failure → Run α} (hx : Relates R bodies x)
    (hf : ∀ e, Relates R bodies (f e)) : Relates R bodies (tryCatch x f) := by
  intro m
  have h := hx m
  cases hm : x bodies m with
  | ok a m' =>
    rw [tryCatch_run_ok hm]
    rw [hm] at h
    exact h
  | error e m' =>
    rw [tryCatch_run_error hm]
    rw [hm] at h
    exact trans_of R h (hf e m')

end Relates

end Ecma51
