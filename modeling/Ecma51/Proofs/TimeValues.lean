import Ecma51.Proofs.Made
import Ecma51.Proofs.Relates
import Ecma51.Proofs.WholeArithmetic

/-!
# Time values

Whatever number is clipped becomes a time value: whole milliseconds within the range of dates, or no date at all. All
that date objects are given is clipped.

* `Double.IsTime`: a time value.
* **`Calendar.isTime_timeClip`**: whatever is clipped; `Calendar.timeClip_of_denotes`: what whole numbers become.
* `Gives`: a property of all results of an operation.
* `gives_constructedTime`, `gives_withFields`: the times that date objects are given.
* `Object.HoldsTime`: an object that is no date, or a date with a time value.
-/

namespace Ecma51

open Calendar Double

/-! ## 1. Clipping -/

/-- A time value: no date at all, or whole milliseconds within the range of dates. -/
def Double.IsTime (x : Double) : Prop := x = .nan ∨ ∃ i : Int, i.natAbs ≤ 8640000000000000 ∧ x = .ofInt i

namespace Double

theorem isTime_nan : Double.nan.IsTime := .inl rfl

/-- The whole part of a number that is not too large. -/
theorem denotes_toInteger {s : Bool} {m : Magnitude} (hm : m.whole < 2 ^ 53) :
    Denotes (finite s m).toInteger (signed s m.whole) := by
  have habs : (signed s m.whole).natAbs = m.whole := by
    cases s
    · exact Int.natAbs_natCast _
    · exact (Int.natAbs_neg _).trans (Int.natAbs_natCast _)
  have hsign : IsSign s (signed s m.whole) := by
    intro hne
    cases s
    · exact (decide_eq_false (Int.not_lt.mpr (Int.natCast_nonneg _))).symm
    · refine (decide_eq_true ?_).symm
      unfold signed at hne ⊢
      rw [if_pos rfl] at hne ⊢
      omega
  have hscaled := denotes_scaled hsign (by rw [habs]; exact Nat.le_of_lt hm) 0
  rwa [habs, Nat.pow_zero, Nat.mul_one, Int.natCast_zero, Int.neg_zero] at hscaled

/-- Zero takes away the sign of zero. -/
theorem Denotes.add_zero {x : Double} {i : Int} (hx : Denotes x i) (hi : i.natAbs < 2 ^ 53) : x + .zero = ofInt i := by
  have hsum := hx.add_cases (denotes_ofInt 0) hi (by decide) (by rw [Int.add_zero]; exact Nat.le_of_lt hi)
  rcases hsum with h | ⟨_, _, hpositive, _⟩
  · rwa [Int.add_zero] at h
  · cases hpositive

end Double

namespace Calendar

/-- The range of dates as a number. -/
theorem maxTime_eq : maxTime = finite false ⟨8640000000000000, 0, by decide⟩ := by decide +kernel

/-- What is not beyond the range has a whole part within it. -/
theorem whole_le_of_not_lt {m : Magnitude} (h : Double.lt maxTime (finite false m) = false) :
    m.whole ≤ 8640000000000000 := by
  rw [maxTime_eq, lt_finite, show (⟨8640000000000000, 0, by decide⟩ : Magnitude).isZero = false from rfl,
    Bool.false_and, if_neg Bool.false_ne_true, beq_eq_false_iff_ne] at h
  unfold Magnitude.compare at h
  rw [Ne, Ordering.then_eq_lt, compare_lt_iff_lt, compare_lt_iff_lt] at h
  obtain ⟨hexponent, hmantissa⟩ := not_or.mp h
  have hexponent : m.exponent ≤ 0 := Int.not_lt.mp hexponent
  unfold Magnitude.whole
  rcases Int.lt_or_eq_of_le hexponent with hneg | hzero
  · have hhalf : 2 ≤ 2 ^ (-m.exponent).toNat :=
      Nat.le_self_pow (by omega : (-m.exponent).toNat ≠ 0) 2
    have hbits := m.canonical.1
    rw [if_neg (Int.not_le.mpr hneg), Nat.shiftRight_eq_div_pow]
    refine Nat.le_trans (Nat.div_le_div_left hhalf (by decide)) ?_
    omega
  · rw [if_pos (Int.le_of_eq hzero.symm), hzero]
    exact Nat.not_lt.mp fun hlt => hmantissa ⟨compare_eq_iff_eq.mpr hzero.symm, hlt⟩

/-- **Whatever number is clipped becomes a time value.** -/
theorem isTime_timeClip (x : Double) : (timeClip x).IsTime := by
  unfold timeClip
  cases x with
  | nan => exact isTime_nan
  | infinite s => exact isTime_nan
  | finite s m =>
    cases hpast : Double.lt maxTime (finite s m).abs with
    | true => exact isTime_nan
    | false =>
      have hwhole := whole_le_of_not_lt hpast
      have hdenotes : Denotes (finite s m).toInteger (signed s m.whole) := denotes_toInteger (by omega)
      have habs : (signed s m.whole).natAbs ≤ 8640000000000000 := by
        unfold signed
        split <;> omega
      exact .inr ⟨signed s m.whole, habs, hdenotes.add_zero (by omega)⟩

section Whole

variable {x : Double} {t : Int}

/-- **What a time is clipped to**: itself within the range of time values, with one zero, and no date past it. -/
theorem timeClip_of_denotes (hx : Denotes x t) (ht : t.natAbs < 2 ^ 53) :
    timeClip x = if t.natAbs ≤ 8640000000000000 then ofInt t else .nan := by
  have hpast : Double.lt maxTime x.abs = decide (8640000000000000 < t.natAbs) := by
    rw [hx.abs]
    exact ofNat_lt_ofNat (by decide) (Nat.le_of_lt ht)
  unfold timeClip
  rw [hx.isFinite ht, hpast, Bool.not_true, Bool.false_or]
  by_cases hle : t.natAbs ≤ 8640000000000000
  · rw [decide_eq_false (Nat.not_lt.mpr hle), if_neg Bool.false_ne_true, if_pos hle]
    exact (hx.toInteger ht).add_zero ht
  · rw [decide_eq_true (Nat.lt_of_not_le hle), if_pos rfl, if_neg hle]

theorem timeClip_ofInt (ht : t.natAbs ≤ 8640000000000000) : timeClip (ofInt t) = ofInt t := by
  rw [timeClip_of_denotes (denotes_ofInt t) (Nat.lt_of_le_of_lt ht (by decide)), if_pos ht]

end Whole

theorem isTime_parseDate (zone : ZoneReport) (t : Text) : (parseDate zone t).IsTime := by
  unfold parseDate
  split
  · exact isTime_nan
  · dsimp only
    split
    · exact isTime_timeClip _
    · exact isTime_timeClip _

end Calendar

theorem isTime_replaceFields (zone : ZoneReport) (isLocal : Bool) (t : Double) (first : Nat) (values : List Double) :
    (replaceFields zone isLocal t first values).IsTime := by
  unfold replaceFields
  split
  · exact isTime_nan
  · exact isTime_timeClip _

/-! ## 2. The times that date objects are given -/

/-- Whatever the operation is run on, its result has the property if there is one. -/
def Gives {α : Type} (p : α → Prop) (x : Run α) : Prop := ∀ bodies m a m', x bodies m = .ok a m' → p a

section Gives

variable {α β : Type} {p : β → Prop}

theorem gives_pure {b : β} (hb : p b) : Gives p (pure b) := by
  intro bodies m a m' hrun
  cases hrun
  exact hb

/-- The result is that of what is done last. -/
theorem gives_bind {x : Run α} {f : α → Run β} (hf : ∀ a, Gives p (f a)) : Gives p (x >>= f) := by
  intro bodies m b m' hrun
  cases hx : x bodies m with
  | ok a m₁ =>
    rw [bind_run_ok hx] at hrun
    exact hf a bodies m₁ b m' hrun
  | error e m₁ =>
    rw [bind_run_error hx] at hrun
    cases hrun

end Gives

theorem gives_constructedTime (args : List Value) : Gives IsTime (constructedTime args) := by
  refine gives_bind fun m => ?_
  match args with
  | [] => exact gives_bind fun _ => gives_pure (isTime_timeClip _)
  | [v] =>
    refine gives_bind fun v => ?_
    split
    · exact gives_pure (isTime_parseDate _ _)
    · exact gives_bind fun _ => gives_pure (isTime_timeClip _)
  | _ :: _ :: _ => exact gives_bind fun _ => gives_pure (isTime_timeClip _)

theorem gives_withFields (field : DateField) (isLocal : Bool) (args : List Value) (t : Double) :
    Gives IsTime (withFields field isLocal args t) :=
  gives_bind fun _ => gives_bind fun _ => gives_pure (isTime_replaceFields _ _ _ _ _)

theorem gives_setTime (v : Value) : Gives IsTime (do return timeClip (← toNumber v)) :=
  gives_bind fun _ => gives_pure (isTime_timeClip _)

/-! ## 3. Objects as they are made -/

/-- If the object is a date, it has a time value. -/
def Object.HoldsTime (x : Object) : Prop := ∀ t, x.kind = .date t → t.IsTime

/-- The kind is that of dates. -/
def Kind.isDate : Kind → Bool
  | .date _ => true
  | _ => false

theorem Object.holdsTime_of_isDate {x : Object} (h : x.kind.isDate = false) : x.HoldsTime := by
  intro t hk
  rw [hk] at h
  cases h

/-- A date with a time value. -/
theorem holdsTime_date {t : Double} (ht : t.IsTime) (className : String) (p : Option ObjectId) :
    (Object.ofKind className p (.date t)).HoldsTime := by
  rintro _ ⟨⟩
  exact ht

section Makers

@[grind ←] theorem holdsTime_ofKind {className : String} {p : Option ObjectId} {k : Kind} (h : k.isDate = false) :
    (Object.ofKind className p k).HoldsTime := Object.holdsTime_of_isDate h

@[grind ←] theorem holdsTime_ordinary (p : Option ObjectId) : (Object.ordinary p).HoldsTime := holdsTime_ofKind rfl

@[grind ←] theorem holdsTime_arrayOf (items : List Value) : (arrayOf items).HoldsTime :=
  Object.holdsTime_of_isDate rfl

@[grind ←] theorem holdsTime_arrayOfLength (n : Nat) : (arrayOfLength n).HoldsTime := Object.holdsTime_of_isDate rfl

@[grind ←] theorem holdsTime_stringObject (t : Text) : (stringObject t).HoldsTime := Object.holdsTime_of_isDate rfl

theorem holdsTime_wrapperOf {v : Value} {x : Object} (h : wrapperOf? v = some x) : x.HoldsTime := by
  cases v with
  | boolean b => exact Option.some.inj h ▸ holdsTime_ofKind rfl
  | number n => exact Option.some.inj h ▸ holdsTime_ofKind rfl
  | string t => exact Option.some.inj h ▸ holdsTime_stringObject t
  | _ => cases h

@[grind ←] theorem holdsTime_errorOf (kind : ErrorKind) (message : Text) : (errorOf kind message).HoldsTime := by
  refine Object.holdsTime_of_isDate ?_
  unfold errorOf
  split <;> rfl

@[grind ←] theorem holdsTime_regExpObject (r : RegExp) : (regExpObject r).HoldsTime := Object.holdsTime_of_isDate rfl

@[grind ←] theorem holdsTime_descriptorObject (p : Property) : (descriptorObject p).HoldsTime := by
  refine Object.holdsTime_of_isDate ?_
  unfold descriptorObject
  rw [Object.kind_foldl_withProperty]
  rfl

@[grind ←] theorem holdsTime_boundFunction (target : ObjectId) (this : Value) (args : List Value)
    (length : Double) : (boundFunction target this args length).HoldsTime := by
  refine Object.holdsTime_of_isDate ?_
  unfold boundFunction
  rw [kind_poisoned]
  rfl

theorem holdsTime_argumentsObject (callee : Value) (args : List Value) (e : EnvironmentId) (strict : Bool) :
    (argumentsObject callee args e strict).HoldsTime := by
  refine Object.holdsTime_of_isDate ?_
  rw [kind_argumentsObject]
  rfl

end Makers

end Ecma51
