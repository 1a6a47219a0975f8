import Ecma51.Operation.Compare
import Ecma51.Proofs.TimeValues

/-!
# Equality with conversions

Two values of different types are compared by taking something simpler in the place of one of them, over and over: a
number for a boolean, a primitive value for an object. Every step leaves less to convert, and the steps from the left
are those from the right mirrored; so the comparison ends, and it does not matter which value stands on which side.

* `Value.strictEq_ne_same_iff`: where equality without conversion differs from identity.
* `EqualityStep`, `compareStep`: what the comparison of two values comes to next.
* `compareStep_swap`: a step with sides exchanged.
* `Value.conversions`, `looseEq_of_instead`, `looseEq_of_left`, `looseEq_of_right`: what a step keeps, and what it makes
  less.
* **`gives_toPrimitive`**: a conversion never gives an object; **`compareUpTo_eq`**: so the steps are few.
* `ComparesTo`, **`ComparesTo.swap`**, **`ComparesTo.exists`**, **`ComparesTo.alwaysGives`**: the steps where an object
  always converts to the same.
* **`looseEq_exact`**: all this together.
-/

namespace Ecma51

/-! ## 1. Numbers -/

namespace Double

theorem order?_swap (x y : Double) : order? y x = (order? x y).map Ordering.swap := by
  cases x with
  | nan => cases y <;> rfl
  | infinite s =>
    cases y with
    | nan => rfl
    | infinite t => cases s <;> cases t <;> rfl
    | finite t b => cases s <;> rfl
  | finite s a =>
    cases y with
    | nan => rfl
    | infinite t => cases t <;> rfl
    | finite t b =>
      show some _ = some _
      rw [Bool.and_comm b.isZero]
      cases a.isZero && b.isZero with
      | true => rfl
      | false =>
        cases s <;> cases t
        · exact congrArg some (compare_swap a b)
        · rfl
        · rfl
        · exact congrArg some (compare_swap b a)

theorem eq_comm (x y : Double) : x.eq y = y.eq x := by
  unfold Double.eq
  rw [order?_swap x y]
  cases order? x y with
  | none => rfl
  | some o => cases o <;> rfl

theorem compare_eq_iff (a b : Magnitude) : a.compare b = .eq ↔ a = b := by
  unfold Magnitude.compare
  rw [Ordering.then_eq_eq, compare_eq_iff_eq, compare_eq_iff_eq]
  constructor
  · rintro ⟨hexponent, hmantissa⟩
    cases a
    cases b
    cases hexponent
    cases hmantissa
    rfl
  · rintro rfl
    exact ⟨rfl, rfl⟩

/-- **Equality of numbers** is identity, except that not-a-number equals nothing and the zeros are equal. -/
theorem eq_iff (x y : Double) :
    x.eq y = true ↔ x ≠ .nan ∧ x = y ∨ ∃ s, x = .finite s .zero ∧ y = .finite (!s) .zero := by
  constructor
  · intro h
    have horder : order? x y = some .eq := beq_iff_eq.mp h
    cases x with
    | nan => cases horder
    | infinite s =>
      cases y with
      | nan => cases horder
      | infinite t =>
        cases s <;> cases t <;> first | exact .inl ⟨nofun, rfl⟩ | cases horder
      | finite t b => cases s <;> cases horder
    | finite s a =>
      cases y with
      | nan => cases horder
      | infinite t => cases t <;> cases horder
      | finite t b =>
        have horder : (if (a.isZero && b.isZero) = true then Ordering.eq
            else if (s != t) = true then if s then .lt else .gt else if s then b.compare a else a.compare b) = .eq :=
          Option.some.inj horder
        by_cases hzero : (a.isZero && b.isZero) = true
        · obtain ⟨ha, hb⟩ := (Bool.and_eq_true _ _).mp hzero
          obtain rfl := Magnitude.eq_zero_of_isZero ha
          obtain rfl := Magnitude.eq_zero_of_isZero hb
          cases s <;> cases t
          · exact .inl ⟨nofun, rfl⟩
          · exact .inr ⟨false, rfl, rfl⟩
          · exact .inr ⟨true, rfl, rfl⟩
          · exact .inl ⟨nofun, rfl⟩
        · rw [if_neg hzero] at horder
          cases s <;> cases t
          · obtain rfl := (compare_eq_iff a b).mp horder
            exact .inl ⟨nofun, rfl⟩
          · cases horder
          · cases horder
          · obtain rfl := (compare_eq_iff b a).mp horder
            exact .inl ⟨nofun, rfl⟩
  · rintro (⟨hx, rfl⟩ | ⟨s, rfl, rfl⟩)
    · exact Double.eq_self hx
    · cases s <;> rfl

end Double

namespace Value

theorem strictEq_eq_same {x y : Value} (h : ∀ a, x = .number a → ∀ b, y ≠ .number b) : x.strictEq y = x.same y := by
  unfold strictEq
  split
  · exact absurd rfl (h _ rfl _)
  · rfl

theorem strictEq_comm (x y : Value) : x.strictEq y = y.strictEq x := by
  by_cases h : ∃ a b, x = .number a ∧ y = .number b
  · obtain ⟨a, b, rfl, rfl⟩ := h
    exact Double.eq_comm a b
  · rw [strictEq_eq_same fun a ha b hb => h ⟨a, b, ha, hb⟩, strictEq_eq_same fun b hb a ha => h ⟨a, b, ha, hb⟩]
    exact decide_eq_decide.mpr ⟨Eq.symm, Eq.symm⟩

/-- **Equality without conversion and identity differ** only at not-a-number and at the two zeros. -/
theorem strictEq_ne_same_iff (x y : Value) :
    x.strictEq y ≠ x.same y ↔ x = .number .nan ∧ y = .number .nan ∨
      ∃ s, x = .number (.finite s .zero) ∧ y = .number (.finite (!s) .zero) := by
  by_cases hnumbers : ∃ a b, x = .number a ∧ y = .number b
  · obtain ⟨a, b, rfl, rfl⟩ := hnumbers
    show a.eq b ≠ decide (Value.number a = .number b) ↔ _
    rw [Ne, Bool.eq_iff_iff, Double.eq_iff, decide_eq_true_iff]
    simp only [Value.number.injEq]
    constructor
    · intro h
      by_cases hab : a = b
      · subst hab
        by_cases hnan : a = .nan
        · exact .inl ⟨hnan, hnan⟩
        · exact absurd (iff_of_true (.inl ⟨hnan, rfl⟩) rfl) h
      · by_cases hzeros : ∃ s, a = .finite s .zero ∧ b = .finite (!s) .zero
        · exact .inr hzeros
        · exact absurd (iff_of_false (fun h => h.elim (fun h => hab h.2) hzeros) hab) h
    · rintro (⟨rfl, rfl⟩ | ⟨s, rfl, rfl⟩) h
      · rcases h.mpr rfl with ⟨hnan, -⟩ | ⟨s, hnan, -⟩
        · exact hnan rfl
        · cases hnan
      · have hsame := h.mp (.inr ⟨s, rfl, rfl⟩)
        cases s <;> cases hsame
  · have hsame := strictEq_eq_same fun a ha b hb => hnumbers ⟨a, b, ha, hb⟩
    refine iff_of_false (not_not_intro hsame) ?_
    rintro (⟨hx, hy⟩ | ⟨s, hx, hy⟩)
    · exact hnumbers ⟨_, _, hx, hy⟩
    · exact hnumbers ⟨_, _, hx, hy⟩

end Value

/-! ## 2. Steps -/

/-- What the comparison of two values comes to: an answer, the comparison of two other values instead, or the
conversion of the left or of the right value. -/
inductive EqualityStep where
  | answer (equal : Bool)
  | instead (x y : Value)
  | left
  | right

/-- The same with sides exchanged. -/
def EqualityStep.swap : EqualityStep → EqualityStep
  | answer equal => answer equal
  | instead x y => instead y x
  | left => right
  | right => left

/-- The number of a boolean. -/
def booleanNumber (b : Bool) : Value := .number (if b then 1 else .zero)

/-- One step of a comparison. The first case that applies counts. -/
def compareStep (x y : Value) : EqualityStep :=
  if x.tag = y.tag then .answer (x.strictEq y)
  else if x.isNullish && y.isNullish then .answer true
  else
    match x, y with
    | .number a, .string t => .answer (a.eq (.ofText t))
    | .string s, .number b => .answer ((Double.ofText s).eq b)
    | .boolean a, y => .instead (booleanNumber a) y
    | x, .boolean b => .instead x (booleanNumber b)
    | .number _, .object _ | .string _, .object _ => .right
    | .object _, .number _ | .object _, .string _ => .left
    | _, _ => .answer false

/-- So many steps of a comparison; `none` if they do not suffice. -/
def compareUpTo : Nat → Value → Value → Run (Option Bool)
  | 0, _, _ => return none
  | n + 1, x, y =>
    match compareStep x y with
    | .answer equal => return some equal
    | .instead x y => compareUpTo n x y
    | .left => do compareUpTo n (← toPrimitive x .default) y
    | .right => do compareUpTo n x (← toPrimitive y .default)

/-- **The steps from the left are those from the right.** -/
theorem compareStep_swap (x y : Value) : compareStep y x = (compareStep x y).swap := by
  have hstrict : compareStep y x = .answer (y.strictEq x) → compareStep x y = .answer (x.strictEq y) →
      compareStep y x = (compareStep x y).swap := fun h h' => by
    rw [h, h', Value.strictEq_comm y x]
    rfl
  cases x <;> cases y <;>
    first
    | exact hstrict rfl rfl
    | exact congrArg EqualityStep.answer (Double.eq_comm _ _)
    | rfl

/-- How often something simpler can be taken in the place of a value. -/
def Value.conversions : Value → Nat
  | object _ => 2
  | boolean _ => 1
  | _ => 0

theorem looseEq_of_primitive {x y : Value} (hx : x.isObject = false) (hy : y.isObject = false) :
    looseEq x y = pure (primitiveEq x y) := by
  cases x with
  | object o => cases hx
  | _ =>
    cases y with
    | object o => cases hy
    | _ => rfl

theorem looseEq_of_answer {x y : Value} {equal : Bool} (h : compareStep x y = .answer equal) :
    looseEq x y = pure equal := by
  have hobjects (a b : ObjectId) : (a == b) = Value.strictEq (.object a) (.object b) := by
    show decide (a = b) = decide (Value.object a = .object b)
    exact decide_eq_decide.mpr (by rw [Value.object.injEq])
  cases x <;> cases y <;> cases h <;>
    first
    | rfl
    | exact congrArg pure (hobjects _ _)

/-- A boolean compares with primitive values as its number does. -/
theorem primitiveEq_booleanNumber (b : Bool) (v : Value) :
    primitiveEq (.boolean b) v = primitiveEq (booleanNumber b) v ∧
      primitiveEq v (.boolean b) = primitiveEq v (booleanNumber b) := by
  cases v with
  | boolean c => cases b <;> cases c <;> decide
  | _ => exact ⟨rfl, rfl⟩

/-- What stands in the place of two values compares as they do, and leaves less to convert. -/
theorem looseEq_of_instead {x y x' y' : Value} (h : compareStep x y = .instead x' y') :
    looseEq x y = looseEq x' y' ∧ x'.conversions + y'.conversions < x.conversions + y.conversions ∧
      (x' = x ∨ x'.isObject = false) ∧ (y' = y ∨ y'.isObject = false) := by
  have hprimitive (b : Bool) : (booleanNumber b).isObject = false := rfl
  have hless (b : Bool) : (booleanNumber b).conversions < (Value.boolean b).conversions := Nat.zero_lt_one
  have hleft (b : Bool) (v : Value) : looseEq (.boolean b) v = looseEq (booleanNumber b) v := by
    cases v with
    | object o =>
      show (do return primitiveEq (.boolean b) (← toPrimitive (.object o) .default)) =
        do return primitiveEq (booleanNumber b) (← toPrimitive (.object o) .default)
      exact congrArg (toPrimitive (.object o) .default >>= ·)
        (funext fun p => congrArg pure (primitiveEq_booleanNumber b p).1)
    | _ => exact congrArg pure (primitiveEq_booleanNumber b _).1
  have hright (v : Value) (b : Bool) : looseEq v (.boolean b) = looseEq v (booleanNumber b) := by
    cases v with
    | object o =>
      show (do return primitiveEq (← toPrimitive (.object o) .default) (.boolean b)) =
        do return primitiveEq (← toPrimitive (.object o) .default) (booleanNumber b)
      exact congrArg (toPrimitive (.object o) .default >>= ·)
        (funext fun p => congrArg pure (primitiveEq_booleanNumber b p).2)
    | _ => exact congrArg pure (primitiveEq_booleanNumber b _).2
  cases x <;> cases y <;> cases h
  all_goals first
    | exact ⟨hleft _ _, Nat.add_lt_add_right (hless _) _, .inr (hprimitive _), .inl rfl⟩
    | exact ⟨hright _ _, Nat.add_lt_add_left (hless _) _, .inl rfl, .inr (hprimitive _)⟩

/-- An object whose primitive value is compared in its place. -/
theorem looseEq_of_left {x y : Value} (h : compareStep x y = .left) :
    x.isObject = true ∧ y.isObject = false ∧
      looseEq x y = do return primitiveEq (← toPrimitive x .default) y := by
  cases x <;> cases y <;> cases h <;> exact ⟨rfl, rfl, rfl⟩

theorem looseEq_of_right {x y : Value} (h : compareStep x y = .right) :
    x.isObject = false ∧ y.isObject = true ∧
      looseEq x y = do return primitiveEq x (← toPrimitive y .default) := by
  cases x <;> cases y <;> cases h <;> exact ⟨rfl, rfl, rfl⟩

/-! ## 3. All steps -/

section Gives

variable {α β : Type} {p : α → Prop}

theorem gives_holding {vs : List Value} {x : Run α} (hx : Gives p x) : Gives p (holding vs x) := by
  intro bodies m a m' hrun
  unfold holding at hrun
  cases hbody : x bodies { m with held := vs ++ m.held } with
  | ok b m₁ =>
    rw [hbody] at hrun
    cases hrun
    exact hx _ _ _ _ hbody
  | error e m₁ =>
    rw [hbody] at hrun
    cases hrun

/-- What comes after an operation need only agree on its results. -/
theorem Gives.bind_congr {x : Run α} {f g : α → Run β} (hx : Gives p x) (h : ∀ a, p a → f a = g a) :
    x >>= f = x >>= g := by
  funext bodies m
  cases hrun : x bodies m with
  | ok a m₁ => rw [bind_run_ok hrun, bind_run_ok hrun, h a (hx _ _ _ _ hrun)]
  | error e m₁ => rw [bind_run_error hrun, bind_run_error hrun]

end Gives

theorem gives_firstPrimitive (o : ObjectId) (names : List String) :
    Gives (fun v => v.isObject = false) (firstPrimitive o names) := by
  induction names with
  | nil => exact fun _ _ _ _ hrun => nomatch hrun
  | cons name rest ih =>
    refine gives_bind fun f => gives_bind fun heap => ?_
    split
    · refine gives_bind fun v => ?_
      split
      · exact ih
      · exact gives_pure ((Bool.not_eq_true _).mp ‹_›)
    · exact ih

/-- **The conversion to a primitive value never gives an object.** -/
theorem gives_toPrimitive (v : Value) (hint : Hint) : Gives (fun p => p.isObject = false) (toPrimitive v hint) := by
  cases v with
  | object o => exact gives_bind fun heap => gives_holding (gives_firstPrimitive o _)
  | _ => exact gives_pure rfl

namespace Value

theorem conversions_le (v : Value) : v.conversions ≤ 2 := by
  unfold conversions
  split <;> decide

theorem conversions_of_isObject {v : Value} (h : v.isObject = true) : v.conversions = 2 := by
  cases v <;> first | rfl | cases h

theorem conversions_lt_of_primitive {v : Value} (h : v.isObject = false) : v.conversions < 2 := by
  cases v with
  | object o => cases h
  | boolean b => exact Nat.one_lt_two
  | _ => exact Nat.two_pos

end Value

/-- **As many steps as there are conversions left**, and one more, are what the comparison does. -/
theorem compareUpTo_eq {n : Nat} {x y : Value} (h : x.conversions + y.conversions < n) :
    compareUpTo n x y = do return some (← looseEq x y) := by
  induction n generalizing x y with
  | zero => exact absurd h (Nat.not_lt_zero _)
  | succ n ih =>
    unfold compareUpTo
    cases hstep : compareStep x y with
    | answer equal =>
      rw [looseEq_of_answer hstep]
      rfl
    | instead x' y' =>
      obtain ⟨hsame, hless, -⟩ := looseEq_of_instead hstep
      rw [hsame]
      exact ih (by omega)
    | left =>
      obtain ⟨hx, hy, hsame⟩ := looseEq_of_left hstep
      rw [hsame, bind_assoc]
      refine (gives_toPrimitive x .default).bind_congr fun p hp => ?_
      have hless := Value.conversions_lt_of_primitive hp
      have htwo := Value.conversions_of_isObject hx
      rw [ih (by omega), looseEq_of_primitive hp hy, pure_bind]
    | right =>
      obtain ⟨hx, hy, hsame⟩ := looseEq_of_right hstep
      rw [hsame, bind_assoc]
      refine (gives_toPrimitive y .default).bind_congr fun p hp => ?_
      have hless := Value.conversions_lt_of_primitive hp
      have htwo := Value.conversions_of_isObject hy
      rw [ih (by omega), looseEq_of_primitive hx hp, pure_bind]

/-! ## 4. Conversions that always give the same -/

/-- What two values compare as if every object has a primitive value of its own. -/
inductive ComparesTo (primitive : Value → Value) : Value → Value → Bool → Prop where
  | answer {x y : Value} {equal : Bool} (step : compareStep x y = .answer equal) : ComparesTo primitive x y equal
  | instead {x y x' y' : Value} {equal : Bool} (step : compareStep x y = .instead x' y')
      (rest : ComparesTo primitive x' y' equal) : ComparesTo primitive x y equal
  | left {x y : Value} {equal : Bool} (step : compareStep x y = .left)
      (rest : ComparesTo primitive (primitive x) y equal) : ComparesTo primitive x y equal
  | right {x y : Value} {equal : Bool} (step : compareStep x y = .right)
      (rest : ComparesTo primitive x (primitive y) equal) : ComparesTo primitive x y equal

/-- Runs of an operation all give one value, and what held of the machine still does. -/
def AlwaysGives {α : Type} (bodies : Bodies) (S : Machine → Prop) (x : Run α) (a : α) : Prop :=
  ∀ m, S m → ∃ m', S m' ∧ x bodies m = .ok a m'

/-- If the value is an object, its conversion always gives the same, which is no object. -/
def Converts (bodies : Bodies) (S : Machine → Prop) (primitive : Value → Value) (v : Value) : Prop :=
  v.isObject = true → (primitive v).isObject = false ∧ AlwaysGives bodies S (toPrimitive v .default) (primitive v)

section Converts

variable {bodies : Bodies} {S : Machine → Prop} {primitive : Value → Value} {x y : Value} {equal : Bool}

theorem Converts.of_primitive (h : x.isObject = false) : Converts bodies S primitive x :=
  fun hobject => absurd (h.symm.trans hobject) Bool.false_ne_true

theorem Converts.of_instead {x' : Value} (hx : Converts bodies S primitive x) (h : x' = x ∨ x'.isObject = false) :
    Converts bodies S primitive x' := by
  rcases h with rfl | hprimitive
  · exact hx
  · exact .of_primitive hprimitive

theorem AlwaysGives.pure {α : Type} (a : α) : AlwaysGives bodies S (pure a) a := fun m hm => ⟨m, hm, rfl⟩

theorem AlwaysGives.bind {α β : Type} {u : Run α} {f : α → Run β} {a : α} {b : β} (hu : AlwaysGives bodies S u a)
    (hf : AlwaysGives bodies S (f a) b) : AlwaysGives bodies S (u >>= f) b := by
  intro m hm
  obtain ⟨m₁, hm₁, hrun⟩ := hu m hm
  obtain ⟨m₂, hm₂, hrest⟩ := hf m₁ hm₁
  exact ⟨m₂, hm₂, (bind_run_ok hrun _).trans hrest⟩

/-- **The comparison from the right is that from the left.** -/
theorem ComparesTo.swap (h : ComparesTo primitive x y equal) : ComparesTo primitive y x equal := by
  induction h with
  | answer step => exact .answer (by rw [compareStep_swap, step]; rfl)
  | instead step rest ih => exact .instead (by rw [compareStep_swap, step]; rfl) ih
  | left step rest ih => exact .right (by rw [compareStep_swap, step]; rfl) ih
  | right step rest ih => exact .left (by rw [compareStep_swap, step]; rfl) ih

/-- **The comparison ends.** -/
theorem ComparesTo.exists (hx : Converts bodies S primitive x) (hy : Converts bodies S primitive y) :
    ∃ equal, ComparesTo primitive x y equal := by
  induction hn : x.conversions + y.conversions using Nat.strongRecOn generalizing x y with
  | ind n ih =>
    cases hstep : compareStep x y with
    | answer equal => exact ⟨equal, .answer hstep⟩
    | instead x' y' =>
      obtain ⟨-, hless, hx', hy'⟩ := looseEq_of_instead hstep
      obtain ⟨equal, hrest⟩ := ih _ (hn ▸ hless) (hx.of_instead hx') (hy.of_instead hy') rfl
      exact ⟨equal, .instead hstep hrest⟩
    | left =>
      have hobject := (looseEq_of_left hstep).1
      have hprimitive := (hx hobject).1
      have htwo := Value.conversions_of_isObject hobject
      have hless := Value.conversions_lt_of_primitive hprimitive
      obtain ⟨equal, hrest⟩ := ih _ (by omega) (.of_primitive hprimitive) hy rfl
      exact ⟨equal, .left hstep hrest⟩
    | right =>
      have hobject := (looseEq_of_right hstep).2.1
      have hprimitive := (hy hobject).1
      have htwo := Value.conversions_of_isObject hobject
      have hless := Value.conversions_lt_of_primitive hprimitive
      obtain ⟨equal, hrest⟩ := ih _ (by omega) hx (.of_primitive hprimitive) rfl
      exact ⟨equal, .right hstep hrest⟩

/-- **What is run comes to what the steps come to.** -/
theorem ComparesTo.alwaysGives (h : ComparesTo primitive x y equal) (hx : Converts bodies S primitive x)
    (hy : Converts bodies S primitive y) : AlwaysGives bodies S (looseEq x y) equal := by
  induction h with
  | answer step =>
    rw [looseEq_of_answer step]
    exact .pure _
  | instead step rest ih =>
    obtain ⟨hsame, -, hx', hy'⟩ := looseEq_of_instead step
    rw [hsame]
    exact ih (hx.of_instead hx') (hy.of_instead hy')
  | left step rest ih =>
    obtain ⟨hobject, hother, hsame⟩ := looseEq_of_left step
    obtain ⟨hprimitive, hconverts⟩ := hx hobject
    rw [hsame]
    refine hconverts.bind ?_
    rw [← looseEq_of_primitive hprimitive hother]
    exact ih (.of_primitive hprimitive) hy
  | right step rest ih =>
    obtain ⟨hother, hobject, hsame⟩ := looseEq_of_right step
    obtain ⟨hprimitive, hconverts⟩ := hy hobject
    rw [hsame]
    refine hconverts.bind ?_
    rw [← looseEq_of_primitive hother hprimitive]
    exact ih hx (.of_primitive hprimitive)

end Converts

/-! ## 5. Equality -/

theorem looseEq_of_tag {x y : Value} (h : x.tag = y.tag) : looseEq x y = pure (x.strictEq y) :=
  looseEq_of_answer (if_pos h)

theorem looseEq_of_nullish {x : Value} (hx : x.isNullish = true) (y : Value) :
    looseEq x y = pure y.isNullish ∧ looseEq y x = pure y.isNullish := by
  cases x <;> cases hx <;> cases y <;> exact ⟨rfl, rfl⟩

/-- **Equality with conversions that always give the same**: it ends with an answer, which is the same from the other
side; between values of one type it is equality without conversion, and null and undefined are equal to each other and
to nothing else. What is run is the steps of the comparison, five at most. Equality without conversion and identity
differ only at not-a-number and at the two zeros. -/
theorem looseEq_exact {bodies : Bodies} {S : Machine → Prop} {primitive : Value → Value} {x y : Value}
    (hx : Converts bodies S primitive x) (hy : Converts bodies S primitive y) :
    (∃ equal, AlwaysGives bodies S (looseEq x y) equal ∧ AlwaysGives bodies S (looseEq y x) equal) ∧
      (x.tag = y.tag → looseEq x y = pure (x.strictEq y)) ∧
      (x.isNullish = true → looseEq x y = pure y.isNullish) ∧
      (y.isNullish = true → looseEq x y = pure x.isNullish) ∧
      (∀ n, 4 < n → compareUpTo n x y = do return some (← looseEq x y)) ∧
      (x.strictEq y ≠ x.same y ↔ x = .number .nan ∧ y = .number .nan ∨
        ∃ s, x = .number (.finite s .zero) ∧ y = .number (.finite (!s) .zero)) := by
  have hends : ∃ equal, AlwaysGives bodies S (looseEq x y) equal ∧ AlwaysGives bodies S (looseEq y x) equal := by
    obtain ⟨equal, hsteps⟩ := ComparesTo.exists hx hy
    exact ⟨equal, hsteps.alwaysGives hx hy, hsteps.swap.alwaysGives hy hx⟩
  have hfew (n : Nat) (hn : 4 < n) : compareUpTo n x y = do return some (← looseEq x y) :=
    compareUpTo_eq (Nat.lt_of_le_of_lt (Nat.add_le_add x.conversions_le y.conversions_le) hn)
  exact ⟨hends, looseEq_of_tag, fun h => (looseEq_of_nullish h y).1, fun h => (looseEq_of_nullish h x).2, hfew,
    Value.strictEq_ne_same_iff x y⟩

/-- A machine with a boolean object that has the method to convert it. -/
def wrappedMachine : Machine :=
  { Machine.start {} with
    heap := ((Heap.skeleton.add (nativeFunction "valueOf" (.boolean .valueOf) none 0)).1.add
      ((Object.ofKind "Boolean" (some Intrinsic.booleanPrototype.id) (.boolean true)).withProperty (.ofString "valueOf")
        (.hidden (.object 17)))).1 }

theorem toPrimitive_wrappedMachine :
    toPrimitive (.object 18) .default (bodiesAt 1) wrappedMachine = .ok (.boolean true) wrappedMachine := rfl

/-- The object with `true` inside is equal to `true`: a number is taken for `true`, then what is inside for the object,
and a number for that. -/
theorem looseEq_wrappedMachine :
    AlwaysGives (bodiesAt 1) (· = wrappedMachine) (looseEq (.boolean true) (.object 18)) true ∧
      compareUpTo 5 (.object 18) (.boolean true) (bodiesAt 1) wrappedMachine = .ok (some true) wrappedMachine := by
  have hobject : Converts (bodiesAt 1) (· = wrappedMachine) (fun _ => .boolean true) (.object 18) :=
    fun _ => ⟨rfl, fun m hm => ⟨m, hm, hm ▸ toPrimitive_wrappedMachine⟩⟩
  have hboolean : Converts (bodiesAt 1) (· = wrappedMachine) (fun _ => .boolean true) (.boolean true) :=
    .of_primitive rfl
  obtain ⟨⟨equal, hleft, hright⟩, -, -, -, hsteps, -⟩ := looseEq_exact hobject hboolean
  have hrun : looseEq (.object 18) (.boolean true) (bodiesAt 1) wrappedMachine = .ok true wrappedMachine := rfl
  obtain ⟨m, rfl, hequal⟩ := hleft wrappedMachine rfl
  obtain rfl : true = equal := (EStateM.Result.ok.inj (hrun.symm.trans hequal)).1
  refine ⟨hright, ?_⟩
  rw [hsteps 5 (by decide), bind_run_ok hrun]
  rfl

end Ecma51
