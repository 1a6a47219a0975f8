import Ecma51.Calendar.Format
import Ecma51.Proofs.Lifetime
import Ecma51.Proofs.RoundedFields

/-!
# Times, fields and dates

Programs keep times as the library does, and a machine starts with one date that is none. So in every machine that
arises, whatever is done with it, each date has a time value. What was shown of the calendar on integers holds of
these times: they are taken apart into fields in their ranges, which compose to the times again, and every date with a
time of day is such a time. The times that come up are those of dates, and a day beyond them for local time.

* **`Composed.keepsTimes`**, **`bodiesAt_keepTimes`**: programs, and the functions of every level.
* `Heap.HoldsTimes`, **`Machine.Reachable.holdsTimes`**: each date has a time value, in every machine that arises.
* `Calendar.FieldsOf`: all that is known of the fields of an instant.
* **`Calendar.fieldsOf_near`**, **`Calendar.composes_near`**: times to fields and back, dates to times and back.
* **`calendar_exact`**: both, and the times of all dates in machines that arise.
-/

namespace Ecma51

/-! ## 1. Calls on pushed arguments -/

section Calls

variable {bodies : Bodies}

theorem keepsTimes_takeArguments (argc : Nat) : Relates Machine.KeepsTimes bodies (takeArguments argc) :=
  fun _ => .same rfl

theorem keepsTimes_linkParameters (arguments : Value) (names : List Text) (i : Nat) :
    Relates Machine.KeepsTimes bodies (linkParameters arguments names i) := by
  have hlink (o : ObjectId) (i : Nat) (name : Text) :
      Relates Machine.KeepsTimes bodies (linkParameter (.object o) i name) := by
    intro m
    unfold linkParameter
    rw [getHeap_bind_run]
    dsimp only
    cases ha : m.heap.argumentsOf? o with
    | none => exact .refl m
    | some a =>
      dsimp only
      split
      · exact m.heap.keepsTimes_link (Heap.kind_of_argumentsOf? ha) _
      · exact .refl m
  induction names generalizing i with
  | nil => exact .pure _
  | cons name names ih =>
    refine .bind ?_ fun _ => ih (i + 1)
    cases arguments with
    | object o => exact hlink o i name
    | _ => exact fun m => .refl m

variable (hb : bodies.KeepTimes)

include hb

theorem keepsTimes_callPushed (f : ObjectId) (this : Value) (argc : Nat) :
    Relates Machine.KeepsTimes bodies (callPushed f this argc) := by
  refine .bind keepsTimes_getHeap fun h => ?_
  split
  · exact keepsTimes_enterCompiled hb f this argc _ _ _ _
  · exact .bind (keepsTimes_takeArguments argc) fun args => keepsTimes_call hb f this args

theorem keepsTimes_invokePushed (f this : Value) (argc : Nat) (namesEval : Bool) :
    Relates Machine.KeepsTimes bodies (invokePushed f this argc namesEval) := by
  have hrefused : Relates Machine.KeepsTimes bodies (do freeSlots argc; raise .notAFunction : Run Value) :=
    .bind (keepsTimes_modify fun _ => rfl) fun _ => .throw _
  refine .bind keepsTimes_getHeap fun h => ?_
  cases f with
  | object o =>
    dsimp only
    split
    · split
      · exact .bind (keepsTimes_modify fun _ => rfl) fun _ => keepsTimes_callPushed hb o this argc
      · exact keepsTimes_callPushed hb o this argc
    · exact hrefused
  | _ => exact hrefused

theorem PushedCall.keepsTimes (c : PushedCall) (argc : Nat) : Relates Machine.KeepsTimes bodies (c.run argc) := by
  have hfound {find : Run Callee} (hfind : Built find) : Relates Machine.KeepsTimes bodies (callFound find argc) :=
    .bind (keepsTimes_orDiscard (hfind.keepsTimes hb) argc) fun c =>
      keepsTimes_invokePushed hb c.function c.this argc c.namesEval
  cases c with
  | function f this => exact keepsTimes_callPushed hb f this argc
  | value f => exact keepsTimes_invokePushed hb f .undefined argc false
  | member target k => exact hfound (built_findKeyed target (.pure k))
  | rawMember target raw => exact hfound (built_findKeyed target (built_rawKey raw))
  | element target key => exact hfound (built_findKeyed target (built_toKey key))
  | identifier name => exact hfound (built_findNamed name)
  | construct f =>
    exact .bind (keepsTimes_takeArguments argc) fun args => (built_constructWith f args).keepsTimes hb

/-! ## 2. Programs -/

/-- **Whatever is composed of well-understood parts keeps times.** -/
theorem Composed.keepsTimes {α : Type} {bound : ObjectId} {x : Run α} (h : Composed bound x) :
    Relates Machine.KeepsTimes bodies x := by
  induction h with
  | built hx => exact hx.keepsTimes hb
  | bind _ _ hx hf => exact .bind hx hf
  | tryCatch _ _ hx hf => exact .tryCatch hx hf
  | holding vs _ hx => exact keepsTimes_holding hx vs
  | aside f _ _ hf => exact hf
  | setStrict strict => exact keepsTimes_modify fun _ => rfl
  | inContext c _ hx =>
    rw [run_inContext]
    exact .bind (keepsTimes_modify fun _ => rfl) fun _ => .bind hx fun _ =>
      .bind (keepsTimes_modify fun _ => rfl) fun _ => .pure _
  | pushedCall c args => exact .bind (keepsTimes_modify fun _ => rfl) fun _ => c.keepsTimes hb _
  | shareArguments frame names =>
    exact .bind ((built_bindArguments frame).keepsTimes hb) fun _ => keepsTimes_linkParameters _ names 0

end Calls

/-- **The functions of every level keep times.** -/
theorem bodiesAt_keepTimes (n : Nat) : (bodiesAt n).KeepTimes := by
  induction n with
  | zero => exact ⟨fun _ _ _ _ => .same rfl, fun _ _ m => .refl m⟩
  | succ n ih =>
    have hcode (code : Code) (frame : Frame) : Composed 0 (code.run frame) := composed_run code frame
    exact ⟨fun b this args => (built_run b this args).keepsTimes ih,
      fun code frame => (hcode code frame).keepsTimes ih⟩

/-! ## 3. Machines that arise -/

/-- Each date has a time value. -/
def Heap.HoldsTimes (h : Heap) : Prop := ∀ o, (h.object o).HoldsTime

theorem Heap.KeepsTimes.holdsTimes {h h' : Heap} (hkeeps : h.KeepsTimes h') (hh : h.HoldsTimes) : h'.HoldsTimes :=
  fun o t hkind => (hkeeps o t hkind).elim (hh o t) id

theorem holdsTime_skeleton (i : Intrinsic) : i.skeleton.HoldsTime := by
  cases i with
  | datePrototype => exact holdsTime_date Double.isTime_nan _ _
  | errorPrototype kind => cases kind <;> exact Object.holdsTime_of_isDate rfl
  | _ => exact Object.holdsTime_of_isDate rfl

theorem keepsTimes_skeleton : Heap.empty.KeepsTimes Heap.skeleton := by
  have hall : ∀ (is : List Intrinsic) (h : Heap),
      h.KeepsTimes (is.foldl (fun h i => (h.add i.skeleton).1) h) := by
    intro is
    induction is with
    | nil => exact fun h => .refl h
    | cons i is ih => exact fun h => (h.keepsTimes_add (holdsTime_skeleton i)).trans (ih _)
  refine (hall Intrinsic.all Heap.empty).trans ?_
  exact (Heap.keepsTimes_add _ (holdsTime_ofKind rfl)).trans (.of_objects rfl)

theorem holdsTimes_empty : Heap.empty.HoldsTimes := fun _ => Object.holdsTime_of_isDate rfl

/-- **In every machine that arises, each date has a time value**: whole milliseconds within the range, or none. -/
theorem Machine.Reachable.holdsTimes {m : Machine} (hm : m.Reachable) : m.heap.HoldsTimes := by
  induction hm with
  | start s => exact keepsTimes_skeleton.holdsTimes holdsTimes_empty
  | @act m a _ ih =>
    have hkeeps := (composed_action a).keepsTimes (bodiesAt_keepTimes (levelsFor m.maxCallDepth)) m
    exact Heap.KeepsTimes.holdsTimes hkeeps ih
  | @collect m _ ih => exact (m.heap.keepsTimes_collect _ _).holdsTimes ih
  | aside _ hheap ih =>
    rw [hheap]
    exact ih

open Double

namespace Calendar

/-! ## 4. From times to fields -/

/-- The fields of the time of an instant are in their ranges, by arithmetic on doubles as by arithmetic on integers, and
lookups with them find something. -/
structure FieldsOf (t : Int) : Prop where
  /-- One year holds the day. -/
  year : ∀ y, InYear t y ↔ y = yearFromTime t
  /-- The two loops end in this year, whatever the guess. -/
  loops : ∀ e, YearLoops t e (yearFromTime t)
  /-- So do they on doubles, as soon as they may take as many turns as the guess is years off. -/
  turns : ∀ e, NearYear e → ∀ n : Nat, (e - yearFromTime t).natAbs ≤ n →
    Rounded.correctUp (ofInt t) n (Rounded.correctDown (ofInt t) n (ofInt e)) = ofInt (yearFromTime t)
  /-- A month from zero to eleven, and a day from one to the length of the month in the year. -/
  date : IsDate (yearFromTime t) (monthFromTime t) (dateFromTime t)
  clock : IsClock (hourFromTime t) (minuteFromTime t) (secondFromTime t) (msFromTime t)
  weekDay : 0 ≤ weekDay t ∧ weekDay t < 7
  /-- There is a name for the month and one for the day of the week. -/
  names : monthFromTime t < monthNames.length ∧ (Calendar.weekDay t).toNat < weekDayNames.length
  /-- Fields that programs see are these, and rounding changes none of them. -/
  value : ∀ f : Field, Denotes (f.value (ofInt t)) (f.number t) ∧ f.rounded (ofInt t) = f.value (ofInt t)
  weekDayValue : Denotes (weekDayValue (ofInt t)) (Calendar.weekDay t) ∧
    Rounded.weekDay (ofInt t) = weekDayValue (ofInt t)

theorem fieldsOf_near {t : Int} (ht : NearYear (yearFromTime t)) : FieldsOf t where
  year y := ⟨fun h => ((yearFromTime_eq_iff t y).mpr h).symm, fun h => (yearFromTime_eq_iff t y).mp h.symm⟩
  loops := yearLoops_yearFromTime t
  turns e he n hn := by
    unfold NearYear at he
    exact Rounded.correct_ofInt ht (by omega) hn
  date := isDate_fields t
  clock := isClock_fields t
  weekDay := weekDay_bounds t
  names := by
    obtain ⟨hfirst, hlast⟩ := weekDay_bounds t
    refine ⟨(isDate_fields t).month_lt, ?_⟩
    show (Calendar.weekDay t).toNat < 7
    omega
  value f := by
    rw [rounded_eq_at ht, value_of_denotes (denotes_ofInt t) ht.lt]
    exact ⟨denotes_at t f, rfl⟩
  weekDayValue := by
    have hvalue : weekDayValue (ofInt t) = remainderOf (day t + 4) (Calendar.weekDay t) := by
      unfold weekDayValue
      rw [instant?_of_denotes (denotes_ofInt t) ht.lt]
    rw [rounded_weekDay ht, hvalue]
    exact ⟨denotes_remainderOf _ _, rfl⟩

/-! ## 5. From fields to times -/

/-- The date and the time of day compose to their instant, which has them as its fields. -/
theorem composes_near {year : Int} {month : Nat} {date hour minute second ms : Int} (hnear : NearYear year)
    (hdate : IsDate year month date) (hclock : IsClock hour minute second ms) :
    ∃ t : Int, makeDate (makeDay (ofInt year) (ofNat month) (ofInt date))
        (makeTime (ofInt hour) (ofInt minute) (ofInt second) (ofInt ms)) = ofInt t ∧
      HasFields t year month date hour minute second ms ∧ FieldsOf t := by
  have hfields := fields_instantOf hdate hclock
  refine ⟨instantOf year month date hour minute second ms, ?_, hfields, fieldsOf_near ?_⟩
  · exact makeDate_exact (denotes_ofInt year) (denotes_ofNat month) (denotes_ofInt date) (denotes_ofInt hour)
      (denotes_ofInt minute) (denotes_ofInt second) (denotes_ofInt ms) hnear hdate hclock
  · rw [hfields.year]
    exact hnear

end Calendar

/-! ## 6. The calendar -/

open Calendar in
/-- **The calendar is exact.** The times of dates, and those up to a day beyond them, have fields in their ranges that
compose to them; the dates from the first to the last year of these times, with a time of day, compose to times with
these fields; and in every machine that arises, the time of each date is one of these within the range, or none. -/
theorem calendar_exact :
    (∀ t : Int, NearTime t → FieldsOf t ∧
      makeDate (makeDay (Field.year.value (ofInt t)) (Field.month.value (ofInt t)) (Field.date.value (ofInt t)))
        (makeTime (Field.hour.value (ofInt t)) (Field.minute.value (ofInt t)) (Field.second.value (ofInt t))
          (Field.millisecond.value (ofInt t))) = ofInt t) ∧
    (∀ (year : Int) (month : Nat) (date hour minute second ms : Int), -271821 ≤ year → year ≤ 275760 →
      IsDate year month date → IsClock hour minute second ms →
      ∃ t : Int, makeDate (makeDay (ofInt year) (ofNat month) (ofInt date))
          (makeTime (ofInt hour) (ofInt minute) (ofInt second) (ofInt ms)) = ofInt t ∧
        HasFields t year month date hour minute second ms ∧ FieldsOf t) ∧
    ∀ m : Machine, m.Reachable → ∀ (o : ObjectId) (x : Double), (m.heap.object o).kind = .date x →
      x = .nan ∨ ∃ i : Int, i.natAbs ≤ 8640000000000000 ∧ x = ofInt i := by
  refine ⟨fun t ht => ⟨fieldsOf_near ht.nearYear, composeFields_fields ht⟩, ?_, fun m hm o x => hm.holdsTimes o x⟩
  intro year month date hour minute second ms hfirst hlast hdate hclock
  refine composes_near ?_ hdate hclock
  unfold NearYear
  omega

/-- A machine in which a date was made: the second day of 1970. -/
def secondDayMachine : Machine :=
  endOf ((Action.native (.date .construct) .undefined [.ofNat 86400000]).run.perform (.start {}))

set_option maxRecDepth 4000 in
theorem kind_secondDayMachine :
    (secondDayMachine.heap.object Heap.skeleton.nextObject).kind = .date (ofInt 86400000) := by rfl

open Calendar in
/-- The last millisecond of 1969, the first day of all dates, and a date object. -/
theorem calendar_exact_early :
    (NearTime (-1) ∧ yearFromTime (-1) = 1969 ∧ FieldsOf (-1) ∧
      makeDate (makeDay (Field.year.value (ofInt (-1))) (Field.month.value (ofInt (-1))) (Field.date.value (ofInt (-1))))
        (makeTime (Field.hour.value (ofInt (-1))) (Field.minute.value (ofInt (-1))) (Field.second.value (ofInt (-1)))
          (Field.millisecond.value (ofInt (-1)))) = ofInt (-1)) ∧
    (IsDate (-271821) 3 20 ∧ IsClock 0 0 0 0 ∧
      ∃ t : Int, makeDate (makeDay (ofInt (-271821)) (ofNat 3) (ofInt 20))
          (makeTime (ofInt 0) (ofInt 0) (ofInt 0) (ofInt 0)) = ofInt t ∧
        HasFields t (-271821) 3 20 0 0 0 0 ∧ FieldsOf t) ∧
    secondDayMachine.Reachable ∧
    (secondDayMachine.heap.object Heap.skeleton.nextObject).kind = .date (ofInt 86400000) ∧
    (ofInt 86400000 = .nan ∨ ∃ i : Int, i.natAbs ≤ 8640000000000000 ∧ ofInt 86400000 = ofInt i) := by
  have hnear : NearTime (-1) := by
    unfold NearTime
    decide
  have hyear : yearFromTime (-1) = 1969 := (yearFromTime_eq_iff _ _).mpr ⟨by decide, by decide⟩
  have hdate : IsDate (-271821) 3 20 := ⟨by decide, by decide, by decide⟩
  have hclock : IsClock 0 0 0 0 := ⟨by decide, by decide, by decide, by decide⟩
  have hreachable : secondDayMachine.Reachable := .act _ (.start {})
  obtain ⟨htimes, hdates, hheld⟩ := calendar_exact
  exact ⟨⟨hnear, hyear, htimes (-1) hnear⟩,
    ⟨hdate, hclock, hdates (-271821) 3 20 0 0 0 0 (by decide) (by decide) hdate hclock⟩,
    hreachable, kind_secondDayMachine, hheld _ hreachable _ _ kind_secondDayMachine⟩

end Ecma51
