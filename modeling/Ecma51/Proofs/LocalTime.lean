import Ecma51.Library
import Ecma51.Realm
import Ecma51.Proofs.Settling
import Ecma51.Proofs.TimeComposition

/-!
# Local time and back

World time is found back from local time by asking the zone for its offset at a local time, as if that were an
instant. This works wherever the zone answers; where it does not, world time is taken to be the local time itself.

* `Calendar.shiftAt`: the offset that is applied at an instant.
* **`Calendar.universalTime_localTime`**: the way there and back, and where it does not lead back.
* `Calendar.replaceFields_same`: the fields of a local time set to what they are.
* **`localTime_exact`**: the same of the methods that set fields.
-/

namespace Ecma51

open Double

namespace Calendar

/-! ## 1. The offset that is applied -/

/-- Wherever the zone reports an offset, it is this one, in milliseconds, and less than a day. -/
structure HasOffset (zone : ZoneReport) (offset : Int) : Prop where
  lt : offset.natAbs < 86400000
  same : ∀ t d, zone t = some d → d = offset

/-- The offset that is applied at an instant. -/
def shiftAt (zone : ZoneReport) (t : Int) : Int :=
  if t.natAbs ≤ 8640000000000000 then (zone t).getD 0 else 0

variable {zone : ZoneReport} {offset t : Int} {x : Double}

theorem offsetAt_of_denotes (hx : Denotes x t) (ht : t.natAbs < 2 ^ 53) : offsetAt zone x = shiftAt zone t := by
  have hpast : Double.lt maxTime x.abs = decide (8640000000000000 < t.natAbs) := by
    rw [hx.abs]
    exact ofNat_lt_ofNat (by decide) (Nat.le_of_lt ht)
  unfold offsetAt shiftAt
  rw [hx.isFinite ht, hpast, hx.truncInt ht, Bool.not_true, Bool.false_or]
  by_cases hle : t.natAbs ≤ 8640000000000000
  · rw [decide_eq_false (Nat.not_lt.mpr hle), if_neg Bool.false_ne_true, if_pos hle]
  · rw [decide_eq_true (Nat.lt_of_not_le hle), if_pos rfl, if_neg hle]

/-- The offset is applied or it is not. -/
theorem HasOffset.shiftAt_cases (h : HasOffset zone offset) (t : Int) :
    shiftAt zone t = 0 ∨ shiftAt zone t = offset := by
  unfold shiftAt
  split
  · cases hreport : zone t with
    | none => exact .inl rfl
    | some d => exact .inr (h.same t d hreport)
  · exact .inl rfl

theorem HasOffset.shiftAt_lt (h : HasOffset zone offset) (t : Int) : (shiftAt zone t).natAbs < 86400000 := by
  have := h.lt
  rcases h.shiftAt_cases t with hshift | hshift <;> rw [hshift] <;> omega

/-! ## 2. There and back -/

/-- **The local time of an instant.** -/
theorem HasOffset.localTime_ofInt (h : HasOffset zone offset) (ht : NearTime t) :
    localTime zone (ofInt t) = ofInt (t + shiftAt zone t) := by
  have hshift := h.shiftAt_lt t
  unfold NearTime at ht
  unfold localTime
  rw [offsetAt_of_denotes (denotes_ofInt t) (by omega)]
  exact ofInt_add (denotes_ofInt _) (by omega) (by omega) (by omega)

/-- **The instant that a local time is taken for.** -/
theorem HasOffset.universalTime_ofInt (h : HasOffset zone offset) (ht : NearTime t) :
    universalTime zone (ofInt t) = ofInt (t - shiftAt zone (t - shiftAt zone t)) := by
  have hshift := h.shiftAt_lt t
  have hshift' := h.shiftAt_lt (t - shiftAt zone t)
  unfold NearTime at ht
  have hguess : ofInt t - ofInt (shiftAt zone t) = ofInt (t - shiftAt zone t) :=
    ofInt_sub (denotes_ofInt _) (by omega) (by omega) (by omega)
  unfold universalTime
  rw [offsetAt_of_denotes (denotes_ofInt t) (by omega), hguess, offsetAt_of_denotes (denotes_ofInt _) (by omega)]
  exact ofInt_sub (denotes_ofInt _) (by omega) (by omega) (by omega)

/-- The offset is applied at the instant, but not at what its local time would be as an instant. -/
def Slips (zone : ZoneReport) (t : Int) : Prop := shiftAt zone t ≠ 0 ∧ shiftAt zone (t + shiftAt zone t) = 0

instance : Decidable (Slips zone t) := inferInstanceAs (Decidable (_ ∧ _))

/-- **From world time to local time and back**: this is the instant itself, unless the zone does not answer at the
local time. Then it is the local time. -/
theorem universalTime_localTime (h : HasOffset zone offset) (ht : t.natAbs ≤ 8640000000000000) :
    universalTime zone (localTime zone (ofInt t)) = if Slips zone t then localTime zone (ofInt t) else ofInt t := by
  have hshift := h.shiftAt_lt t
  have hnear : NearTime t := by
    unfold NearTime
    omega
  have hnear' : NearTime (t + shiftAt zone t) := by
    unfold NearTime
    omega
  rw [h.localTime_ofInt hnear, h.universalTime_ofInt hnear']
  rcases h.shiftAt_cases (t + shiftAt zone t) with hnone | hsome
  · rw [hnone, Int.sub_zero, hnone, Int.sub_zero]
    split
    · rfl
    · rename_i hslips
      have hzero : shiftAt zone t = 0 := by_contra fun hne => hslips ⟨hne, hnone⟩
      rw [hzero, Int.add_zero]
  · rcases h.shiftAt_cases t with hzero | hsome'
    · have hnot : ¬ Slips zone t := fun hslips => hslips.1 hzero
      rw [if_neg hnot, hzero, Int.add_zero, hzero, Int.sub_zero, hzero, Int.sub_zero]
    · have hback : t + shiftAt zone t - shiftAt zone (t + shiftAt zone t) = t := by omega
      have hnot : ¬ Slips zone t := by
        rintro ⟨hne, hzero⟩
        omega
      rw [hback, Int.add_sub_cancel, if_neg hnot]

/-- A zone that answers everywhere is not asked past the range of time values. -/
theorem slips_iff (hall : ∀ s, s.natAbs ≤ 8640000000000000 → zone s = some offset)
    (ht : t.natAbs ≤ 8640000000000000) :
    Slips zone t ↔ offset ≠ 0 ∧ 8640000000000000 < (t + offset).natAbs := by
  have hshift : shiftAt zone t = offset := by
    unfold shiftAt
    rw [if_pos ht, hall t ht]
    rfl
  unfold Slips
  rw [hshift]
  refine and_congr_right fun hne => ?_
  unfold shiftAt
  by_cases hle : (t + offset).natAbs ≤ 8640000000000000
  · rw [if_pos hle, hall _ hle]
    exact ⟨fun hzero => absurd hzero hne, fun hlt => absurd hle (Nat.not_le.mpr hlt)⟩
  · rw [if_neg hle]
    exact ⟨fun _ => Nat.lt_of_not_le hle, fun _ => rfl⟩

/-! ## 3. Setting fields -/

/-- Values that stand in a list can be put into their places again. -/
theorem take_append_slice_append_drop {α : Type} (l : List α) (n k : Nat) :
    l.take n ++ (l.drop n).take k ++ l.drop (n + ((l.drop n).take k).length) = l := by
  have hrest : l.drop (n + ((l.drop n).take k).length) = (l.drop n).drop k := by
    rw [List.drop_drop, List.length_take, List.length_drop]
    rcases Nat.le_total k (l.length - n) with hle | hge
    · rw [Nat.min_eq_left hle]
    · rw [Nat.min_eq_right hge, List.drop_eq_nil_of_le (by omega), List.drop_eq_nil_of_le (by omega)]
  rw [hrest, List.append_assoc, List.take_append_drop, List.take_append_drop]

/-- **The fields of a local time set to what they are** leave the time value, or put the local time in its place. -/
theorem replaceFields_same (h : HasOffset zone offset) (ht : t.natAbs ≤ 8640000000000000) (first k : Nat) :
    replaceFields zone true (ofInt t) first
        (((Field.all.map (·.value (localTime zone (ofInt t)))).drop first).take k) =
      if Slips zone t then timeClip (localTime zone (ofInt t)) else ofInt t := by
  have hshift := h.shiftAt_lt t
  have hnear : NearTime (t + shiftAt zone t) := by
    unfold NearTime
    omega
  have hlocal : localTime zone (ofInt t) = ofInt (t + shiftAt zone t) := by
    refine h.localTime_ofInt ?_
    unfold NearTime
    omega
  have hnan : (ofInt t).isNaN = false := (denotes_ofInt t).isNaN (by omega)
  unfold replaceFields inZone
  rw [hnan, Bool.false_and, if_neg Bool.false_ne_true]
  dsimp only
  rw [if_neg Bool.false_ne_true, if_pos rfl, if_pos rfl, take_append_slice_append_drop, hlocal,
    composeFields_fields hnear, ← hlocal, universalTime_localTime h ht]
  split
  · rfl
  · exact timeClip_ofInt ht

/-- A zone of a fixed number of minutes has this offset as far as it knows it. -/
theorem hasOffset_report {fixed : Zone} (h : fixed.minutes.natAbs < 1440) :
    HasOffset fixed.report (fixed.minutes * msPerMinute) := by
  refine ⟨?_, fun t d hreport => ?_⟩
  · unfold msPerMinute
    omega
  · unfold Zone.report at hreport
    split at hreport
    · exact (Option.some.inj hreport).symm
    · cases hreport

end Calendar

/-! ## 4. The methods -/

open Calendar

/-- The fields in the order in which a method takes them. -/
def DateField.inOrder : List DateField := [.fullYear, .month, .date, .hours, .minutes, .seconds, .milliseconds]

section Methods

variable {m : Machine} {o : ObjectId} {t : Double}

/-- The machine with another time value in a date object. -/
def Machine.withTime (m : Machine) (o : ObjectId) (t : Double) : Machine :=
  { m with heap := m.heap.modify o fun x => { x with kind := .date t } }

theorem thisTime_run (bodies : Bodies) (hkind : (m.heap.object o).kind = .date t) (f : DateFunction) :
    thisTime (.object o) f bodies m = .ok (o, t) m := by
  unfold thisTime
  dsimp only
  rw [getHeap_bind_run, hkind]
  rfl

/-- A getter gives the field of the local time. -/
theorem getField_run (bodies : Bodies) (hkind : (m.heap.object o).kind = .date t) (hnan : t.isNaN = false)
    (field : DateField) (args : List Value) : dateFunction (.getField field true) (.object o) args bodies m =
      .ok (.number (field.read (localTime m.zone t))) m := by
  refine (bind_run_ok (thisTime_run bodies hkind _) _).trans ?_
  show EStateM.Result.ok (Value.number (if t.isNaN then _ else _)) m = _
  rw [hnan]
  rfl

/-- A setter stores the time value that the given fields make of the one before. -/
theorem setField_run (bodies : Bodies) (hkind : (m.heap.object o).kind = .date t) (field : DateField) (isLocal : Bool)
    {xs : List Double} (hone : 1 ≤ xs.length) (hmost : xs.length ≤ field.span.2) :
    dateFunction (.setField field isLocal) (.object o) (xs.map .number) bodies m =
      .ok (.number (replaceFields m.zone isLocal t field.span.1 xs))
        (m.withTime o (replaceFields m.zone isLocal t field.span.1 xs)) := by
  have hargs : (List.range (min (max (xs.map Value.number).length 1) field.span.2)).map
      (argumentAt (xs.map .number)) = xs.map Value.number := by
    have hcount : min (max (xs.map Value.number).length 1) field.span.2 = (xs.map Value.number).length := by
      rw [List.length_map, Nat.max_eq_left hone, Nat.min_eq_left hmost]
    rw [hcount]
    refine List.ext_getElem (by rw [List.length_map, List.length_range]) fun i hi hi' => ?_
    rw [List.getElem_map, List.getElem_range]
    exact (List.getElem_eq_getD _).symm
  have hvalues : (xs.map Value.number).mapM toNumber bodies m = .ok xs m := by
    have hrun : (xs.map Value.number).mapM toNumber bodies m =
        .ok ((xs.map Value.number).map primitiveNumber) m := by
      refine mapM_run_ok fun v hv => toNumber_run ?_
      obtain ⟨x, _, rfl⟩ := List.mem_map.mp hv
      rfl
    rw [hrun, List.map_map]
    exact congrArg (EStateM.Result.ok · m) (List.map_id xs)
  have hnext : withFields field isLocal (xs.map .number) t bodies m =
      .ok (replaceFields m.zone isLocal t field.span.1 xs) m := by
    show (do
      let values ← ((List.range (min (max (xs.map Value.number).length 1) field.span.2)).map
        (argumentAt (xs.map .number))).mapM toNumber
      return replaceFields (← get).zone isLocal t field.span.1 values : Run Double) bodies m = _
    rw [hargs, bind_run_ok hvalues]
    rfl
  show updateTime (.object o) (.setField field isLocal) (withFields field isLocal (xs.map .number)) bodies m = _
  unfold updateTime
  rw [bind_run_ok (thisTime_run bodies hkind _)]
  dsimp only
  rw [bind_run_ok hnext]
  rfl

/-- **A setter of the local time that is given what the getters give** stores the time value again, or the clipped
local time in its place. -/
theorem setField_same {zone : ZoneReport} {offset i : Int} (hzone : HasOffset zone offset)
    (hi : i.natAbs ≤ 8640000000000000) (bodies : Bodies) (hreport : m.zone.report = zone)
    (hkind : (m.heap.object o).kind = .date (.ofInt i)) (field : DateField) {k : Nat} (hone : 1 ≤ k)
    (hmost : k ≤ field.span.2) :
    dateFunction (.setField field true) (.object o)
        (((DateField.inOrder.drop field.span.1).take k).map fun f => .number (f.read (localTime zone (.ofInt i))))
        bodies m =
      .ok (.number (if Slips zone i then timeClip (localTime zone (.ofInt i)) else .ofInt i))
        (m.withTime o (if Slips zone i then timeClip (localTime zone (.ofInt i)) else .ofInt i)) := by
  have hspan : field.span.2 ≤ 7 - field.span.1 := by cases field <;> decide
  have hread : DateField.inOrder.map (·.read (localTime zone (.ofInt i))) =
      Field.all.map (·.value (localTime zone (.ofInt i))) := rfl
  have hvalues : ((DateField.inOrder.drop field.span.1).take k).map (fun f => f.read (localTime zone (.ofInt i))) =
      ((Field.all.map (·.value (localTime zone (.ofInt i)))).drop field.span.1).take k := by
    rw [← hread, List.map_take, List.map_drop]
  have hlength : (((Field.all.map (·.value (localTime zone (.ofInt i)))).drop field.span.1).take k).length = k := by
    rw [List.length_take, List.length_drop, List.length_map]
    exact Nat.min_eq_left (Nat.le_trans hmost hspan)
  have hrun := setField_run bodies hkind field true (hlength.symm ▸ hone) (hlength.symm ▸ hmost)
  rw [hreport, replaceFields_same hzone hi, ← hvalues, List.map_map] at hrun
  exact hrun

end Methods

/-- **Local time and back, and the methods that set fields of the local time.** In a zone with a fixed offset of
less than a day the instant of a local time is found again, unless the offset is applied at the instant and not at
its local time; then the local time is taken for the instant. In a zone that answers everywhere this concerns the
instants whose local time is past the range of time values. A method that sets fields to what the getters give of
them leaves the time value, or puts the clipped local time in its place. -/
theorem localTime_exact {zone : ZoneReport} {offset t : Int} (hzone : HasOffset zone offset)
    (ht : t.natAbs ≤ 8640000000000000) :
    universalTime zone (localTime zone (.ofInt t)) =
        (if Slips zone t then localTime zone (.ofInt t) else .ofInt t) ∧
    (Slips zone t → localTime zone (.ofInt t) = .ofInt (t + offset) ∧ offset ≠ 0) ∧
    ((∀ s, s.natAbs ≤ 8640000000000000 → zone s = some offset) →
      (Slips zone t ↔ offset ≠ 0 ∧ 8640000000000000 < (t + offset).natAbs)) ∧
    (∀ first k, replaceFields zone true (.ofInt t) first
        (((Field.all.map (·.value (localTime zone (.ofInt t)))).drop first).take k) =
      if Slips zone t then timeClip (localTime zone (.ofInt t)) else .ofInt t) ∧
    ∀ (bodies : Bodies) (m : Machine) (o : ObjectId), m.zone.report = zone →
      (m.heap.object o).kind = .date (.ofInt t) →
      let current := if Slips zone t then timeClip (localTime zone (.ofInt t)) else .ofInt t
      let given (f : DateField) : Value := .number (f.read (localTime zone (.ofInt t)))
      (∀ field args, dateFunction (.getField field true) (.object o) args bodies m = .ok (given field) m) ∧
      ∀ (field : DateField) (k : Nat), 1 ≤ k → k ≤ field.span.2 →
        dateFunction (.setField field true) (.object o) (((DateField.inOrder.drop field.span.1).take k).map given)
          bodies m = .ok (.number current) (m.withTime o current) := by
  have hnan : (Double.ofInt t).isNaN = false := (denotes_ofInt t).isNaN (by omega)
  refine ⟨universalTime_localTime hzone ht, fun hslips => ?_, fun hall => slips_iff hall ht,
    replaceFields_same hzone ht,
    fun bodies m o hreport hkind => ⟨fun field args => ?_, fun field k hone hmost => ?_⟩⟩
  · have hshift := (hzone.shiftAt_cases t).resolve_left hslips.1
    have hnear : NearTime t := Nat.le_trans ht (by decide)
    exact ⟨hshift ▸ hzone.localTime_ofInt hnear, hshift ▸ hslips.1⟩
  · rw [← hreport]
    exact getField_run bodies hkind hnan field args
  · exact setField_same hzone ht bodies hreport hkind field hone hmost

/-- A machine an hour east of world time, with a date as its only object. -/
def datedMachine (t : Int) : Machine :=
  { Machine.start {} with
    heap := (Heap.empty.add (.ofKind "Date" none (.date (.ofInt t)))).1
    zone := ⟨60⟩ }

theorem kind_datedMachine (t : Int) :
    ((datedMachine t).heap.object Heap.empty.nextObject).kind = .date (.ofInt t) := by
  show (((Heap.empty.add (.ofKind "Date" none (.date (.ofInt t)))).1).object Heap.empty.nextObject).kind = _
  rw [Heap.object_add, if_pos rfl]
  rfl

/-- An hour east of world time, at every instant. -/
def hourEast : ZoneReport := fun _ => some 3600000

/-- In a zone that answers everywhere the last instant is not found again, and a setter makes the date invalid; a
year before, all is well. In the zone of the machine the same happens in the last hour that it knows: setting the
milliseconds to what they are moves the date by an hour. -/
theorem localTime_exact_late :
    (universalTime hourEast (localTime hourEast (.ofInt 8640000000000000)) = .ofInt 8640000003600000 ∧
      replaceFields hourEast true (.ofInt 8640000000000000) 6
        [Field.millisecond.value (.ofInt 8640000003600000)] = .nan ∧
      universalTime hourEast (localTime hourEast (.ofInt 8608464000000000)) = .ofInt 8608464000000000) ∧
    dateFunction (.getField .milliseconds true) (.object Heap.empty.nextObject) [] (bodiesAt 0)
      (datedMachine 8210266876799999) = .ok (.ofNat 999) (datedMachine 8210266876799999) ∧
    dateFunction (.setField .milliseconds true) (.object Heap.empty.nextObject) [.ofNat 999] (bodiesAt 0)
        (datedMachine 8210266876799999) =
      .ok (.number (.ofInt 8210266880399999))
        ((datedMachine 8210266876799999).withTime Heap.empty.nextObject (.ofInt 8210266880399999)) := by
  constructor
  · have hzone : HasOffset hourEast 3600000 := ⟨by decide, fun _ _ h => (Option.some.inj h).symm⟩
    obtain ⟨hback, hlocal, hslips, hset, -⟩ := localTime_exact hzone (t := 8640000000000000) (by decide)
    obtain ⟨hback', -, hslips', -, -⟩ := localTime_exact hzone (t := 8608464000000000) (by decide)
    have hlate : Slips hourEast 8640000000000000 := (hslips fun _ _ => rfl).mpr ⟨by decide, by decide⟩
    have hearly : ¬ Slips hourEast 8608464000000000 := fun h => absurd ((hslips' fun _ _ => rfl).mp h).2 (by decide)
    have hclip : timeClip (.ofInt 8640000003600000) = .nan := timeClip_of_denotes (denotes_ofInt _) (by decide)
    have hset := hset 6 1
    rw [if_pos hlate] at hback hset
    rw [if_neg hearly] at hback'
    rw [(hlocal hlate).1] at hset hback
    exact ⟨(hlocal hlate).1 ▸ hback, hset.trans hclip, hback'⟩
  · have hzone : HasOffset (datedMachine 8210266876799999).zone.report (60 * msPerMinute) :=
      hasOffset_report (by decide)
    obtain ⟨-, hlocal, -, -, hmethods⟩ := localTime_exact hzone (t := 8210266876799999) (by decide)
    obtain ⟨hget, hset⟩ := hmethods (bodiesAt 0) _ _ rfl (kind_datedMachine _)
    have hslips : Slips (datedMachine 8210266876799999).zone.report 8210266876799999 := by decide
    have hms : DateField.milliseconds.read
        (localTime (datedMachine 8210266876799999).zone.report (.ofInt 8210266876799999)) = .ofNat 999 := by
      decide +kernel
    have hget := hget .milliseconds []
    have hset := hset .milliseconds 1 (Nat.le_refl 1) (Nat.le_refl 1)
    rw [if_pos hslips] at hset
    have hclip : timeClip (localTime (datedMachine 8210266876799999).zone.report (.ofInt 8210266876799999)) =
        .ofInt 8210266880399999 := by
      rw [(hlocal hslips).1]
      exact timeClip_ofInt (by decide)
    have hargs : [Value.ofNat 999] = [Value.number (DateField.milliseconds.read
        (localTime (datedMachine 8210266876799999).zone.report (.ofInt 8210266876799999)))] := by
      rw [hms]
      rfl
    rw [hclip] at hset
    refine ⟨hget.trans ?_, ?_⟩
    · dsimp only
      rw [hms]
      rfl
    · rw [hargs]
      exact hset

end Ecma51
