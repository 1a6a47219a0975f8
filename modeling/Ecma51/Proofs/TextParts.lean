import Mathlib.Data.List.Basic
import Ecma51.Text.Basic

/-!
# Parts of texts

What is cut out of a text, put together or found in it, by the lists of units.

* `Text.toList_slice`, `Text.toList_concat`, `Text.intercalate_cons`: the units of parts and of wholes.
* `Text.slice_append_drop`: a cut divides a text.
* **`Text.matchesAt_iff`**, **`Text.indexOf?_eq_some_iff`**, `Text.indexOf?_eq_none_iff`: where a text stands in
  another one.
* `Text.Contains`: a text stands somewhere in another one.
-/

namespace Ecma51.Text

variable {s t sep needle : Text} {start stop i n : Nat}

/-! ## 1. Units -/

theorem ext_toList (h : s.toList = t.toList) : s = t := by
  rw [← ofList_toList s, h, ofList_toList]

theorem length_eq (t : Text) : t.length = t.toList.length := Array.length_toList.symm

@[simp] theorem toList_empty : empty.toList = [] := rfl

@[simp] theorem toList_append (s t : Text) : (s ++ t).toList = s.toList ++ t.toList := Array.toList_append

@[simp] theorem length_append (s t : Text) : (s ++ t).length = s.length + t.length := Array.size_append

theorem append_assoc (s t u : Text) : s ++ t ++ u = s ++ (t ++ u) := by
  refine ext_toList ?_
  simp only [toList_append, List.append_assoc]

@[simp] theorem empty_append (t : Text) : empty ++ t = t := ext_toList (by simp)

@[simp] theorem append_empty (t : Text) : t ++ empty = t := ext_toList (by simp)

@[simp] theorem toList_slice (t : Text) (start stop : Nat) :
    (t.slice start stop).toList = (t.toList.drop start).take (stop - start) := by
  unfold slice toList
  rw [Array.toList_extract, List.extract_eq_take_drop]

@[simp] theorem toList_drop (t : Text) (n : Nat) : (t.drop n).toList = t.toList.drop n := by
  unfold drop
  rw [toList_slice]
  exact List.take_of_length_le (Nat.le_of_eq (by rw [List.length_drop, length_eq]))

@[simp] theorem toList_take (t : Text) (n : Nat) : (t.take n).toList = t.toList.take n := by
  unfold take
  rw [toList_slice, List.drop_zero, Nat.sub_zero]

theorem isEmpty_iff : t.isEmpty = true ↔ t = empty := by
  unfold isEmpty
  rw [Array.isEmpty_iff]
  exact ⟨fun h => ext_toList (congrArg Array.toList h), fun h => congrArg units h⟩

theorem length_pos_of_ne (ht : t ≠ empty) : 0 < t.length := by
  rw [length_eq, List.length_pos_iff]
  exact fun h => ht (ext_toList h)

/-! ## 2. Wholes -/

theorem toList_concat (ts : List Text) : (concat ts).toList = ts.flatMap toList := by
  have hfold (us : Array CodeUnit) :
      (ts.foldl (fun acc t => acc ++ t.units) us).toList = us.toList ++ ts.flatMap toList := by
    induction ts generalizing us with
    | nil => rw [List.foldl_nil, List.flatMap_nil, List.append_nil]
    | cons t ts ih =>
      rw [List.foldl_cons, ih, Array.toList_append, List.flatMap_cons, List.append_assoc]
      rfl
  exact hfold #[]

theorem concat_cons (t : Text) (ts : List Text) : concat (t :: ts) = t ++ concat ts := by
  refine ext_toList ?_
  rw [toList_append, toList_concat, toList_concat, List.flatMap_cons]

theorem toList_intercalate (sep t : Text) (ts : List Text) :
    (intercalate sep (t :: ts)).toList = t.toList ++ ts.flatMap fun u => sep.toList ++ u.toList := by
  have hfold (us : Array CodeUnit) : (ts.foldl (fun acc u => acc ++ sep.units ++ u.units) us).toList =
      us.toList ++ ts.flatMap fun u => sep.toList ++ u.toList := by
    induction ts generalizing us with
    | nil => rw [List.foldl_nil, List.flatMap_nil, List.append_nil]
    | cons t ts ih =>
      rw [List.foldl_cons, ih, Array.toList_append, Array.toList_append, List.flatMap_cons, List.append_assoc,
        List.append_assoc, List.append_assoc]
      rfl
  exact hfold t.units

theorem intercalate_singleton (sep t : Text) : intercalate sep [t] = t := rfl

/-- One more text in front of others. -/
theorem intercalate_cons (sep t : Text) {ts : List Text} (hts : ts ≠ []) :
    intercalate sep (t :: ts) = t ++ sep ++ intercalate sep ts := by
  cases ts with
  | nil => exact absurd rfl hts
  | cons u us =>
    refine ext_toList ?_
    rw [toList_intercalate, toList_append, toList_append, toList_intercalate, List.flatMap_cons, List.append_assoc,
      List.append_assoc]

/-! ## 3. Cuts -/

@[simp] theorem drop_zero (t : Text) : t.drop 0 = t := ext_toList (by rw [toList_drop, List.drop_zero])

theorem length_slice (hstop : stop ≤ t.length) : (t.slice start stop).length = stop - start := by
  rw [length_eq] at hstop ⊢
  rw [toList_slice, List.length_take, List.length_drop]
  omega

/-- A cut and what follows it are what was there before it. -/
theorem slice_append_drop (hstart : start ≤ i) : t.slice start i ++ t.drop i = t.drop start := by
  refine ext_toList ?_
  rw [toList_append, toList_slice, toList_drop, toList_drop]
  nth_rewrite 2 [← show start + (i - start) = i by omega]
  rw [← List.drop_drop, List.take_append_drop]

/-! ## 4. Searches -/

theorem all_iff {n : Nat} {p : Nat → Bool} : (n.all fun j _ => p j) = true ↔ ∀ j < n, p j = true := by
  induction n with
  | zero => exact ⟨fun _ j hj => absurd hj (Nat.not_lt_zero j), fun _ => rfl⟩
  | succ n ih =>
    rw [Nat.all_succ, Bool.and_eq_true, ih]
    refine ⟨fun ⟨hless, hlast⟩ j hj => ?_, fun h => ⟨fun j hj => h j (Nat.lt_succ_of_lt hj), h n (Nat.lt_succ_self n)⟩⟩
    rcases Nat.lt_or_eq_of_le (Nat.le_of_lt_succ hj) with hlt | rfl
    · exact hless j hlt
    · exact hlast

/-- **A text stands at a position** if what is cut out there is that text. -/
theorem matchesAt_iff :
    t.matchesAt needle i = true ↔ i + needle.length ≤ t.length ∧ t.slice i (i + needle.length) = needle := by
  unfold matchesAt
  rw [Bool.and_eq_true, decide_eq_true_iff, all_iff]
  refine and_congr_right fun hle => ⟨fun h => ext_toList (List.ext_getElem? fun j => ?_), fun h j hj => ?_⟩
  · rw [toList_slice, Nat.add_sub_cancel_left, List.getElem?_take, List.getElem?_drop]
    split
    · rename_i hj
      exact (Array.getElem?_toList).trans ((beq_iff_eq.mp (h j hj)).trans Array.getElem?_toList.symm)
    · rename_i hj
      exact (List.getElem?_eq_none (by rw [← length_eq]; omega)).symm
  · have hunit : (t.slice i (i + needle.length)).toList[j]? = needle.toList[j]? := by rw [h]
    rw [toList_slice, Nat.add_sub_cancel_left, List.getElem?_take, if_pos hj, List.getElem?_drop] at hunit
    exact beq_iff_eq.mpr (Array.getElem?_toList.symm.trans (hunit.trans Array.getElem?_toList))

theorem findUp_eq_some_iff {p : Nat → Bool} {n i k : Nat} :
    findUp p n i = some k ↔ i ≤ k ∧ k < i + n ∧ p k = true ∧ ∀ j, i ≤ j → j < k → p j = false := by
  induction n generalizing i with
  | zero =>
    refine ⟨fun h => absurd h.symm (Option.some_ne_none k), fun h => ?_⟩
    omega
  | succ n ih =>
    unfold findUp
    split
    · rename_i hp
      refine ⟨fun h => ?_, fun ⟨hle, _, _, hleast⟩ => ?_⟩
      · cases h
        exact ⟨Nat.le_refl _, by omega, hp, fun j hj hlt => by omega⟩
      · rcases Nat.lt_or_eq_of_le hle with hlt | rfl
        · rw [hleast i (Nat.le_refl i) hlt] at hp
          cases hp
        · rfl
    · rename_i hp
      rw [ih]
      refine ⟨fun ⟨hle, hlt, hk, hleast⟩ => ⟨by omega, by omega, hk, fun j hj hjk => ?_⟩,
        fun ⟨hle, hlt, hk, hleast⟩ => ⟨?_, by omega, hk, fun j hj => hleast j (by omega)⟩⟩
      · rcases Nat.lt_or_eq_of_le hj with hlt' | rfl
        · exact hleast j hlt' hjk
        · exact Bool.eq_false_iff.mpr hp
      · rcases Nat.lt_or_eq_of_le hle with hlt' | rfl
        · exact hlt'
        · exact absurd hk hp

theorem findUp_eq_none_iff {p : Nat → Bool} {n i : Nat} :
    findUp p n i = none ↔ ∀ j, i ≤ j → j < i + n → p j = false := by
  induction n generalizing i with
  | zero => exact ⟨fun _ j hj hlt => by omega, fun _ => rfl⟩
  | succ n ih =>
    unfold findUp
    split
    · rename_i hp
      refine ⟨fun h => absurd h (Option.some_ne_none i), fun h => ?_⟩
      rw [h i (Nat.le_refl i) (by omega)] at hp
      cases hp
    · rename_i hp
      rw [ih]
      refine ⟨fun h j hj hlt => ?_, fun h j hj hlt => h j (by omega) (by omega)⟩
      rcases Nat.lt_or_eq_of_le hj with hlt' | rfl
      · exact h j hlt' (by omega)
      · exact Bool.eq_false_iff.mpr hp

theorem le_of_matchesAt (h : t.matchesAt needle i = true) : i + needle.length ≤ t.length := (matchesAt_iff.mp h).1

/-- **The first place from a position on.** -/
theorem indexOf?_eq_some_iff : t.indexOf? needle start = some i ↔
    start ≤ i ∧ t.matchesAt needle i = true ∧ ∀ j, start ≤ j → j < i → t.matchesAt needle j = false := by
  unfold indexOf?
  rw [findUp_eq_some_iff]
  refine ⟨fun ⟨hle, _, hi, hleast⟩ => ⟨hle, hi, hleast⟩, fun ⟨hle, hi, hleast⟩ => ⟨hle, ?_, hi, hleast⟩⟩
  have := le_of_matchesAt hi
  omega

theorem indexOf?_eq_none_iff : t.indexOf? needle start = none ↔ ∀ j, start ≤ j → t.matchesAt needle j = false := by
  unfold indexOf?
  rw [findUp_eq_none_iff]
  refine ⟨fun h j hj => Bool.eq_false_iff.mpr fun hmatch => ?_, fun h j hj _ => h j hj⟩
  have := le_of_matchesAt hmatch
  rw [h j hj (by omega)] at hmatch
  cases hmatch

/-! ## 5. Containment -/

/-- A text stands somewhere in another one. -/
def Contains (t needle : Text) : Prop := ∃ before after, t = before ++ needle ++ after

theorem slice_append_middle (before needle after : Text) :
    (before ++ needle ++ after).slice before.length (before.length + needle.length) = needle := by
  refine ext_toList ?_
  rw [toList_slice, Nat.add_sub_cancel_left, toList_append, toList_append, List.append_assoc, length_eq before,
    List.drop_left, length_eq needle, List.take_left]

/-- **A text contains another one** if that one stands at some position. -/
theorem contains_iff : t.Contains needle ↔ ∃ i, t.matchesAt needle i = true := by
  refine ⟨fun ⟨before, after, h⟩ => ⟨before.length, matchesAt_iff.mpr ⟨?_, ?_⟩⟩, fun ⟨i, hi⟩ => ?_⟩
  · rw [h, length_append, length_append]
    exact Nat.le_add_right _ _
  · rw [h, slice_append_middle]
  · obtain ⟨_, hslice⟩ := matchesAt_iff.mp hi
    refine ⟨t.slice 0 i, t.drop (i + needle.length), ?_⟩
    calc t = t.slice 0 i ++ (t.slice i (i + needle.length) ++ t.drop (i + needle.length)) := by
          rw [slice_append_drop (Nat.le_add_right i _), slice_append_drop (Nat.zero_le i), drop_zero]
      _ = t.slice 0 i ++ needle ++ t.drop (i + needle.length) := by rw [hslice, append_assoc]

/-- A cut of a cut. -/
theorem slice_slice {first last : Nat} (hlast : last ≤ stop - start) :
    (t.slice start stop).slice first last = t.slice (start + first) (start + last) := by
  refine ext_toList ?_
  rw [toList_slice, toList_slice, toList_slice, List.drop_take, List.drop_drop, List.take_take]
  congr 1
  omega

/-- What a cut contains stands in the text, within the bounds of the cut. -/
theorem Contains.exists_matchesAt (hc : (t.slice start stop).Contains needle) (hstart : start ≤ stop)
    (hstop : stop ≤ t.length) : ∃ i, start ≤ i ∧ i + needle.length ≤ stop ∧ t.matchesAt needle i = true := by
  obtain ⟨i, hi⟩ := contains_iff.mp hc
  obtain ⟨hle, hslice⟩ := matchesAt_iff.mp hi
  rw [length_slice hstop] at hle
  rw [slice_slice hle, ← Nat.add_assoc] at hslice
  exact ⟨start + i, Nat.le_add_right start i, by omega, matchesAt_iff.mpr ⟨by omega, hslice⟩⟩

end Ecma51.Text
