import Mathlib.Data.List.Induction
import Mathlib.Tactic.IntervalCases
import Ecma51.Calendar.Parse
import Ecma51.Proofs.DigitValues
import Ecma51.Proofs.WholeArithmetic

/-!
# Readers on what was written

What each reader does with the characters that it is meant for, whatever stands after them, and with those that it
refuses. Numbers are read back from their digits, with any zeros before them.

* `Calendar.DateText.Reads`: a reader takes these characters for a value.
* `Reads.andThen`, `Refuses.orElse`, `Reads.optionally`, …: readers one after the other, and alternatives.
* **`reads_digits`**, **`reads_number`**: digits as they are written.
* **`reads_isoYear`**, **`reads_plainYear`**: years in both notations.
* `reads_monthName`, `reads_weekDayName`: names.
-/

namespace Ecma51

-- powers mean the same whether or not there are other instances in scope
attribute [local instance (high)] instPowNat

namespace Calendar

namespace DateText

variable {α β : Type} {p q : Reader α} {f : α → Reader β} {s rest : List Char} {a : α}

/-! ## 1. Readers one after the other -/

/-- The reader takes what stands here up to the rest for a value. -/
def Reads (p : Reader α) (s : List Char) (a : α) (rest : List Char) : Prop := p s = some (a, rest)

/-- The reader refuses what stands here. -/
def Refuses (p : Reader α) (s : List Char) : Prop := p s = none

theorem Reads.bind (h : Reads p s a rest) (f : α → Reader β) : (p >>= f) s = f a rest := by
  show (p s).bind (fun r => f r.1 r.2) = _
  rw [h]
  rfl

/-- **One reader after the other.** -/
theorem Reads.andThen {b : β} {mid : List Char} (h : Reads p s a mid) (h' : Reads (f a) mid b rest) :
    Reads (p >>= f) s b rest := (h.bind f).trans h'

theorem Refuses.bind (h : Refuses p s) (f : α → Reader β) : Refuses (p >>= f) s := by
  show (p s).bind (fun r => f r.1 r.2) = none
  rw [h]
  rfl

theorem Reads.map {g : α → β} (h : Reads p s a rest) : Reads (g <$> p) s (g a) rest := by
  show (p >>= fun a => pure (g a)) s = _
  rw [h.bind]
  rfl

theorem Reads.orElse (h : Reads p s a rest) : Reads (p <|> q) s a rest := by
  show (p s <|> q s) = _
  rw [h]
  rfl

theorem Refuses.orElse (h : Refuses p s) : (p <|> q) s = q s := by
  show (p s <|> q s) = _
  rw [h]
  rfl

theorem Reads.optionally (h : Reads p s a rest) : Reads (optionally p) s (some a) rest := h.map.orElse

theorem Refuses.optionally (h : Refuses p s) : Reads (optionally p) s none s :=
  Refuses.orElse (p := some <$> p) (h.bind fun a => pure (some a))

theorem reads_char (c : Char) (rest : List Char) : Reads (char c) (c :: rest) () rest := if_pos rfl

theorem refuses_char {c d : Char} (h : c ≠ d) (rest : List Char) : Refuses (char c) (d :: rest) := if_neg h

theorem refuses_char_nil (c : Char) : Refuses (char c) [] := rfl

theorem reads_pure (a : α) (rest : List Char) : Reads (pure a) rest a rest := rfl

theorem Reads.spaced (h : Reads p s a rest) : Reads (spaced p) (' ' :: s) a rest := (reads_char ' ' s).andThen h

/-! ## 2. Digits -/

/-- No digit stands at the front. -/
def StopsDigits (rest : List Char) : Prop := ∀ c, rest.head? = some c → c.isDigit = false

theorem stopsDigits_cons {c : Char} (h : c.isDigit = false) (rest : List Char) : StopsDigits (c :: rest) := by
  intro d hd
  cases hd
  exact h

/-- **Digits are read** if they are enough and no more of them could be meant. -/
theorem reads_digits {least most : Nat} {ds : List Char} (hdigit : ∀ c ∈ ds, c.isDigit = true)
    (hleast : least ≤ ds.length) (hmost : ds.length ≤ most) (hstop : ds.length = most ∨ StopsDigits rest) :
    Reads (digits least most) (ds ++ rest) (ds.map fun c => c.toNat - 48) rest := by
  have hmore : (rest.take (most - ds.length)).takeWhile Char.isDigit = [] := by
    rcases hstop with hfull | hstop
    · rw [hfull, Nat.sub_self]
      rfl
    · cases rest with
      | nil => rw [List.take_nil, List.takeWhile_nil]
      | cons c rest =>
        cases most - ds.length with
        | zero => rfl
        | succ n => rw [List.take_succ_cons, List.takeWhile_cons_of_neg (Bool.eq_false_iff.mp (hstop c rfl))]
  have htaken : ((ds ++ rest).take most).takeWhile Char.isDigit = ds := by
    rw [List.take_append, List.take_of_length_le hmost, List.takeWhile_append_of_pos hdigit, hmore, List.append_nil]
  show (if least ≤ (((ds ++ rest).take most).takeWhile Char.isDigit).length then _ else none) = _
  rw [htaken, if_pos hleast, List.drop_left]

theorem isDigit_of_mem_padded {width n : Nat} : ∀ c ∈ padded width n, c.isDigit = true := by
  intro c hc
  rcases List.mem_append.mp hc with hzero | hdigit
  · rw [List.eq_of_mem_replicate hzero]
    decide
  · exact Nat.isDigit_of_mem_toDigits (by decide) (by decide) hdigit

theorem valueOf_padded (width n : Nat) : Decimal.valueOf ((padded width n).map fun c => c.toNat - 48) = n := by
  unfold padded
  dsimp only
  rw [List.map_append, List.map_replicate]
  exact (Decimal.valueOf_zeros_append _ _).trans (Decimal.valueOf_digitsOf n)

theorem length_padded (width n : Nat) : (padded width n).length = max width (Nat.toDigits 10 n).length := by
  unfold padded
  dsimp only
  rw [List.length_append, List.length_replicate]
  omega

theorem length_padded_of_lt {width n : Nat} (hwidth : 0 < width) (hn : n < 10 ^ width) :
    (padded width n).length = width := by
  rw [length_padded]
  exact Nat.max_eq_left ((Nat.length_toDigits_le_iff (by decide) hwidth).mpr hn)

/-- **A number is read from its digits and the zeros before them.** -/
theorem reads_number {width n : Nat} (hwidth : 0 < width) (hn : n < 10 ^ width) (rest : List Char) :
    Reads (number width) (padded width n ++ rest) n rest := by
  have hlength := length_padded_of_lt hwidth hn
  have hdigits : Reads (digits width width) (padded width n ++ rest) _ rest :=
    reads_digits isDigit_of_mem_padded hlength.ge hlength.le (.inl hlength)
  have hread := hdigits.map (g := Decimal.valueOf)
  rwa [valueOf_padded] at hread

/-- A reader for another character refuses digits. -/
theorem refuses_char_digits {c : Char} (hc : c.isDigit = false) {ds : List Char} (hne : ds ≠ [])
    (hdigit : ∀ d ∈ ds, d.isDigit = true) (rest : List Char) : Refuses (char c) (ds ++ rest) := by
  cases ds with
  | nil => exact absurd rfl hne
  | cons d ds =>
    refine refuses_char (fun hcd => ?_) _
    rw [hcd, hdigit d List.mem_cons_self] at hc
    cases hc

theorem padded_ne_nil {width n : Nat} : padded width n ≠ [] := by
  intro h
  exact Nat.toDigits_ne_nil (List.append_eq_nil_iff.mp h).2

/-! ## 3. Years -/

/-- What a number with a sign is. -/
theorem denotes_signedDouble (negative : Bool) {n : Nat} (hn : n ≤ 2 ^ 53) :
    (signedDouble negative n).Denotes (Double.signed negative n) := by
  have hsign : Double.IsSign negative (Double.signed negative n) := by
    intro hne
    cases negative with
    | false => exact (decide_eq_false (Int.not_lt.mpr (Int.natCast_nonneg n))).symm
    | true =>
      refine (decide_eq_true ?_).symm
      change -(n : Int) ≠ 0 at hne
      change -(n : Int) < 0
      omega
  have habs : (Double.signed negative n).natAbs = n := by
    cases negative with
    | false => rfl
    | true => exact Int.natAbs_neg n
  have hscaled := Double.denotes_scaled hsign (habs.symm ▸ hn) 0
  rwa [habs, Nat.pow_zero, Nat.mul_one, Int.natCast_zero, Int.neg_zero] at hscaled

/-- A year as it is read. -/
def yearDouble (y : Int) : Double := signedDouble (decide (y < 0)) y.natAbs

theorem denotes_yearDouble {y : Int} (hy : y.natAbs ≤ 2 ^ 53) : (yearDouble y).Denotes y := by
  have h := denotes_signedDouble (decide (y < 0)) hy
  rwa [Double.signed_natAbs fun _ => rfl] at h

theorem reads_minus (rest : List Char) : Reads sign ('-' :: rest) true rest :=
  ((reads_char '-' rest).andThen (reads_pure true rest)).orElse

theorem reads_plus (rest : List Char) : Reads sign ('+' :: rest) false rest :=
  (Refuses.orElse ((refuses_char (by decide) rest).bind _)).trans
    ((reads_char '+' rest).andThen (reads_pure false rest))

theorem refuses_sign_digits {ds : List Char} (hne : ds ≠ []) (hdigit : ∀ d ∈ ds, d.isDigit = true)
    (rest : List Char) : Refuses sign (ds ++ rest) :=
  (Refuses.orElse ((refuses_char_digits (by decide) hne hdigit rest).bind _)).trans
    ((refuses_char_digits (by decide) hne hdigit rest).bind _)

/-- **The year of the ISO notation.** -/
theorem reads_isoYear {sh : Shown} (hyear : sh.year.natAbs < 1000000) (rest : List Char) :
    Reads isoYear (isoYearChars sh true ++ rest) (yearDouble sh.year) rest := by
  unfold isoYearChars yearDouble
  rw [Bool.true_and]
  split
  · rename_i hplain
    rw [Bool.and_eq_true, decide_eq_true_iff, decide_eq_true_iff] at hplain
    have hnumber : Reads (number 4) (padded 4 sh.year.toNat ++ rest) sh.year.toNat rest :=
      reads_number (by decide) (by omega) rest
    rw [decide_eq_false (Int.not_lt.mpr hplain.1), show sh.year.natAbs = sh.year.toNat by omega]
    refine (Refuses.orElse ((refuses_sign_digits padded_ne_nil isDigit_of_mem_padded rest).bind _)).trans ?_
    exact hnumber.andThen (reads_pure _ rest)
  · have hnumber : Reads (number 6) (padded 6 sh.year.natAbs ++ rest) sh.year.natAbs rest :=
      reads_number (by decide) hyear rest
    refine Reads.orElse ?_
    split
    · rename_i hneg
      rw [decide_eq_true hneg]
      exact (reads_minus _).andThen (hnumber.andThen (reads_pure _ rest))
    · rename_i hpos
      rw [decide_eq_false hpos]
      exact (reads_plus _).andThen (hnumber.andThen (reads_pure _ rest))

/-- **The year of the other notations**, which is not padded alike. -/
theorem reads_plainYear {y : Int} (hy : y.natAbs < 1000000) (hrest : StopsDigits rest) :
    Reads plainYear (yearChars y ++ rest) (yearDouble y) rest := by
  have hdigits (width : Nat) (hwidth : width ≤ 6) (n : Nat) (hn : n < 1000000) :
      Reads (digits 1 6) (padded width n ++ rest) ((padded width n).map fun c => c.toNat - 48) rest := by
    have hten : (Nat.toDigits 10 n).length ≤ 6 := (Nat.length_toDigits_le_iff (by decide) (by decide)).mpr hn
    have hpos : 0 < (Nat.toDigits 10 n).length := Nat.length_toDigits_pos
    have hlength := length_padded width n
    exact reads_digits isDigit_of_mem_padded (by omega) (by omega) (.inr hrest)
  have hread (negative : Bool) (width n : Nat) : signedDouble negative (Decimal.valueOf
      ((padded width n).map fun c => c.toNat - 48)) = signedDouble negative n := by
    rw [valueOf_padded]
  unfold yearChars yearDouble
  split
  · rename_i hpos
    rw [decide_eq_false (Int.not_lt.mpr hpos), show y.natAbs = y.toNat by omega, ← hread false 4]
    refine (refuses_char_digits (by decide) padded_ne_nil isDigit_of_mem_padded rest).optionally.andThen ?_
    exact (hdigits 4 (by decide) y.toNat (by omega)).andThen (reads_pure _ rest)
  · rename_i hneg
    rw [decide_eq_true (by omega), ← hread true 6]
    exact (reads_char '-' _).optionally.andThen ((hdigits 6 (Nat.le_refl 6) y.natAbs hy).andThen (reads_pure _ rest))

/-! ## 4. Names -/

theorem reads_monthName {k : Nat} (hk : k < 12) (rest : List Char) :
    Reads (oneOf monthNames) ((monthNames.getD k "").toList ++ rest) k rest := by
  interval_cases k <;> rfl

theorem reads_weekDayName {k : Nat} (hk : k < 7) (rest : List Char) :
    Reads (oneOf weekDayNames) ((weekDayNames.getD k "").toList ++ rest) k rest := by
  interval_cases k <;> rfl

theorem reads_worldTime (rest : List Char) : Reads (oneOf ["GMT", "UTC", "Z"]) ("GMT".toList ++ rest) 0 rest := rfl

/-- A text that begins with a day of the week is not in the ISO notation. -/
theorem refuses_iso {k : Nat} (hk : k < 7) (rest : List Char) :
    Refuses iso ((weekDayNames.getD k "").toList ++ rest) := by
  interval_cases k <;> rfl

/-- None of the words stands here. -/
theorem refuses_oneOf {words : List String} (h : ∀ w ∈ words, w.toList.isPrefixOf s = false) :
    Refuses (oneOf words) s := by
  induction words with
  | nil => rfl
  | cons w words ih =>
    have hword : Refuses (word w) s := if_neg (Bool.eq_false_iff.mp (h w List.mem_cons_self))
    refine (Refuses.orElse (hword.bind _)).trans ?_
    exact (ih fun v hv => h v (List.mem_cons_of_mem w hv)).bind _

/-- A month's name does not begin with a digit. -/
theorem refuses_monthName {ds : List Char} (hne : ds ≠ []) (hdigit : ∀ d ∈ ds, d.isDigit = true)
    (rest : List Char) : Refuses (oneOf monthNames) (ds ++ rest) := by
  have hletter : ∀ w ∈ monthNames, (w.toList.head?.any fun c => !c.isDigit) = true := by decide
  refine refuses_oneOf fun w hw => ?_
  have hw := hletter w hw
  cases ds with
  | nil => exact absurd rfl hne
  | cons d ds =>
    cases hname : w.toList with
    | nil =>
      rw [hname] at hw
      cases hw
    | cons c cs =>
      rw [hname] at hw
      have hc : c.isDigit = false := Bool.not_eq_true' _ |>.mp hw
      have hne : c ≠ d := by
        rintro rfl
        rw [hdigit c List.mem_cons_self] at hc
        cases hc
      rw [List.cons_append, List.isPrefixOf_cons_cons, beq_false_of_ne hne, Bool.false_and]

end DateText

end Calendar

end Ecma51
