import Ecma51.Proofs.DateReaders
import Ecma51.Proofs.KeyText
import Ecma51.Proofs.LocalTime

/-!
# Dates written and read

The three notations of a time are read back: the one of ISO to the millisecond, the others to the second. The readers
are tried in one order for all of them, and each notation comes to the reader that is meant for it.

* `Calendar.Shown.Proper`: the fields that an instant shows.
* **`reads_isoText`**, **`reads_utcText`**, **`reads_localText`**: what is read from the notations.
* `read?_ofChars`: nothing is stripped from them.
* **`dates_readBack`**: the time values.
-/

namespace Ecma51

-- powers mean the same whether or not there are other instances in scope
attribute [local instance (high)] instPowNat

-- a fact about the characters of a list is decided by going through the list, not through all characters
attribute [local instance (high)] List.decidableBAll

open Double

namespace Calendar

/-! ## 1. What is shown -/

/-- The fields are those of some instant near the time values. -/
structure Shown.Proper (sh : Shown) : Prop where
  year : sh.year.natAbs < 1000000
  month : sh.month < 12
  date : 1 ≤ sh.date ∧ sh.date ≤ 31
  weekDay : sh.weekDay < 7
  hour : sh.hour < 24
  minute : sh.minute < 60
  second : sh.second < 60
  ms : sh.ms < 1000

variable {t : Int}

theorem Shown.ofTime_ofInt (ht : t.natAbs < 2 ^ 53) : Shown.ofTime (ofInt t) =
    { year := yearFromTime t, month := monthFromTime t, date := dateFromTime t,
      weekDay := (Calendar.weekDay t).toNat, hour := (hourFromTime t).toNat, minute := (minuteFromTime t).toNat,
      second := (secondFromTime t).toNat, ms := (msFromTime t).toNat } := by
  unfold Shown.ofTime
  rw [instant?_of_denotes (denotes_ofInt t) ht]

theorem NearTime.proper (ht : NearTime t) : (Shown.ofTime (ofInt t)).Proper := by
  have hyear := ht.nearYear
  obtain ⟨hmonth, hone, hdays⟩ := isDate_fields t
  have hdays' := daysInMonth_le (monthFromTime t) (isLeapYear (yearFromTime t))
  obtain ⟨hhour, hminute, hsecond, hms⟩ := isClock_fields t
  have hweek := weekDay_bounds t
  unfold NearYear at hyear
  rw [Shown.ofTime_ofInt ht.lt]
  constructor <;> dsimp only <;> omega

/-- What is read of the fields; the second notation drops the milliseconds. -/
def Shown.dateText (sh : Shown) (ms : Nat) (offset : Option Double) : DateText :=
  { year := DateText.yearDouble sh.year, month := sh.month, date := sh.date.toNat, hour := sh.hour,
    minute := sh.minute, second := sh.second, ms, offset }

theorem paddedInt_of_nonneg {width : Nat} {i : Int} (h : 0 ≤ i) : paddedInt width i = padded width i.toNat :=
  if_neg (Int.not_lt.mpr h)

theorem clockPart_append (sh : Shown) (rest : List Char) : clockPart sh ++ rest =
    padded 2 sh.hour ++ ':' :: (padded 2 sh.minute ++ ':' :: (padded 2 sh.second ++ rest)) := by
  unfold clockPart
  simp only [List.append_assoc, List.cons_append]

namespace DateText

variable {sh : Shown} {rest : List Char}

/-! ## 2. The ISO notation -/

theorem thousandths_padded {ms : Nat} (h : ms < 1000) :
    thousandths ((padded 3 ms).map fun c => c.toNat - 48) = ms := by
  have hlength : ((padded 3 ms).map fun c => c.toNat - 48).length = 3 :=
    (List.length_map _).trans (length_padded_of_lt (by decide) h)
  unfold thousandths Decimal.fit
  rw [List.take_of_length_le hlength.le, hlength, Nat.sub_self, List.replicate_zero, List.append_nil, valueOf_padded]

theorem reads_isoFraction {ms : Nat} (h : ms < 1000) (hrest : StopsDigits rest) :
    Reads isoFraction ('.' :: (padded 3 ms ++ rest)) ms rest := by
  have hlength : (padded 3 ms).length = 3 := length_padded_of_lt (by decide) h
  have hdigits : Reads (fun s => digits 1 s.length s) (padded 3 ms ++ rest) _ rest :=
    reads_digits isDigit_of_mem_padded (by omega) (by rw [List.length_append]; omega) (.inr hrest)
  have hread := hdigits.map (g := thousandths)
  rw [thousandths_padded h] at hread
  exact (reads_char '.' _).andThen hread

theorem reads_isoTime (h : sh.Proper) (d : DateText) :
    Reads (isoTime d) ('T' :: (clockPart sh ++ '.' :: (padded 3 sh.ms ++ ['Z'])))
      { d with hour := sh.hour, minute := sh.minute, second := sh.second, ms := sh.ms, offset := some .zero } [] := by
  have hstop : StopsDigits ['Z'] := stopsDigits_cons (by decide) []
  have hfraction := (reads_isoFraction h.ms hstop).optionally
  have hseconds : Reads isoSeconds (':' :: (padded 2 sh.second ++ '.' :: (padded 3 sh.ms ++ ['Z'])))
      (sh.second, sh.ms) ['Z'] :=
    (reads_char ':' _).andThen ((reads_number (by decide) (Nat.lt_trans h.second (by decide)) _).andThen
      (hfraction.andThen (reads_pure _ _)))
  have hoffset : Reads isoOffset ['Z'] .zero [] := ((reads_char 'Z' []).andThen (reads_pure Double.zero [])).orElse
  rw [clockPart_append]
  refine (reads_char 'T' _).andThen ((reads_number (by decide) (Nat.lt_trans h.hour (by decide)) _).andThen ?_)
  refine (reads_char ':' _).andThen ((reads_number (by decide) (Nat.lt_trans h.minute (by decide)) _).andThen ?_)
  exact hseconds.optionally.andThen (hoffset.optionally.andThen (reads_pure _ _))

/-- The characters of the ISO notation. -/
def isoText (sh : Shown) : List Char :=
  isoYearChars sh true ++ '-' :: (padded 2 (sh.month + 1) ++ '-' :: (padded 2 sh.date.toNat ++
    'T' :: (clockPart sh ++ '.' :: (padded 3 sh.ms ++ ['Z']))))

theorem formatIso_eq {tv : Double} (hfinite : tv.isFinite = true) (h : (Shown.ofTime tv).Proper) :
    formatIso tv = isoText (Shown.ofTime tv) := by
  unfold formatIso isoText
  dsimp only
  rw [hfinite, paddedInt_of_nonneg (Int.le_trans (by decide) h.date.1)]
  simp only [List.append_assoc, List.cons_append]

/-- **The ISO notation is read**, with all its fields. -/
theorem reads_isoText (h : sh.Proper) : Reads iso (isoText sh) (sh.dateText sh.ms (some .zero)) [] := by
  have hdays := h.date
  have hday (rest : List Char) : Reads isoDay ('-' :: (padded 2 sh.date.toNat ++ rest)) sh.date.toNat rest :=
    (reads_char '-' _).andThen (reads_number (by decide) (by omega) rest)
  have hmonth (rest : List Char) : Reads isoMonth ('-' :: (padded 2 (sh.month + 1) ++
      '-' :: (padded 2 sh.date.toNat ++ rest))) (sh.month + 1, some sh.date.toNat) rest :=
    (reads_char '-' _).andThen ((reads_number (by decide) (by have := h.month; omega) _).andThen
      ((hday rest).optionally.andThen (reads_pure _ _)))
  have hplace : (((sh.month + 1 : Nat) : Int) - 1) = sh.month := by omega
  refine (reads_isoYear h.year _).andThen ((hmonth _).optionally.andThen ?_)
  refine (reads_isoTime h _).optionally.andThen ?_
  unfold Shown.dateText
  rw [← hplace]
  exact reads_pure _ []

/-! ## 3. The notations with names -/

theorem reads_plainDay {n : Nat} (h : n < 100) (rest : List Char) : Reads plainDay (padded 2 n ++ rest) n rest := by
  have hlength : (padded 2 n).length = 2 := length_padded_of_lt (by decide) h
  have hdigits : Reads (digits 1 2) (padded 2 n ++ rest) _ rest :=
    reads_digits isDigit_of_mem_padded (by omega) hlength.le (.inl hlength)
  have hread := hdigits.map (g := Decimal.valueOf)
  rwa [valueOf_padded] at hread

theorem reads_clock (h : sh.Proper) (rest : List Char) :
    Reads clock (clockPart sh ++ rest) (sh.hour, sh.minute, sh.second) rest := by
  have hsecond : Reads plainSeconds (':' :: (padded 2 sh.second ++ rest)) sh.second rest :=
    (reads_char ':' _).andThen (reads_number (by decide) (Nat.lt_trans h.second (by decide)) rest)
  rw [clockPart_append]
  refine (reads_plainDay (Nat.lt_trans h.hour (by decide)) _).andThen ((reads_char ':' _).andThen ?_)
  exact (reads_number (by decide) (Nat.lt_trans h.minute (by decide)) _).andThen
    (hsecond.optionally.andThen (reads_pure _ _))

theorem reads_monthFirst (h : sh.Proper) (hrest : StopsDigits rest) :
    Reads monthFirst ((monthNames.getD sh.month "").toList ++ ' ' :: (padded 2 sh.date.toNat ++
        ' ' :: (yearChars sh.year ++ rest)))
      { year := yearDouble sh.year, month := sh.month, date := sh.date.toNat, offset := none } rest := by
  have hdays := h.date
  refine (reads_monthName h.month _).andThen ((reads_char ' ' _).andThen ?_)
  refine (reads_plainDay (by omega) _).andThen ?_
  refine (refuses_char (by decide) _).optionally.andThen ((reads_char ' ' _).andThen ?_)
  exact (reads_plainYear h.year hrest).andThen (reads_pure _ rest)

theorem reads_dayFirst (h : sh.Proper) (hrest : StopsDigits rest) :
    Reads dayFirst (padded 2 sh.date.toNat ++ ' ' :: ((monthNames.getD sh.month "").toList ++
        ' ' :: (yearChars sh.year ++ rest)))
      { year := yearDouble sh.year, month := sh.month, date := sh.date.toNat, offset := none } rest := by
  have hdays := h.date
  refine (reads_plainDay (by omega) _).andThen ((reads_char ' ' _).andThen ?_)
  refine (reads_monthName h.month _).andThen ((reads_char ' ' _).andThen ?_)
  exact (reads_plainYear h.year hrest).andThen (reads_pure _ rest)

/-- **What follows a date with names**: the time of day and the zone. -/
theorem reads_named {s : List Char} {mid : List Char} {zone : List Char} {offset : Double}
    (hweek : Reads weekDayMark s () mid) (h : sh.Proper)
    (hdate : Reads plainDate mid
      { year := yearDouble sh.year, month := sh.month, date := sh.date.toNat, offset := none }
      (' ' :: (clockPart sh ++ ' ' :: zone)))
    (hzone : Reads zoneOffset zone offset []) : Reads named s (sh.dateText 0 (some offset)) [] := by
  refine hweek.optionally.andThen (hdate.andThen ?_)
  refine (reads_clock h _).spaced.optionally.andThen (hzone.spaced.optionally.andThen ?_)
  exact (Refuses.bind (refuses_char_nil ' ') fun _ => remark).optionally.andThen (reads_pure _ [])

/-- The characters of the notation of world time. -/
def utcText (sh : Shown) : List Char :=
  (weekDayNames.getD sh.weekDay "").toList ++ ',' :: ' ' :: (padded 2 sh.date.toNat ++
    ' ' :: ((monthNames.getD sh.month "").toList ++ ' ' :: (yearChars sh.year ++
      ' ' :: (clockPart sh ++ ' ' :: "GMT".toList))))

theorem formatUtc_eq {tv : Double} (hnan : tv.isNaN = false) (h : (Shown.ofTime tv).Proper) :
    formatUtc tv = utcText (Shown.ofTime tv) := by
  have hend : " GMT".toList = ' ' :: "GMT".toList := rfl
  unfold formatUtc utcText
  dsimp only
  rw [hnan, if_neg Bool.false_ne_true, paddedInt_of_nonneg (Int.le_trans (by decide) h.date.1), hend]
  simp only [List.append_assoc, List.cons_append]

/-- **The notation of world time is read**, to the second. -/
theorem reads_utcText (h : sh.Proper) : Reads named (utcText sh) (sh.dateText 0 (some .zero)) [] := by
  have hweek (rest : List Char) :
      Reads weekDayMark ((weekDayNames.getD sh.weekDay "").toList ++ ',' :: ' ' :: rest) () rest :=
    (reads_weekDayName h.weekDay _).andThen ((reads_char ',' _).optionally.andThen (reads_char ' ' rest))
  have hnone : Refuses zoneShift [] := rfl
  have hzone : Reads zoneOffset ("GMT".toList ++ []) .zero [] :=
    (reads_worldTime []).andThen (hnone.optionally.andThen (reads_pure Double.zero []))
  refine reads_named (hweek _) h ?_ hzone
  refine (Refuses.orElse ((refuses_monthName padded_ne_nil isDigit_of_mem_padded _).bind _)).trans ?_
  exact reads_dayFirst h (stopsDigits_cons (by decide) _)

/-- The characters of an offset in minutes. -/
def zoneText (minutes : Int) : List Char :=
  "GMT".toList ++ (if minutes < 0 then '-' else '+') :: (padded 2 (minutes.natAbs / 60) ++
    padded 2 (minutes.natAbs % 60))

theorem zonePart_eq (zone : ZoneReport) (tv : Double) :
    zonePart zone tv = zoneText ((offsetAt zone tv).tdiv msPerMinute) := by
  unfold zonePart zoneText
  simp only [List.append_assoc, List.cons_append]

/-- **An offset is read from its hours and minutes.** -/
theorem reads_zoneText {minutes : Int} (h : minutes.natAbs < 1440) :
    Reads zoneOffset (zoneText minutes) (yearDouble minutes) [] := by
  have hlength {n : Nat} (hn : n < 100) : (padded 2 n).length = 2 := length_padded_of_lt (by decide) hn
  have hhours := hlength (n := minutes.natAbs / 60) (by omega)
  have hminutes := hlength (n := minutes.natAbs % 60) (by omega)
  have hvalue : Decimal.valueOf ((padded 2 (minutes.natAbs / 60) ++ padded 2 (minutes.natAbs % 60)).map
      fun c => c.toNat - 48) = minutes.natAbs / 60 * 100 + minutes.natAbs % 60 := by
    rw [List.map_append, Decimal.valueOf_append, valueOf_padded, valueOf_padded, List.length_map, hminutes]
  have hdigits : Reads (digits 4 4) (padded 2 (minutes.natAbs / 60) ++ padded 2 (minutes.natAbs % 60) ++ []) _ [] :=
    reads_digits (List.forall_mem_append.mpr ⟨isDigit_of_mem_padded, isDigit_of_mem_padded⟩)
      (by rw [List.length_append]; omega) (by rw [List.length_append]; omega)
      (.inl (by rw [List.length_append]; omega))
  have hnumber := hdigits.map (g := Decimal.valueOf)
  rw [hvalue, List.append_nil] at hnumber
  have hshift : (minutes.natAbs / 60 * 100 + minutes.natAbs % 60) / 100 * 60 +
      (minutes.natAbs / 60 * 100 + minutes.natAbs % 60) % 100 = minutes.natAbs := by
    omega
  have hsigned : Reads zoneShift ((if minutes < 0 then '-' else '+') :: (padded 2 (minutes.natAbs / 60) ++
      padded 2 (minutes.natAbs % 60))) (yearDouble minutes) [] := by
    have hread (negative : Bool) : Reads (do
        let v ← number 4
        return signedDouble negative (v / 100 * 60 + v % 100)) (padded 2 (minutes.natAbs / 60) ++
          padded 2 (minutes.natAbs % 60)) (signedDouble negative minutes.natAbs) [] := by
      refine hnumber.andThen ?_
      rw [hshift]
      exact reads_pure _ []
    unfold yearDouble
    split
    · rename_i hneg
      rw [decide_eq_true hneg]
      exact (reads_minus _).andThen (hread true)
    · rename_i hpos
      rw [decide_eq_false hpos]
      exact (reads_plus _).andThen (hread false)
  exact (reads_worldTime _).andThen (hsigned.optionally.andThen (reads_pure (yearDouble minutes) []))

/-- The characters of the local notation. -/
def localText (sh : Shown) (minutes : Int) : List Char :=
  (weekDayNames.getD sh.weekDay "").toList ++ ' ' :: ((monthNames.getD sh.month "").toList ++
    ' ' :: (padded 2 sh.date.toNat ++ ' ' :: (yearChars sh.year ++
      ' ' :: (clockPart sh ++ ' ' :: zoneText minutes))))

theorem formatLocal_eq {zone : ZoneReport} {tv : Double} (hnan : tv.isNaN = false)
    (h : (Shown.ofTime (localTime zone tv)).Proper) : formatLocal zone tv =
      localText (Shown.ofTime (localTime zone tv)) ((offsetAt zone tv).tdiv msPerMinute) := by
  unfold formatLocal localText datePart
  dsimp only
  rw [hnan, if_neg Bool.false_ne_true, paddedInt_of_nonneg (Int.le_trans (by decide) h.date.1), zonePart_eq]
  simp only [List.append_assoc, List.cons_append]

/-- **The local notation is read**, to the second. -/
theorem reads_localText (h : sh.Proper) {minutes : Int} (hminutes : minutes.natAbs < 1440) :
    Reads named (localText sh minutes) (sh.dateText 0 (some (yearDouble minutes))) [] := by
  have hweek (rest : List Char) :
      Reads weekDayMark ((weekDayNames.getD sh.weekDay "").toList ++ ' ' :: rest) () rest :=
    (reads_weekDayName h.weekDay _).andThen
      ((refuses_char (by decide) _).optionally.andThen (reads_char ' ' rest))
  refine reads_named (hweek _) h ?_ (reads_zoneText hminutes)
  exact (reads_monthFirst h (stopsDigits_cons (by decide) _)).orElse

/-! ## 4. Whole strings -/

/-- Characters that are neither surrogates nor beyond them. -/
def Unpaired (cs : List Char) : Prop := ∀ c ∈ cs, c.toNat < 0xD800

/-- A unit that is no surrogate stands for itself. -/
theorem scalarsOfUnits_cons {u : CodeUnit} (hu : u < 0xD800) (us : List CodeUnit) :
    Text.scalarsOfUnits (u :: us) = .char (Char.ofNat u.toNat) :: Text.scalarsOfUnits us := by
  have hhigh : u.isHighSurrogate = false := by
    unfold CodeUnit.isHighSurrogate CodeUnit.between
    rw [decide_eq_false (UInt16.not_le.mpr hu), Bool.false_and]
  have hsurrogate : u.isSurrogate = false := by
    unfold CodeUnit.isSurrogate CodeUnit.between
    rw [decide_eq_false (UInt16.not_le.mpr hu), Bool.false_and]
  cases us with
  | nil =>
    unfold Text.scalarsOfUnits
    rw [hsurrogate]
    rfl
  | cons v us =>
    rw [Text.scalarsOfUnits, hhigh, hsurrogate]
    rfl

/-- A text of such characters shows them. -/
theorem chars_ofChars {cs : List Char} (h : Unpaired cs) : (Text.ofChars cs).chars = cs := by
  have hscalars : Text.scalarsOfUnits (Text.asUnits cs) = cs.map .char := by
    induction cs with
    | nil => rfl
    | cons c cs ih =>
      have hc := h c List.mem_cons_self
      have hnat : (c.toNat.toUInt16 : CodeUnit).toNat = c.toNat := Nat.mod_eq_of_lt (Nat.lt_trans hc (by decide))
      have hlt : (c.toNat.toUInt16 : CodeUnit) < 0xD800 := UInt16.lt_iff_toNat_lt.mpr (hnat.symm ▸ hc)
      have hfirst := scalarsOfUnits_cons hlt (Text.asUnits cs)
      rw [hnat, Char.ofNat_toNat, ih fun d hd => h d (List.mem_cons_of_mem c hd)] at hfirst
      exact hfirst
  unfold Text.chars Text.scalars
  rw [Text.toList_ofChars fun c hc => Nat.lt_trans (h c hc) (by decide), hscalars, List.map_map]
  exact List.map_id cs

/-- Nothing is stripped from characters that have no blank at their ends. -/
theorem strip_eq {first mid last : List Char} (hfirst : first ≠ []) (hlast : last ≠ [])
    (hplain : ∀ c ∈ first, isBlank c = false) (hplain' : ∀ c ∈ last, isBlank c = false) :
    (((first ++ mid ++ last).dropWhile isBlank).reverse.dropWhile isBlank).reverse = first ++ mid ++ last := by
  have hkeep {a b : List Char} (hne : a ≠ []) (ha : ∀ c ∈ a, isBlank c = false) :
      (a ++ b).dropWhile isBlank = a ++ b := by
    cases a with
    | nil => exact absurd rfl hne
    | cons c a => exact List.dropWhile_cons_of_neg (Bool.eq_false_iff.mp (ha c List.mem_cons_self))
  rw [List.append_assoc, hkeep hfirst hplain, ← List.append_assoc, List.reverse_append,
    hkeep (by rwa [Ne, List.reverse_eq_nil_iff]) fun c hc => hplain' c (List.mem_reverse.mp hc),
    ← List.reverse_append, List.reverse_reverse]

theorem unpaired_append {a b : List Char} : Unpaired (a ++ b) ↔ Unpaired a ∧ Unpaired b := List.forall_mem_append

theorem unpaired_cons {c : Char} {a : List Char} : Unpaired (c :: a) ↔ c.toNat < 0xD800 ∧ Unpaired a :=
  List.forall_mem_cons

/-- A digit is no blank and no surrogate. -/
theorem plain_of_isDigit {c : Char} (h : c.isDigit = true) : isBlank c = false ∧ c.toNat < 0xD800 := by
  have hall : ∀ n < 58, 48 ≤ n → isBlank (Char.ofNat n) = false := by decide
  obtain ⟨hlow, hhigh⟩ := Char.isDigit_iff_toNat.mp h
  have hlow : 48 ≤ c.toNat := hlow
  have hhigh : c.toNat ≤ 57 := hhigh
  have hblank := hall c.toNat (by omega) hlow
  rw [Char.ofNat_toNat] at hblank
  exact ⟨hblank, by omega⟩

theorem unpaired_padded (width n : Nat) : Unpaired (padded width n) :=
  fun c hc => (plain_of_isDigit (isDigit_of_mem_padded c hc)).2

theorem unpaired_clockPart (sh : Shown) : Unpaired (clockPart sh) := by
  rw [← List.append_nil (clockPart sh), clockPart_append]
  simp only [unpaired_append, unpaired_cons, unpaired_padded, true_and]
  exact ⟨by decide, by decide, nofun⟩

theorem plain_weekDayName {k : Nat} (hk : k < 7) : (weekDayNames.getD k "").toList ≠ [] ∧
    ∀ c ∈ (weekDayNames.getD k "").toList, isBlank c = false ∧ c.toNat < 0xD800 := by
  have hall : ∀ k < 7, (weekDayNames.getD k "").toList ≠ [] ∧
      ∀ c ∈ (weekDayNames.getD k "").toList, isBlank c = false ∧ c.toNat < 0xD800 := by decide
  exact hall k hk

theorem unpaired_monthName {k : Nat} (hk : k < 12) : Unpaired (monthNames.getD k "").toList := by
  have hall : ∀ k < 12, ∀ c ∈ (monthNames.getD k "").toList, c.toNat < 0xD800 := by decide
  exact hall k hk

theorem unpaired_yearChars (y : Int) : Unpaired (yearChars y) := by
  unfold yearChars
  split
  · exact unpaired_padded _ _
  · exact unpaired_cons.mpr ⟨by decide, unpaired_padded _ _⟩

/-- The year of the ISO notation begins with a digit or a sign. -/
theorem plain_isoYearChars (sh : Shown) :
    isoYearChars sh true ≠ [] ∧ ∀ c ∈ isoYearChars sh true, isBlank c = false ∧ c.toNat < 0xD800 := by
  have hdigits (width n : Nat) : ∀ c ∈ padded width n, isBlank c = false ∧ c.toNat < 0xD800 :=
    fun c hc => plain_of_isDigit (isDigit_of_mem_padded c hc)
  unfold isoYearChars
  split
  · exact ⟨padded_ne_nil, hdigits _ _⟩
  · refine ⟨List.cons_ne_nil _ _, List.forall_mem_cons.mpr ⟨?_, hdigits _ _⟩⟩
    split <;> decide

/-- **A whole string is read as its characters are**, if it has no blanks at its ends. -/
theorem read?_ofChars {first mid last : List Char} {d : DateText}
    (hfirst : first ≠ [] ∧ ∀ c ∈ first, isBlank c = false ∧ c.toNat < 0xD800)
    (hlast : last ≠ [] ∧ ∀ c ∈ last, isBlank c = false ∧ c.toNat < 0xD800) (hmid : Unpaired mid)
    (hread : Reads (iso <|> named) (first ++ mid ++ last) d []) (hrange : d.inRange = true) :
    read? (Text.ofChars (first ++ mid ++ last)) = some d := by
  have hends : Unpaired first ∧ Unpaired last := ⟨fun c hc => (hfirst.2 c hc).2, fun c hc => (hlast.2 c hc).2⟩
  have hunpaired : Unpaired (first ++ mid ++ last) :=
    unpaired_append.mpr ⟨unpaired_append.mpr ⟨hends.1, hmid⟩, hends.2⟩
  unfold read?
  dsimp only
  rw [chars_ofChars hunpaired, strip_eq hfirst.1 hlast.1 (fun c hc => (hfirst.2 c hc).1) fun c hc => (hlast.2 c hc).1,
    hread]
  exact if_pos hrange

/-- The fields of an instant are within the ranges of a date string. -/
theorem inRange_dateText (h : sh.Proper) (ms : Nat) (offset : Option Double) :
    (sh.dateText ms offset).inRange = true := by
  obtain ⟨-, hmonth, hdate, -, hhour, hminute, hsecond, -⟩ := h
  unfold inRange Shown.dateText
  simp only [Bool.and_eq_true, Bool.or_eq_true, decide_eq_true_iff, beq_iff_eq]
  omega

theorem read?_isoText (h : sh.Proper) :
    read? (Text.ofChars (isoText sh)) = some (sh.dateText sh.ms (some .zero)) := by
  have hsplit : isoText sh = isoYearChars sh true ++ '-' :: (padded 2 (sh.month + 1) ++ '-' ::
      (padded 2 sh.date.toNat ++ 'T' :: (clockPart sh ++ '.' :: padded 3 sh.ms))) ++ ['Z'] := by
    unfold isoText
    simp only [List.append_assoc, List.cons_append]
  have hread := (reads_isoText h).orElse (q := named)
  rw [hsplit] at hread ⊢
  refine read?_ofChars (plain_isoYearChars sh) (by decide) ?_ hread (inRange_dateText h _ _)
  simp only [unpaired_append, unpaired_cons, unpaired_padded, unpaired_clockPart, and_true]
  decide

theorem read?_utcText (h : sh.Proper) :
    read? (Text.ofChars (utcText sh)) = some (sh.dateText 0 (some .zero)) := by
  have hsplit : utcText sh = (weekDayNames.getD sh.weekDay "").toList ++ ',' :: ' ' :: (padded 2 sh.date.toNat ++
      ' ' :: ((monthNames.getD sh.month "").toList ++ ' ' :: (yearChars sh.year ++
        ' ' :: (clockPart sh ++ [' '])))) ++ "GMT".toList := by
    unfold utcText
    simp only [List.append_assoc, List.cons_append, List.nil_append]
  have hread : Reads (iso <|> named) (utcText sh) (sh.dateText 0 (some .zero)) [] :=
    (Refuses.orElse (refuses_iso h.weekDay _)).trans (reads_utcText h)
  rw [hsplit] at hread ⊢
  refine read?_ofChars (plain_weekDayName h.weekDay) (by decide) ?_ hread (inRange_dateText h _ _)
  simp only [unpaired_append, unpaired_cons, unpaired_padded, unpaired_clockPart, unpaired_monthName h.month,
    unpaired_yearChars, true_and]
  exact ⟨by decide, by decide, by decide, by decide, by decide, by decide, nofun⟩

theorem read?_localText (h : sh.Proper) {minutes : Int} (hminutes : minutes.natAbs < 1440) :
    read? (Text.ofChars (localText sh minutes)) = some (sh.dateText 0 (some (yearDouble minutes))) := by
  have hsplit : localText sh minutes = (weekDayNames.getD sh.weekDay "").toList ++ ' ' ::
      ((monthNames.getD sh.month "").toList ++ ' ' :: (padded 2 sh.date.toNat ++ ' ' :: (yearChars sh.year ++ ' ' ::
        (clockPart sh ++ ' ' :: ("GMT".toList ++ (if minutes < 0 then '-' else '+') ::
          padded 2 (minutes.natAbs / 60)))))) ++ padded 2 (minutes.natAbs % 60) := by
    unfold localText zoneText
    simp only [List.append_assoc, List.cons_append]
  have hread : Reads (iso <|> named) (localText sh minutes) (sh.dateText 0 (some (yearDouble minutes))) [] :=
    (Refuses.orElse (refuses_iso h.weekDay _)).trans (reads_localText h hminutes)
  have hsign : (if minutes < 0 then '-' else '+').toNat < 0xD800 := by split <;> decide
  have hworld : Unpaired "GMT".toList := by
    unfold Unpaired
    decide
  rw [hsplit] at hread ⊢
  refine read?_ofChars (plain_weekDayName h.weekDay)
    ⟨padded_ne_nil, fun c hc => plain_of_isDigit (isDigit_of_mem_padded c hc)⟩ ?_ hread (inRange_dateText h _ _)
  simp only [unpaired_append, unpaired_cons, unpaired_padded, unpaired_clockPart, unpaired_monthName h.month,
    unpaired_yearChars, hsign, hworld, and_true, true_and]
  decide

end DateText

/-! ## 5. Time values -/

section TimeValues

variable {zone : ZoneReport} {x : Double} {minutes : Int}

/-- The instant of the fields that were read. -/
theorem makeDate_dateText (ht : NearTime t) {ms : Nat} (hms : ms < 1000) (offset : Option Double) :
    let d := (Shown.ofTime (ofInt t)).dateText ms offset
    makeDate (makeDay d.year (.ofInt d.month) (.ofNat d.date))
        (makeTime (.ofNat d.hour) (.ofNat d.minute) (.ofNat d.second) (.ofNat d.ms)) =
      ofInt (t - msFromTime t + ms) := by
  intro d
  have hyear := ht.nearYear
  have hdate := isDate_fields t
  have hclock := isClock_fields t
  have hclock' : IsClock (hourFromTime t) (minuteFromTime t) (secondFromTime t) ms :=
    ⟨hclock.hour, hclock.minute, hclock.second, Int.natCast_nonneg ms, by omega⟩
  have hnat {i : Int} (hi : 0 ≤ i) : (ofNat i.toNat).Denotes i := by
    have h := denotes_ofNat i.toNat
    rwa [Int.toNat_of_nonneg hi] at h
  have hinstant := instantOf_fields t
  have hvalue : instantOf (yearFromTime t) (monthFromTime t) (dateFromTime t) (hourFromTime t) (minuteFromTime t)
      (secondFromTime t) ms = t - msFromTime t + ms := by
    unfold instantOf clockOf at hinstant ⊢
    omega
  show makeDate (makeDay d.year _ _) _ = _
  unfold d
  rw [Shown.ofTime_ofInt ht.lt]
  unfold Shown.dateText
  dsimp only
  have hyear' : (yearFromTime t).natAbs ≤ 2 ^ 53 := Nat.le_trans hyear (by decide)
  rw [← hvalue]
  exact makeDate_exact (DateText.denotes_yearDouble hyear') (denotes_ofInt _)
    (hnat (Int.le_trans Int.one_nonneg hdate.one_le)) (hnat hclock.hour.1) (hnat hclock.minute.1)
    (hnat hclock.second.1) (denotes_ofNat ms) hyear hdate hclock'

/-- The time value of a string with an offset, which is taken off the local time. -/
theorem parseDate_of_read? {text : Text} (reader : ZoneReport) (ht : NearTime t) {ms : Nat} (hms : ms < 1000)
    {offset : Double} (hoffset : offset.Denotes minutes) (hminutes : minutes.natAbs < 1440)
    (hread : DateText.read? text = some ((Shown.ofTime (ofInt t)).dateText ms (some offset)))
    (hrange : (t - msFromTime t + ms - minutes * msPerMinute).natAbs ≤ 8640000000000000) :
    parseDate reader text = ofInt (t - msFromTime t + ms - minutes * msPerMinute) := by
  have hms' := (isClock_fields t).ms
  have hshift : (offset * ofInt msPerMinute).Denotes (minutes * msPerMinute) := by
    unfold msPerMinute
    exact hoffset.mul (denotes_ofInt _) (by omega) (by decide) (by omega)
  unfold parseDate
  rw [hread]
  show timeClip (makeDate _ _ - offset * ofInt msPerMinute) = _
  rw [makeDate_dateText ht hms (some offset)]
  unfold NearTime at ht
  unfold msPerMinute at hshift hrange ⊢
  rw [ofInt_sub hshift (by omega) (by omega) (by omega)]
  exact timeClip_ofInt hrange

/-- The ISO notation is read back, whole. -/
theorem parseDate_formatIso (ht : t.natAbs ≤ 8640000000000000) (reader : ZoneReport) :
    parseDate reader (Text.ofChars (formatIso (ofInt t))) = ofInt t := by
  have hnear : NearTime t := Nat.le_trans ht (by decide)
  have hproper := hnear.proper
  have hms := (isClock_fields t).ms
  have hall : t - msFromTime t + ((Shown.ofTime (ofInt t)).ms : Nat) - 0 * msPerMinute = t := by
    rw [Shown.ofTime_ofInt hnear.lt]
    unfold msPerMinute
    dsimp only
    omega
  have hzero : Double.zero.Denotes 0 := .inl rfl
  rw [DateText.formatIso_eq ((denotes_ofInt t).isFinite hnear.lt) hproper]
  have hread := parseDate_of_read? reader hnear hproper.ms hzero (by decide) (DateText.read?_isoText hproper)
  rw [hall] at hread
  exact hread ht

/-- The notation of world time is read back without the milliseconds. -/
theorem parseDate_formatUtc (ht : t.natAbs ≤ 8640000000000000) (reader : ZoneReport) :
    parseDate reader (Text.ofChars (formatUtc (ofInt t))) = ofInt (t / 1000 * 1000) := by
  have hnear : NearTime t := Nat.le_trans ht (by decide)
  have hproper := hnear.proper
  have hsecond : t - msFromTime t + (0 : Nat) - 0 * msPerMinute = t / 1000 * 1000 := by
    unfold msFromTime msPerSecond msPerMinute
    omega
  have hzero : Double.zero.Denotes 0 := .inl rfl
  rw [DateText.formatUtc_eq ((denotes_ofInt t).isNaN hnear.lt) hproper]
  have hread := parseDate_of_read? reader hnear (by decide) hzero (by decide) (DateText.read?_utcText hproper)
  rw [hsecond] at hread
  exact hread (by omega)

/-- The notation of local time is read back without the milliseconds: the offset that is written is the one that was
applied, whether or not the zone reports one for the instant. -/
theorem parseDate_formatLocal (hminutes : minutes.natAbs < 1440) (hzone : HasOffset zone (minutes * msPerMinute))
    (ht : t.natAbs ≤ 8640000000000000) (reader : ZoneReport) :
    parseDate reader (Text.ofChars (formatLocal zone (ofInt t))) = ofInt (t / 1000 * 1000) := by
  have hnear : NearTime t := Nat.le_trans ht (by decide)
  have hoffset : ∃ k : Int, shiftAt zone t = k * msPerMinute ∧ k.natAbs < 1440 := by
    rcases hzone.shiftAt_cases t with hshift | hshift
    · exact ⟨0, hshift.trans (Int.zero_mul _).symm, by decide⟩
    · exact ⟨minutes, hshift, hminutes⟩
  obtain ⟨k, hk, hday⟩ := hoffset
  have hlocal : localTime zone (ofInt t) = ofInt (t + k * msPerMinute) := hk ▸ hzone.localTime_ofInt hnear
  have hwritten : (offsetAt zone (ofInt t)).tdiv msPerMinute = k := by
    rw [offsetAt_of_denotes (denotes_ofInt t) hnear.lt, hk]
    exact Int.mul_tdiv_cancel k (by decide)
  have hnear' : NearTime (t + k * msPerMinute) := by
    unfold NearTime msPerMinute
    omega
  have hsecond : t + k * msPerMinute - msFromTime (t + k * msPerMinute) + (0 : Nat) - k * msPerMinute =
      t / 1000 * 1000 := by
    unfold msFromTime msPerSecond msPerMinute
    omega
  have hyear : (DateText.yearDouble k).Denotes k :=
    DateText.denotes_yearDouble (Nat.le_of_lt (Nat.lt_trans hday (by decide)))
  have hformat : formatLocal zone (ofInt t) = _ :=
    DateText.formatLocal_eq ((denotes_ofInt t).isNaN hnear.lt) (by rw [hlocal]; exact hnear'.proper)
  rw [hlocal, hwritten] at hformat
  have hread := parseDate_of_read? reader hnear' (by decide) hyear hday
    (DateText.read?_localText hnear'.proper hday)
  rw [hsecond] at hread
  rw [hformat]
  exact hread (by omega)

/-- **The texts of a time value are read back**, in whatever zone they are read: the ISO notation as the time value,
the notations of world time and of local time as the time value rounded down to a second. -/
theorem dates_readBack (hminutes : minutes.natAbs < 1440) (hzone : HasOffset zone (minutes * msPerMinute))
    (ht : t.natAbs ≤ 8640000000000000) (reader : ZoneReport) :
    parseDate reader (Text.ofChars (formatIso (ofInt t))) = ofInt t ∧
    parseDate reader (Text.ofChars (formatUtc (ofInt t))) = ofInt (t / 1000 * 1000) ∧
    parseDate reader (Text.ofChars (formatLocal zone (ofInt t))) = ofInt (t / 1000 * 1000) :=
  ⟨parseDate_formatIso ht reader, parseDate_formatUtc ht reader, parseDate_formatLocal hminutes hzone ht reader⟩

end TimeValues

/-- A millisecond after the first of all time values, which is in a year before the common era, and an instant of a
year with four digits; the zones are an hour east and two and a half hours west of world time. -/
theorem dates_readBack_early :
    (parseDate hourEast (Text.ofChars (formatIso (ofInt (-8639999999999999)))) = ofInt (-8639999999999999) ∧
      parseDate hourEast (Text.ofChars (formatUtc (ofInt (-8639999999999999)))) = ofInt (-8640000000000000) ∧
      parseDate hourEast (Text.ofChars (formatLocal hourEast (ofInt (-8639999999999999)))) =
        ofInt (-8640000000000000)) ∧
    parseDate Zone.universal (Text.ofChars (formatLocal (Zone.mk (-150)) (ofInt 1234567890123))) =
      ofInt 1234567890000 := by
  have hhour : HasOffset hourEast (60 * msPerMinute) := ⟨by decide, fun _ _ h => (Option.some.inj h).symm⟩
  have hwest : HasOffset (Zone.mk (-150)).report (-150 * msPerMinute) := hasOffset_report (by decide)
  exact ⟨dates_readBack (by decide) hhour (by decide) hourEast,
    (dates_readBack (by decide) hwest (by decide) Zone.universal.report).2.2⟩

end Calendar

end Ecma51
