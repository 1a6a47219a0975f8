import Mathlib.Data.List.TakeWhile
import Ecma51.Proofs.JsonParts
import Ecma51.Proofs.NumericGrammar

/-!
# Reading numbers in text

The reader of decimal literals stops where the expression for them stops, and this is the longest literal that the
grammar has at the start of the text: neither the order of the alternatives nor the greed of the repetitions loses
one.

* `DecimalLiteral.read?_sound`: what is read is spelled.
* `SpellsDecimal.read?_eq`: a literal that is the whole text is read.
* **`SpellsDecimal.read?_longest`**: no literal at the start is longer than the one that is read.
* **`Peg.gives_decimal`**: the expression for decimal literals matches what is read.
* **`Peg.gives_numeral`**: the expression for numbers matches the hexadecimal and the decimal literals that are the
  whole text.
-/

namespace Ecma51

open Json

namespace DecimalLiteral

/-! ## 1. What is split off -/

theorem stops_splitDigits (us : List CodeUnit) : StopsDigits (splitDigits us).2 := by
  induction us with
  | nil => nofun
  | cons u us ih =>
    cases hu : u.isDecimalDigit with
    | true =>
      rw [splitDigits_cons us hu]
      exact ih
    | false =>
      have hstops : StopsDigits (u :: us) := fun v hv => Option.some.inj hv ▸ hu
      rw [splitDigits_eq_nil hstops]
      exact hstops

theorem length_splitDigits_le (us : List CodeUnit) : (splitDigits us).2.length ≤ us.length :=
  (List.dropWhile_suffix _).length_le

/-- Splitting goes on in what follows some of the digits. -/
theorem snd_splitDigits {ds : List Nat} {us rest : List CodeUnit} (h : Digits ds us rest) :
    (splitDigits us).2 = (splitDigits rest).2 := by
  induction h with
  | last hu => rw [splitDigits_cons _ hu]
  | more hu _ ih => rw [splitDigits_cons _ hu, ih]

theorem isEmpty_splitDigits {ds : List Nat} {us rest : List CodeUnit} (h : Digits ds us rest) :
    (splitDigits us).1.isEmpty = false := by
  cases h with
  | last hu => rw [splitDigits_cons _ hu, List.isEmpty_cons]
  | more hu _ => rw [splitDigits_cons _ hu, List.isEmpty_cons]

/-- Nothing is split off, or the digits are. -/
theorem splitDigits_cases (us : List CodeUnit) : splitDigits us = ([], us) ∧ StopsDigits us ∨
    (splitDigits us).1.isEmpty = false ∧ Digits (splitDigits us).1 us (splitDigits us).2 := by
  rcases splitDigits_sound us with hnone | hsome
  · have hstops := stops_splitDigits us
    rw [hnone] at hstops
    exact .inl ⟨hnone, hstops⟩
  · exact .inr ⟨isEmpty_splitDigits hsome, hsome⟩

/-- A unit that marks an exponent. -/
def IsMark (u : CodeUnit) : Prop := u = 0x65 ∨ u = 0x45

/-- A list of units starts with a mark, or does not. -/
theorem mark_cases (us : List CodeUnit) :
    (∃ u us', us = u :: us' ∧ IsMark u) ∨ ∀ u ∈ us.head?, ¬ IsMark u := by
  cases us with
  | nil => exact .inr nofun
  | cons u us =>
    by_cases hu : IsMark u
    · exact .inl ⟨u, us, rfl, hu⟩
    · exact .inr fun v hv => Option.some.inj hv ▸ hu

theorem splitExponent_eq_none {us : List CodeUnit} (h : ∀ u ∈ us.head?, ¬ IsMark u) : splitExponent us = (0, us) := by
  cases us with
  | nil => rfl
  | cons u us =>
    unfold splitExponent
    dsimp only
    rw [if_neg]
    rw [Bool.or_eq_true, beq_iff_eq, beq_iff_eq]
    exact h u rfl

/-- After a mark, an exponent needs digits. -/
theorem splitExponent_mark {u : CodeUnit} (hu : IsMark u) (us : List CodeUnit) :
    splitExponent (u :: us) =
      if (splitDigits (Double.splitSign us).2).1.isEmpty then (0, u :: us)
      else (Double.signed (Double.splitSign us).1 (Decimal.valueOf (splitDigits (Double.splitSign us).2).1),
        (splitDigits (Double.splitSign us).2).2) := by
  unfold splitExponent
  dsimp only
  rw [if_pos (by rw [Bool.or_eq_true, beq_iff_eq, beq_iff_eq]; exact hu)]
  generalize splitDigits (Double.splitSign us).2 = p
  obtain ⟨ds, rest⟩ := p
  cases ds with
  | nil => rfl
  | cons d ds => rfl

theorem splitExponent_sound (us : List CodeUnit) : Exponent (splitExponent us).1 us (splitExponent us).2 := by
  rcases mark_cases us with ⟨u, us, rfl, hu⟩ | hmark
  · rw [splitExponent_mark hu]
    rcases splitDigits_cases (Double.splitSign us).2 with ⟨hnone, -⟩ | ⟨hsome, hdigits⟩
    · rw [hnone]
      exact .absent
    · rw [if_neg (Bool.eq_false_iff.mp hsome)]
      exact .digits hu (splitSign_sound us) hdigits
  · rw [splitExponent_eq_none hmark]
    exact .absent

theorem length_splitExponent_le (us : List CodeUnit) : (splitExponent us).2.length ≤ us.length := by
  have hsign (us : List CodeUnit) : (Double.splitSign us).2.length ≤ us.length := by
    have hsound := splitSign_sound us
    generalize Double.splitSign us = p at hsound
    obtain ⟨negative, rest⟩ := p
    cases hsound with
    | absent => exact Nat.le_refl _
    | plus => exact Nat.le_succ _
    | minus => exact Nat.le_succ _
  rcases mark_cases us with ⟨u, us, rfl, hu⟩ | hmark
  · rw [splitExponent_mark hu]
    split
    · exact Nat.le_refl _
    · exact ((length_splitDigits_le _).trans (hsign us)).trans (Nat.le_succ _)
  · rw [splitExponent_eq_none hmark]

/-- No exponent is longer than the one that is split off. -/
theorem splitExponent_longest {e : Int} {us rest : List CodeUnit} (h : Exponent e us rest) :
    (splitExponent us).2.length ≤ rest.length := by
  cases h with
  | absent => exact length_splitExponent_le us
  | @digits u negative ds us mid _ hu hsign hds =>
    rw [splitExponent_mark hu, hsign.splitSign_eq hds.head]
    dsimp only
    rw [isEmpty_splitDigits hds, if_neg Bool.false_ne_true, snd_splitDigits hds]
    exact length_splitDigits_le rest

/-- After digits, no exponent reaches further than the one that is split off after all digits. -/
theorem splitExponent_digits_longest {ds : List Nat} {e : Int} {us mid rest : List CodeUnit} (hds : Digits ds us mid)
    (h : Exponent e mid rest) : (splitExponent (splitDigits us).2).2.length ≤ rest.length := by
  rw [snd_splitDigits hds]
  rcases splitDigits_cases mid with ⟨hnone, -⟩ | ⟨-, hdigits⟩
  · rw [hnone]
    exact splitExponent_longest h
  · cases h with
    | absent => exact (length_splitExponent_le _).trans (length_splitDigits_le mid)
    | digits hu _ _ =>
      -- a mark is no digit
      obtain ⟨v, us', hv, hdigit⟩ := hdigits.head
      cases hv
      rcases hu with rfl | rfl <;> cases hdigit

/-- The digits after a point and what follows them, or no digits if there is no point. -/
def splitAfterPoint (us : List CodeUnit) : List Nat × List CodeUnit := (splitFraction us).getD ([], us)

theorem splitAfterPoint_point (us : List CodeUnit) : splitAfterPoint (0x2E :: us) = splitDigits us := rfl

theorem splitAfterPoint_eq_none {us : List CodeUnit} (h : StopsFraction us) : splitAfterPoint us = ([], us) := by
  cases us with
  | nil => rfl
  | cons u us =>
    unfold splitAfterPoint splitFraction
    dsimp only
    rw [if_neg fun hu => h (congrArg some (beq_iff_eq.mp hu))]
    rfl

/-- A list of units starts with a point, or does not. -/
theorem point_cases (us : List CodeUnit) : (∃ us', us = 0x2E :: us') ∨ StopsFraction us := by
  by_cases h : us.head? = some 0x2E
  · exact .inl (List.head?_eq_some_iff.mp h)
  · exact .inr h

theorem length_splitAfterPoint_le (us : List CodeUnit) : (splitAfterPoint us).2.length ≤ us.length := by
  rcases point_cases us with ⟨us', rfl⟩ | hstops
  · exact (length_splitDigits_le us').trans (Nat.le_succ _)
  · rw [splitAfterPoint_eq_none hstops]

/-- Reading a literal that is not infinity. -/
theorem readBody?_eq {us : List CodeUnit} (h : infinityUnits.isPrefixOf us = false) :
    readBody? us =
      if (splitDigits us).1.isEmpty && (splitAfterPoint (splitDigits us).2).1.isEmpty then none
      else some (.digits (splitDigits us).1 (splitAfterPoint (splitDigits us).2).1
          (splitExponent (splitAfterPoint (splitDigits us).2).2).1,
        (splitExponent (splitAfterPoint (splitDigits us).2).2).2) := by
  unfold readBody?
  rw [h, if_neg Bool.false_ne_true]
  rfl

/-! ## 2. What is read is spelled -/

theorem readBody?_sound {us rest : List CodeUnit} {b : DecimalBody} (h : readBody? us = some (b, rest)) :
    SpellsBody b us rest := by
  cases hword : infinityUnits.isPrefixOf us with
  | true =>
    obtain ⟨more, rfl⟩ := List.isPrefixOf_iff_prefix.mp hword
    unfold readBody? at h
    rw [hword, if_pos rfl, List.drop_left] at h
    cases h
    exact .infinity
  | false =>
    rw [readBody?_eq hword] at h
    rcases splitDigits_cases us with ⟨hnone, -⟩ | ⟨hsome, hdigits⟩
    · rw [hnone] at h
      dsimp only at h
      rcases point_cases us with ⟨us', rfl⟩ | hstops
      · rw [splitAfterPoint_point] at h
        rcases splitDigits_cases us' with ⟨hnone', -⟩ | ⟨hsome', hdigits'⟩
        · rw [hnone'] at h
          cases h
        · rw [hsome', Bool.and_false, if_neg Bool.false_ne_true] at h
          cases h
          exact .fraction hdigits' (splitExponent_sound _)
      · rw [splitAfterPoint_eq_none hstops] at h
        cases h
    · rw [hsome, Bool.false_and, if_neg Bool.false_ne_true] at h
      cases h
      rcases point_cases (splitDigits us).2 with ⟨us', hpoint⟩ | hstops
      · rw [hpoint] at hdigits
        rw [hpoint, splitAfterPoint_point]
        refine .pointed hdigits ?_ (splitExponent_sound _)
        rcases splitDigits_cases us' with ⟨hnone', -⟩ | ⟨-, hdigits'⟩
        · rw [hnone']
          exact .none
        · exact .some hdigits'
      · rw [splitAfterPoint_eq_none hstops]
        exact .whole hdigits (splitExponent_sound _)

/-- **What is read is spelled.** -/
theorem read?_sound {us rest : List CodeUnit} {l : DecimalLiteral} (h : read? us = some (l, rest)) :
    SpellsDecimal l us rest := by
  obtain ⟨⟨b, rest'⟩, hbody, heq⟩ := Option.map_eq_some_iff.mp h
  cases heq
  exact ⟨_, splitSign_sound us, readBody?_sound hbody⟩

end DecimalLiteral

/-! ## 3. What is spelled is read -/

open DecimalLiteral

/-- A body starts with the word for infinity, or with a digit or a point. -/
theorem SpellsBody.head {b : DecimalBody} {us rest : List CodeUnit} (h : SpellsBody b us rest) :
    b = .infinity ∧ us = infinityUnits ++ rest ∨
      ∃ u us', us = u :: us' ∧ (u.isDecimalDigit = true ∨ u = 0x2E) := by
  have hdigits {ds : List Nat} {us rest : List CodeUnit} (hds : Digits ds us rest) :
      ∃ u us', us = u :: us' ∧ (u.isDecimalDigit = true ∨ u = 0x2E) := by
    obtain ⟨u, us', rfl, hu⟩ := hds.head
    exact ⟨u, us', rfl, .inl hu⟩
  cases h with
  | infinity => exact .inl ⟨rfl, rfl⟩
  | pointed hds _ _ => exact .inr (hdigits hds)
  | fraction _ _ => exact .inr ⟨_, _, rfl, .inr rfl⟩
  | whole hds _ => exact .inr (hdigits hds)

theorem infinityUnits_eq : infinityUnits = [0x49, 0x6E, 0x66, 0x69, 0x6E, 0x69, 0x74, 0x79] := by decide

/-- The word for infinity starts with neither a digit nor a point. -/
theorem not_infinity {u : CodeUnit} (hu : u.isDecimalDigit = true ∨ u = 0x2E) (us : List CodeUnit) :
    infinityUnits.isPrefixOf (u :: us) = false := by
  have hne : (0x49 : CodeUnit) ≠ u := by
    rcases hu with hu | rfl
    · exact (ne_of_isDecimalDigit hu (by decide)).symm
    · decide
  rw [infinityUnits_eq, List.isPrefixOf_cons_cons, beq_false_of_ne hne, Bool.false_and]

theorem isPrefixOf_infinity (rest : List CodeUnit) : infinityUnits.isPrefixOf (infinityUnits ++ rest) = true :=
  List.isPrefixOf_iff_prefix.mpr (List.prefix_append _ _)

theorem readBody?_infinity (rest : List CodeUnit) : readBody? (infinityUnits ++ rest) = some (.infinity, rest) := by
  unfold readBody?
  rw [isPrefixOf_infinity, if_pos rfl, List.drop_left]

theorem SpellsBody.not_infinity {b : DecimalBody} {us rest : List CodeUnit} (h : SpellsBody b us rest)
    (hb : b ≠ .infinity) : infinityUnits.isPrefixOf us = false := by
  rcases h.head with ⟨hinfinity, -⟩ | ⟨u, us', rfl, hu⟩
  · exact absurd hinfinity hb
  · exact Ecma51.not_infinity hu us'

/-- **No literal at the start is longer than the one that is read.** -/
theorem SpellsBody.readBody?_longest {b : DecimalBody} {us rest : List CodeUnit} (h : SpellsBody b us rest) :
    ∃ b' rest', readBody? us = some (b', rest') ∧ rest'.length ≤ rest.length := by
  cases h with
  | infinity => exact ⟨_, _, readBody?_infinity rest, Nat.le_refl _⟩
  | @pointed whole fraction exponent _ us₁ us₂ _ hds hfraction hexponent =>
    have hword := (SpellsBody.pointed hds hfraction hexponent).not_infinity nofun
    have hstops : StopsDigits (0x2E :: us₁) := fun v hv => Option.some.inj hv ▸ rfl
    have hsplit := hds.splitDigits_eq hstops
    rw [readBody?_eq hword, isEmpty_splitDigits hds, Bool.false_and, if_neg Bool.false_ne_true]
    refine ⟨_, _, rfl, ?_⟩
    rw [hsplit]
    dsimp only
    rw [splitAfterPoint_point]
    cases hfraction with
    | some hds' => exact splitExponent_digits_longest hds' hexponent
    | none =>
      cases hexponent with
      | absent => exact (length_splitExponent_le _).trans (length_splitDigits_le _)
      | digits hu hsign hds' =>
        rw [splitDigits_eq_nil fun v hv => by cases hv; rcases hu with rfl | rfl <;> rfl]
        exact splitExponent_longest (.digits hu hsign hds')
  | @fraction fraction exponent us us₁ _ hds hexponent =>
    have hword := (SpellsBody.fraction hds hexponent).not_infinity nofun
    have hsplit : splitDigits (0x2E :: us) = ([], 0x2E :: us) :=
      splitDigits_eq_nil fun v hv => Option.some.inj hv ▸ rfl
    rw [readBody?_eq hword, hsplit]
    dsimp only
    rw [splitAfterPoint_point, isEmpty_splitDigits hds, Bool.and_false, if_neg Bool.false_ne_true]
    exact ⟨_, _, rfl, splitExponent_digits_longest hds hexponent⟩
  | @whole whole exponent _ us₁ _ hds hexponent =>
    have hword := (SpellsBody.whole hds hexponent).not_infinity nofun
    rw [readBody?_eq hword, isEmpty_splitDigits hds, Bool.false_and, if_neg Bool.false_ne_true]
    refine ⟨_, _, rfl, ?_⟩
    rcases point_cases (splitDigits us).2 with ⟨us', hpoint⟩ | hstops
    · -- what follows the digits is no exponent
      have hlong : (splitDigits us).2.length ≤ rest.length := by
        have hrest := splitExponent_digits_longest hds hexponent
        rwa [splitExponent_eq_none] at hrest
        rw [hpoint]
        rintro v hv (rfl | rfl) <;> cases hv
      exact ((length_splitExponent_le _).trans (length_splitAfterPoint_le _)).trans hlong
    · rw [splitAfterPoint_eq_none hstops]
      exact splitExponent_digits_longest hds hexponent

/-- What follows a sign is no sign. -/
theorem splitSign_body {b : DecimalBody} {us rest : List CodeUnit} (h : SpellsBody b us rest) :
    Double.splitSign us = (false, us) := by
  have hhead : ∃ u us', us = u :: us' ∧ u ≠ 0x2D ∧ u ≠ 0x2B := by
    rcases h.head with ⟨-, rfl⟩ | ⟨u, us', rfl, hu⟩
    · rw [infinityUnits_eq]
      exact ⟨_, _, rfl, by decide, by decide⟩
    · refine ⟨u, us', rfl, ?_⟩
      rcases hu with hu | rfl
      · exact ⟨ne_of_isDecimalDigit hu (by decide), ne_of_isDecimalDigit hu (by decide)⟩
      · exact ⟨by decide, by decide⟩
  obtain ⟨u, us', rfl, hminus, hplus⟩ := hhead
  unfold Double.splitSign
  dsimp only
  rw [if_neg fun h => hminus (beq_iff_eq.mp h), if_neg fun h => hplus (beq_iff_eq.mp h)]

theorem splitSign_of_spells {negative : Bool} {b : DecimalBody} {us us₁ rest : List CodeUnit}
    (hsign : Sign negative us us₁) (hbody : SpellsBody b us₁ rest) : Double.splitSign us = (negative, us₁) := by
  cases hsign with
  | absent => exact splitSign_body hbody
  | plus => rfl
  | minus => rfl

/-- **No literal at the start is longer than the one that is read.** -/
theorem SpellsDecimal.read?_longest {l : DecimalLiteral} {us rest : List CodeUnit} (h : SpellsDecimal l us rest) :
    ∃ l' rest', read? us = some (l', rest') ∧ rest'.length ≤ rest.length := by
  obtain ⟨us₁, hsign, hbody⟩ := h
  obtain ⟨b', rest', hread, hle⟩ := hbody.readBody?_longest
  refine ⟨⟨l.negative, b'⟩, rest', ?_, hle⟩
  unfold read?
  rw [splitSign_of_spells hsign hbody]
  dsimp only
  rw [hread]
  rfl

/-! ## 4. Whole texts -/

theorem stops_of_exponent {e : Int} {us : List CodeUnit} (h : Exponent e us []) :
    StopsDigits us ∧ StopsFraction us := by
  cases h with
  | absent => exact ⟨nofun, nofun⟩
  | digits hu _ _ =>
    rcases hu with rfl | rfl
    · exact ⟨fun u hu => Option.some.inj hu ▸ rfl, nofun⟩
    · exact ⟨fun u hu => Option.some.inj hu ▸ rfl, nofun⟩

theorem splitExponent_of_exponent {e : Int} {us : List CodeUnit} (h : Exponent e us []) :
    splitExponent us = (e, []) := by
  cases h with
  | absent => rfl
  | digits hu hsign hds =>
    rw [splitExponent_mark hu, hsign.splitSign_eq hds.head]
    dsimp only
    rw [hds.splitDigits_eq nofun]
    cases hds with
    | last _ => rfl
    | more _ _ => rfl

/-- A literal without its sign that is a whole text is read. -/
theorem SpellsBody.readBody?_eq {b : DecimalBody} {us : List CodeUnit} (h : SpellsBody b us []) :
    readBody? us = some (b, []) := by
  cases h with
  | infinity => exact readBody?_infinity []
  | pointed hds hfraction hexponent =>
    obtain ⟨hstops, -⟩ := stops_of_exponent hexponent
    have hsome := isEmpty_splitDigits hds
    rw [DecimalLiteral.readBody?_eq ((SpellsBody.pointed hds hfraction hexponent).not_infinity nofun), hsome,
      Bool.false_and, if_neg Bool.false_ne_true, hds.splitDigits_eq fun v hv => Option.some.inj hv ▸ rfl]
    dsimp only
    rw [splitAfterPoint_point]
    cases hfraction with
    | none => rw [splitDigits_eq_nil hstops, splitExponent_of_exponent hexponent]
    | some hds' => rw [hds'.splitDigits_eq hstops, splitExponent_of_exponent hexponent]
  | @fraction _ _ us _ _ hds hexponent =>
    obtain ⟨hstops, -⟩ := stops_of_exponent hexponent
    have hsome := isEmpty_splitDigits hds
    have hsplit : splitDigits (0x2E :: us) = ([], 0x2E :: us) :=
      splitDigits_eq_nil fun v hv => Option.some.inj hv ▸ rfl
    rw [DecimalLiteral.readBody?_eq ((SpellsBody.fraction hds hexponent).not_infinity nofun), hsplit]
    dsimp only
    rw [splitAfterPoint_point, hsome, Bool.and_false, if_neg Bool.false_ne_true, hds.splitDigits_eq hstops,
      splitExponent_of_exponent hexponent]
  | whole hds hexponent =>
    obtain ⟨hdigits, hpoint⟩ := stops_of_exponent hexponent
    have hsome := isEmpty_splitDigits hds
    rw [DecimalLiteral.readBody?_eq ((SpellsBody.whole hds hexponent).not_infinity nofun), hsome,
      Bool.false_and, if_neg Bool.false_ne_true, hds.splitDigits_eq hdigits]
    dsimp only
    rw [splitAfterPoint_eq_none hpoint, splitExponent_of_exponent hexponent]

/-- **A literal that is a whole text is read.** -/
theorem SpellsDecimal.read?_eq {l : DecimalLiteral} {us : List CodeUnit} (h : SpellsDecimal l us []) :
    read? us = some (l, []) := by
  obtain ⟨us₁, hsign, hbody⟩ := h
  unfold read?
  rw [splitSign_of_spells hsign hbody]
  dsimp only
  rw [hbody.readBody?_eq]
  rfl

/-! ## 5. The expressions -/

namespace Peg

theorem gives_many_unit (p : CodeUnit → Bool) (us : List CodeUnit) :
    Gives (.many (.unit p)) us (some (us.dropWhile p)) := by
  induction us with
  | nil => exact .enough (.notUnit nofun)
  | cons u us ih =>
    cases hu : p u with
    | true =>
      rw [List.dropWhile_cons_of_pos hu]
      exact .again (.unit hu) ih
    | false =>
      rw [List.dropWhile_cons_of_neg (Bool.eq_false_iff.mp hu)]
      exact .enough (.notUnit fun v hv => Option.some.inj hv ▸ hu)

theorem gives_word_cons (u : CodeUnit) (rest : List CodeUnit) : Gives (.word [u]) (u :: rest) (some rest) :=
  .word (w := [u])

theorem gives_not_word_cons {u : CodeUnit} {us : List CodeUnit} (h : us.head? ≠ some u) :
    Gives (.word [u]) us none := by
  refine .notWord fun ⟨rest, hrest⟩ => h ?_
  rw [← hrest]
  rfl

theorem gives_digits {ds : List Nat} {us rest : List CodeUnit} (h : Digits ds us rest) :
    Gives digits us (some (splitDigits us).2) := by
  obtain ⟨u, us', rfl, hu⟩ := h.head
  rw [splitDigits_cons us' hu]
  exact .seq (.unit hu) (gives_many_unit _ us')

theorem gives_no_digits {us : List CodeUnit} (h : StopsDigits us) : Gives digits us none := .notSeq (.notUnit h)

theorem gives_optional_sign (us : List CodeUnit) : Gives (.optional sign) us (some (Double.splitSign us).2) := by
  cases us with
  | nil => exact .missing (.second (gives_not_word_cons nofun) (gives_not_word_cons nofun))
  | cons u us =>
    unfold Double.splitSign
    dsimp only
    split
    · rename_i hminus
      rw [beq_iff_eq.mp hminus]
      exact .present (.second (gives_not_word_cons nofun) (gives_word_cons _ us))
    split
    · rename_i hplus
      rw [beq_iff_eq.mp hplus]
      exact .present (.first (gives_word_cons _ us))
    · rename_i hminus hplus
      refine .missing (.second (gives_not_word_cons fun h => hplus ?_) (gives_not_word_cons fun h => hminus ?_))
      · exact beq_iff_eq.mpr (Option.some.inj h)
      · exact beq_iff_eq.mpr (Option.some.inj h)

theorem gives_optional_exponent (us : List CodeUnit) :
    Gives (.optional exponentPart) us (some (splitExponent us).2) := by
  rcases mark_cases us with ⟨u, us, rfl, hu⟩ | hmark
  · have hletter : Gives (.choice (.word [0x65]) (.word [0x45])) (u :: us) (some us) := by
      rcases hu with rfl | rfl
      · exact .first (gives_word_cons _ us)
      · exact .second (gives_not_word_cons nofun) (gives_word_cons _ us)
    rw [splitExponent_mark hu]
    rcases splitDigits_cases (Double.splitSign us).2 with ⟨hnone, hstops⟩ | ⟨hsome, hdigits⟩
    · rw [hnone]
      exact .missing (.seq hletter (.seq (gives_optional_sign us) (gives_no_digits hstops)))
    · rw [if_neg (Bool.eq_false_iff.mp hsome)]
      exact .present (.seq hletter (.seq (gives_optional_sign us) (gives_digits hdigits)))
  · rw [splitExponent_eq_none hmark]
    refine .missing (.notSeq (.second (gives_not_word_cons fun h => ?_) (gives_not_word_cons fun h => ?_)))
    · exact hmark _ h (.inl rfl)
    · exact hmark _ h (.inr rfl)

theorem gives_optional_fraction (us : List CodeUnit) :
    Gives (.optional (.seq (.word [0x2E]) (.optional digits))) us (some (splitAfterPoint us).2) := by
  rcases point_cases us with ⟨us', rfl⟩ | hstops
  · rw [splitAfterPoint_point]
    refine .present (.seq (gives_word_cons _ us') ?_)
    rcases splitDigits_cases us' with ⟨hnone, hstops⟩ | ⟨-, hdigits⟩
    · rw [hnone]
      exact .missing (gives_no_digits hstops)
    · exact .present (gives_digits hdigits)
  · rw [splitAfterPoint_eq_none hstops]
    exact .missing (.notSeq (gives_not_word_cons hstops))

theorem gives_unsignedDecimal (us : List CodeUnit) :
    Gives unsignedDecimal us ((readBody? us).map Prod.snd) := by
  cases hword : infinityUnits.isPrefixOf us with
  | true =>
    obtain ⟨more, rfl⟩ := List.isPrefixOf_iff_prefix.mp hword
    rw [readBody?_infinity]
    exact .first .word
  | false =>
    rw [DecimalLiteral.readBody?_eq hword]
    refine .second (.notWord fun h => Bool.false_ne_true (hword.symm.trans (List.isPrefixOf_iff_prefix.mpr h))) ?_
    rcases splitDigits_cases us with ⟨hnone, hstops⟩ | ⟨hsome, hdigits⟩
    · -- no digits before the point
      rw [hnone]
      refine .second (.notSeq (gives_no_digits hstops)) ?_
      rcases point_cases us with ⟨us', rfl⟩ | hpoint
      · rw [splitAfterPoint_point]
        rcases splitDigits_cases us' with ⟨hnone', hstops'⟩ | ⟨hsome', hdigits'⟩
        · rw [hnone']
          exact .seq (gives_word_cons _ us') (.notSeq (gives_no_digits hstops'))
        · rw [hsome', Bool.and_false, if_neg Bool.false_ne_true]
          exact .seq (gives_word_cons _ us') (.seq (gives_digits hdigits') (gives_optional_exponent _))
      · rw [splitAfterPoint_eq_none hpoint]
        exact .notSeq (gives_not_word_cons hpoint)
    · rw [hsome, Bool.false_and, if_neg Bool.false_ne_true]
      exact .first (.seq (gives_digits hdigits) (.seq (gives_optional_fraction _) (gives_optional_exponent _)))

/-- **The expression for decimal literals matches what is read**, and nothing if nothing is. -/
theorem gives_decimal (us : List CodeUnit) : Gives decimal us ((read? us).map Prod.snd) := by
  have hbody := gives_unsignedDecimal (Double.splitSign us).2
  have hread : (read? us).map Prod.snd = (readBody? (Double.splitSign us).2).map Prod.snd := Option.map_map _ _ _
  rw [hread]
  exact .seq (gives_optional_sign us) hbody

end Peg

/-! ## 6. Hexadecimal literals -/

theorem digitValue?_of_hexValue? {u : CodeUnit} {d : Nat} (h : u.hexValue? = some d) :
    u.digitValue? = some d ∧ d < 16 := by
  obtain ⟨hvalue, hlt⟩ := Option.filter_eq_some_iff.mp h
  exact ⟨hvalue, of_decide_eq_true hlt⟩

theorem leadingDigits_cons {u : CodeUnit} {d : Nat} (h : u.hexValue? = some d) (us : List CodeUnit) :
    Double.leadingDigits 16 (u :: us) = d :: Double.leadingDigits 16 us := by
  obtain ⟨hvalue, hlt⟩ := digitValue?_of_hexValue? h
  conv_lhs => unfold Double.leadingDigits
  rw [hvalue]
  dsimp only
  rw [if_pos hlt]

theorem leadingDigits_stop {u : CodeUnit} (h : u.hexValue? = none) (us : List CodeUnit) :
    Double.leadingDigits 16 (u :: us) = [] := by
  unfold Double.leadingDigits
  cases hvalue : u.digitValue? with
  | none => rfl
  | some d =>
    have hlarge : ¬ d < 16 := by
      unfold CodeUnit.hexValue? at h
      rw [hvalue, Option.filter_some] at h
      intro hlt
      rw [if_pos (decide_eq_true hlt)] at h
      cases h
    dsimp only
    rw [if_neg hlarge]

theorem HexDigits.ne_nil {ds : List Nat} {us rest : List CodeUnit} (h : HexDigits ds us rest) : ds ≠ [] := by
  cases h with
  | last _ => exact List.cons_ne_nil _ _
  | more _ _ => exact List.cons_ne_nil _ _

theorem HexDigits.leadingDigits_eq {ds : List Nat} {us : List CodeUnit} (h : HexDigits ds us []) :
    Double.leadingDigits 16 us = ds ∧ ds.length = us.length := by
  generalize hrest : ([] : List CodeUnit) = rest at h
  induction h with
  | last hu =>
    rw [leadingDigits_cons hu, ← hrest]
    exact ⟨rfl, rfl⟩
  | more hu _ ih =>
    obtain ⟨hdigits, hlength⟩ := ih hrest
    rw [leadingDigits_cons hu, hdigits]
    exact ⟨rfl, congrArg (· + 1) hlength⟩

/-- Units that are hexadecimal digits throughout. -/
theorem hexDigits_of_leadingDigits {us : List CodeUnit} (hne : Double.leadingDigits 16 us ≠ [])
    (hlength : (Double.leadingDigits 16 us).length = us.length) : HexDigits (Double.leadingDigits 16 us) us [] := by
  induction us with
  | nil => exact absurd rfl hne
  | cons u us ih =>
    cases hu : u.hexValue? with
    | none => exact absurd (leadingDigits_stop hu us) hne
    | some d =>
      rw [leadingDigits_cons hu] at hlength ⊢
      have hlength : (Double.leadingDigits 16 us).length = us.length := Nat.succ.inj hlength
      cases us with
      | nil => exact .last hu
      | cons v us =>
        refine .more hu (ih (fun hnil => ?_) hlength)
        rw [hnil] at hlength
        cases hlength

theorem hexDigits_dropWhile {u : CodeUnit} (hu : u.isHexDigit = true) (us : List CodeUnit) :
    ∃ ds, HexDigits ds (u :: us) (us.dropWhile CodeUnit.isHexDigit) := by
  obtain ⟨d, hd⟩ := Option.isSome_iff_exists.mp hu
  induction us generalizing u d with
  | nil => exact ⟨_, .last hd⟩
  | cons v us ih =>
    cases hv : CodeUnit.isHexDigit v with
    | false =>
      rw [List.dropWhile_cons_of_neg (Bool.eq_false_iff.mp hv)]
      exact ⟨_, .last hd⟩
    | true =>
      obtain ⟨e, he⟩ := Option.isSome_iff_exists.mp hv
      obtain ⟨ds, hds⟩ := ih hv e he
      rw [List.dropWhile_cons_of_pos hv]
      exact ⟨_, .more hd hds⟩

/-- Digits throughout leave nothing. -/
theorem HexDigits.dropWhile_eq {ds : List Nat} {us : List CodeUnit} (h : HexDigits ds us []) :
    us.dropWhile CodeUnit.isHexDigit = [] := by
  have hdigit {u : CodeUnit} {d : Nat} (hu : u.hexValue? = some d) : CodeUnit.isHexDigit u = true :=
    Option.isSome_iff_exists.mpr ⟨d, hu⟩
  generalize hrest : ([] : List CodeUnit) = rest at h
  induction h with
  | last hu =>
    rw [List.dropWhile_cons_of_pos (hdigit hu), ← hrest]
    rfl
  | more hu _ ih =>
    rw [List.dropWhile_cons_of_pos (hdigit hu)]
    exact ih hrest

/-- A text that starts with the mark of hexadecimal literals. -/
theorem splitHexMark_eq_some {us rest : List CodeUnit} :
    Double.splitHexMark us = some rest ↔ ∃ x, us = 0x30 :: x :: rest ∧ (x = 0x78 ∨ x = 0x58) := by
  constructor
  · intro h
    unfold Double.splitHexMark at h
    split at h
    · rename_i z x us'
      split at h
      · rename_i hmark
        cases h
        rw [Bool.and_eq_true, Bool.or_eq_true, beq_iff_eq, beq_iff_eq, beq_iff_eq] at hmark
        exact ⟨x, by rw [hmark.1], hmark.2⟩
      · cases h
    · cases h
  · rintro ⟨x, rfl, rfl | rfl⟩ <;> rfl

/-- After the mark, the reader of decimal literals stops at once. -/
theorem read?_mark {x : CodeUnit} (hx : x = 0x78 ∨ x = 0x58) (rest : List CodeUnit) :
    read? (0x30 :: x :: rest) = some (⟨false, .digits [0] [] 0⟩, x :: rest) := by
  have hdigits : Digits [0] (0x30 :: x :: rest) (x :: rest) := .last (u := 0x30) (by decide)
  have hbody : SpellsBody (.digits [0] [] 0) (0x30 :: x :: rest) (x :: rest) := .whole hdigits .absent
  have hstops : StopsDigits (x :: rest) := by
    rintro v hv
    cases hv
    rcases hx with rfl | rfl <;> rfl
  have hpoint : StopsFraction (x :: rest) := by
    rcases hx with rfl | rfl <;> nofun
  have hmark : ∀ v ∈ (x :: rest).head?, ¬ IsMark v := by
    rintro v hv
    cases hv
    rcases hx with rfl | rfl <;> rintro (h | h) <;> cases h
  unfold read?
  rw [splitSign_body hbody]
  dsimp only
  rw [readBody?_eq (hbody.not_infinity nofun), hdigits.splitDigits_eq hstops]
  dsimp only
  rw [splitAfterPoint_eq_none hpoint, splitExponent_eq_none hmark]
  rfl

/-- No literal is both decimal and hexadecimal. -/
theorem SpellsDecimal.splitHexMark_eq {l : DecimalLiteral} {us : List CodeUnit} (h : SpellsDecimal l us []) :
    Double.splitHexMark us = none := by
  cases hmark : Double.splitHexMark us with
  | none => rfl
  | some rest =>
    obtain ⟨x, rfl, hx⟩ := splitHexMark_eq_some.mp hmark
    have hread := h.read?_eq
    rw [read?_mark hx] at hread
    cases hread

/-- A decimal literal is read as its value. -/
theorem SpellsDecimal.ofUnits_eq {l : DecimalLiteral} {us : List CodeUnit} (h : SpellsDecimal l us []) :
    Double.ofUnits us = l.value := by
  unfold Double.ofUnits
  split
  · cases h.read?_eq
  · rw [h.splitHexMark_eq]
    dsimp only
    rw [h.read?_eq]

/-- A hexadecimal literal is read as the value of its digits. -/
theorem SpellsHex.ofUnits_eq {ds : List Nat} {us : List CodeUnit} (h : SpellsHex ds us []) :
    Double.ofUnits us = Double.ofHexDigits ds := by
  obtain ⟨x, us₁, rfl, hx, hds⟩ := h
  obtain ⟨hdigits, hlength⟩ := hds.leadingDigits_eq
  have hsome : ds.isEmpty = false := List.isEmpty_eq_false_iff.mpr hds.ne_nil
  unfold Double.ofUnits
  rw [splitHexMark_eq_some.mpr ⟨x, rfl, hx⟩]
  dsimp only
  rw [hdigits, hsome, hlength, Bool.false_or, if_neg]
  exact fun hne => of_decide_eq_true hne rfl

/-- Units that are no literal are not a number. -/
theorem ofUnits_eq_nan {us : List CodeUnit} (hne : us ≠ []) (hhex : ∀ ds, ¬ SpellsHex ds us [])
    (hdecimal : ∀ l, ¬ SpellsDecimal l us []) : Double.ofUnits us = .nan := by
  unfold Double.ofUnits
  split
  · exact absurd rfl hne
  cases hmark : Double.splitHexMark us with
  | some rest =>
    obtain ⟨x, rfl, hx⟩ := splitHexMark_eq_some.mp hmark
    dsimp only
    rw [if_pos]
    by_contra hno
    rw [Bool.or_eq_true_iff, not_or, List.isEmpty_iff, decide_eq_true_iff, not_not] at hno
    exact hhex _ ⟨x, rest, rfl, hx, hexDigits_of_leadingDigits hno.1 hno.2⟩
  | none =>
    dsimp only
    split
    · rename_i l hread
      exact absurd (read?_sound hread) (hdecimal l)
    · rfl

namespace Peg

/-- After the mark, the expression for hexadecimal literals needs a digit. -/
theorem gives_hexInteger {x : CodeUnit} (hx : x = 0x78 ∨ x = 0x58) (us : List CodeUnit) :
    Gives hexInteger (0x30 :: x :: us) none ∧ (∀ ds, ¬ HexDigits ds us []) ∨
      ∃ ds, Gives hexInteger (0x30 :: x :: us) (some (us.dropWhile CodeUnit.isHexDigit)) ∧
        HexDigits ds us (us.dropWhile CodeUnit.isHexDigit) := by
  have hmark : Gives (.choice (.word [0x30, 0x78]) (.word [0x30, 0x58])) (0x30 :: x :: us) (some us) := by
    rcases hx with rfl | rfl
    · exact .first (.word (w := [0x30, 0x78]))
    · refine .second (.notWord fun ⟨more, hmore⟩ => ?_) (.word (w := [0x30, 0x58]))
      cases hmore
  cases us with
  | nil => exact .inl ⟨.seq hmark (.notSeq (.notUnit nofun)), nofun⟩
  | cons u us =>
    cases hu : CodeUnit.isHexDigit u with
    | false =>
      refine .inl ⟨.seq hmark (.notSeq (.notUnit fun v hv => Option.some.inj hv ▸ hu)), fun ds hds => ?_⟩
      unfold CodeUnit.isHexDigit at hu
      cases hds with
      | last hd =>
        rw [hd] at hu
        cases hu
      | more hd _ =>
        rw [hd] at hu
        cases hu
    | true =>
      obtain ⟨ds, hds⟩ := hexDigits_dropWhile hu us
      rw [List.dropWhile_cons_of_pos hu]
      exact .inr ⟨ds, .seq hmark (.seq (.unit hu) (gives_many_unit _ us)), hds⟩

theorem gives_no_hexInteger {us : List CodeUnit} (h : Double.splitHexMark us = none) : Gives hexInteger us none := by
  have hno {x : CodeUnit} (hx : x = 0x78 ∨ x = 0x58) : Gives (.word [0x30, x]) us none := by
    refine .notWord fun ⟨rest, hrest⟩ => ?_
    rw [splitHexMark_eq_some.mpr ⟨x, hrest.symm, hx⟩] at h
    cases h
  exact .notSeq (.second (hno (.inl rfl)) (hno (.inr rfl)))

/-- After a match, the end of the text is left. -/
theorem gives_ending (a : Peg) {us rest : List CodeUnit} (h : Gives a us (some rest)) :
    Gives (.seq a .ending) us (if rest = [] then some [] else none) := by
  cases rest with
  | nil => exact .seq h .ending
  | cons u rest => exact .seq h .notEnding

/-- **The expression for numbers matches the literals that are the whole text**, and nothing else: that it takes the
first alternative and all digits loses none of them. -/
theorem gives_numeral (us : List CodeUnit) :
    Gives numeral us (some []) ∧ ((∃ ds, SpellsHex ds us []) ∨ ∃ l, SpellsDecimal l us []) ∨
      Gives numeral us none ∧ (∀ ds, ¬ SpellsHex ds us []) ∧ ∀ l, ¬ SpellsDecimal l us [] := by
  -- what the decimal alternative matches
  have hdecimal (hhex : Gives hexInteger us none) : Gives (.choice hexInteger decimal) us ((read? us).map Prod.snd) :=
    .second hhex (gives_decimal us)
  cases hmark : Double.splitHexMark us with
  | none =>
    have hnone : ∀ ds, ¬ SpellsHex ds us [] := by
      rintro ds ⟨x, us₁, rfl, hx, -⟩
      rw [splitHexMark_eq_some.mpr ⟨x, rfl, hx⟩] at hmark
      cases hmark
    have hchoice := hdecimal (gives_no_hexInteger hmark)
    cases hread : read? us with
    | none =>
      rw [hread] at hchoice
      refine .inr ⟨.notSeq hchoice, hnone, fun l hl => ?_⟩
      rw [hl.read?_eq] at hread
      cases hread
    | some p =>
      obtain ⟨l, rest⟩ := p
      rw [hread] at hchoice
      have hend : Gives numeral us (if rest = [] then some [] else none) := gives_ending _ hchoice
      split at hend
      · rename_i hrest
        rw [hrest] at hread
        exact .inl ⟨hend, .inr ⟨l, read?_sound hread⟩⟩
      · rename_i hrest
        refine .inr ⟨hend, hnone, fun l' hl' => hrest ?_⟩
        rw [hl'.read?_eq] at hread
        cases hread
        rfl
  | some us₁ =>
    obtain ⟨x, rfl, hx⟩ := splitHexMark_eq_some.mp hmark
    have hno : ∀ l, ¬ SpellsDecimal l (0x30 :: x :: us₁) [] := by
      intro l hl
      rw [hl.splitHexMark_eq] at hmark
      cases hmark
    have hparts {ds : List Nat} (h : SpellsHex ds (0x30 :: x :: us₁) []) : HexDigits ds us₁ [] := by
      obtain ⟨y, us₂, heq, -, hds⟩ := h
      cases heq
      exact hds
    rcases gives_hexInteger hx us₁ with ⟨hhex, hnone⟩ | ⟨ds, hhex, hds⟩
    · have hchoice := hdecimal hhex
      rw [read?_mark hx] at hchoice
      exact .inr ⟨gives_ending _ hchoice, fun ds hds => hnone ds (hparts hds), hno⟩
    · have hend := gives_ending _ (Gives.first (b := decimal) hhex)
      split at hend
      · rename_i hrest
        rw [hrest] at hds
        exact .inl ⟨hend, .inl ⟨ds, x, us₁, rfl, hx, hds⟩⟩
      · rename_i hrest
        refine .inr ⟨hend, fun ds' hds' => hrest ?_, hno⟩
        exact (hparts hds').dropWhile_eq

end Peg

/-! ## 7. White space -/

/-- A text is a part with white space around it. -/
def Surrounded (t : Text) (us : List CodeUnit) : Prop :=
  ∃ front back, t.toList = front ++ us ++ back ∧ (∀ u ∈ front, u.isTrimmable = true) ∧
    ∀ u ∈ back, u.isTrimmable = true

/-- There is no white space among the units. -/
def NoBlanks (us : List CodeUnit) : Prop := ∀ u ∈ us, u.isTrimmable = false

/-- A text is what is left of it with white space around it. -/
theorem surrounded_trim (t : Text) : Surrounded t (t.trim CodeUnit.isTrimmable).toList := by
  have hall (us : List CodeUnit) : ∀ u ∈ us.takeWhile CodeUnit.isTrimmable, u.isTrimmable = true :=
    fun u hu => List.mem_takeWhile_imp hu
  refine ⟨t.toList.takeWhile CodeUnit.isTrimmable,
    ((t.toList.dropWhile CodeUnit.isTrimmable).reverse.takeWhile CodeUnit.isTrimmable).reverse, ?_, hall _,
    fun u hu => hall _ u (List.mem_reverse.mp hu)⟩
  unfold Text.trim
  rw [Text.toList_ofList, List.append_assoc, ← List.reverse_append, List.takeWhile_append_dropWhile,
    List.reverse_reverse, List.takeWhile_append_dropWhile]

/-- White space around a part without any is all that is taken off. -/
theorem Surrounded.trim_eq {t : Text} {us : List CodeUnit} (h : Surrounded t us) (hus : NoBlanks us) :
    (t.trim CodeUnit.isTrimmable).toList = us := by
  obtain ⟨front, back, ht, hfront, hback⟩ := h
  have hkeep {vs ws : List CodeUnit} (hvs : NoBlanks vs) (hws : ∀ u ∈ ws, u.isTrimmable = true) :
      (vs ++ ws).dropWhile CodeUnit.isTrimmable = if vs = [] then [] else vs ++ ws := by
    cases vs with
    | nil => exact List.dropWhile_eq_nil_iff.mpr hws
    | cons v vs => exact List.dropWhile_cons_of_neg (Bool.eq_false_iff.mp (hvs v List.mem_cons_self))
  unfold Text.trim
  rw [Text.toList_ofList, ht, List.append_assoc, List.dropWhile_append_of_pos hfront, hkeep hus hback]
  split
  · rename_i hnil
    rw [hnil]
    rfl
  · rename_i hne
    have hrev : NoBlanks us.reverse := fun u hu => hus u (List.mem_reverse.mp hu)
    have hkept := @hkeep us.reverse [] hrev nofun
    rw [List.append_nil, if_neg (fun h => hne (List.reverse_eq_nil_iff.mp h))] at hkept
    rw [List.reverse_append, List.dropWhile_append_of_pos fun u hu => hback u (List.mem_reverse.mp hu), hkept,
      List.reverse_reverse]

/-- A property of the units below a bound, checked one by one. -/
theorem unit_forall {p : CodeUnit → Prop} {n : Nat} (h : ∀ k < n, p (UInt16.ofNat k)) {u : CodeUnit}
    (hu : u.toNat < n) : p u := by
  have hat := h u.toNat hu
  rwa [UInt16.ofNat_toNat] at hat

theorem isTrimmable_of_isDecimalDigit {u : CodeUnit} (hu : u.isDecimalDigit = true) : u.isTrimmable = false := by
  have hall : ∀ k < 58, CodeUnit.isDecimalDigit (UInt16.ofNat k) = true →
      CodeUnit.isTrimmable (UInt16.ofNat k) = false := by decide
  have hlt : u.toNat < 58 := Nat.lt_succ_of_le (toNat_of_isDecimalDigit hu).2
  exact @unit_forall (fun u => u.isDecimalDigit = true → u.isTrimmable = false) 58 hall u hlt hu

theorem noBlanks_of_digits {ds : List Nat} {us rest : List CodeUnit} (hds : Digits ds us rest)
    (hrest : NoBlanks rest) : NoBlanks us := by
  induction hds with
  | last hu => exact List.forall_mem_cons.mpr ⟨isTrimmable_of_isDecimalDigit hu, hrest⟩
  | more hu _ ih => exact List.forall_mem_cons.mpr ⟨isTrimmable_of_isDecimalDigit hu, ih hrest⟩

theorem noBlanks_of_sign {negative : Bool} {us rest : List CodeUnit} (hsign : Sign negative us rest)
    (hrest : NoBlanks rest) : NoBlanks us := by
  cases hsign with
  | absent => exact hrest
  | plus => exact List.forall_mem_cons.mpr ⟨by decide, hrest⟩
  | minus => exact List.forall_mem_cons.mpr ⟨by decide, hrest⟩

theorem noBlanks_of_exponent {e : Int} {us : List CodeUnit} (h : Exponent e us []) : NoBlanks us := by
  cases h with
  | absent => nofun
  | digits hu hsign hds =>
    refine List.forall_mem_cons.mpr ⟨?_, noBlanks_of_sign hsign (noBlanks_of_digits hds nofun)⟩
    rcases hu with rfl | rfl <;> decide

/-- There is no white space in a decimal literal. -/
theorem SpellsDecimal.noBlanks {l : DecimalLiteral} {us : List CodeUnit} (h : SpellsDecimal l us []) : NoBlanks us := by
  obtain ⟨us₁, hsign, hbody⟩ := h
  refine noBlanks_of_sign hsign ?_
  generalize l.body = b at hbody
  cases hbody with
  | infinity =>
    intro u hu
    have hall : (infinityUnits ++ []).all (fun u => !u.isTrimmable) = true := by decide
    have hkept := List.all_eq_true.mp hall u hu
    rwa [Bool.not_eq_true'] at hkept
  | pointed hds hfraction hexponent =>
    have hend := noBlanks_of_exponent hexponent
    refine noBlanks_of_digits hds (List.forall_mem_cons.mpr ⟨by decide, ?_⟩)
    cases hfraction with
    | none => exact hend
    | some hds' => exact noBlanks_of_digits hds' hend
  | fraction hds hexponent =>
    exact List.forall_mem_cons.mpr ⟨by decide, noBlanks_of_digits hds (noBlanks_of_exponent hexponent)⟩
  | whole hds hexponent => exact noBlanks_of_digits hds (noBlanks_of_exponent hexponent)

theorem isTrimmable_of_digitValue? {u : CodeUnit} {d : Nat} (hu : u.digitValue? = some d) : u.isTrimmable = false := by
  have hall : ∀ k < 0x7B, CodeUnit.digitValue? (UInt16.ofNat k) ≠ none →
      CodeUnit.isTrimmable (UInt16.ofNat k) = false := by decide
  have hlt : u.toNat < 0x7B := by
    have hvalue := hu
    unfold CodeUnit.digitValue? CodeUnit.isDecimalDigit CodeUnit.between at hvalue
    simp only [Bool.and_eq_true, decide_eq_true_iff, UInt16.le_iff_toNat_le] at hvalue
    split at hvalue
    · rename_i h
      exact Nat.lt_of_le_of_lt h.2 (by decide)
    split at hvalue
    · rename_i h
      exact Nat.lt_of_le_of_lt h.2 (by decide)
    split at hvalue
    · rename_i h
      exact Nat.lt_of_le_of_lt h.2 (by decide)
    · cases hvalue
  refine @unit_forall (fun u => u.digitValue? ≠ none → u.isTrimmable = false) 0x7B hall u hlt fun hnone => ?_
  rw [hu] at hnone
  cases hnone

theorem isTrimmable_of_hexValue? {u : CodeUnit} {d : Nat} (hu : u.hexValue? = some d) : u.isTrimmable = false :=
  isTrimmable_of_digitValue? (digitValue?_of_hexValue? hu).1

/-- There is no white space in a hexadecimal literal. -/
theorem SpellsHex.noBlanks {ds : List Nat} {us : List CodeUnit} (h : SpellsHex ds us []) : NoBlanks us := by
  obtain ⟨x, us₁, rfl, hx, hds⟩ := h
  refine List.forall_mem_cons.mpr ⟨by decide, List.forall_mem_cons.mpr ⟨by rcases hx with rfl | rfl <;> decide, ?_⟩⟩
  generalize hrest : ([] : List CodeUnit) = rest at hds
  induction hds with
  | last hu =>
    rw [← hrest]
    exact List.forall_mem_singleton.mpr (isTrimmable_of_hexValue? hu)
  | more hu _ ih => exact List.forall_mem_cons.mpr ⟨isTrimmable_of_hexValue? hu, ih hrest⟩

end Ecma51
