import Ecma51.Proofs.JsonGrammar

/-!
# Reading the parts of JSON text

Strings and numbers are read exactly as the grammar says. A string ends with its closing quote; a number
ends where no further unit belongs to it, so what follows it matters.

* `Json.readString_iff`: strings.
* `Json.Ends`: what may follow data.
* **`Json.readNumber_sound`**, **`Json.readNumber_complete`**: numbers.
-/

namespace Ecma51

namespace Json

/-! ## 1. Blanks -/

theorem blanks_skipBlanks (us : List CodeUnit) : Blanks us (skipBlanks us) := by
  induction us with
  | nil => exact .none
  | cons u us ih =>
    unfold skipBlanks
    cases hu : isBlank u with
    | true =>
      rw [List.dropWhile_cons_of_pos hu]
      exact .more hu ih
    | false =>
      rw [List.dropWhile_cons_of_neg (Bool.eq_false_iff.mp hu)]
      exact .none

theorem Blanks.skipBlanks_eq {us rest : List CodeUnit} (h : Blanks us rest) :
    skipBlanks us = skipBlanks rest := by
  induction h with
  | none => rfl
  | more hu _ ih =>
    rw [← ih]
    exact List.dropWhile_cons_of_pos hu

/-- Reading goes on at the first unit that is no blank. -/
theorem Blanks.skipBlanks_cons {us rest : List CodeUnit} {u : CodeUnit} (h : Blanks us (u :: rest))
    (hu : isBlank u = false) : skipBlanks us = u :: rest :=
  h.skipBlanks_eq.trans (List.dropWhile_cons_of_neg (Bool.eq_false_iff.mp hu))

theorem Blanks.length_le {us rest : List CodeUnit} (h : Blanks us rest) : rest.length ≤ us.length := by
  induction h with
  | none => exact Nat.le_refl _
  | more _ _ ih => exact Nat.le_succ_of_le ih

/-- Blanks start with a blank, or are none. -/
theorem Blanks.head {us rest : List CodeUnit} (h : Blanks us rest) :
    us = rest ∨ ∃ u us', us = u :: us' ∧ isBlank u = true := by
  cases h with
  | none => exact .inl rfl
  | more hu _ => exact .inr ⟨_, _, rfl, hu⟩

theorem expect_iff {wanted us rest : List CodeUnit} :
    expect wanted us = .ok rest ↔ us = wanted ++ rest := by
  induction wanted generalizing us with
  | nil =>
    show Except.ok us = .ok rest ↔ us = rest
    exact ⟨fun h => Except.ok.inj h, fun h => congrArg _ h⟩
  | cons w ws ih =>
    cases us with
    | nil => exact ⟨nofun, nofun⟩
    | cons u us =>
      unfold expect
      by_cases hu : u = w
      · rw [if_pos (beq_iff_eq.mpr hu), ih, hu, List.cons_append, List.cons.injEq]
        exact ⟨fun h => ⟨rfl, h⟩, And.right⟩
      · rw [if_neg fun h => hu (beq_iff_eq.mp h)]
        exact ⟨nofun, fun h => absurd (List.cons.inj h).1 hu⟩

/-! ## 2. Strings -/

theorem escaped?_iff {l u : CodeUnit} : escaped? l = some u ↔ (l, u) ∈ escapes := by
  constructor
  · intro h
    unfold escaped? at h
    split at h
    · rename_i hl
      cases h
      rw [beq_iff_eq.mp hl]
      exact List.mem_cons_self
    · refine List.mem_cons_of_mem _ ?_
      obtain ⟨l₁, l₂, hl, _⟩ := List.lookup_eq_some_iff.mp h
      rw [hl]
      exact List.mem_append_right _ List.mem_cons_self
  · intro h
    unfold escapes letterEscapes at h
    simp only [List.mem_cons, Prod.mk.injEq, List.not_mem_nil, or_false] at h
    rcases h with ⟨rfl, rfl⟩ | ⟨rfl, rfl⟩ | ⟨rfl, rfl⟩ | ⟨rfl, rfl⟩ | ⟨rfl, rfl⟩ | ⟨rfl, rfl⟩ |
      ⟨rfl, rfl⟩ | ⟨rfl, rfl⟩ <;> rfl

theorem not_mem_escapes_u {u : CodeUnit} : (0x75, u) ∉ escapes := by
  intro h
  have h := escaped?_iff.mpr h
  cases h

/-- Four hexadecimal digits. -/
theorem readHex_four {us : List CodeUnit} {v : Nat} (h : readHex 4 0 us = .ok v) :
    ∃ a b c d w x y z, us = a :: b :: c :: d :: us.drop 4 ∧ a.hexValue? = some w ∧ b.hexValue? = some x ∧
      c.hexValue? = some y ∧ d.hexValue? = some z ∧ v = ((w * 16 + x) * 16 + y) * 16 + z := by
  -- one digit at a time
  have hdigit {n v' : Nat} {us : List CodeUnit} (h : readHex (n + 1) v' us = .ok v) :
      ∃ a us' w, us = a :: us' ∧ a.hexValue? = some w ∧ readHex n (v' * 16 + w) us' = .ok v := by
    cases us with
    | nil => cases h
    | cons a us' =>
      unfold readHex at h
      cases ha : a.hexValue? with
      | none =>
        rw [ha] at h
        cases h
      | some w =>
        rw [ha] at h
        exact ⟨a, us', w, rfl, ha, h⟩
  obtain ⟨a, us₁, w, rfl, ha, h⟩ := hdigit h
  obtain ⟨b, us₂, x, rfl, hb, h⟩ := hdigit h
  obtain ⟨c, us₃, y, rfl, hc, h⟩ := hdigit h
  obtain ⟨d, us₄, z, rfl, hd, h⟩ := hdigit h
  cases h
  exact ⟨a, b, c, d, w, x, y, z, rfl, ha, hb, hc, hd, by rw [Nat.zero_mul, Nat.zero_add]⟩

theorem readHex_of_digits {a b c d : CodeUnit} {w x y z : Nat} (rest : List CodeUnit)
    (ha : a.hexValue? = some w) (hb : b.hexValue? = some x) (hc : c.hexValue? = some y)
    (hd : d.hexValue? = some z) :
    readHex 4 0 (a :: b :: c :: d :: rest) = .ok (((w * 16 + x) * 16 + y) * 16 + z) := by
  unfold readHex readHex readHex readHex readHex
  rw [ha, hb, hc, hd]
  dsimp only
  rw [Nat.zero_mul, Nat.zero_add]

/-- One unit that is spelled is read. -/
theorem SpellsUnit.readUnits_eq {u : CodeUnit} {us rest : List CodeUnit} (h : SpellsUnit u us rest)
    (acc : List CodeUnit) : readUnits us acc = readUnits rest (u :: acc) := by
  cases h with
  | plain hcontrol hquote hback =>
    rw [readUnits.eq_def]
    dsimp only
    rw [if_neg fun h => hquote (beq_iff_eq.mp h), if_neg hcontrol, if_pos (bne_iff_ne.mpr hback)]
  | @letter l _ _ hl =>
    have hletter : ¬ (l == 0x75) = true := fun h => not_mem_escapes_u (beq_iff_eq.mp h ▸ hl)
    rw [readUnits.eq_def]
    dsimp only
    rw [if_neg (by decide), if_neg (by decide), if_neg (by decide)]
    rw [if_neg hletter, escaped?_iff.mpr hl]
  | digits ha hb hc hd =>
    rw [readUnits.eq_def]
    dsimp only
    rw [if_neg (by decide), if_neg (by decide), if_neg (by decide)]
    rw [if_pos (by decide), readHex_of_digits _ ha hb hc hd]
    rfl

theorem readUnits_of_spells {units us rest : List CodeUnit} (h : SpellsUnits units us rest)
    (acc : List CodeUnit) : readUnits us acc = .ok (.ofList (acc.reverse ++ units), rest) := by
  induction units generalizing us acc with
  | nil =>
    cases h
    rw [readUnits.eq_def]
    dsimp only
    rw [if_pos (by decide), List.append_nil]
  | cons u units ih =>
    obtain ⟨mid, hu, hrest⟩ := h
    rw [hu.readUnits_eq, ih hrest, List.reverse_cons, List.append_assoc]
    rfl

/-- What is read up to a closing quote is spelled. -/
theorem spells_of_readUnits {us acc rest : List CodeUnit} {t : Text}
    (h : readUnits us acc = .ok (t, rest)) :
    ∃ units, t = .ofList (acc.reverse ++ units) ∧ SpellsUnits units us rest := by
  -- a unit before those that follow it
  have hcons {u : CodeUnit} {us mid acc : List CodeUnit} (hu : SpellsUnit u us mid)
      (hrest : ∃ units, t = .ofList ((u :: acc).reverse ++ units) ∧ SpellsUnits units mid rest) :
      ∃ units, t = .ofList (acc.reverse ++ units) ∧ SpellsUnits units us rest := by
    obtain ⟨units, ht, hunits⟩ := hrest
    refine ⟨u :: units, ?_, mid, hu, hunits⟩
    rw [ht, List.reverse_cons, List.append_assoc]
    rfl
  fun_induction readUnits us acc with
  | case1 acc => cases h
  | case2 u us acc hquote =>
    cases h
    exact ⟨[], by rw [List.append_nil], by rw [beq_iff_eq.mp hquote]; rfl⟩
  | case3 u us acc hquote hcontrol => cases h
  | case4 u us acc hquote hcontrol hback ih =>
    refine hcons (.plain hcontrol (fun h => hquote (beq_iff_eq.mpr h)) ?_) (ih h)
    exact bne_iff_ne.mp hback
  | case5 u acc hquote hcontrol hback => cases h
  | case6 u acc hquote hcontrol hback l rest' hl v hv ih =>
    obtain rfl : u = 0x5C := by simpa using hback
    obtain rfl := beq_iff_eq.mp hl
    obtain ⟨a, b, c, d, w, x, y, z, hus, ha, hb, hc, hd, rfl⟩ := readHex_four hv
    refine hcons ?_ (ih h)
    rw [hus]
    exact .digits ha hb hc hd
  | case7 u acc hquote hcontrol hback l rest' hl left hv => cases h
  | case8 u acc hquote hcontrol hback l rest' hl unit hunit ih =>
    obtain rfl : u = 0x5C := by simpa using hback
    exact hcons (.letter (escaped?_iff.mp hunit)) (ih h)
  | case9 u acc hquote hcontrol hback l rest' hl hnone => cases h

/-- **A string is read exactly if it is spelled.** -/
theorem readString_iff {us rest : List CodeUnit} {t : Text} :
    readString us = .ok (t, rest) ↔ SpellsString t us rest := by
  unfold readString
  constructor
  · intro h
    cases hquote : expect [0x22] us with
    | error left =>
      rw [hquote] at h
      cases h
    | ok us' =>
      rw [hquote] at h
      obtain ⟨units, rfl, hunits⟩ := spells_of_readUnits h
      refine ⟨us', expect_iff.mp hquote, ?_⟩
      rw [Text.toList_ofList]
      exact hunits
  · rintro ⟨us', rfl, hunits⟩
    have hquote : expect [0x22] (0x22 :: us') = .ok us' := expect_iff.mpr rfl
    rw [hquote]
    dsimp only
    rw [readUnits_of_spells hunits, List.reverse_nil, List.nil_append, Text.ofList_toList]

/-! ## 3. Numbers -/

theorem exists_of_bind_ok {ε α β : Type} {x : Except ε α} {f : α → Except ε β} {b : β}
    (h : (x >>= f) = .ok b) : ∃ a, x = .ok a ∧ f a = .ok b := by
  cases x with
  | error e => cases h
  | ok a => exact ⟨a, rfl, h⟩

theorem ok_bind_eq {ε α β : Type} (a : α) (f : α → Except ε β) :
    ((Except.ok a : Except ε α) >>= f) = f a := rfl

theorem toNat_of_isDecimalDigit {u : CodeUnit} (hu : u.isDecimalDigit = true) :
    0x30 ≤ u.toNat ∧ u.toNat ≤ 0x39 := by
  unfold CodeUnit.isDecimalDigit CodeUnit.between at hu
  rw [Bool.and_eq_true, decide_eq_true_iff, decide_eq_true_iff] at hu
  exact hu

/-- A unit outside of a range of numbers is no digit. -/
theorem ne_of_isDecimalDigit {u v : CodeUnit} (hu : u.isDecimalDigit = true)
    (hv : v.isDecimalDigit = false) : u ≠ v := by
  rintro rfl
  rw [hu] at hv
  cases hv

/-- The units do not go on with a digit. -/
def StopsDigits (us : List CodeUnit) : Prop := ∀ u ∈ us.head?, u.isDecimalDigit = false

theorem splitDigits_cons {u : CodeUnit} (us : List CodeUnit) (hu : u.isDecimalDigit = true) :
    DecimalLiteral.splitDigits (u :: us) =
      ((u.toNat - 0x30) :: (DecimalLiteral.splitDigits us).1, (DecimalLiteral.splitDigits us).2) := by
  unfold DecimalLiteral.splitDigits
  rw [List.takeWhile_cons_of_pos hu, List.dropWhile_cons_of_pos hu]
  rfl

theorem splitDigits_eq_nil {us : List CodeUnit} (hus : StopsDigits us) : DecimalLiteral.splitDigits us = ([], us) := by
  cases us with
  | nil => rfl
  | cons u us =>
    have hu : ¬ u.isDecimalDigit = true := Bool.eq_false_iff.mp (hus u rfl)
    unfold DecimalLiteral.splitDigits
    rw [List.takeWhile_cons_of_neg hu, List.dropWhile_cons_of_neg hu]
    rfl

/-- The digits that are split off, if there are any. -/
theorem splitDigits_sound (us : List CodeUnit) : DecimalLiteral.splitDigits us = ([], us) ∨
    Digits (DecimalLiteral.splitDigits us).1 us (DecimalLiteral.splitDigits us).2 := by
  induction us with
  | nil => exact .inl rfl
  | cons u us ih =>
    cases hu : u.isDecimalDigit with
    | false => exact .inl (splitDigits_eq_nil fun v hv => Option.some.inj hv ▸ hu)
    | true =>
      rw [splitDigits_cons us hu]
      refine .inr ?_
      rcases ih with hnone | hmore
      · rw [hnone]
        exact .last hu
      · exact .more hu hmore

theorem readDigits_sound {us rest : List CodeUnit} {ds : List Nat}
    (h : readDigits us = .ok (ds, rest)) : Digits ds us rest := by
  unfold readDigits at h
  rcases splitDigits_sound us with hnone | hmore
  · rw [hnone] at h
    cases h
  · split at h
    · cases h
    · rename_i ds' rest' _ heq
      cases h
      rw [heq] at hmore
      exact hmore

theorem Digits.splitDigits_eq {ds : List Nat} {us rest : List CodeUnit} (h : Digits ds us rest)
    (hrest : StopsDigits rest) : DecimalLiteral.splitDigits us = (ds, rest) := by
  induction h with
  | last hu => rw [splitDigits_cons _ hu, splitDigits_eq_nil hrest]
  | more hu _ ih => rw [splitDigits_cons _ hu, ih hrest]

theorem Digits.readDigits_eq {ds : List Nat} {us rest : List CodeUnit} (h : Digits ds us rest)
    (hrest : StopsDigits rest) : readDigits us = .ok (ds, rest) := by
  unfold readDigits
  rw [h.splitDigits_eq hrest]
  cases h <;> rfl

/-- Digits start with a digit. -/
theorem Digits.head {ds : List Nat} {us rest : List CodeUnit} (h : Digits ds us rest) :
    ∃ u us', us = u :: us' ∧ u.isDecimalDigit = true := by
  cases h with
  | last hu => exact ⟨_, _, rfl, hu⟩
  | more hu _ => exact ⟨_, _, rfl, hu⟩

/-- So does the whole part of a number. -/
theorem Whole.head {ds : List Nat} {us rest : List CodeUnit} (h : Whole ds us rest) :
    ∃ u us', us = u :: us' ∧ u.isDecimalDigit = true := by
  cases h with
  | zero => exact ⟨_, _, rfl, by decide⟩
  | digits _ hds => exact hds.head

theorem readWhole_sound {us rest : List CodeUnit} {ds : List Nat}
    (h : readWhole us = .ok (ds, rest)) : Whole ds us rest := by
  cases us with
  | nil => cases h
  | cons u us =>
    unfold readWhole at h
    dsimp only at h
    split at h
    · rename_i hu
      cases h
      rw [beq_iff_eq.mp hu]
      exact .zero
    · rename_i hu
      refine .digits (fun hc => hu ?_) (readDigits_sound h)
      exact beq_iff_eq.mpr (Option.some.inj hc)

theorem Whole.readWhole_eq {ds : List Nat} {us rest : List CodeUnit} (h : Whole ds us rest)
    (hrest : StopsDigits rest) : readWhole us = .ok (ds, rest) := by
  cases h with
  | zero => rfl
  | digits hzero hds =>
    obtain ⟨u, us', rfl, _⟩ := hds.head
    unfold readWhole
    dsimp only
    rw [if_neg fun hu => hzero (congrArg some (beq_iff_eq.mp hu))]
    exact hds.readDigits_eq hrest

theorem readFraction_sound {us rest : List CodeUnit} {ds : List Nat}
    (h : readFraction us = .ok (ds, rest)) : Fraction ds us rest := by
  cases us with
  | nil =>
    cases h
    exact .absent
  | cons u us =>
    unfold readFraction at h
    dsimp only at h
    split at h
    · rename_i hu
      rw [beq_iff_eq.mp hu]
      exact .digits (readDigits_sound h)
    · cases h
      exact .absent

/-- The units do not go on with a point. -/
def StopsFraction (us : List CodeUnit) : Prop := us.head? ≠ some 0x2E

theorem Fraction.readFraction_eq {ds : List Nat} {us rest : List CodeUnit} (h : Fraction ds us rest)
    (hdigits : StopsDigits rest) (hrest : StopsFraction rest) :
    readFraction us = .ok (ds, rest) := by
  cases h with
  | absent =>
    cases us with
    | nil => rfl
    | cons u us =>
      unfold readFraction
      dsimp only
      rw [if_neg fun hu => hrest (congrArg some (beq_iff_eq.mp hu))]
  | digits hds => exact hds.readDigits_eq hdigits

theorem splitSign_sound (us : List CodeUnit) : Sign (Double.splitSign us).1 us (Double.splitSign us).2 := by
  cases us with
  | nil => exact .absent
  | cons u us =>
    unfold Double.splitSign
    dsimp only
    split
    · rename_i hu
      rw [beq_iff_eq.mp hu]
      exact .minus
    split
    · rename_i hu
      rw [beq_iff_eq.mp hu]
      exact .plus
    · exact .absent

theorem readExponent_sound {us rest : List CodeUnit} {e : Int}
    (h : readExponent us = .ok (e, rest)) : Exponent e us rest := by
  cases us with
  | nil =>
    cases h
    exact .absent
  | cons u us =>
    unfold readExponent at h
    dsimp only at h
    split at h
    · rename_i hu
      rw [Bool.or_eq_true, beq_iff_eq, beq_iff_eq] at hu
      obtain ⟨⟨ds, rest'⟩, hds, h⟩ := exists_of_bind_ok h
      cases h
      exact .digits hu (splitSign_sound us) (readDigits_sound hds)
    · cases h
      exact .absent

/-- The units do not go on with an exponent. -/
def StopsExponent (us : List CodeUnit) : Prop := us.head? ≠ some 0x65 ∧ us.head? ≠ some 0x45

theorem Sign.splitSign_eq {negative : Bool} {us rest : List CodeUnit} (h : Sign negative us rest)
    (hrest : ∃ u us', rest = u :: us' ∧ u.isDecimalDigit = true) :
    Double.splitSign us = (negative, rest) := by
  cases h with
  | plus => rfl
  | minus => rfl
  | absent =>
    obtain ⟨u, us', rfl, hu⟩ := hrest
    unfold Double.splitSign
    dsimp only
    rw [if_neg fun h => ne_of_isDecimalDigit hu (by decide) (beq_iff_eq.mp h),
      if_neg fun h => ne_of_isDecimalDigit hu (by decide) (beq_iff_eq.mp h)]

theorem Exponent.readExponent_eq {e : Int} {us rest : List CodeUnit} (h : Exponent e us rest)
    (hdigits : StopsDigits rest) (hrest : StopsExponent rest) :
    readExponent us = .ok (e, rest) := by
  cases h with
  | absent =>
    cases us with
    | nil => rfl
    | cons u us =>
      unfold readExponent
      dsimp only
      rw [if_neg fun hu => ?_]
      rw [Bool.or_eq_true, beq_iff_eq, beq_iff_eq] at hu
      rcases hu with rfl | rfl
      · exact hrest.1 rfl
      · exact hrest.2 rfl
  | @digits u negative ds us mid _ hu hsign hds =>
    unfold readExponent
    dsimp only
    rw [if_pos (by rw [Bool.or_eq_true, beq_iff_eq, beq_iff_eq]; exact hu)]
    rw [hsign.splitSign_eq hds.head]
    dsimp only
    rw [hds.readDigits_eq hdigits]
    rfl

theorem splitMinus_sound (us : List CodeUnit) : Minus (splitMinus us).1 us (splitMinus us).2 := by
  cases us with
  | nil => exact .absent
  | cons u us =>
    unfold splitMinus
    dsimp only
    split
    · rename_i hu
      rw [beq_iff_eq.mp hu]
      exact .present
    · exact .absent

theorem Minus.splitMinus_eq {negative : Bool} {us rest : List CodeUnit} (h : Minus negative us rest)
    (hrest : ∃ u us', rest = u :: us' ∧ u.isDecimalDigit = true) :
    splitMinus us = (negative, rest) := by
  cases h with
  | present => rfl
  | absent =>
    obtain ⟨u, us', rfl, hu⟩ := hrest
    unfold splitMinus
    dsimp only
    rw [if_neg fun h => ne_of_isDecimalDigit hu (by decide) (beq_iff_eq.mp h)]

/-- **What is read as a number is spelled as one.** -/
theorem readNumber_sound {us rest : List CodeUnit} {x : Double} (h : readNumber us = .ok (x, rest)) :
    SpellsNumber x us rest := by
  unfold readNumber at h
  obtain ⟨⟨whole, us₂⟩, hwhole, h⟩ := exists_of_bind_ok h
  obtain ⟨⟨fraction, us₃⟩, hfraction, h⟩ := exists_of_bind_ok h
  obtain ⟨⟨exponent, us₄⟩, hexponent, h⟩ := exists_of_bind_ok h
  cases h
  exact ⟨_, whole, fraction, exponent, _, us₂, us₃, splitMinus_sound us, readWhole_sound hwhole,
    readFraction_sound hfraction, readExponent_sound hexponent, rfl⟩

/-- What may follow data: nothing, a blank, a comma or a closing bracket. -/
def Ends (rest : List CodeUnit) : Prop :=
  ∀ u ∈ rest.head?, isBlank u = true ∨ u = 0x2C ∨ u = 0x5D ∨ u = 0x7D

/-- A unit that may follow data is none of those with which a number could go on. -/
theorem not_number_of_ends {u : CodeUnit} (hu : isBlank u = true ∨ u = 0x2C ∨ u = 0x5D ∨ u = 0x7D) :
    u.isDecimalDigit = false ∧ u ≠ 0x2E ∧ u ≠ 0x65 ∧ u ≠ 0x45 := by
  unfold isBlank at hu
  simp only [Bool.or_eq_true, beq_iff_eq] at hu
  rcases hu with ((((rfl | rfl) | rfl) | rfl)) | rfl | rfl | rfl <;> decide

theorem Ends.stops {rest : List CodeUnit} (h : Ends rest) :
    StopsDigits rest ∧ StopsFraction rest ∧ StopsExponent rest := by
  cases rest with
  | nil => exact ⟨nofun, nofun, nofun, nofun⟩
  | cons u rest =>
    obtain ⟨hdigit, hpoint, hsmall, hlarge⟩ := not_number_of_ends (h u rfl)
    refine ⟨fun v hv => ?_, fun hc => hpoint (Option.some.inj hc), fun hc => hsmall (Option.some.inj hc),
      fun hc => hlarge (Option.some.inj hc)⟩
    cases hv
    exact hdigit

/-- **A number that is spelled is read**, if no further unit belongs to it. -/
theorem readNumber_complete {us rest : List CodeUnit} {x : Double} (h : SpellsNumber x us rest)
    (hrest : Ends rest) : readNumber us = .ok (x, rest) := by
  obtain ⟨negative, whole, fraction, exponent, us₁, us₂, us₃, hminus, hwhole, hfraction, hexponent, rfl⟩ := h
  obtain ⟨hdigits, hpoint, hletter⟩ := hrest.stops
  -- what follows the fraction, and what follows the whole part
  have h₃ : StopsDigits us₃ ∧ StopsFraction us₃ := by
    cases hexponent with
    | absent => exact ⟨hdigits, hpoint⟩
    | digits hu _ _ =>
      rcases hu with rfl | rfl
      · exact ⟨fun v hv => by cases hv; decide, nofun⟩
      · exact ⟨fun v hv => by cases hv; decide, nofun⟩
  have h₂ : StopsDigits us₂ := by
    cases hfraction with
    | absent => exact h₃.1
    | digits _ => exact fun v hv => by cases hv; decide
  unfold readNumber
  rw [hminus.splitMinus_eq hwhole.head]
  dsimp only
  rw [hwhole.readWhole_eq h₂, ok_bind_eq]
  dsimp only
  rw [hfraction.readFraction_eq h₃.1 h₃.2, ok_bind_eq]
  dsimp only
  rw [hexponent.readExponent_eq hdigits hletter, ok_bind_eq]
  rfl

end Json

end Ecma51
