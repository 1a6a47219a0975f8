import Ecma51.Proofs.DecimalRounding

/-!
# Layouts of digits as literals

Significant digits are laid out in one of five ways, from plain digits with zeros after them to scientific notation.
Whichever it is, the grammars of numbers in text and in JSON text read all of it, and give it the value of the
digits; so digits without zeros at their ends can be told from their layout.

* `Json.layout_parts`: what a layout spells.
* `Decimal.eq_of_toRat_eq`: decimals without zeros at their ends are determined by their value.
* **`layout_read`**: layouts are read completely and exactly, and different decimals have different ones.
-/

namespace Ecma51

-- powers mean the same whether or not there are other instances in scope
attribute [local instance (high)] instPowNat

open Decimal

/-! ## 1. Values -/

theorem pointedRat_eq (whole fraction : List Nat) (exponent : Int) :
    pointedRat whole fraction exponent = valueOf (whole ++ fraction) * 10 ^ (exponent - fraction.length) := by
  have hpow : (10 : ℚ) ^ fraction.length ≠ 0 := pow_ne_zero _ (by norm_num)
  unfold pointedRat
  rw [valueOf_append, zpow_sub₀ (by norm_num), zpow_natCast, Nat.cast_add, Nat.cast_mul, Nat.cast_pow, Nat.cast_ofNat]
  field_simp

/-- Digits that do not end with zero. -/
def NoTrailingZero (ds : List Nat) : Prop := ds.getLast? ≠ some 0

theorem length_le_of_toRat_eq {d d' : Decimal} (h : Significant d.digits) (h' : Significant d'.digits)
    (hlast' : NoTrailingZero d'.digits) (hexponent : d.exponent = d'.exponent) (heq : d.toRat = d'.toRat) :
    d'.digits.length ≤ d.digits.length := by
  have hpos : 0 < d.digits.length := List.length_pos_iff.mpr h.ne_nil
  by_contra hless
  obtain ⟨z, hz⟩ : ∃ z, d'.digits.length = d.digits.length + (z + 1) :=
    ⟨d'.digits.length - d.digits.length - 1, by omega⟩
  -- the longer digits are the shorter ones with zeros after them
  have hscaled : (valueOf d'.digits : ℚ) = ((valueOf d.digits * 10 ^ (z + 1) : ℕ) : ℚ) := by
    have hunit : (10 : ℚ) ^ (d'.exponent - (d'.digits.length - 1 : Nat)) ≠ 0 := zpow_ne_zero _ (by norm_num)
    unfold toRat at heq
    refine mul_right_cancel₀ hunit (heq.symm.trans ?_)
    rw [Nat.cast_mul, Nat.cast_pow, mul_assoc, ← zpow_natCast, Nat.cast_ofNat, ← zpow_add₀ (by norm_num)]
    congr 2
    omega
  have hvalue : valueOf d'.digits = valueOf (d.digits ++ List.replicate (z + 1) 0) := by
    rw [valueOf_append, valueOf_zeros, List.length_replicate, Nat.add_zero]
    exact_mod_cast hscaled
  have hdigits : d'.digits = d.digits ++ List.replicate (z + 1) 0 := by
    refine eq_of_valueOf_eq h'.lt (h.append_zeros _).lt ?_ hvalue
    rw [List.length_append, List.length_replicate, hz]
  refine hlast' ?_
  rw [hdigits, List.replicate_succ', ← List.append_assoc]
  exact List.getLast?_concat

/-- **Decimals without zeros at their ends are determined by their value.** -/
theorem Decimal.eq_of_toRat_eq {d d' : Decimal} (h : Significant d.digits) (h' : Significant d'.digits)
    (hlast : NoTrailingZero d.digits) (hlast' : NoTrailingZero d'.digits) (heq : d.toRat = d'.toRat) : d = d' := by
  have hexponent : d.exponent = d'.exponent := by rw [← log_toRat h, ← log_toRat h', heq]
  have hlength : d.digits.length = d'.digits.length :=
    Nat.le_antisymm (length_le_of_toRat_eq h' h hlast hexponent.symm heq.symm)
      (length_le_of_toRat_eq h h' hlast' hexponent heq)
  have hvalue : valueOf d.digits = valueOf d'.digits := by
    have hunit : (10 : ℚ) ^ (d'.exponent - (d'.digits.length - 1 : Nat)) ≠ 0 := zpow_ne_zero _ (by norm_num)
    unfold toRat at heq
    rw [hexponent, hlength] at heq
    exact_mod_cast mul_right_cancel₀ hunit heq
  have hdigits := eq_of_valueOf_eq h.lt h'.lt hlength hvalue
  cases d
  cases d'
  cases hexponent
  cases hdigits
  rfl

/-! ## 2. The parts of a layout -/

namespace Json

/-- **What a layout spells**: the parts of a number, which are worth what the digits are worth. -/
theorem layout_parts {d : Decimal} (h : Significant d.digits) :
    ∃ whole fraction exponent us₁ us₂, Whole whole (Text.asUnits (Double.layout d)) us₁ ∧
      Fraction fraction us₁ us₂ ∧ Exponent exponent us₂ [] ∧ pointedRat whole fraction exponent = d.toRat := by
  obtain ⟨whole, fraction, exponent, before, after, hlayout, hwhole, hfraction, hdigits, hplace⟩ := layout_eq_spelled h
  obtain ⟨us₁, us₂, hw, hf, he⟩ := spelled_parts exponent hwhole hfraction []
  rw [← hlayout, List.append_nil] at hw
  refine ⟨whole, fraction, exponent.getD 0, us₁, us₂, hw, hf, he, ?_⟩
  -- zeros before the digits change nothing, and those after them shift the point
  rw [pointedRat_eq, hdigits, List.append_assoc, valueOf_zeros_append, valueOf_append, valueOf_zeros,
    List.length_replicate, Nat.add_zero, hplace]
  unfold toRat
  rw [Nat.cast_mul, Nat.cast_pow, mul_assoc, ← zpow_natCast, Nat.cast_ofNat, ← zpow_add₀ (by norm_num)]
  congr 2
  omega

end Json

/-! ## 3. Reading a layout -/

open Json

/-- The literal that a layout is. -/
theorem spellsDecimal_layout {d : Decimal} (h : Significant d.digits) :
    ∃ whole fraction exponent, SpellsDecimal ⟨false, .digits whole fraction exponent⟩
      (Text.asUnits (Double.layout d)) [] ∧ pointedRat whole fraction exponent = d.toRat := by
  obtain ⟨whole, fraction, exponent, us₁, us₂, hwhole, hfraction, hexponent, hvalue⟩ := layout_parts h
  exact ⟨whole, fraction, exponent, spellsDecimal_of_parts .absent hwhole hfraction hexponent, hvalue⟩

/-- A text is one literal. -/
theorem SpellsDecimal.unique {l l' : DecimalLiteral} {us : List CodeUnit} (h : SpellsDecimal l us [])
    (h' : SpellsDecimal l' us []) : l = l' := by
  have heq := h.read?_eq.symm.trans h'.read?_eq
  cases heq
  rfl

/-- **Different decimals have different layouts.** -/
theorem layout_injective {d d' : Decimal} (h : Significant d.digits) (h' : Significant d'.digits)
    (hlast : NoTrailingZero d.digits) (hlast' : NoTrailingZero d'.digits)
    (heq : Double.layout d = Double.layout d') : d = d' := by
  obtain ⟨whole, fraction, exponent, hspells, hvalue⟩ := spellsDecimal_layout h
  obtain ⟨whole', fraction', exponent', hspells', hvalue'⟩ := spellsDecimal_layout h'
  rw [heq] at hspells
  cases hspells.unique hspells'
  exact eq_of_toRat_eq h h' hlast hlast' (hvalue.symm.trans hvalue')

/-- The units of a layout are its characters. -/
theorem toList_layout {d : Decimal} (h : Significant d.digits) :
    (Text.ofChars (Double.layout d)).toList = Text.asUnits (Double.layout d) :=
  Text.toList_ofChars (stands_layout false h).1

/-- **Layouts are read completely and exactly.** The text in which digits without zeros at their ends are laid out,
whatever their exponent, is matched as a whole by the expression for decimal literals, and by that for numbers; it is
one literal of the grammar of numbers in text and one number of the grammar of JSON text, of the same parts, which the
readers read to its end; what it says is worth exactly the digits, with the first of them at the place of the
exponent; and no other digits or exponent are laid out as this text. It is the text of every number that has these
shortest digits. -/
theorem layout_read {d : Decimal} (h : Significant d.digits) (hlast : NoTrailingZero d.digits) :
    let us := (Text.ofChars (Double.layout d)).toList
    Peg.Gives .decimal us (some []) ∧ Peg.Gives .numeral us (some []) ∧
    (∃ whole fraction exponent, pointedRat whole fraction exponent =
          valueOf d.digits * 10 ^ (d.exponent - d.digits.length + 1) ∧
        (∀ l, SpellsDecimal l us [] ↔ l = ⟨false, .digits whole fraction exponent⟩) ∧
        DecimalLiteral.read? us = some (⟨false, .digits whole fraction exponent⟩, []) ∧
        (∃ us₁ us₂, Whole whole us us₁ ∧ Fraction fraction us₁ us₂ ∧ Exponent exponent us₂ []) ∧
        readNumber us = .ok (DecimalLiteral.value ⟨false, .digits whole fraction exponent⟩, [])) ∧
    (∀ d' : Decimal, Significant d'.digits → NoTrailingZero d'.digits →
      Double.layout d' = Double.layout d → d' = d) ∧
    ∀ m : Magnitude, m.isZero = false → Decimal.shortest m = d → (Double.finite false m).toText.toList = us := by
  have hpos : 0 < d.digits.length := List.length_pos_iff.mpr h.ne_nil
  obtain ⟨whole, fraction, exponent, us₁, us₂, hwhole, hfraction, hexponent, hvalue⟩ := layout_parts h
  have hspells := spellsDecimal_of_parts .absent hwhole hfraction hexponent
  have hread := hspells.read?_eq
  have hdecimal := Peg.gives_decimal (Text.asUnits (Double.layout d))
  rw [hread] at hdecimal
  intro us
  have hus : us = Text.asUnits (Double.layout d) := toList_layout h
  rw [hus]
  refine ⟨hdecimal, ?_, ⟨whole, fraction, exponent, ?_, fun l => ⟨fun hl => hl.unique hspells, fun hl => hl ▸ hspells⟩,
    hread, ⟨us₁, us₂, hwhole, hfraction, hexponent⟩, ?_⟩,
    fun d' h' hlast' heq => layout_injective h' h hlast' hlast heq, fun m hm hshortest => ?_⟩
  · rcases Peg.gives_numeral (Text.asUnits (Double.layout d)) with ⟨hnumeral, -⟩ | ⟨-, -, hnone⟩
    · exact hnumeral
    · exact absurd hspells (hnone _)
  · rw [hvalue]
    unfold toRat
    congr 2
    omega
  · exact readNumber_complete
      ⟨false, whole, fraction, exponent, _, us₁, us₂, .absent, hwhole, hfraction, hexponent, rfl⟩ nofun
  · have hchars : (Double.finite false m).toChars = Double.layout d := by
      unfold Double.toChars
      dsimp only
      rw [hm, if_neg Bool.false_ne_true, hshortest]
      rfl
    rw [← hus]
    exact congrArg (fun cs => (Text.ofChars cs).toList) hchars

/-- The first exponent below those of plain notation. -/
theorem layout_read_scientific : Significant [1, 2, 5] ∧ NoTrailingZero [1, 2, 5] ∧
    Peg.Gives .decimal (Text.ofString "1.25e-7").toList (some []) := by
  have h : Significant [1, 2, 5] := ⟨by decide, by decide, by decide⟩
  have hlast : NoTrailingZero [1, 2, 5] := show [1, 2, 5].getLast? ≠ some 0 by decide
  have htext : Text.ofChars (Double.layout ⟨[1, 2, 5], -7⟩) = Text.ofString "1.25e-7" := by decide
  have hread := layout_read (d := ⟨[1, 2, 5], -7⟩) h hlast
  dsimp only at hread
  rw [htext] at hread
  exact ⟨h, hlast, hread.1⟩

end Ecma51
