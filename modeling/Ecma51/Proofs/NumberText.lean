import Ecma51.Proofs.DigitValues
import Ecma51.Proofs.KeyText
import Ecma51.Proofs.NumericReading

/-!
# The text of a number

The shortest text of a finite number is a number of JSON text as well, and both notations give it the same
value.

* `Json.digits_digitChars`, `Json.exponent_exponentChars`: the parts of a number, digit by digit.
* **`Json.layout_eq_spelled`**: the layout of digits, in parts.
* `Json.SpellsNumber.ofText_eq`: what JSON text spells, the language reads alike.
* **`Json.spellsNumber_toText`**: the text of a finite number spells what it is read as.
-/

namespace Ecma51

namespace Json

open Decimal (AllDigits Significant allDigits_zeros allDigits_digitsOf digitsOf digitChars_digitsOf valueOf
  valueOf_digitsOf)

/-! ## 1. Parts of a number -/

/-- The characters spell a part of a number, whatever follows. -/
def Stands {α : Type} (part : α → List CodeUnit → List CodeUnit → Prop) (cs : List Char) : Prop :=
  (∀ c ∈ cs, c.toNat < 0x10000) ∧ ∃ a, ∀ rest, part a (Text.asUnits cs ++ rest) rest

theorem ascii_digitChars {ds : List Nat} (h : AllDigits ds) : ∀ c ∈ Double.digitChars ds, c.toNat < 0x10000 := by
  have hchar : ∀ d < 10, (Char.ofNat (48 + d)).toNat < 0x10000 := by decide
  intro c hc
  obtain ⟨d, hd, rfl⟩ := List.mem_map.mp hc
  exact hchar d (h d hd)

theorem digits_digitChars {ds : List Nat} (hne : ds ≠ []) (hlt : AllDigits ds) (rest : List CodeUnit) :
    Digits ds (Text.asUnits (Double.digitChars ds) ++ rest) rest := by
  have hunit : ∀ d < 10, CodeUnit.isDecimalDigit (Char.ofNat (48 + d)).toNat.toUInt16 = true ∧
      ((Char.ofNat (48 + d)).toNat.toUInt16 : CodeUnit).toNat - 0x30 = d := by decide
  induction ds with
  | nil => exact absurd rfl hne
  | cons d ds ih =>
    obtain ⟨hd, hds⟩ := List.forall_mem_cons.mp hlt
    obtain ⟨hdigit, hvalue⟩ := hunit d hd
    cases ds with
    | nil =>
      have hlast : Digits _ (_ :: rest) rest := .last hdigit
      rw [hvalue] at hlast
      exact hlast
    | cons e ds =>
      have hmore := Digits.more hdigit (ih (List.cons_ne_nil e ds) hds)
      rw [hvalue] at hmore
      exact hmore

theorem whole_digitChars {ds : List Nat} (h : ds = [0] ∨ Significant ds) (rest : List CodeUnit) :
    Whole ds (Text.asUnits (Double.digitChars ds) ++ rest) rest := by
  rcases h with rfl | h
  · exact .zero
  · refine .digits (fun hhead => ?_) (digits_digitChars h.ne_nil h.lt rest)
    have hzero : ∀ d < 10, ((Char.ofNat (48 + d)).toNat.toUInt16 : CodeUnit) = 0x30 → d = 0 := by decide
    cases ds with
    | nil => exact h.ne_nil rfl
    | cons d ds => exact h.head (congrArg some (hzero d (h.lt d List.mem_cons_self) (Option.some.inj hhead)))

theorem fraction_digitChars {ds : List Nat} (hlt : AllDigits ds) (rest : List CodeUnit) :
    Fraction ds (Text.asUnits (if ds = [] then [] else '.' :: Double.digitChars ds) ++ rest) rest := by
  split
  · rename_i hnil
    rw [hnil]
    exact .absent
  · rename_i hne
    exact .digits (digits_digitChars hne hlt rest)

theorem exponent_exponentChars (e : Int) (rest : List CodeUnit) :
    Exponent e (Text.asUnits (Double.exponentChars e) ++ rest) rest := by
  have hdigits : Digits (digitsOf e.natAbs) (Text.asUnits (Double.natChars e.natAbs) ++ rest) rest := by
    have hne : digitsOf e.natAbs ≠ [] := fun hnil => Nat.toDigits_ne_nil (List.map_eq_nil_iff.mp hnil)
    have hchars := digits_digitChars hne (allDigits_digitsOf e.natAbs) rest
    rwa [digitChars_digitsOf] at hchars
  unfold Double.exponentChars
  by_cases h : 0 ≤ e
  · have hvalue : Double.signed false (valueOf (digitsOf e.natAbs)) = e := by
      rw [valueOf_digitsOf]
      exact Int.natAbs_of_nonneg h
    have hspelled := Exponent.digits (.inl rfl) .plus hdigits
    rw [hvalue] at hspelled
    rw [if_pos h]
    exact hspelled
  · have hvalue : Double.signed true (valueOf (digitsOf e.natAbs)) = e := by
      rw [valueOf_digitsOf]
      show -(e.natAbs : Int) = e
      omega
    have hspelled := Exponent.digits (.inl rfl) .minus hdigits
    rw [hvalue] at hspelled
    rw [if_neg h]
    exact hspelled

/-- Digits, a point with digits after it unless there are none, and an exponent or none. -/
def spelled (whole fraction : List Nat) (exponent : Option Int) : List Char :=
  Double.digitChars whole ++ (if fraction = [] then [] else '.' :: Double.digitChars fraction) ++
    exponent.elim [] Double.exponentChars

theorem ascii_spelled {whole fraction : List Nat} (exponent : Option Int) (hwhole : AllDigits whole)
    (hfraction : AllDigits fraction) : ∀ c ∈ spelled whole fraction exponent, c.toNat < 0x10000 := by
  refine List.forall_mem_append.mpr ⟨List.forall_mem_append.mpr ⟨ascii_digitChars hwhole, ?_⟩, ?_⟩
  · split
    · exact List.forall_mem_nil _
    · exact List.forall_mem_cons.mpr ⟨by decide, ascii_digitChars hfraction⟩
  · cases exponent with
    | none => exact List.forall_mem_nil _
    | some e =>
      have hsign : (if 0 ≤ e then '+' else '-').toNat < 0x10000 := by split <;> decide
      refine List.forall_mem_cons.mpr ⟨by decide, List.forall_mem_cons.mpr ⟨hsign, fun c hc => ?_⟩⟩
      exact toNat_lt_of_isDigit (Nat.isDigit_of_mem_toDigits (by decide) (by decide) hc)

/-- A whole part, a fraction and an exponent, one after the other. -/
theorem spelled_parts {whole fraction : List Nat} (exponent : Option Int) (hwhole : whole = [0] ∨ Significant whole)
    (hfraction : AllDigits fraction) (rest : List CodeUnit) :
    ∃ us₁ us₂, Whole whole (Text.asUnits (spelled whole fraction exponent) ++ rest) us₁ ∧ Fraction fraction us₁ us₂ ∧
      Exponent (exponent.getD 0) us₂ rest := by
  have hexponent : Exponent (exponent.getD 0) (Text.asUnits (exponent.elim [] Double.exponentChars) ++ rest) rest := by
    cases exponent with
    | none => exact .absent
    | some e => exact exponent_exponentChars e rest
  refine ⟨_, _, ?_, fraction_digitChars hfraction _, hexponent⟩
  unfold spelled Text.asUnits
  rw [List.map_append, List.map_append, List.append_assoc, List.append_assoc]
  exact whole_digitChars hwhole _

/-- **Characters with these parts are a number**, with a minus sign or without. -/
theorem stands_spelled (negative : Bool) {whole fraction : List Nat} (exponent : Option Int)
    (hwhole : whole = [0] ∨ Significant whole) (hfraction : AllDigits fraction) :
    Stands SpellsNumber (Double.signChars negative ++ spelled whole fraction exponent) := by
  have hdigits : AllDigits whole := by
    rcases hwhole with rfl | hwhole
    · exact allDigits_zeros 1
    · exact hwhole.lt
  have hsign : ∀ c ∈ Double.signChars negative, c.toNat < 0x10000 := by
    cases negative with
    | false => exact List.forall_mem_nil _
    | true => exact List.forall_mem_singleton.mpr (by decide)
  refine ⟨List.forall_mem_append.mpr ⟨hsign, ascii_spelled exponent hdigits hfraction⟩,
    DecimalLiteral.value ⟨negative, .digits whole fraction (exponent.getD 0)⟩, fun rest => ?_⟩
  obtain ⟨us₁, us₂, hw, hf, he⟩ := spelled_parts exponent hwhole hfraction rest
  refine ⟨negative, whole, fraction, _, _, us₁, us₂, ?_, hw, hf, he, rfl⟩
  unfold Text.asUnits
  rw [List.map_append, List.append_assoc]
  cases negative with
  | true => exact .present
  | false => exact .absent

/-! ## 2. The digits of a magnitude -/

/-- Only a positive point of a grid lies near a magnitude that is not zero. -/
theorem pos_of_holds {m : Magnitude} (hm : m.isZero = false) {q : Nat} {s : Int}
    (h : (Decimal.intervalOf m).holds q s = true) : 0 < q := by
  have hmantissa : m.mantissa ≠ 0 := by
    unfold Magnitude.isZero at hm
    exact beq_eq_false_iff_ne.mp hm
  have hlower : 0 < (Decimal.intervalOf m).lower := by
    unfold Decimal.intervalOf
    dsimp only
    rw [Nat.shiftLeft_eq]
    refine Nat.mul_pos ?_ (Nat.pow_pos (by decide))
    split <;> omega
  have hscaled : 0 < (Decimal.intervalOf m).lower * 10 ^ (-s).toNat :=
    Nat.mul_pos hlower (Nat.pow_pos (by decide))
  refine Nat.pos_of_ne_zero fun hq => ?_
  unfold Decimal.Interval.holds at h
  dsimp only at h
  rw [hq, Nat.zero_mul, Nat.zero_mul] at h
  split at h
  · rw [Bool.and_eq_true, decide_eq_true_iff] at h
    omega
  · rw [Bool.and_eq_true, decide_eq_true_iff] at h
    omega

theorem pos_of_onGrid? {m : Magnitude} (hm : m.isZero = false) {q : Nat} {s : Int}
    (h : (Decimal.intervalOf m).onGrid? s = some q) : 0 < q := by
  unfold Decimal.Interval.onGrid? at h
  dsimp only at h
  split at h
  · rename_i hlow hhigh
    cases h
    split
    · exact pos_of_holds hm hlow
    · exact Nat.succ_pos _
  · rename_i hlow _
    cases h
    exact pos_of_holds hm hlow
  · cases h
    exact Nat.succ_pos _
  · cases h

/-- The shortest digits of a magnitude do not start with zero, unless they are zero alone. -/
theorem shortest_cases {m : Magnitude} (hm : m.isZero = false) :
    Decimal.shortest m = ⟨[0], 0⟩ ∨ Significant (Decimal.shortest m).digits := by
  unfold Decimal.shortest
  dsimp only
  cases hhit : (List.range 17).findSome? fun (n : Nat) =>
      ((Decimal.intervalOf m).onGrid? (Decimal.order (Decimal.intervalOf m).value
        (Decimal.intervalOf m).denominator - n)).map fun q => Decimal.ofScaled q (Decimal.order
          (Decimal.intervalOf m).value (Decimal.intervalOf m).denominator - n) with
  | none => exact .inl rfl
  | some d =>
    obtain ⟨n, _, hn⟩ := List.exists_of_findSome?_eq_some hhit
    obtain ⟨q, hq, rfl⟩ := Option.map_eq_some_iff.mp hn
    exact .inr (Decimal.significant_digitsOf (pos_of_onGrid? hm hq)).stripZeros

/-! ## 3. Layout -/

/-- **The layout of significant digits**: their digits, with zeros before or after them up to the point, on both
sides of the point, and an exponent that makes up for its place. -/
theorem layout_eq_spelled {d : Decimal} (h : Significant d.digits) :
    ∃ (whole fraction : List Nat) (exponent : Option Int) (before after : Nat),
      Double.layout d = spelled whole fraction exponent ∧ (whole = [0] ∨ Significant whole) ∧
      (∀ a ∈ fraction, a < 10) ∧
      whole ++ fraction = List.replicate before 0 ++ d.digits ++ List.replicate after 0 ∧
      exponent.getD 0 - fraction.length = d.exponent - (d.digits.length - 1 : Nat) - after := by
  have hlength : (Double.digitChars d.digits).length = d.digits.length := List.length_map _
  have hpos : 0 < d.digits.length := List.length_pos_iff.mpr h.ne_nil
  unfold Double.layout spelled
  dsimp only
  rw [hlength, ← Double.digitChars_zeros, ← Double.digitChars_zeros]
  split
  · -- digits, with zeros up to the point
    rename_i hlong
    refine ⟨d.digits ++ List.replicate (d.exponent + 1 - d.digits.length).toNat 0, [], none, 0, _, ?_,
      .inr (h.append_zeros _), nofun, List.append_nil _, ?_⟩
    · rw [if_pos rfl]
      show _ = _ ++ [] ++ []
      rw [List.append_nil, List.append_nil]
      exact (Double.digitChars_append _ _).symm
    · rw [Option.getD_none, List.length_nil]
      omega
  split
  · -- the point among the digits
    rename_i hlong hpoint
    have hbefore : Significant (d.digits.take (d.exponent + 1).toNat) := by
      refine h.of_prefix (List.take_prefix _ _) fun hnil => ?_
      rw [List.take_eq_nil_iff] at hnil
      exact hnil.elim (by omega) h.ne_nil
    have hafter : d.digits.drop (d.exponent + 1).toNat ≠ [] := by
      rw [Ne, List.drop_eq_nil_iff]
      omega
    refine ⟨_, d.digits.drop (d.exponent + 1).toNat, none, 0, 0, ?_, .inr hbefore,
      fun a ha => h.lt a (List.mem_of_mem_drop ha), ?_, ?_⟩
    · rw [if_neg hafter]
      show _ = _ ++ []
      rw [List.append_nil]
      unfold Double.splitPoint Double.digitChars
      rw [List.map_take, List.map_drop]
    · rw [List.take_append_drop, List.replicate_zero, List.nil_append, List.append_nil]
    · rw [Option.getD_none, List.length_drop]
      omega
  split
  · -- the point before the digits
    refine ⟨[0], List.replicate (-(d.exponent + 1)).toNat 0 ++ d.digits, none, (-(d.exponent + 1)).toNat + 1, 0, ?_,
      .inl rfl, List.forall_mem_append.mpr ⟨fun a ha => ?_, h.lt⟩, ?_, ?_⟩
    · rw [if_neg fun hnil => h.ne_nil (List.append_eq_nil_iff.mp hnil).2]
      show _ = _ ++ []
      rw [List.append_nil]
      rw [Double.digitChars_append]
      rfl
    · rw [List.eq_of_mem_replicate ha]
      decide
    · rw [List.replicate_succ, List.replicate_zero, List.append_nil]
      rfl
    · rw [Option.getD_none, List.length_append, List.length_replicate]
      omega
  · -- scientific notation
    cases hds : d.digits with
    | nil => exact absurd hds h.ne_nil
    | cons a ds =>
      rw [hds] at h
      have hfirst : Significant [a] := h.of_prefix ⟨ds, rfl⟩ (List.cons_ne_nil a [])
      refine ⟨[a], ds, some (d.exponent + 1 - 1), 0, 0, ?_, .inr hfirst,
        fun b hb => h.lt b (List.mem_cons_of_mem a hb), (List.append_nil _).symm, ?_⟩
      · cases ds with
        | nil => rfl
        | cons b ds => rfl
      · rw [Option.getD_some, List.length_cons]
        omega

/-- **Significant digits are laid out as a number.** -/
theorem stands_layout (negative : Bool) {d : Decimal} (h : Significant d.digits) :
    Stands SpellsNumber (Double.signChars negative ++ Double.layout d) := by
  obtain ⟨whole, fraction, exponent, -, -, hlayout, hwhole, hfraction, -, -⟩ := layout_eq_spelled h
  rw [hlayout]
  exact stands_spelled negative exponent hwhole hfraction

/-- The text of a finite number spells a number. -/
theorem stands_toChars {x : Double} (hx : x.isFinite = true) : Stands SpellsNumber x.toChars := by
  have hzero (negative : Bool) : Stands SpellsNumber (Double.signChars negative ++ [('0')]) :=
    @stands_spelled negative [0] [] none (.inl rfl) (List.forall_mem_nil _)
  cases x with
  | nan => cases hx
  | infinite s => cases hx
  | finite s m =>
    unfold Double.toChars
    dsimp only
    cases hm : m.isZero with
    | true =>
      rw [if_pos rfl]
      exact hzero false
    | false =>
      rw [if_neg Bool.false_ne_true]
      rcases shortest_cases hm with hshort | hdigits
      · rw [hshort]
        exact hzero s
      · exact stands_layout s hdigits

/-! ## 4. Reading -/

/-- A number of JSON text is a decimal literal. -/
theorem spellsDecimal_of_parts {negative : Bool} {whole fraction : List Nat} {exponent : Int}
    {us us₁ us₂ us₃ rest : List CodeUnit} (hminus : Minus negative us us₁) (hwhole : Whole whole us₁ us₂)
    (hfraction : Fraction fraction us₂ us₃) (hexponent : Exponent exponent us₃ rest) :
    SpellsDecimal ⟨negative, .digits whole fraction exponent⟩ us rest := by
  have hdigits : Digits whole us₁ us₂ := by
    cases hwhole with
    | zero => exact .last (u := 0x30) (by decide)
    | digits _ hds => exact hds
  refine ⟨us₁, ?_, ?_⟩
  · cases hminus with
    | absent => exact .absent
    | present => exact .minus
  · cases hfraction with
    | absent => exact .whole hdigits hexponent
    | digits hds => exact .pointed hdigits (.some hds) hexponent

/-- **What JSON text spells as a number, the language reads alike.** -/
theorem SpellsNumber.ofText_eq {x : Double} {t : Text} (h : SpellsNumber x t.toList []) :
    Double.ofText t = x := by
  obtain ⟨negative, whole, fraction, exponent, us₁, us₂, us₃, hminus, hwhole, hfraction, hexponent, rfl⟩ := h
  have hliteral := spellsDecimal_of_parts hminus hwhole hfraction hexponent
  have htrim : (t.trim CodeUnit.isTrimmable).toList = t.toList :=
    Surrounded.trim_eq ⟨[], [], (List.append_nil _).symm, nofun, nofun⟩ hliteral.noBlanks
  unfold Double.ofText
  rw [htrim, hliteral.ofUnits_eq]

/-- **The text of a finite number spells what it is read as**, whatever follows. -/
theorem spellsNumber_toText {x : Double} (hx : x.isFinite = true) (rest : List CodeUnit) :
    SpellsNumber (Double.ofText x.toText) (x.toText.toList ++ rest) rest := by
  obtain ⟨hascii, y, hy⟩ := stands_toChars hx
  have hunits : x.toText.toList = Text.asUnits x.toChars := Text.toList_ofChars hascii
  have hwhole := hy []
  rw [List.append_nil, ← hunits] at hwhole
  rw [hwhole.ofText_eq, hunits]
  exact hy rest

end Json

end Ecma51
