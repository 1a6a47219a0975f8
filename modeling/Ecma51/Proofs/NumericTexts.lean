import Ecma51.Proofs.LayoutTexts
import Ecma51.Proofs.NearestDouble

/-!
# The numbers that texts denote

A text denotes a number exactly if it is a literal with white space around it, or white space alone, and the number is
the one that is nearest to the value of the literal; only long hexadecimal literals are rounded at every digit. At the
start of a text, the longest decimal literal counts.

* `SpellsDecimal.local`: whether units are a literal does not depend on what follows them.
* `DecimalLiteral.value_isValue`: the value of a decimal literal is rounded once.
* `RoundedDigits`, `roundedDigits_valueOfDigits`: digits that are rounded one by one.
* **`numericTexts_exact`**: which texts are numbers, and which numbers they are.
-/

namespace Ecma51

-- powers mean the same whether or not there are other instances in scope
attribute [local instance (high)] instPowNat

open Json DecimalLiteral

/-! ## 1. Literals do not depend on what follows -/

/-- What is spelled are the units up to those that follow, whatever these are. -/
def Local {α : Type} (part : α → List CodeUnit → List CodeUnit → Prop) : Prop :=
  ∀ {a : α} {us rest : List CodeUnit}, part a us rest → ∃ w, us = w ++ rest ∧ ∀ rest', part a (w ++ rest') rest'

theorem local_digits : Local Digits := by
  intro ds us rest h
  induction h with
  | @last u _ hu => exact ⟨[u], rfl, fun _ => .last hu⟩
  | @more u _ _ _ hu _ ih =>
    obtain ⟨w, rfl, hw⟩ := ih
    exact ⟨u :: w, rfl, fun rest' => .more hu (hw rest')⟩

theorem local_sign : Local Sign := by
  intro negative us rest h
  cases h with
  | absent => exact ⟨[], rfl, fun _ => .absent⟩
  | plus => exact ⟨[0x2B], rfl, fun _ => .plus⟩
  | minus => exact ⟨[0x2D], rfl, fun _ => .minus⟩

theorem local_exponent : Local Exponent := by
  intro e us rest h
  cases h with
  | absent => exact ⟨[], rfl, fun _ => .absent⟩
  | @digits u _ _ _ _ _ hu hsign hds =>
    obtain ⟨w, rfl, hw⟩ := local_sign hsign
    obtain ⟨w', rfl, hw'⟩ := local_digits hds
    refine ⟨u :: (w ++ w'), by rw [List.cons_append, List.append_assoc], fun rest' => ?_⟩
    rw [List.cons_append, List.append_assoc]
    exact .digits hu (hw _) (hw' rest')

theorem local_digitsOrNone : Local DigitsOrNone := by
  intro ds us rest h
  cases h with
  | none => exact ⟨[], rfl, fun _ => .none⟩
  | some hds =>
    obtain ⟨w, hus, hw⟩ := local_digits hds
    exact ⟨w, hus, fun rest' => .some (hw rest')⟩

theorem local_spellsBody : Local SpellsBody := by
  intro b us rest h
  cases h with
  | infinity => exact ⟨_, rfl, fun _ => .infinity⟩
  | pointed hds hfraction hexponent =>
    obtain ⟨w₁, rfl, h₁⟩ := local_digits hds
    obtain ⟨w₂, rfl, h₂⟩ := local_digitsOrNone hfraction
    obtain ⟨w₃, rfl, h₃⟩ := local_exponent hexponent
    have happend (rest : List CodeUnit) : w₁ ++ 0x2E :: (w₂ ++ w₃) ++ rest = w₁ ++ 0x2E :: (w₂ ++ (w₃ ++ rest)) := by
      rw [List.append_assoc, List.cons_append, List.append_assoc]
    refine ⟨w₁ ++ 0x2E :: (w₂ ++ w₃), (happend rest).symm, fun rest' => ?_⟩
    rw [happend]
    exact .pointed (h₁ _) (h₂ _) (h₃ rest')
  | fraction hds hexponent =>
    obtain ⟨w₁, rfl, h₁⟩ := local_digits hds
    obtain ⟨w₂, rfl, h₂⟩ := local_exponent hexponent
    refine ⟨0x2E :: (w₁ ++ w₂), by rw [List.cons_append, List.append_assoc], fun rest' => ?_⟩
    rw [List.cons_append, List.append_assoc]
    exact .fraction (h₁ _) (h₂ rest')
  | whole hds hexponent =>
    obtain ⟨w₁, rfl, h₁⟩ := local_digits hds
    obtain ⟨w₂, rfl, h₂⟩ := local_exponent hexponent
    refine ⟨w₁ ++ w₂, (List.append_assoc _ _ _).symm, fun rest' => ?_⟩
    rw [List.append_assoc]
    exact .whole (h₁ _) (h₂ rest')

/-- **Whether units are a decimal literal does not depend on what follows them.** -/
theorem SpellsDecimal.local : Local SpellsDecimal := by
  rintro l us rest ⟨us₁, hsign, hbody⟩
  obtain ⟨w₁, rfl, h₁⟩ := local_sign hsign
  obtain ⟨w₂, rfl, h₂⟩ := local_spellsBody hbody
  refine ⟨w₁ ++ w₂, (List.append_assoc _ _ _).symm, fun rest' => ⟨w₂ ++ rest', ?_, h₂ rest'⟩⟩
  rw [List.append_assoc]
  exact h₁ _

theorem spellsDecimal_append {l : DecimalLiteral} {w : List CodeUnit} (h : SpellsDecimal l w [])
    (rest : List CodeUnit) : SpellsDecimal l (w ++ rest) rest := by
  obtain ⟨w', heq, hw⟩ := SpellsDecimal.local h
  rw [List.append_nil] at heq
  rw [heq]
  exact hw rest

/-! ## 2. Values of decimal literals -/

/-- A number is the value of a literal: infinity, or the number nearest to what the digits are worth, with the sign of
the literal. -/
def DecimalLiteral.IsValue (l : DecimalLiteral) (x : Double) : Prop :=
  match l.body.toRat? with
  | none => x = .infinite l.negative
  | some q => x.Rounds l.negative q

/-- **The value of a decimal literal is rounded once.** -/
theorem DecimalLiteral.value_isValue (l : DecimalLiteral) : l.IsValue l.value := by
  obtain ⟨negative, body⟩ := l
  cases body with
  | infinity => rfl
  | digits whole fraction exponent =>
    show Double.Rounds negative (pointedRat whole fraction exponent) _
    rw [pointedRat_eq]
    exact Double.ofDecimal_rounds _ _ _

theorem DecimalLiteral.value_ne_nan (l : DecimalLiteral) : l.value ≠ .nan := by
  have hvalue := l.value_isValue
  unfold DecimalLiteral.IsValue at hvalue
  split at hvalue
  · rw [hvalue]
    nofun
  · obtain ⟨c, -, hc⟩ := hvalue
    rw [hc]
    cases c with
    | none => nofun
    | some m => nofun

/-! ## 3. Values of hexadecimal literals -/

/-- Digits that are rounded one by one: the value after each of them is the number that is nearest to sixteen times the
value before it and the digit, and infinity stays what it is. -/
inductive RoundedDigits : List Nat → Double → Prop where
  | none : RoundedDigits [] .zero
  | digit {ds : List Nat} {d : Nat} {m : Magnitude} {x : Double} : RoundedDigits ds (.finite false m) →
      Double.Rounds false (m.toRat * 16 + d) x → RoundedDigits (ds ++ [d]) x
  | beyond {ds : List Nat} {d : Nat} : RoundedDigits ds .infinity → RoundedDigits (ds ++ [d]) .infinity

theorem ofNat_rounds (n : Nat) : Double.Rounds false n (Double.ofNat n) := by
  have hrounds := Double.ofQuotient_rounds false n Nat.one_pos 0
  rwa [Nat.cast_one, div_one, zpow_zero, mul_one] at hrounds

/-- A magnitude that is zero or not below one. -/
def ZeroOrMore (m : Magnitude) : Prop := m = .zero ∨ 1 ≤ m.toRat

/-- Sixteen times such a magnitude is one, or beyond all of them. -/
theorem exists_sixteenfold {m : Magnitude} (hm : ZeroOrMore m) :
    (∃ m' : Magnitude, m'.toRat = m.toRat * 16) ∨ (2 : ℚ) ^ (1024 : Int) ≤ m.toRat * 16 := by
  rcases hm with rfl | hone
  · refine .inl ⟨.zero, ?_⟩
    rw [Magnitude.toRat_eq_zero.mpr rfl, zero_mul]
  · have hexponent : -52 ≤ m.exponent := by
      by_contra hless
      have hsmall := Magnitude.toRat_lt (m := m) (k := -52) (by omega)
      rw [neg_add_cancel, zpow_zero] at hsmall
      exact absurd hone (not_le.mpr hsmall)
    obtain ⟨hmantissa, -, -, hnormal⟩ := m.canonical
    have hlarge : 2 ^ 52 ≤ m.mantissa := hnormal.resolve_right (by omega)
    have hscaled : m.toRat * 16 = m.mantissa * 2 ^ (m.exponent + 4) := by
      unfold Magnitude.toRat
      rw [zpow_add₀ (by norm_num), mul_assoc]
      norm_num
    by_cases hmost : m.exponent + 4 ≤ 971
    · exact .inl ⟨⟨m.mantissa, m.exponent + 4, hmantissa, by omega, hmost, .inl hlarge⟩, hscaled.symm⟩
    · right
      have hcast : (2 : ℚ) ^ (52 : Int) ≤ m.mantissa := by exact_mod_cast hlarge
      calc (2 : ℚ) ^ (1024 : Int) ≤ 2 ^ (52 + (m.exponent + 4)) := zpow_le_zpow_right₀ (by norm_num) (by omega)
        _ = 2 ^ (52 : Int) * 2 ^ (m.exponent + 4) := zpow_add₀ (by norm_num) _ _
        _ ≤ m.mantissa * 2 ^ (m.exponent + 4) := mul_le_mul_of_nonneg_right hcast (Magnitude.zpow_two_pos _).le
        _ = m.toRat * 16 := hscaled.symm

/-- Rounding what is zero or not below one gives such a magnitude again. -/
theorem zeroOrMore_of_rounds {q : ℚ} (hq : q = 0 ∨ 1 ≤ q) {m : Magnitude}
    (h : Double.Rounds false q (.finite false m)) : ZeroOrMore m := by
  rcases hq with rfl | hone
  · have hzero := Double.rounds_toRat false .zero
    rw [Magnitude.toRat_eq_zero.mpr rfl] at hzero
    cases h.unique hzero
    exact .inl rfl
  · obtain ⟨m₁, -, hm₁⟩ := Double.exists_toRat_natCast (n := 1) (by decide)
    rw [Nat.cast_one] at hm₁
    obtain ⟨c, hc, heq⟩ := h
    cases c with
    | none => cases heq
    | some m' =>
      cases heq
      refine .inr (not_lt.mp fun hless => ?_)
      -- one would be nearer
      have hnear : |q - m.toRat| ≤ |q - m₁.toRat| := hc.nearest (some m₁)
      rw [hm₁, abs_of_pos (by linarith), abs_of_nonneg (by linarith)] at hnear
      linarith

/-- One more digit. -/
theorem rounds_digit {m : Magnitude} (hm : ZeroOrMore m) {d : Nat} (hd : d < 16) :
    Double.Rounds false (m.toRat * 16 + d) (.finite false m * .ofNat 16 + .ofNat d) := by
  obtain ⟨m₁₆, hfinite, hsixteen⟩ := Double.exists_toRat_natCast (n := 16) (by decide)
  obtain ⟨md, hdigit, hvalue⟩ := Double.exists_toRat_natCast (n := d) (Nat.lt_trans hd (by decide))
  have hproduct := Double.mul_rounds false false m m₁₆
  rw [hsixteen] at hproduct
  rw [hfinite, hdigit]
  show Double.Rounds false _ (Double.add (Double.mul (.finite false m) (.finite false m₁₆)) (.finite false md))
  rcases exists_sixteenfold hm with ⟨m', hm'⟩ | hbeyond
  · have hexact := Double.rounds_toRat false m'
    rw [hm'] at hexact
    rw [hproduct.unique hexact, ← hm', ← hvalue]
    exact Double.add_rounds m' md
  · rw [hproduct.unique (Double.rounds_infinite false hbeyond)]
    exact Double.rounds_infinite false (hbeyond.trans (le_add_of_nonneg_right (Nat.cast_nonneg d)))

/-- **Digits whose value is taken step by step are rounded one by one.** -/
theorem roundedDigits_valueOfDigits {ds : List Nat} (hds : ∀ d ∈ ds, d < 16) :
    RoundedDigits ds (Double.valueOfDigits 16 ds) ∧ (Double.valueOfDigits 16 ds = .infinity ∨
      ∃ m, Double.valueOfDigits 16 ds = .finite false m ∧ ZeroOrMore m) := by
  induction ds using List.reverseRecOn with
  | nil => exact ⟨.none, .inr ⟨.zero, rfl, .inl rfl⟩⟩
  | append_singleton ds d ih =>
    obtain ⟨hds, hd⟩ := List.forall_mem_append.mp hds
    have hd : d < 16 := hd d List.mem_cons_self
    obtain ⟨hrounded, hcases⟩ := ih hds
    have hstep : Double.valueOfDigits 16 (ds ++ [d]) = Double.valueOfDigits 16 ds * .ofNat 16 + .ofNat d :=
      List.foldl_append
    rw [hstep]
    rcases hcases with hinfinite | ⟨m, hfinite, hm⟩
    · obtain ⟨m₁₆, h₁₆, hsixteen⟩ := Double.exists_toRat_natCast (n := 16) (by decide)
      obtain ⟨md, hdigit, -⟩ := Double.exists_toRat_natCast (n := d) (Nat.lt_trans hd (by decide))
      have hnonzero : m₁₆.isZero = false := Bool.eq_false_iff.mpr fun h => by
        rw [Magnitude.toRat_eq_zero.mpr h] at hsixteen
        norm_num at hsixteen
      have hstays : Double.infinity * .ofNat 16 + .ofNat d = .infinity := by
        have hproduct : Double.mul .infinity (.finite false m₁₆) = .infinity := by
          show (if m₁₆.isZero then Double.nan else Double.infinity) = _
          rw [hnonzero, if_neg Bool.false_ne_true]
        rw [h₁₆, hdigit]
        show Double.add (Double.mul .infinity (.finite false m₁₆)) (.finite false md) = _
        rw [hproduct]
        rfl
      rw [hinfinite, hstays]
      rw [hinfinite] at hrounded
      exact ⟨.beyond hrounded, .inl rfl⟩
    · rw [hfinite] at hrounded ⊢
      have hrounds := rounds_digit hm hd
      refine ⟨.digit hrounded hrounds, ?_⟩
      generalize Double.finite false m * .ofNat 16 + .ofNat d = x at hrounds
      obtain ⟨c, hc, rfl⟩ := hrounds
      cases c with
      | none => exact .inl rfl
      | some m' =>
        refine .inr ⟨m', rfl, zeroOrMore_of_rounds ?_ ⟨some m', hc, rfl⟩⟩
        rcases hm with rfl | hone
        · rw [Magnitude.toRat_eq_zero.mpr rfl, zero_mul, zero_add]
          cases d with
          | zero => exact .inl Nat.cast_zero
          | succ d => exact .inr (by exact_mod_cast Nat.succ_pos d)
        · refine .inr ?_
          have : (0 : ℚ) ≤ d := Nat.cast_nonneg d
          linarith

theorem hexNumber_concat (ds : List Nat) (d : Nat) : hexNumber (ds ++ [d]) = hexNumber ds * 16 + d := List.foldl_append

/-- Below the precision, rounding digits one by one changes nothing. -/
theorem RoundedDigits.eq_ofNat {ds : List Nat} {x : Double} (h : RoundedDigits ds x) (hsmall : hexNumber ds < 2 ^ 53) :
    x = .ofNat (hexNumber ds) := by
  induction h with
  | none => rfl
  | @digit ds d m x _ hrounds ih =>
    rw [hexNumber_concat] at hsmall ⊢
    obtain ⟨m', hbefore, hvalue⟩ := Double.exists_toRat_natCast (n := hexNumber ds) (by omega)
    have heq := (ih (by omega)).trans hbefore
    cases heq
    refine hrounds.unique ?_
    have hrounded := ofNat_rounds (hexNumber ds * 16 + d)
    rwa [Nat.cast_add, Nat.cast_mul, ← hvalue] at hrounded
  | @beyond ds d _ ih =>
    rw [hexNumber_concat] at hsmall
    obtain ⟨m', hbefore, -⟩ := Double.exists_toRat_natCast (n := hexNumber ds) (by omega)
    cases (ih (by omega)).trans hbefore

theorem HexDigits.lt {ds : List Nat} {us rest : List CodeUnit} (h : HexDigits ds us rest) : ∀ d ∈ ds, d < 16 := by
  induction h with
  | last hu => exact List.forall_mem_singleton.mpr (digitValue?_of_hexValue? hu).2
  | more hu _ ih => exact List.forall_mem_cons.mpr ⟨(digitValue?_of_hexValue? hu).2, ih⟩

/-- **The value of hexadecimal digits** is rounded once, unless there are more than thirty-two of them; these are
rounded one by one, which makes no difference below the precision. -/
theorem ofHexDigits_spec {ds : List Nat} (hds : ∀ d ∈ ds, d < 16) :
    Double.ofHexDigits ds ≠ .nan ∧
    (ds.length ≤ 32 ∨ hexNumber ds < 2 ^ 53 → Double.Rounds false (hexNumber ds) (Double.ofHexDigits ds)) ∧
    (32 < ds.length → RoundedDigits ds (Double.ofHexDigits ds)) := by
  obtain ⟨hrounded, hcases⟩ := roundedDigits_valueOfDigits hds
  unfold Double.ofHexDigits
  by_cases hshort : ds.length ≤ 32
  · rw [if_pos hshort]
    exact ⟨Double.ofNat_ne_nan _, fun _ => ofNat_rounds _, fun hlong => absurd hshort (Nat.not_le.mpr hlong)⟩
  · rw [if_neg hshort]
    refine ⟨?_, fun h => ?_, fun _ => hrounded⟩
    · rcases hcases with hinfinite | ⟨m, hfinite, -⟩
      · rw [hinfinite]
        nofun
      · rw [hfinite]
        nofun
    · rw [hrounded.eq_ofNat (h.resolve_left hshort)]
      exact ofNat_rounds _

/-! ## 4. Whole texts -/

/-- Units are a numeral: none at all, a hexadecimal or a decimal literal. -/
def IsNumeral (us : List CodeUnit) : Prop := us = [] ∨ (∃ ds, SpellsHex ds us []) ∨ ∃ l, SpellsDecimal l us []

theorem IsNumeral.noBlanks {us : List CodeUnit} (h : IsNumeral us) : NoBlanks us := by
  rcases h with rfl | ⟨ds, hds⟩ | ⟨l, hl⟩
  · nofun
  · exact hds.noBlanks
  · exact hl.noBlanks

/-- Exactly the numerals are read as numbers. -/
theorem ofUnits_ne_nan_iff (us : List CodeUnit) : Double.ofUnits us ≠ .nan ↔ IsNumeral us := by
  constructor
  · intro h
    by_contra hno
    obtain ⟨hne, hno⟩ := not_or.mp hno
    obtain ⟨hhex, hdecimal⟩ := not_or.mp hno
    exact h (ofUnits_eq_nan hne (not_exists.mp hhex) (not_exists.mp hdecimal))
  · rintro (rfl | ⟨ds, hds⟩ | ⟨l, hl⟩)
    · nofun
    · rw [hds.ofUnits_eq]
      obtain ⟨_, _, _, _, hdigits⟩ := hds
      exact (ofHexDigits_spec hdigits.lt).1
    · rw [hl.ofUnits_eq]
      exact l.value_ne_nan

/-- A text is read as the numeral in it. -/
theorem Surrounded.ofText_eq {t : Text} {us : List CodeUnit} (h : Surrounded t us) (hus : NoBlanks us) :
    Double.ofText t = Double.ofUnits us := by
  unfold Double.ofText
  rw [h.trim_eq hus]

theorem ofText_ne_nan_iff (t : Text) : Double.ofText t ≠ .nan ↔ ∃ us, Surrounded t us ∧ IsNumeral us := by
  constructor
  · intro h
    exact ⟨_, surrounded_trim t, (ofUnits_ne_nan_iff _).mp h⟩
  · rintro ⟨us, hus, hnumeral⟩
    rw [hus.ofText_eq hnumeral.noBlanks]
    exact (ofUnits_ne_nan_iff us).mpr hnumeral

/-- The expression for numbers matches what is left of a text exactly if the text is a number, or white space. -/
theorem ofText_ne_nan_iff_gives (t : Text) :
    Double.ofText t ≠ .nan ↔ (t.trim CodeUnit.isTrimmable).toList = [] ∨
      Peg.Gives .numeral (t.trim CodeUnit.isTrimmable).toList (some []) := by
  refine (ofUnits_ne_nan_iff _).trans (or_congr Iff.rfl ?_)
  rcases Peg.gives_numeral (t.trim CodeUnit.isTrimmable).toList with ⟨hgives, hliteral⟩ | ⟨hgives, hhex, hdecimal⟩
  · exact iff_of_true hliteral hgives
  · refine iff_of_false ?_ fun h => Option.some_ne_none _ (h.unique hgives)
    exact not_or.mpr ⟨not_exists.mpr hhex, not_exists.mpr hdecimal⟩

/-! ## 5. The start of a text -/

/-- A literal at the start is a literal that is a prefix. -/
theorem exists_prefix {l : DecimalLiteral} {us rest : List CodeUnit} (h : SpellsDecimal l us rest) :
    ∃ w, us = w ++ rest ∧ SpellsDecimal l w [] := by
  obtain ⟨w, hus, hw⟩ := SpellsDecimal.local h
  have hwhole := hw []
  rw [List.append_nil] at hwhole
  exact ⟨w, hus, hwhole⟩

/-- **What is read at the start is the longest prefix that is a decimal literal.** -/
theorem read?_prefix (us : List CodeUnit) :
    (read? us = none ↔ ∀ w l, w <+: us → ¬ SpellsDecimal l w []) ∧
    ∀ l rest, read? us = some (l, rest) → ∃ w, us = w ++ rest ∧ SpellsDecimal l w [] ∧
      ∀ w' l', w' <+: us → SpellsDecimal l' w' [] → w' <+: w := by
  refine ⟨⟨fun hnone w l ⟨rest, hrest⟩ hl => ?_, fun hno => ?_⟩, fun l rest hread => ?_⟩
  · obtain ⟨l', rest', hread, -⟩ := (spellsDecimal_append hl rest).read?_longest
    rw [hrest, hnone] at hread
    cases hread
  · cases hread : read? us with
    | none => rfl
    | some p =>
      obtain ⟨w, hus, hw⟩ := exists_prefix (@read?_sound us p.2 p.1 hread)
      exact absurd hw (hno w p.1 ⟨p.2, hus.symm⟩)
  · obtain ⟨w, hus, hw⟩ := exists_prefix (read?_sound hread)
    refine ⟨w, hus, hw, fun w' l' hprefix hl' => ?_⟩
    obtain ⟨rest', hrest'⟩ := hprefix
    obtain ⟨l'', rest'', hread'', hle⟩ := (spellsDecimal_append hl' rest').read?_longest
    rw [hrest', hread] at hread''
    cases hread''
    refine List.prefix_of_prefix_length_le ⟨rest', hrest'⟩ ⟨rest, hus.symm⟩ ?_
    have hlength := congrArg List.length (hrest'.trans hus)
    rw [List.length_append, List.length_append] at hlength
    omega

/-- **Which texts are numbers, and which numbers they are.** A text is a number exactly if it is a numeral with white
space around it, which is exactly if what is left without the white space is nothing or matched as a whole by the
expression for numbers. White space alone is zero; a decimal literal has its value, rounded once; so has a hexadecimal
literal of at most thirty-two digits or of a value below the precision, and longer ones are rounded digit by digit.
Of the start of a text after its white space, the longest prefix that is a decimal literal is read, and nothing exactly
if there is none; this prefix is what the expression for decimal literals matches. -/
theorem numericTexts_exact (t : Text) :
    (Double.ofText t ≠ .nan ↔ ∃ us, Surrounded t us ∧ IsNumeral us) ∧
    (Double.ofText t ≠ .nan ↔ (t.trim CodeUnit.isTrimmable).toList = [] ∨
      Peg.Gives .numeral (t.trim CodeUnit.isTrimmable).toList (some [])) ∧
    (∀ us, Surrounded t us →
      (us = [] → Double.ofText t = .zero) ∧
      (∀ l, SpellsDecimal l us [] → l.IsValue (Double.ofText t)) ∧
      ∀ ds, SpellsHex ds us [] →
        (ds.length ≤ 32 ∨ hexNumber ds < 2 ^ 53 → Double.Rounds false (hexNumber ds) (Double.ofText t)) ∧
        (32 < ds.length → RoundedDigits ds (Double.ofText t))) ∧
    let us := t.toList.dropWhile CodeUnit.isTrimmable
    (Double.ofTextStart? t = none ↔ ∀ w l, w <+: us → ¬ SpellsDecimal l w []) ∧
    (Double.ofTextStart? t = none ↔ Peg.Gives .decimal us none) ∧
    ∀ x, Double.ofTextStart? t = some x → ∃ w rest l, us = w ++ rest ∧ SpellsDecimal l w [] ∧ l.IsValue x ∧
      Peg.Gives .decimal us (some rest) ∧ ∀ w' l', w' <+: us → SpellsDecimal l' w' [] → w' <+: w := by
  refine ⟨ofText_ne_nan_iff t, ofText_ne_nan_iff_gives t,
    fun us hus => ⟨fun hnil => ?_, fun l hl => ?_, fun ds hds => ?_⟩, ?_⟩
  · subst hnil
    exact hus.ofText_eq nofun
  · rw [hus.ofText_eq hl.noBlanks, hl.ofUnits_eq]
    exact l.value_isValue
  · rw [hus.ofText_eq hds.noBlanks, hds.ofUnits_eq]
    obtain ⟨_, _, _, _, hdigits⟩ := hds
    exact (ofHexDigits_spec hdigits.lt).2
  · intro us
    obtain ⟨hnone, hsome⟩ := read?_prefix us
    have hgives := Peg.gives_decimal us
    have hstart : Double.ofTextStart? t = (read? us).map fun p => p.1.value := rfl
    rw [hstart, Option.map_eq_none_iff]
    refine ⟨hnone, ?_, fun x hx => ?_⟩
    · cases hread : read? us with
      | none =>
        rw [hread] at hgives
        exact iff_of_true rfl hgives
      | some p =>
        rw [hread] at hgives
        exact iff_of_false nofun fun h => Option.some_ne_none _ (hgives.unique h)
    · obtain ⟨⟨l, rest⟩, hread, rfl⟩ := Option.map_eq_some_iff.mp hx
      obtain ⟨w, hus, hw, hlongest⟩ := hsome l rest hread
      rw [hread] at hgives
      exact ⟨w, rest, l, hus, hw, l.value_isValue, hgives, hlongest⟩

/-- Thirty-three digits that are worth seventeen more than a power of two, where numbers are thirty-two apart: they are
read as this power, although the next number is nearer. -/
theorem numericTexts_exact_long :
    let t := Text.ofString "0x000000000000000000200000000000011"
    ∃ ds, Surrounded t t.toList ∧ SpellsHex ds t.toList [] ∧ 32 < ds.length ∧ hexNumber ds = 2 ^ 57 + 17 ∧
      RoundedDigits ds (Double.ofText t) ∧ Double.ofText t = .ofNat (2 ^ 57) ∧
      ¬ Double.Rounds false (hexNumber ds) (Double.ofText t) := by
  intro t
  obtain ⟨us₁, hus₁⟩ : ∃ us₁, us₁ = t.toList.drop 2 := ⟨_, rfl⟩
  have hunits : t.toList = 0x30 :: 0x78 :: us₁ := by
    rw [hus₁]
    decide
  have hdigits : Double.leadingDigits 16 us₁ = List.replicate 18 0 ++ 2 :: List.replicate 12 0 ++ [1, 1] := by
    rw [hus₁]
    decide
  have hspells : SpellsHex (List.replicate 18 0 ++ 2 :: List.replicate 12 0 ++ [1, 1]) t.toList [] := by
    refine ⟨0x78, us₁, hunits, .inl rfl, ?_⟩
    rw [← hdigits]
    refine hexDigits_of_leadingDigits (by rw [hdigits]; decide) ?_
    rw [hdigits, hus₁]
    decide
  have hsurrounded : Surrounded t t.toList := ⟨[], [], (List.append_nil _).symm, nofun, nofun⟩
  have hnumber : hexNumber (List.replicate 18 0 ++ 2 :: List.replicate 12 0 ++ [1, 1]) = 2 ^ 57 + 17 := by decide
  have hread : Double.ofText t = .ofNat (2 ^ 57) := by decide +kernel
  have hrounded := (((numericTexts_exact t).2.2.1 t.toList hsurrounded).2.2 _ hspells).2 (by decide)
  refine ⟨_, hsurrounded, hspells, by decide, hnumber, hrounded, hread, fun hrounds => ?_⟩
  have hnearest := ofNat_rounds (2 ^ 57 + 17)
  rw [hnumber, hread] at hrounds
  exact absurd (hrounds.unique hnearest) (by decide +kernel)

end Ecma51
