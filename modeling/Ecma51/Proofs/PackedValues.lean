import Ecma51.Proofs.WholeNumber
import Ecma51.Value.Packed

/-!
# What a word holds

A pattern of 64 bits is a sign, an exponent field and a fraction. Every pattern but those of not-a-number is that of
exactly one double; not-a-number has a pattern for each sign and each fraction but zero.

The words of the kinds other than numbers are such patterns of not-a-number, so a number is not stored as it comes: each
not-a-number is replaced by one that lies below the least mark. A mark stands in the upper sixteen bits alone, and an
address only below them. So everything that is read from a word tells the content that was stored.

* `Magnitude.code`: the exponent field and the fraction of a magnitude as one number.
* **`Double.ofBits_toBits`**: a double is read from its pattern.
* **`Binary64.value_eq_iff`**: two patterns stand for the same double only if they are equal or not-a-number both times.
* `WordContent.Fits`: the contents that a word has room for.
* `PackedValue.hasKind`: the seven predicates, by kind.
* `PackedValue.StandsFor`: what is read from a word, all of it.
* **`PackedValue.standsFor_of_pack?`**: a stored content is read back.
* **`PackedValue.isNaN_of_pack?`**: every word of another kind is a pattern of not-a-number.
* **`packedValues_exact`**: which contents are stored, and in which words.
-/

namespace Ecma51

-- powers mean the same whether or not there are other instances in scope
attribute [local instance (high)] instPowNat

/-! ## 1. Magnitudes -/

namespace Magnitude

variable (m : Magnitude)

/-- The exponent field above the fraction. -/
def code : Nat :=
  if m.mantissa < 2 ^ 52 then m.mantissa else (m.exponent + 1075).toNat * 2 ^ 52 + (m.mantissa - 2 ^ 52)

/-- A magnitude without the leading bit has the least exponent, and exponent field zero. -/
theorem code_cases :
    (m.mantissa < 2 ^ 52 ∧ m.exponent = -1074 ∧ m.code = m.mantissa) ∨
    (2 ^ 52 ≤ m.mantissa ∧ m.mantissa < 2 ^ 53 ∧ ∃ biased : Nat, 1 ≤ biased ∧ biased ≤ 2046 ∧
      m.exponent = (biased : Int) - 1075 ∧ m.code = biased * 2 ^ 52 + (m.mantissa - 2 ^ 52)) := by
  obtain ⟨hprecision, hleast, hmost, hleading⟩ := m.canonical
  unfold code
  by_cases hsmall : m.mantissa < 2 ^ 52
  · rw [if_pos hsmall]
    exact .inl ⟨hsmall, hleading.resolve_left (Nat.not_le.mpr hsmall), rfl⟩
  · rw [if_neg hsmall]
    refine .inr ⟨Nat.not_lt.mp hsmall, hprecision, (m.exponent + 1075).toNat, ?_, ?_, ?_, rfl⟩ <;> omega

theorem code_lt : m.code < 2047 * 2 ^ 52 := by
  rcases m.code_cases with ⟨hsmall, _, hcode⟩ | ⟨_, hprecision, biased, _, hmost, _, hcode⟩ <;> omega

/-- **The value of a magnitude rounds to that magnitude.** -/
theorem round?_self : round? m.mantissa 1 m.exponent = some m := by
  rcases m.code_cases with ⟨hsmall, hexponent, _⟩ | ⟨hleading, _⟩
  · by_cases hzero : m.mantissa = 0
    · obtain ⟨mantissa, exponent, hcanonical⟩ := m
      subst hzero hexponent
      rfl
    · -- the grid of the least exponent is not refined any further
      have hlog : m.mantissa.log2 < 52 := (Nat.log2_lt hzero).mpr hsmall
      have hgrid : max ((m.mantissa.log2 : Int) + m.exponent - 52) (-1074) = m.exponent := by omega
      have hprecision : m.mantissa ≠ 2 ^ 53 := by omega
      have hexact : divRound m.mantissa 1 = m.mantissa := by simpa using divRound_mul m.mantissa Nat.one_pos
      unfold round?
      rw [if_neg hzero, binaryOrder_one hzero]
      dsimp only
      rw [hgrid, Int.sub_self]
      show (if divRound m.mantissa 1 = 2 ^ 53 then _ else ofParts? (divRound m.mantissa 1) m.exponent) = _
      rw [hexact, if_neg hprecision]
      exact dif_pos m.canonical
  · exact round?_of_value hleading rfl

end Magnitude

/-! ## 2. Doubles and their patterns -/

namespace Double

theorem ofQuotient_self (s : Bool) (m : Magnitude) : ofQuotient s m.mantissa 1 m.exponent = finite s m := by
  unfold ofQuotient
  rw [m.round?_self]

/-- The bit of the sign. -/
def signBit (s : Bool) : Nat := if s then 2 ^ 63 else 0

theorem signBit_cases (s : Bool) : (s = true ∧ signBit s = 2 ^ 63) ∨ (s = false ∧ signBit s = 0) := by
  cases s
  · exact .inr ⟨rfl, rfl⟩
  · exact .inl ⟨rfl, rfl⟩

theorem toNat_toBits_finite (s : Bool) (m : Magnitude) : (finite s m).toBits.toNat = signBit s + m.code := by
  have hcode := m.code_lt
  have hbody : m.code.toUInt64.toNat = m.code := UInt64.toNat_ofNat_of_lt' (by show m.code < 2 ^ 64; omega)
  show ((if s then (0x8000000000000000 : UInt64) else 0) + m.code.toUInt64).toNat = _
  rw [UInt64.toNat_add, hbody]
  rcases signBit_cases s with ⟨rfl, hsign⟩ | ⟨rfl, hsign⟩
  · rw [hsign, if_pos rfl]
    show (2 ^ 63 + m.code) % 2 ^ 64 = _
    omega
  · rw [hsign, if_neg Bool.false_ne_true]
    show (0 + m.code) % 2 ^ 64 = _
    omega

/-- **A double is read from its pattern.** -/
theorem ofBits_toBits (x : Double) : ofBits x.toBits = x := by
  cases x with
  | nan => decide
  | infinite s => cases s <;> decide
  | finite s m =>
    have hcode := m.code_lt
    have hbits := toNat_toBits_finite s m
    have hsign : (decide (2 ^ 63 ≤ (finite s m).toBits.toNat)) = s := by
      rcases signBit_cases s with ⟨rfl, hs⟩ | ⟨rfl, hs⟩
      · exact decide_eq_true (by omega)
      · exact decide_eq_false (by omega)
    have hexponent : (finite s m).toBits.toNat / 2 ^ 52 % 2048 = m.code / 2 ^ 52 := by
      rcases signBit_cases s with ⟨_, hs⟩ | ⟨_, hs⟩ <;> omega
    have hfraction : (finite s m).toBits.toNat % 2 ^ 52 = m.code % 2 ^ 52 := by
      rcases signBit_cases s with ⟨_, hs⟩ | ⟨_, hs⟩ <;> omega
    unfold ofBits
    dsimp only
    rw [hsign, hexponent, hfraction]
    rcases m.code_cases with ⟨hsmall, hleast, hc⟩ | ⟨hleading, hprecision, biased, hpos, hmost, he, hc⟩
    · rw [if_neg (by omega), if_pos (by omega), hc, Nat.mod_eq_of_lt hsmall, ← hleast]
      exact ofQuotient_self s m
    · have hfield : m.code / 2 ^ 52 = biased := by omega
      have hmantissa : 2 ^ 52 + m.code % 2 ^ 52 = m.mantissa := by omega
      rw [hfield, hmantissa, if_neg (by omega), if_neg (by omega), ← he]
      exact ofQuotient_self s m

/-- The magnitude with an exponent field below the last one, and a fraction. -/
theorem exists_magnitude {biased fraction : Nat} (hb : biased < 2047) (hf : fraction < 2 ^ 52) :
    ∃ m : Magnitude, m.code = biased * 2 ^ 52 + fraction := by
  by_cases hzero : biased = 0
  · subst hzero
    refine ⟨⟨fraction, -1074, by omega, by decide, by decide, .inr rfl⟩, ?_⟩
    exact (if_pos hf).trans (Nat.zero_add fraction).symm
  · refine ⟨⟨2 ^ 52 + fraction, (biased : Int) - 1075, by omega, by omega, by omega, .inl (Nat.le_add_right _ _)⟩, ?_⟩
    refine (if_neg (by dsimp only; omega)).trans ?_
    dsimp only
    omega

end Double

/-! ## 3. Numbers of the machine -/

namespace Binary64

theorem isNaN_iff (x : Binary64) : x.isNaN = true ↔ 2047 * 2 ^ 52 < x.bits.toNat % 2 ^ 63 := by
  have hmask : (x.bits &&& 0x7FFFFFFFFFFFFFFF).toNat = x.bits.toNat % 2 ^ 63 := by
    rw [UInt64.toNat_and]
    exact Nat.and_two_pow_sub_one_eq_mod _ 63
  unfold isNaN
  rw [decide_eq_true_iff, UInt64.lt_iff_toNat_lt, hmask]
  exact Iff.rfl

/-- The parts of a pattern: every one is that of a finite double, of an infinity, or of not-a-number. -/
theorem pattern_cases (x : Binary64) :
    (¬ x.isNaN = true ∧ ∃ s m, x.bits = (Double.finite s m).toBits) ∨
    (¬ x.isNaN = true ∧ ∃ s, x.bits = (Double.infinite s).toBits) ∨ (x.isNaN = true ∧ x.value = .nan) := by
  rw [isNaN_iff]
  have hw : x.bits.toNat < 2 ^ 64 := UInt64.toNat_lt x.bits
  obtain ⟨s, hs⟩ : ∃ s, x.bits.toNat = Double.signBit s + x.bits.toNat % 2 ^ 63 := by
    rcases Nat.lt_or_ge x.bits.toNat (2 ^ 63) with hlow | hhigh
    · exact ⟨false, by rw [Nat.mod_eq_of_lt hlow]; exact (Nat.zero_add _).symm⟩
    · exact ⟨true, by show x.bits.toNat = 2 ^ 63 + _; omega⟩
  rcases Nat.lt_trichotomy (x.bits.toNat % 2 ^ 63 / 2 ^ 52) 2047 with hfinite | hlast | hbeyond
  · obtain ⟨m, hm⟩ :=
      Double.exists_magnitude hfinite (Nat.mod_lt (x.bits.toNat % 2 ^ 63) (by decide : 0 < 2 ^ 52))
    refine .inl ⟨by omega, s, m, UInt64.toNat_inj.mp ?_⟩
    rw [Double.toNat_toBits_finite, hm]
    omega
  · by_cases hzero : x.bits.toNat % 2 ^ 52 = 0
    · refine .inr (.inl ⟨by omega, s, UInt64.toNat_inj.mp ?_⟩)
      cases s with
      | false =>
        change x.bits.toNat = 0 + _ at hs
        show x.bits.toNat = 2047 * 2 ^ 52
        omega
      | true =>
        change x.bits.toNat = 2 ^ 63 + _ at hs
        show x.bits.toNat = 2 ^ 63 + 2047 * 2 ^ 52
        omega
    · refine .inr (.inr ⟨by omega, ?_⟩)
      unfold value Double.ofBits
      dsimp only
      rw [if_pos (by omega), if_neg hzero]
  · omega

/-- A pattern tells that it is not-a-number. -/
theorem isNaN_value (x : Binary64) : x.value.isNaN = x.isNaN := by
  rw [Bool.eq_iff_iff]
  rcases x.pattern_cases with ⟨hpattern, s, m, hbits⟩ | ⟨hpattern, s, hbits⟩ | ⟨hpattern, hnan⟩
  · unfold value
    rw [hbits, Double.ofBits_toBits]
    exact iff_of_false Bool.false_ne_true hpattern
  · unfold value
    rw [hbits, Double.ofBits_toBits]
    exact iff_of_false Bool.false_ne_true hpattern
  · rw [hnan]
    exact iff_of_true rfl hpattern

theorem value_of_isNaN {x : Binary64} (h : x.isNaN = true) : x.value = .nan := by
  rcases x.pattern_cases with ⟨hpattern, _⟩ | ⟨hpattern, _⟩ | ⟨_, hnan⟩
  · exact absurd h hpattern
  · exact absurd h hpattern
  · exact hnan

/-- A pattern that is not one of not-a-number is that of its value. -/
theorem toBits_value {x : Binary64} (h : ¬ x.isNaN = true) : x.value.toBits = x.bits := by
  unfold value
  rcases x.pattern_cases with ⟨_, s, m, hbits⟩ | ⟨_, s, hbits⟩ | ⟨hpattern, _⟩
  · rw [hbits, Double.ofBits_toBits]
  · rw [hbits, Double.ofBits_toBits]
  · exact absurd hpattern h

/-- **Patterns stand for the same double only if they are equal, or not-a-number both times.** In particular the two
zeros stay apart. -/
theorem value_eq_iff (x y : Binary64) : x.value = y.value ↔ x.Alike y := by
  constructor
  · intro h
    have hboth : x.isNaN = y.isNaN := by rw [← isNaN_value, ← isNaN_value, h]
    by_cases hx : x.isNaN = true
    · exact .inr ⟨hx, hboth ▸ hx⟩
    · have hy : ¬ y.isNaN = true := hboth ▸ hx
      exact .inl (congrArg mk ((toBits_value hx).symm.trans (h ▸ toBits_value hy)))
  · rintro (rfl | ⟨hx, hy⟩)
    · rfl
    · rw [value_of_isNaN hx, value_of_isNaN hy]

end Binary64

namespace WordContent

/-- A content that is not a number is alike only to itself. -/
theorem alike_iff {c d : WordContent} (h : c.tag ≠ .number) : c.Alike d ↔ c = d := by
  cases c with
  | number x => exact absurd rfl h
  | _ => exact Iff.rfl

/-- A number is alike to numbers only. -/
theorem alike_number_iff {x : Binary64} {d : WordContent} :
    (number x).Alike d ↔ ∃ y, d = .number y ∧ x.Alike y := by
  constructor
  · intro h
    cases d with
    | number y => exact ⟨y, rfl, h⟩
    | _ => exact WordContent.noConfusion h
  · rintro ⟨y, rfl, h⟩
    exact h

theorem exists_of_tag {c : WordContent} (h : c.tag = .number) : ∃ x, c = .number x := by
  cases c with
  | number x => exact ⟨x, rfl⟩
  | _ => exact ValueTag.noConfusion h

theorem Alike.refl (c : WordContent) : c.Alike c := by
  cases c with
  | number x => exact .inl rfl
  | _ => exact (rfl : _ = _)

theorem Alike.symm {c d : WordContent} (h : c.Alike d) : d.Alike c := by
  by_cases hc : c.tag = .number
  · obtain ⟨x, rfl⟩ := exists_of_tag hc
    obtain ⟨y, rfl, hxy⟩ := alike_number_iff.mp h
    exact hxy.imp Eq.symm And.symm
  · obtain rfl := (alike_iff hc).mp h
    exact .refl c

theorem Alike.tag {c d : WordContent} (h : c.Alike d) : c.tag = d.tag := by
  by_cases hc : c.tag = .number
  · obtain ⟨x, rfl⟩ := exists_of_tag hc
    obtain ⟨y, rfl, _⟩ := alike_number_iff.mp h
    rfl
  · exact congrArg WordContent.tag ((alike_iff hc).mp h)

theorem Alike.trans {c d e : WordContent} (hcd : c.Alike d) (hde : d.Alike e) : c.Alike e := by
  by_cases hc : c.tag = .number
  · obtain ⟨x, rfl⟩ := exists_of_tag hc
    obtain ⟨y, rfl, hxy⟩ := alike_number_iff.mp hcd
    obtain ⟨z, rfl, hyz⟩ := alike_number_iff.mp hde
    rw [← Binary64.value_eq_iff] at hxy hyz
    exact (Binary64.value_eq_iff x z).mp (hxy.trans hyz)
  · obtain rfl := (alike_iff hc).mp hcd
    exact hde

end WordContent

/-- The contents that fit: an address has 48 bits at most. -/
def WordContent.Fits : WordContent → Prop
  | .string a | .object a => a.toNat < 2 ^ 48
  | _ => True

namespace PackedValue

/-! ## 4. Upper and lower bits -/

theorem toNat_payload (w : UInt64) : (w &&& payloadMask).toNat = w.toNat % 2 ^ 48 := by
  rw [UInt64.toNat_and]
  exact Nat.and_two_pow_sub_one_eq_mod _ 48

theorem toNat_kind (w : UInt64) : (w &&& tagMask).toNat = w.toNat / 2 ^ 48 * 2 ^ 48 := by
  have hmask : tagMask.toNat = (2 ^ 16 - 1) <<< 48 := by decide
  rw [UInt64.toNat_and, hmask, ← Nat.shiftRight_eq_div_pow, ← Nat.shiftLeft_eq]
  refine Nat.eq_of_testBit_eq fun i => ?_
  rw [Nat.testBit_and, Nat.testBit_shiftLeft, Nat.testBit_shiftLeft, Nat.testBit_shiftRight, Nat.testBit_two_pow_sub_one]
  by_cases hlow : 48 ≤ i
  · rw [Nat.add_sub_cancel' hlow, decide_eq_true hlow, Bool.true_and, Bool.true_and]
    by_cases hhigh : i < 64
    · rw [decide_eq_true (by omega : i - 48 < 16), Bool.and_true]
    · -- there is nothing beyond the word
      have hbound : w.toNat < 2 ^ i :=
        Nat.lt_of_lt_of_le (UInt64.toNat_lt w) (Nat.pow_le_pow_right (by decide) (Nat.not_lt.mp hhigh))
      rw [Nat.testBit_lt_two_pow hbound, Bool.false_and]
  · rw [decide_eq_false hlow, Bool.false_and, Bool.false_and, Bool.and_false]

/-- An address leaves the upper bits free exactly if it has 48 bits at most. -/
theorem free_iff (a : UInt64) : a &&& ~~~payloadMask = 0 ↔ a.toNat < 2 ^ 48 := by
  have hmask : ~~~payloadMask = tagMask := by decide
  rw [hmask, ← UInt64.toNat_inj, toNat_kind]
  show _ = 0 ↔ _
  omega

/-- The marks of all kinds but numbers: nothing below, and none smaller than that of `nothing`. -/
theorem mark_facts {t : ValueTag} (ht : t ≠ .number) :
    (mark t).toNat % 2 ^ 48 = 0 ∧ (mark .nothing).toNat ≤ (mark t).toNat := by
  cases t <;> first | exact absurd rfl ht | decide

theorem mark_injective {t u : ValueTag} (h : mark t = mark u) : t = u := by
  cases t <;> cases u <;> first | rfl | exact absurd h (by decide)

theorem toNat_marked {t : ValueTag} (ht : t ≠ .number) {a : UInt64} (ha : a.toNat < 2 ^ 48) :
    (mark t ||| a).toNat = (mark t).toNat + a.toNat := by
  have hmark : 2 ^ 48 * ((mark t).toNat / 2 ^ 48) = (mark t).toNat := by
    have := (mark_facts ht).1
    omega
  rw [UInt64.toNat_or, ← hmark, Nat.two_pow_add_eq_or_of_lt ha]

/-! ## 5. Words with a mark -/

section Marked

variable {t : ValueTag} {a : UInt64}

theorem kind_marked (ht : t ≠ .number) (ha : a.toNat < 2 ^ 48) : (mark t ||| a) &&& tagMask = mark t := by
  have hmark := (mark_facts ht).1
  apply UInt64.toNat_inj.mp
  rw [toNat_kind, toNat_marked ht ha]
  omega

theorem payload_marked (ht : t ≠ .number) (ha : a.toNat < 2 ^ 48) : (mark t ||| a) &&& payloadMask = a := by
  have hmark := (mark_facts ht).1
  apply UInt64.toNat_inj.mp
  rw [toNat_payload, toNat_marked ht ha]
  omega

/-- A word below all marks has none of them. -/
theorem kind_number {p : PackedValue} (hp : p.isNumber = true) (ht : t ≠ .number) : p.bits &&& tagMask ≠ mark t := by
  have hmark := (mark_facts ht).2
  have hless : p.bits.toNat < (mark .nothing).toNat := UInt64.lt_iff_toNat_lt.mp (of_decide_eq_true hp)
  intro h
  rw [← h, toNat_kind] at hmark
  omega

/-- The bits of a word tell a kind: it is below all marks, or has the mark of the kind. -/
def Tells (p : PackedValue) (t : ValueTag) : Prop :=
  if t = .number then p.isNumber = true else p.bits &&& tagMask = mark t

theorem Tells.unique {p : PackedValue} {u : ValueTag} (ht : p.Tells t) (hu : p.Tells u) : t = u := by
  unfold Tells at ht hu
  split at ht <;> split at hu
  · rename_i hnumber hnumber'
    exact hnumber.trans hnumber'.symm
  · rename_i hother
    exact absurd hu (kind_number ht hother)
  · rename_i hother _
    exact absurd ht (kind_number hu hother)
  · exact mark_injective (ht.symm.trans hu)

theorem Tells.tag {p : PackedValue} (ht : p.Tells t) : p.tag = t := by
  unfold Tells at ht
  unfold PackedValue.tag
  split at ht
  · rename_i hnumber
    rw [if_pos ht, hnumber]
  · rename_i hother
    have hnumber : ¬ p.isNumber = true := fun h => kind_number h hother ht
    rw [if_neg hnumber, ht]
    cases t <;> first | exact absurd rfl hother | rfl

end Marked

/-! ## 6. The predicates -/

/-- The seven predicates, by kind. -/
def hasKind (p : PackedValue) : ValueTag → Bool
  | .nothing => p.isNothing
  | .undefined => p.isUndefined
  | .null => p.isNull
  | .boolean => p.isBoolean
  | .number => p.isNumber
  | .string => p.isString
  | .object => p.isObject

section Predicates

variable {p : PackedValue} {t u : ValueTag}

theorem tells_of_eq_mark (ht : t ≠ .number) (hp : p.bits = mark t) : p.Tells t := by
  have hkind := kind_marked ht (a := 0) (by decide)
  rw [UInt64.or_zero] at hkind
  refine (if_neg ht).mpr ?_
  rw [hp, hkind]

/-- A predicate that compares the whole word with a mark sees it in the upper bits as well. -/
theorem tells_of_hasKind (h : p.hasKind t = true) : p.Tells t := by
  cases t with
  | nothing => exact tells_of_eq_mark (by decide) (eq_of_beq h)
  | undefined => exact tells_of_eq_mark (by decide) (eq_of_beq h)
  | null => exact tells_of_eq_mark (by decide) (eq_of_beq h)
  | boolean => exact eq_of_beq (α := UInt64) h
  | number => exact h
  | string => exact eq_of_beq (α := UInt64) h
  | object => exact eq_of_beq (α := UInt64) h

/-- **No two of the predicates hold of a word.** -/
theorem hasKind_iff (h : p.hasKind t = true) : p.hasKind u = true ↔ u = t :=
  ⟨fun hu => (tells_of_hasKind hu).unique (tells_of_hasKind h), fun hu => hu ▸ h⟩

end Predicates

/-! ## 7. Contents -/

/-- A word stands for a content: whatever is asked of the word, the answer is that of the content. A number that is read
is the same number, though not-a-number may have another pattern. -/
structure StandsFor (p : PackedValue) (c : WordContent) : Prop where
  content : p.content.Alike c
  tag : p.tag = c.tag
  /-- One predicate holds, that of the kind. -/
  predicate : ∀ t, p.hasKind t = true ↔ t = c.tag
  string : ∀ a, p.string? = some a ↔ c = .string a
  object : ∀ a, p.object? = some a ↔ c = .object a

theorem StandsFor.alike {p : PackedValue} {c d : WordContent} (hc : p.StandsFor c) (hd : p.StandsFor d) : c.Alike d :=
  hc.content.symm.trans hd.content

section Stored

variable {p q : PackedValue} {c d : WordContent} {t : ValueTag} {a : UInt64}

/-- The contents of a kind are addresses. -/
structure AreAddresses (t : ValueTag) (f : UInt64 → WordContent) : Prop where
  other : t ≠ .number
  tag : ∀ a, (f a).tag = t
  injective : ∀ a b, f a = f b → a = b
  predicate : ∀ p : PackedValue, p.hasKind t = (p.bits &&& tagMask == mark t)
  content : ∀ p : PackedValue, p.tag = t → p.content = f p.payload

theorem areAddresses_string : AreAddresses .string .string where
  other := by decide
  tag _ := rfl
  injective _ _ := WordContent.string.inj
  predicate _ := rfl
  content p hp := by
    unfold PackedValue.content
    rw [hp]

theorem areAddresses_object : AreAddresses .object .object where
  other := by decide
  tag _ := rfl
  injective _ _ := WordContent.object.inj
  predicate _ := rfl
  content p hp := by
    unfold PackedValue.content
    rw [hp]

/-- An address is read from the words of its kind, and from no other. -/
theorem AreAddresses.read_iff {f : UInt64 → WordContent} (hf : AreAddresses t f) (hkind : p.hasKind c.tag = true)
    (hcontent : p.content.Alike c) : (if p.hasKind t then some p.payload else none) = some a ↔ c = f a := by
  by_cases ht : p.hasKind t = true
  · have hread := hf.content p (tells_of_hasKind ht).tag
    have hsame : f p.payload = c := (WordContent.alike_iff (by rw [hf.tag]; exact hf.other)).mp (hread ▸ hcontent)
    rw [if_pos ht, Option.some.injEq, ← hsame]
    exact ⟨congrArg f, hf.injective _ _⟩
  · rw [if_neg ht]
    refine iff_of_false (fun h => by cases h) fun hc => ht ?_
    rwa [hc, hf.tag] at hkind

/-- The predicate of the kind and the content settle what else is asked. -/
theorem standsFor_of_hasKind (hkind : p.hasKind c.tag = true) (hcontent : p.content.Alike c) : p.StandsFor c where
  content := hcontent
  tag := (tells_of_hasKind hkind).tag
  predicate _ := hasKind_iff hkind
  string _ := areAddresses_string.read_iff hkind hcontent
  object _ := areAddresses_object.read_iff hkind hcontent

theorem ofAddress?_eq_some (h : ofAddress? t a = some p) : a.toNat < 2 ^ 48 ∧ p = ⟨mark t ||| a⟩ := by
  unfold ofAddress? at h
  split at h
  · rename_i hfree
    exact ⟨(free_iff a).mp hfree, (Option.some.inj h).symm⟩
  · cases h

theorem AreAddresses.standsFor {f : UInt64 → WordContent} (hf : AreAddresses t f) (h : ofAddress? t a = some p) :
    p.StandsFor (f a) := by
  obtain ⟨ha, rfl⟩ := ofAddress?_eq_some h
  have hkind : hasKind ⟨mark t ||| a⟩ t = true := (hf.predicate _).trans (beq_iff_eq.mpr (kind_marked hf.other ha))
  have hcontent : PackedValue.content ⟨mark t ||| a⟩ = f a :=
    (hf.content _ (tells_of_hasKind hkind).tag).trans (congrArg f (payload_marked hf.other ha))
  exact standsFor_of_hasKind (by rwa [hf.tag]) (hcontent ▸ .refl _)

/-- The number that is read from the word of a number. -/
theorem asNumber_ofNumber (x : Binary64) : (ofNumber x).asNumber.Alike x := by
  unfold ofNumber
  split
  · rename_i hnan
    exact .inr ⟨(by decide : Binary64.isNaN ⟨quietNaN⟩ = true), hnan⟩
  · exact .inl rfl

/-- Whatever is not a number has a word beyond that of the infinities, and so has the pattern of not-a-number. -/
theorem isNaN_of_not_isNumber (h : ¬ p.isNumber = true) : Binary64.isNaN ⟨p.bits⟩ = true := by
  have hword : p.bits.toNat < 2 ^ 64 := UInt64.toNat_lt p.bits
  have hbeyond : 0xFFF9 * 2 ^ 48 ≤ p.bits.toNat :=
    Nat.not_lt.mp fun hless => h (decide_eq_true (UInt64.lt_iff_toNat_lt.mpr hless))
  rw [Binary64.isNaN_iff]
  show _ < p.bits.toNat % 2 ^ 63
  omega

theorem isNumber_ofNumber (x : Binary64) : (ofNumber x).isNumber = true := by
  unfold ofNumber
  split
  · decide
  · rename_i hnan
    exact Decidable.of_not_not fun hother => hnan (isNaN_of_not_isNumber hother)

theorem standsFor_ofNumber (x : Binary64) : (ofNumber x).StandsFor (.number x) := by
  have hkind : (ofNumber x).hasKind .number = true := isNumber_ofNumber x
  refine standsFor_of_hasKind hkind ?_
  unfold PackedValue.content
  rw [(tells_of_hasKind hkind).tag]
  exact asNumber_ofNumber x

/-- **A stored content is read back**, and nothing else is. -/
theorem standsFor_of_pack? (h : pack? c = some p) : p.StandsFor c := by
  cases c with
  | nothing =>
    cases h
    exact standsFor_of_hasKind (by decide) (.refl _)
  | undefined =>
    cases h
    exact standsFor_of_hasKind (by decide) (.refl _)
  | null =>
    cases h
    exact standsFor_of_hasKind (by decide) (.refl _)
  | boolean b =>
    cases h
    cases b <;> exact standsFor_of_hasKind (by decide) (.refl _)
  | number x =>
    cases h
    exact standsFor_ofNumber x
  | string a => exact areAddresses_string.standsFor h
  | object a => exact areAddresses_object.standsFor h

theorem pack?_isSome_iff (c : WordContent) : (pack? c).isSome = true ↔ c.Fits := by
  have haddress (t : ValueTag) (a : UInt64) : (ofAddress? t a).isSome = true ↔ a.toNat < 2 ^ 48 := by
    unfold ofAddress?
    rw [← free_iff]
    split <;> simp_all
  cases c with
  | string a => exact haddress .string a
  | object a => exact haddress .object a
  | _ => exact iff_of_true rfl trivial

theorem ofNumber_eq_of_alike {x y : Binary64} (h : x.Alike y) : ofNumber x = ofNumber y := by
  rcases h with rfl | ⟨hx, hy⟩
  · rfl
  · unfold ofNumber
    rw [if_pos hx, if_pos hy]

/-- **Equal words are words of the same content.** -/
theorem bits_eq_iff (hp : pack? c = some p) (hq : pack? d = some q) : p.bits = q.bits ↔ c.Alike d := by
  constructor
  · intro h
    obtain rfl : p = q := congrArg PackedValue.mk h
    exact (standsFor_of_pack? hp).alike (standsFor_of_pack? hq)
  · intro h
    have hpack : pack? c = pack? d := by
      by_cases hc : c.tag = .number
      · obtain ⟨x, rfl⟩ := WordContent.exists_of_tag hc
        obtain ⟨y, rfl, hxy⟩ := WordContent.alike_number_iff.mp h
        exact congrArg some (ofNumber_eq_of_alike hxy)
      · exact congrArg pack? ((WordContent.alike_iff hc).mp h)
    rw [hp, hq] at hpack
    exact congrArg bits (Option.some.inj hpack)

/-- **Every word of a kind other than numbers is a pattern of not-a-number**, which a number could have had. -/
theorem isNaN_of_pack? (h : pack? c = some p) (hc : c.tag ≠ .number) : Binary64.isNaN ⟨p.bits⟩ = true :=
  isNaN_of_not_isNumber fun hnumber => hc (((standsFor_of_pack? h).predicate .number).mp hnumber).symm

end Stored

end PackedValue

/-- **Every content that fits is stored, and only such; all that is read from its word tells this content, and one of
the seven predicates holds; words of different kinds differ, and words are equal only for the same content. The words of
the other kinds are patterns of not-a-number. Not-a-number is read as such and every other number with its own pattern,
so with its sign if it is zero; every double is the value of a number that is stored.** -/
theorem packedValues_exact :
    (∀ c : WordContent, (PackedValue.pack? c).isSome = true ↔ c.Fits) ∧
    (∀ (c : WordContent) (p : PackedValue), PackedValue.pack? c = some p → p.StandsFor c) ∧
    (∀ (c d : WordContent) (p q : PackedValue), PackedValue.pack? c = some p → PackedValue.pack? d = some q →
      (c.tag ≠ d.tag → p.bits ≠ q.bits) ∧ (p.bits = q.bits ↔ c.Alike d)) ∧
    (∀ (c : WordContent) (p : PackedValue), PackedValue.pack? c = some p → c.tag ≠ .number →
      Binary64.isNaN ⟨p.bits⟩ = true) ∧
    (∀ x : Binary64, (PackedValue.ofNumber x).asNumber.isNaN = x.isNaN ∧
      (x.isNaN = false → (PackedValue.ofNumber x).asNumber = x) ∧ (PackedValue.ofNumber x).asNumber.value = x.value) ∧
    (∀ (x : Binary64), x.value.isNaN = x.isNaN) ∧ (∀ x y : Binary64, x.value = y.value ↔ x.Alike y) ∧
    (∀ d : Double, Binary64.value ⟨d.toBits⟩ = d) := by
  refine ⟨PackedValue.pack?_isSome_iff, fun c p => PackedValue.standsFor_of_pack?, fun c d p q hp hq => ⟨?_, ?_⟩,
    fun c p => PackedValue.isNaN_of_pack?, fun x => ?_, Binary64.isNaN_value, Binary64.value_eq_iff,
    Double.ofBits_toBits⟩
  · exact fun hkind hbits => hkind ((PackedValue.bits_eq_iff hp hq).mp hbits).tag
  · exact PackedValue.bits_eq_iff hp hq
  · have hvalue := (Binary64.value_eq_iff _ _).mpr (PackedValue.asNumber_ofNumber x)
    refine ⟨?_, fun hx => ?_, hvalue⟩
    · rw [← Binary64.isNaN_value, hvalue, Binary64.isNaN_value]
    · exact (PackedValue.asNumber_ofNumber x).resolve_right fun h => Bool.false_ne_true (hx.symm.trans h.2)

/-- The longest address, the least infinity, and the pattern of not-a-number that the address has for a word: stored as
a number it is a number. -/
theorem packedValues_exact_edges :
    ∃ p q r : PackedValue,
      PackedValue.pack? (.object 0xFFFFFFFFFFFF) = some p ∧ p.StandsFor (.object 0xFFFFFFFFFFFF) ∧
      PackedValue.pack? (.number ⟨0xFFF0000000000000⟩) = some q ∧ q.StandsFor (.number ⟨0xFFF0000000000000⟩) ∧
      p.bits ≠ q.bits ∧ Binary64.isNaN ⟨p.bits⟩ = true ∧
      PackedValue.pack? (.number ⟨p.bits⟩) = some r ∧ r.StandsFor (.number ⟨p.bits⟩) ∧ r.bits ≠ p.bits := by
  obtain ⟨_, hstands, hdiffer, hnan, _⟩ := packedValues_exact
  refine ⟨⟨0xFFFEFFFFFFFFFFFF⟩, ⟨0xFFF0000000000000⟩, ⟨PackedValue.quietNaN⟩, by decide, hstands _ _ (by decide),
    by decide, hstands _ _ (by decide), ?_, hnan (.object 0xFFFFFFFFFFFF) _ (by decide) (by decide), by decide,
    hstands _ _ (by decide), by decide⟩
  exact (hdiffer (.object 0xFFFFFFFFFFFF) (.number ⟨0xFFF0000000000000⟩) _ _ (by decide) (by decide)).1 (by decide)

end Ecma51
