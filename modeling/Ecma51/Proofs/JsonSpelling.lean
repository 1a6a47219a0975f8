import Ecma51.Proofs.JsonParts

/-!
# What is spelled

Facts about the grammar of JSON text that need no reader: what follows data is no longer than where they
start, nothing is wrong with them, and how they start.

* `Json.length_le_of_spells`, `Json.fault?_of_spells`, `Json.starts_of_spells`.
* **`Json.overruns_of_isText`**: a right text that is nested too deep opens too much before anything is
  wrong.
-/

namespace Ecma51

namespace Json

/-! ## 1. Lengths -/

theorem SpellsUnit.length_le {u : CodeUnit} {us rest : List CodeUnit} (h : SpellsUnit u us rest) :
    rest.length ≤ us.length := by
  cases h with
  | plain => exact Nat.le_succ _
  | letter => exact Nat.le_add_right _ 2
  | digits => exact Nat.le_add_right _ 6

theorem SpellsUnits.length_le {units us rest : List CodeUnit} (h : SpellsUnits units us rest) :
    rest.length ≤ us.length := by
  induction units generalizing us with
  | nil =>
    cases h
    exact Nat.le_succ _
  | cons u units ih =>
    obtain ⟨mid, hu, hrest⟩ := h
    exact Nat.le_trans (ih hrest) hu.length_le

theorem SpellsString.length_le {t : Text} {us rest : List CodeUnit} (h : SpellsString t us rest) :
    rest.length ≤ us.length := by
  obtain ⟨us', rfl, hunits⟩ := h
  exact Nat.le_succ_of_le hunits.length_le

theorem Digits.length_le {ds : List Nat} {us rest : List CodeUnit} (h : Digits ds us rest) :
    rest.length ≤ us.length := by
  induction h with
  | last => exact Nat.le_succ _
  | more _ _ ih => exact Nat.le_succ_of_le ih

theorem SpellsNumber.length_le {x : Double} {us rest : List CodeUnit} (h : SpellsNumber x us rest) :
    rest.length ≤ us.length := by
  obtain ⟨negative, whole, fraction, exponent, us₁, us₂, us₃, hminus, hwhole, hfraction, hexponent, _⟩ := h
  have h₁ : us₁.length ≤ us.length := by
    cases hminus with
    | absent => exact Nat.le_refl _
    | present => exact Nat.le_succ _
  have h₂ : us₂.length ≤ us₁.length := by
    cases hwhole with
    | zero => exact Nat.le_succ _
    | digits _ hds => exact hds.length_le
  have h₃ : us₃.length ≤ us₂.length := by
    cases hfraction with
    | absent => exact Nat.le_refl _
    | digits hds => exact Nat.le_succ_of_le hds.length_le
  have h₄ : rest.length ≤ us₃.length := by
    cases hexponent with
    | absent => exact Nat.le_refl _
    | digits _ hsign hds =>
      have hmid := hds.length_le
      cases hsign with
      | absent => exact Nat.le_succ_of_le hmid
      | plus => exact Nat.le_succ_of_le (Nat.le_succ_of_le hmid)
      | minus => exact Nat.le_succ_of_le (Nat.le_succ_of_le hmid)
  omega

theorem Around.length_le {part : List CodeUnit → List CodeUnit → Prop} {us rest : List CodeUnit}
    (h : Around part us rest)
    (hpart : ∀ {us rest : List CodeUnit}, part us rest → rest.length ≤ us.length) :
    rest.length ≤ us.length := by
  obtain ⟨us₁, us₂, hbefore, hmid, hafter⟩ := h
  exact Nat.le_trans hafter.length_le (Nat.le_trans (hpart hmid) hbefore.length_le)

mutual

theorem length_le_of_spells : ∀ (j : Json) {us rest : List CodeUnit}, Spells j us rest →
    rest.length ≤ us.length
  | .null, us, rest, h => by
    rw [Spells] at h
    rw [h, List.length_append]
    exact Nat.le_add_left _ _
  | .boolean b, us, rest, h => by
    cases b <;>
    · rw [Spells] at h
      rw [h, List.length_append]
      exact Nat.le_add_left _ _
  | .number x, us, rest, h => by
    rw [Spells] at h
    exact h.length_le
  | .string t, us, rest, h => by
    rw [Spells] at h
    exact h.length_le
  | .array items, us, rest, h => by
    rw [Spells] at h
    obtain ⟨us', rfl, hitems⟩ := h
    exact Nat.le_succ_of_le (length_le_of_spellsItems items hitems)
  | .object members, us, rest, h => by
    rw [Spells] at h
    obtain ⟨us', rfl, hmembers⟩ := h
    exact Nat.le_succ_of_le (length_le_of_spellsMembers members hmembers)
  | .broken f, us, rest, h => by
    rw [Spells] at h
    exact h.elim

theorem length_le_of_spellsItems : ∀ (js : List Json) {us rest : List CodeUnit},
    SpellsItems js us rest → rest.length ≤ us.length
  | [], us, rest, h => by
    rw [SpellsItems] at h
    exact Nat.le_of_succ_le h.length_le
  | j :: js, us, rest, h => by
    rw [SpellsItems] at h
    obtain ⟨mid, hj, hmore⟩ := h
    exact Nat.le_trans (length_le_of_spellsMoreItems js hmore) (hj.length_le (length_le_of_spells j))

theorem length_le_of_spellsMoreItems : ∀ (js : List Json) {us rest : List CodeUnit},
    SpellsMoreItems js us rest → rest.length ≤ us.length
  | [], us, rest, h => by
    rw [SpellsMoreItems] at h
    rw [h]
    exact Nat.le_succ _
  | j :: js, us, rest, h => by
    rw [SpellsMoreItems] at h
    obtain ⟨us', mid, rfl, hj, hmore⟩ := h
    exact Nat.le_succ_of_le
      (Nat.le_trans (length_le_of_spellsMoreItems js hmore) (hj.length_le (length_le_of_spells j)))

theorem length_le_of_spellsMembers : ∀ (js : List (Text × Json)) {us rest : List CodeUnit},
    SpellsMembers js us rest → rest.length ≤ us.length
  | [], us, rest, h => by
    rw [SpellsMembers] at h
    exact Nat.le_of_succ_le h.length_le
  | (name, j) :: js, us, rest, h => by
    rw [SpellsMembers] at h
    obtain ⟨us₁, mid, hname, hj, hmore⟩ := h
    have h₁ : us₁.length ≤ us.length := Nat.le_of_succ_le (hname.length_le SpellsString.length_le)
    exact Nat.le_trans (length_le_of_spellsMoreMembers js hmore)
      (Nat.le_trans (hj.length_le (length_le_of_spells j)) h₁)

theorem length_le_of_spellsMoreMembers : ∀ (js : List (Text × Json)) {us rest : List CodeUnit},
    SpellsMoreMembers js us rest → rest.length ≤ us.length
  | [], us, rest, h => by
    rw [SpellsMoreMembers] at h
    rw [h]
    exact Nat.le_succ _
  | (name, j) :: js, us, rest, h => by
    rw [SpellsMoreMembers] at h
    obtain ⟨us', us₁, mid, rfl, hname, hj, hmore⟩ := h
    have h₁ : us₁.length ≤ us'.length := Nat.le_of_succ_le (hname.length_le SpellsString.length_le)
    exact Nat.le_succ_of_le (Nat.le_trans (length_le_of_spellsMoreMembers js hmore)
      (Nat.le_trans (hj.length_le (length_le_of_spells j)) h₁))

end

/-! ## 2. Data -/

mutual

/-- Nothing is wrong with data that are spelled. -/
theorem fault?_of_spells : ∀ (j : Json) {us rest : List CodeUnit}, Spells j us rest → j.fault? = none
  | .null, _, _, _ | .boolean _, _, _, _ | .number _, _, _, _ | .string _, _, _, _ => rfl
  | .array items, us, rest, h => by
    rw [Spells] at h
    obtain ⟨us', _, hitems⟩ := h
    cases items with
    | nil => rfl
    | cons j js =>
      rw [SpellsItems] at hitems
      obtain ⟨mid, ⟨us₁, us₂, _, hj, _⟩, hmore⟩ := hitems
      rw [fault?, faultOfItems?, fault?_of_spells j hj, faultOfItems?_of_spells js hmore]
      rfl
  | .object members, us, rest, h => by
    rw [Spells] at h
    obtain ⟨us', _, hmembers⟩ := h
    cases members with
    | nil => rfl
    | cons m js =>
      obtain ⟨name, j⟩ := m
      rw [SpellsMembers] at hmembers
      obtain ⟨us₁, mid, _, ⟨us₂, us₃, _, hj, _⟩, hmore⟩ := hmembers
      rw [fault?, faultOfMembers?, fault?_of_spells j hj, faultOfMembers?_of_spells js hmore]
      rfl
  | .broken f, us, rest, h => by
    rw [Spells] at h
    exact h.elim

theorem faultOfItems?_of_spells : ∀ (js : List Json) {us rest : List CodeUnit},
    SpellsMoreItems js us rest → faultOfItems? js = none
  | [], _, _, _ => rfl
  | j :: js, us, rest, h => by
    rw [SpellsMoreItems] at h
    obtain ⟨us', mid, _, ⟨us₁, us₂, _, hj, _⟩, hmore⟩ := h
    rw [faultOfItems?, fault?_of_spells j hj, faultOfItems?_of_spells js hmore]
    rfl

theorem faultOfMembers?_of_spells : ∀ (js : List (Text × Json)) {us rest : List CodeUnit},
    SpellsMoreMembers js us rest → faultOfMembers? js = none
  | [], _, _, _ => rfl
  | (name, j) :: js, us, rest, h => by
    rw [SpellsMoreMembers] at h
    obtain ⟨us', us₁, mid, _, _, ⟨us₂, us₃, _, hj, _⟩, hmore⟩ := h
    rw [faultOfMembers?, fault?_of_spells j hj, faultOfMembers?_of_spells js hmore]
    rfl

end

/-- Data start with a unit that is neither a blank nor a closing bracket. -/
theorem starts_of_spells {j : Json} {us rest : List CodeUnit} (h : Spells j us rest) :
    ∃ u us', us = u :: us' ∧ isBlank u = false ∧ u ≠ 0x5D ∧ u ≠ 0x7D := by
  cases j with
  | null =>
    rw [Spells] at h
    exact ⟨0x6E, _, h, by decide⟩
  | boolean b =>
    cases b with
    | true =>
      rw [Spells] at h
      exact ⟨0x74, _, h, by decide⟩
    | false =>
      rw [Spells] at h
      exact ⟨0x66, _, h, by decide⟩
  | number x =>
    rw [Spells] at h
    obtain ⟨negative, whole, fraction, exponent, us₁, us₂, us₃, hminus, hwhole, _⟩ := h
    cases hminus with
    | present => exact ⟨0x2D, _, rfl, by decide⟩
    | absent =>
      obtain ⟨u, us', rfl, hu⟩ := hwhole.head
      refine ⟨u, us', rfl, ?_, ne_of_isDecimalDigit hu (by decide), ne_of_isDecimalDigit hu (by decide)⟩
      unfold isBlank
      simp only [Bool.or_eq_false_iff, beq_eq_false_iff_ne]
      exact ⟨⟨⟨ne_of_isDecimalDigit hu (by decide), ne_of_isDecimalDigit hu (by decide)⟩,
        ne_of_isDecimalDigit hu (by decide)⟩, ne_of_isDecimalDigit hu (by decide)⟩
  | string t =>
    rw [Spells] at h
    obtain ⟨us', rfl, _⟩ := h
    exact ⟨0x22, us', rfl, by decide⟩
  | array items =>
    rw [Spells] at h
    obtain ⟨us', rfl, _⟩ := h
    exact ⟨0x5B, us', rfl, by decide⟩
  | object members =>
    rw [Spells] at h
    obtain ⟨us', rfl, _⟩ := h
    exact ⟨0x7B, us', rfl, by decide⟩
  | broken f =>
    rw [Spells] at h
    exact h.elim

/-! ## 3. Too deep nesting -/

mutual

/-- Data that are nested too deep open too much before anything is wrong. -/
theorem overruns_of_spells : ∀ (j : Json) {d : Nat} {us us₁ rest : List CodeUnit}, Blanks us us₁ →
    Spells j us₁ rest → d < j.nesting → Overruns d us
  | .array items, d, us, us₁, rest, hbefore, h, hdeep => by
    rw [Spells] at h
    obtain ⟨us', rfl, hitems⟩ := h
    cases d with
    | zero => exact .opens hbefore (.inl rfl)
    | succ d =>
      rw [nesting] at hdeep
      have hdeep : d < nestingOfItems items := by omega
      cases items with
      | nil => exact absurd hdeep (Nat.not_lt_zero d)
      | cons j js =>
        rw [SpellsItems] at hitems
        obtain ⟨mid, hj, hmore⟩ := hitems
        by_cases hjdeep : d < j.nesting
        · obtain ⟨us₂, us₃, hbefore', hj, _⟩ := hj
          exact .item hbefore .none (overruns_of_spells j hbefore' hj hjdeep)
        · have hdeeper : d < nestingOfItems js := by
            rw [nestingOfItems] at hdeep
            omega
          obtain ⟨us₂, us₃, rfl, hitems, hus⟩ := overruns_of_spellsMoreItems js hmore hdeeper
          exact .item hbefore (.more hj (Nat.le_of_not_lt hjdeep) hitems) hus
  | .object members, d, us, us₁, rest, hbefore, h, hdeep => by
    rw [Spells] at h
    obtain ⟨us', rfl, hmembers⟩ := h
    cases d with
    | zero => exact .opens hbefore (.inr rfl)
    | succ d =>
      rw [nesting] at hdeep
      have hdeep : d < nestingOfMembers members := by omega
      cases members with
      | nil => exact absurd hdeep (Nat.not_lt_zero d)
      | cons m js =>
        obtain ⟨name, j⟩ := m
        rw [SpellsMembers] at hmembers
        obtain ⟨us₁, mid, hname, hj, hmore⟩ := hmembers
        by_cases hjdeep : d < j.nesting
        · obtain ⟨us₂, us₃, hbefore', hj, _⟩ := hj
          exact .member hbefore .none hname (overruns_of_spells j hbefore' hj hjdeep)
        · have hdeeper : d < nestingOfMembers js := by
            rw [nestingOfMembers] at hdeep
            omega
          obtain ⟨us₂, us₃, name', us₄, rfl, hmembers, hname', hus⟩ :=
            overruns_of_spellsMoreMembers js hmore hdeeper
          exact .member hbefore (.more hname hj (Nat.le_of_not_lt hjdeep) hmembers) hname' hus
  | .null, _, _, _, _, _, _, hdeep | .boolean _, _, _, _, _, _, _, hdeep
  | .number _, _, _, _, _, _, _, hdeep | .string _, _, _, _, _, _, _, hdeep
  | .broken _, _, _, _, _, _, _, hdeep => absurd hdeep (Nat.not_lt_zero _)

theorem overruns_of_spellsMoreItems : ∀ (js : List Json) {d : Nat} {us rest : List CodeUnit},
    SpellsMoreItems js us rest → d < nestingOfItems js →
    ∃ us₁ us₂, us = 0x2C :: us₁ ∧ ItemsBefore d us₁ us₂ ∧ Overruns d us₂
  | [], _, _, _, _, hdeep => absurd hdeep (Nat.not_lt_zero _)
  | j :: js, d, us, rest, h, hdeep => by
    rw [SpellsMoreItems] at h
    obtain ⟨us', mid, rfl, hj, hmore⟩ := h
    by_cases hjdeep : d < j.nesting
    · obtain ⟨us₂, us₃, hbefore, hj, _⟩ := hj
      exact ⟨us', us', rfl, .none, overruns_of_spells j hbefore hj hjdeep⟩
    · have hdeeper : d < nestingOfItems js := by
        rw [nestingOfItems] at hdeep
        omega
      obtain ⟨us₂, us₃, rfl, hitems, hus⟩ := overruns_of_spellsMoreItems js hmore hdeeper
      exact ⟨us', us₃, rfl, .more hj (Nat.le_of_not_lt hjdeep) hitems, hus⟩

theorem overruns_of_spellsMoreMembers : ∀ (js : List (Text × Json)) {d : Nat} {us rest : List CodeUnit},
    SpellsMoreMembers js us rest → d < nestingOfMembers js →
    ∃ us₁ us₂ name us₃, us = 0x2C :: us₁ ∧ MembersBefore d us₁ us₂ ∧ SpellsName name us₂ us₃ ∧
      Overruns d us₃
  | [], _, _, _, _, hdeep => absurd hdeep (Nat.not_lt_zero _)
  | (name, j) :: js, d, us, rest, h, hdeep => by
    rw [SpellsMoreMembers] at h
    obtain ⟨us', us₁, mid, rfl, hname, hj, hmore⟩ := h
    by_cases hjdeep : d < j.nesting
    · obtain ⟨us₂, us₃, hbefore, hj, _⟩ := hj
      exact ⟨us', us', name, us₁, rfl, .none, hname, overruns_of_spells j hbefore hj hjdeep⟩
    · have hdeeper : d < nestingOfMembers js := by
        rw [nestingOfMembers] at hdeep
        omega
      obtain ⟨us₂, us₃, name', us₄, rfl, hmembers, hname', hus⟩ :=
        overruns_of_spellsMoreMembers js hmore hdeeper
      exact ⟨us', us₃, name', us₄, rfl, .more hname hj (Nat.le_of_not_lt hjdeep) hmembers, hname', hus⟩

end

/-- **A right text that is nested too deep overruns.** -/
theorem overruns_of_isText {d : Nat} {us : List CodeUnit} {j : Json} (h : IsText us j)
    (hdeep : d < j.nesting) : Overruns d us := by
  obtain ⟨us₁, us₂, hbefore, hspells, _⟩ := h
  exact overruns_of_spells j hbefore hspells hdeep

end Json

end Ecma51
