import Ecma51.Heap.Own

/-!
# Redefining a property

What becomes of a property that is not configurable when a description is applied to it. Most of it is
permanent; only a value that can be written may change, and that it can be written may end.

* `Property.Keeps`: what a property that is not configurable keeps.
* **`Descriptor.redefine?_keeps`**: a redefinition keeps it.
* `Descriptor.redefine?_data`: what a redefinition makes of a value.
-/

namespace Ecma51

/-! ## 1. What is kept -/

/-- What a property that is not configurable keeps: whether it is enumerated; that it holds a value, which
stays if it cannot be written, and then it cannot be written again; or its accessors. -/
inductive Property.Keeps : Property → Property → Prop where
  | data {v v' : Value} {w w' : Bool} (e : Bool) : (w = false → w' = false ∧ v' = v) →
      Keeps (.data v w e false) (.data v' w' e false)
  | accessor (g s : Value) (e : Bool) : Keeps (.accessor g s e false) (.accessor g s e false)

namespace Property

theorem Keeps.refl {p : Property} (hp : p.configurable = false) : p.Keeps p := by
  cases p with
  | data v w e c =>
    obtain rfl : c = false := hp
    exact .data e fun hw => ⟨hw, rfl⟩
  | accessor g s e c =>
    obtain rfl : c = false := hp
    exact .accessor g s e

theorem Keeps.trans {p q r : Property} (h : p.Keeps q) (h' : q.Keeps r) : p.Keeps r := by
  cases h with
  | data e hw =>
    cases h' with
    | data _ hw' =>
      refine .data e fun h => ?_
      obtain ⟨hw₁, hv₁⟩ := hw h
      obtain ⟨hw₂, hv₂⟩ := hw' hw₁
      exact ⟨hw₂, hv₂.trans hv₁⟩
  | accessor g s e =>
    cases h' with
    | accessor => exact .accessor g s e

theorem Keeps.configurable {p q : Property} (h : p.Keeps q) : q.configurable = false := by
  cases h <;> rfl

/-- A property shows the value of a parameter only if it is writable. -/
def Shows (p : Property) (v : Option Value) : Prop := v.isSome → p.writable = true

theorem configurable_showing (p : Property) (v : Option Value) :
    (Heap.showing p v).configurable = p.configurable := by
  cases p <;> cases v <;> rfl

/-- What is shown keeps as much as what is stored. -/
theorem Keeps.showing {p q : Property} {v v' : Option Value} (h : p.Keeps q) (hp : p.Shows v)
    (hq : q.Shows v') : (Heap.showing p v).Keeps (Heap.showing q v') := by
  cases h with
  | accessor g s e => cases v <;> cases v' <;> exact .accessor g s e
  | @data u u' w w' e hw =>
    cases w with
    | true => cases v <;> cases v' <;> exact .data e fun hw => by cases hw
    | false =>
      -- neither is writable, so neither shows another value
      obtain ⟨rfl, rfl⟩ := hw rfl
      cases v with
      | some v => cases hp rfl
      | none =>
        cases v' with
        | some v' => cases hq rfl
        | none => exact .data e hw

theorem Keeps.of_showing {p q : Property} {v : Option Value} (h : (Heap.showing p v).Keeps q)
    (hp : p.Shows v) : p.Keeps q := by
  cases v with
  | none =>
    cases p <;> exact h
  | some v =>
    cases p with
    | accessor g s e c => exact h
    | data u w e c =>
      obtain rfl : w = true := hp rfl
      cases h with
      | data _ _ => exact .data e fun hw => by cases hw

end Property

/-! ## 2. Descriptions -/

namespace Descriptor

theorem getD_of_agreesFlag {want : Option Bool} {got : Bool} (h : agreesFlag want got = true) :
    want.getD got = got := by
  cases want with
  | none => rfl
  | some b => simpa [agreesFlag] using h

theorem getD_of_agrees {want : Option Value} {got : Value} (h : agrees want got = true) :
    want.getD got = got := by
  cases want with
  | none => rfl
  | some v => simpa [agrees, Value.same] using h

theorem getD_of_ne_false {want : Option Bool} (h : want ≠ some false) : want.getD true = true := by
  rcases want with _ | _ | _
  · rfl
  · exact absurd rfl h
  · rfl

/-- A property that is not configurable admits only attributes as it has them. -/
theorem attributes_of_keepsAttributes {d : Descriptor} {p : Property} (hp : p.configurable = false)
    (h : d.keepsAttributes p = true) :
    d.enumerable.getD p.enumerable = p.enumerable ∧ d.configurable.getD p.configurable = false := by
  unfold keepsAttributes at h
  rw [hp, Bool.false_or, Bool.and_eq_true, bne_iff_ne] at h
  refine ⟨getD_of_agreesFlag h.2, ?_⟩
  rw [hp]
  cases hc : d.configurable with
  | none => rfl
  | some b =>
    cases b with
    | false => rfl
    | true => exact absurd hc h.1

/-- The content that a description gives is the one that is there, as far as that is permanent. -/
def KeepsContentOf (d : Descriptor) : Property → Prop
  | .data v w _ _ => w = false → d.writable.getD w = false ∧ d.value.getD v = v
  | .accessor g s _ _ => d.get.getD g = g ∧ d.set.getD s = s

theorem keeps_update {d : Descriptor} {p : Property} (hp : p.configurable = false)
    (hattributes : d.keepsAttributes p = true) (hcontent : d.KeepsContentOf p) :
    p.Keeps (d.update p) := by
  obtain ⟨he, hc⟩ := attributes_of_keepsAttributes hp hattributes
  unfold update
  rw [he, hc]
  cases p with
  | data v w e c =>
    obtain rfl : c = false := hp
    exact .data e hcontent
  | accessor g s e c =>
    obtain rfl : c = false := hp
    obtain ⟨hg, hs⟩ := hcontent
    show Property.Keeps _ (.accessor (d.get.getD g) (d.set.getD s) e false)
    rw [hg, hs]
    exact .accessor g s e

theorem keepsContentOf_of_isGeneric {d : Descriptor} (h : d.isGeneric = true) (p : Property) :
    d.KeepsContentOf p := by
  unfold isGeneric isAccessor isData at h
  simp only [Bool.and_eq_true, Bool.not_eq_true', Bool.or_eq_false_iff, Option.isSome_eq_false_iff,
    Option.isNone_iff_eq_none] at h
  obtain ⟨⟨hget, hset⟩, hvalue, hwritable⟩ := h
  cases p with
  | data v w e c =>
    intro hw
    rw [hvalue, hwritable]
    exact ⟨hw, rfl⟩
  | accessor g s e c =>
    show d.get.getD g = g ∧ d.set.getD s = s
    rw [hget, hset]
    exact ⟨rfl, rfl⟩

theorem keepsContentOf_of_keepsContent {d : Descriptor} {p : Property} (hp : p.configurable = false)
    (h : d.keepsContent p = true) : d.KeepsContentOf p := by
  unfold keepsContent at h
  rw [hp, Bool.false_or] at h
  cases p with
  | data v w e c =>
    rintro rfl
    dsimp only at h
    rw [Bool.false_or, Bool.and_eq_true, bne_iff_ne] at h
    refine ⟨?_, getD_of_agrees h.2⟩
    cases hw : d.writable with
    | none => rfl
    | some b =>
      cases b with
      | false => rfl
      | true => exact absurd hw h.1
  | accessor g s e c =>
    rw [Bool.and_eq_true] at h
    exact ⟨getD_of_agrees h.1, getD_of_agrees h.2⟩

/-- **A redefinition of a property that is not configurable keeps what is permanent about it.** -/
theorem redefine?_keeps {d : Descriptor} {p q : Property} (hp : p.configurable = false)
    (h : d.redefine? p = some q) : p.Keeps q := by
  unfold redefine? at h
  split at h
  · cases h
    exact .refl hp
  split at h
  · cases h
  rename_i hattributes
  rw [Bool.not_eq_true, Bool.not_eq_false'] at hattributes
  split at h
  · rename_i hgeneric
    cases h
    exact keeps_update hp hattributes (keepsContentOf_of_isGeneric hgeneric p)
  split at h
  · rw [hp] at h
    cases h
  split at h
  · rename_i hcontent
    cases h
    exact keeps_update hp hattributes (keepsContentOf_of_keepsContent hp hcontent)
  · cases h

/-- **All that a redefinition can make of a property**: itself, the described parts replaced, or those of the
other kind of property. -/
theorem redefine?_cases {d : Descriptor} {p q : Property} (h : d.redefine? p = some q) :
    d.holdsOf p = true ∧ q = p ∨
    (d.isGeneric = true ∨ p.isData = d.isData) ∧ q = d.update p ∨
    (d.isGeneric = false ∧ p.isData ≠ d.isData) ∧ q = d.update (switched p) := by
  unfold redefine? at h
  split at h
  · rename_i hholds
    cases h
    exact .inl ⟨hholds, rfl⟩
  split at h
  · cases h
  split at h
  · rename_i hgeneric
    cases h
    exact .inr (.inl ⟨.inl hgeneric, rfl⟩)
  rename_i hgeneric
  unfold switchesKind at h
  rw [Bool.eq_false_iff.mpr hgeneric, Bool.not_false, Bool.true_and] at h
  split at h
  · rename_i hswitch
    split at h
    · cases h
      exact .inr (.inr ⟨⟨Bool.eq_false_iff.mpr hgeneric, bne_iff_ne.mp hswitch⟩, rfl⟩)
    · cases h
  · rename_i hsame
    split at h
    · cases h
      exact .inr (.inl ⟨.inr (Classical.not_not.mp fun hne => hsame (bne_iff_ne.mpr hne)), rfl⟩)
    · cases h

/-- A description that does not speak of accessors leaves a value one. -/
theorem redefine?_of_data {d : Descriptor} {v : Value} {w e c : Bool} {q : Property}
    (haccessor : d.isAccessor = false) (h : d.redefine? (.data v w e c) = some q) :
    d.holdsOf (.data v w e c) = true ∧ q = .data v w e c ∨
      q = .data (d.value.getD v) (d.writable.getD w) (d.enumerable.getD e) (d.configurable.getD c) := by
  rcases redefine?_cases h with hsame | ⟨_, rfl⟩ | ⟨⟨hgeneric, hkind⟩, _⟩
  · exact .inl hsame
  · exact .inr rfl
  · -- neither generic nor about accessors, the description is about a value
    unfold isGeneric at hgeneric
    rw [haccessor, Bool.not_false, Bool.true_and, Bool.not_eq_false'] at hgeneric
    exact absurd hgeneric.symm hkind

/-- A value that is writable stays so, unless the description asks for accessors or forbids writing. -/
theorem redefine?_writable {d : Descriptor} {v : Value} {e c : Bool} {q : Property}
    (haccessor : d.isAccessor = false) (hwritable : d.writable ≠ some false)
    (h : d.redefine? (.data v true e c) = some q) : ∃ v' e' c', q = .data v' true e' c' := by
  rcases redefine?_of_data haccessor h with ⟨_, rfl⟩ | rfl
  · exact ⟨v, e, c, rfl⟩
  · rw [getD_of_ne_false hwritable]
    exact ⟨_, _, _, rfl⟩

/-- **A description with a value makes a property with that value.** -/
theorem data_of_redefine? {d : Descriptor} {p q : Property} {v : Value} (hvalue : d.value = some v)
    (h : d.redefine? p = some q) : ∃ w e c, q = .data v w e c := by
  have hdata : d.isData = true := by
    unfold isData
    rw [hvalue]
    rfl
  have hupdate (u : Value) (w e c : Bool) : ∃ w' e' c', d.update (.data u w e c) = .data v w' e' c' := by
    refine ⟨d.writable.getD w, d.enumerable.getD e, d.configurable.getD c, ?_⟩
    show Property.data (d.value.getD u) _ _ _ = _
    rw [hvalue]
    rfl
  rcases redefine?_cases h with ⟨hholds, rfl⟩ | ⟨hkind, rfl⟩ | ⟨⟨_, hkind⟩, rfl⟩
  · unfold holdsOf at hholds
    rw [hdata] at hholds
    cases q with
    | accessor g s e c => simp at hholds
    | data u w e c =>
      simp only [Bool.and_eq_true] at hholds
      have hv := getD_of_agrees hholds.2.1.2
      rw [hvalue] at hv
      exact ⟨w, e, c, congrArg (Property.data · w e c) hv.symm⟩
  · cases p with
    | data u w e c => exact hupdate u w e c
    | accessor g s e c =>
      rcases hkind with hgeneric | hsame
      · unfold isGeneric at hgeneric
        rw [hdata, Bool.not_true, Bool.and_false] at hgeneric
        cases hgeneric
      · rw [hdata] at hsame
        cases hsame
  · cases p with
    | data u w e c => exact absurd hdata.symm hkind
    | accessor g s e c => exact hupdate .undefined false e c

/-- A property that is as described admits its attributes. -/
theorem keepsAttributes_of_holdsOf {d : Descriptor} {p : Property} (hp : p.configurable = false)
    (h : d.holdsOf p = true) : d.keepsAttributes p = true := by
  unfold holdsOf at h
  rw [Bool.and_eq_true, Bool.and_eq_true, hp] at h
  unfold keepsAttributes
  rw [hp, Bool.false_or, Bool.and_eq_true, bne_iff_ne]
  refine ⟨fun hc => ?_, h.1.1⟩
  have hconfigurable := h.1.2
  rw [hc] at hconfigurable
  cases hconfigurable

theorem keepsAttributes_of_redefine? {d : Descriptor} {p q : Property} (hp : p.configurable = false)
    (h : d.redefine? p = some q) : d.keepsAttributes p = true := by
  unfold redefine? at h
  split at h
  · rename_i hholds
    exact keepsAttributes_of_holdsOf hp hholds
  split at h
  · cases h
  rename_i hattributes
  rw [Bool.not_eq_true, Bool.not_eq_false'] at hattributes
  exact hattributes

/-- **What a redefinition makes of a value that is not configurable**: the described parts are
replaced. -/
theorem redefine?_data {d : Descriptor} {v : Value} {w e : Bool} {q : Property}
    (h : d.redefine? (.data v w e false) = some q) :
    q = .data (d.value.getD v) (d.writable.getD w) e false := by
  obtain ⟨he, hc⟩ := attributes_of_keepsAttributes rfl (keepsAttributes_of_redefine? rfl h)
  have hupdate : d.update (.data v w e false) =
      .data (d.value.getD v) (d.writable.getD w) e false := by
    unfold update
    rw [he, hc]
    rfl
  unfold redefine? at h
  split at h
  · rename_i hholds
    unfold holdsOf at hholds
    simp only [Bool.and_eq_true] at hholds
    cases h
    rw [getD_of_agrees hholds.2.1.2, getD_of_agreesFlag hholds.2.2]
  split at h
  · cases h
  split at h
  · cases h
    exact hupdate
  split at h
  · cases h
  split at h
  · cases h
    exact hupdate
  · cases h

/-- A value that can be written admits another one, if the attributes are admitted. -/
theorem exists_redefine? {d : Descriptor} {v : Value} {e : Bool} (hdata : d.isData = true)
    (hattributes : d.keepsAttributes (.data v true e false) = true) :
    ∃ q, d.redefine? (.data v true e false) = some q := by
  have hgeneric : d.isGeneric = false := by
    unfold isGeneric
    rw [hdata]
    exact Bool.and_false _
  have hswitch : d.switchesKind (.data v true e false) = false := by
    unfold switchesKind
    rw [hdata]
    exact Bool.and_false _
  unfold redefine?
  rw [hattributes, hgeneric, hswitch]
  split
  · exact ⟨_, rfl⟩
  · exact ⟨_, rfl⟩

end Descriptor

end Ecma51
