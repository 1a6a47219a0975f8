import Ecma51.Proofs.GlobalMatches

/-!
# Replacement templates

A dollar sign in a template stands, with what follows it, for a part of the match or of the subject. What follows is
ambiguous: two digits may name one group, or the first alone may, depending on how many groups there are; and what names
nothing is text. Templates are read here in three ways, which agree: by rules, by the definition, and by a scan over
positions that looks at nothing outside the texts.

* `Pattern.Refers`, **`groupNumber?_eq_some_iff`**: which group the digits name.
* `Pattern.Expands`, **`expands_iff`**: the rules.
* `Text.doubled`, **`expandTemplate_doubled`**: how to write any text as a template.
* `Pattern.scanStep?`, `Scans`, **`scans_iff`**: the scan.
* `Heap.Searches`, **`inOrder_replacedMatches`**: what a replacement finds.
* **`replaceMatches_whole`**: a template that stands for the match itself.
* **`templates_exact`**: all of this.
-/

namespace Ecma51

-- powers mean the same whether or not there are other instances in scope
attribute [local instance (high)] instPowNat

namespace Pattern

/-! ## 1. References to groups -/

/-- The units after a dollar sign name a group of so many, with so many digits: with two digits if that is a group, else
with one. -/
inductive Refers (count : Nat) : List CodeUnit → (n width : Nat) → Prop
  | two {u v : CodeUnit} {us : List CodeUnit} {a b : Nat} (hu : decimalDigit? u = some a)
      (hv : decimalDigit? v = some b) (hn : 1 ≤ 10 * a + b ∧ 10 * a + b ≤ count) :
      Refers count (u :: v :: us) (10 * a + b) 2
  | one {u : CodeUnit} {us : List CodeUnit} {a : Nat} (hu : decimalDigit? u = some a) (hn : 1 ≤ a ∧ a ≤ count)
      (hnot : ∀ v b, us.head? = some v → decimalDigit? v = some b → ¬ (1 ≤ 10 * a + b ∧ 10 * a + b ≤ count)) :
      Refers count (u :: us) a 1

/-- The group that two digits name, the first of which is given. -/
def twoDigits? (count a : Nat) (second : Option CodeUnit) : Option Nat :=
  ((second.bind decimalDigit?).map (10 * a + ·)).filter fun n => 1 ≤ n ∧ n ≤ count

section References

variable {count a n width : Nat} {u : CodeUnit} {us : List CodeUnit} {second : Option CodeUnit}

theorem twoDigits?_eq_some_iff : twoDigits? count a second = some n ↔
    ∃ v b, second = some v ∧ decimalDigit? v = some b ∧ n = 10 * a + b ∧ 1 ≤ n ∧ n ≤ count := by
  unfold twoDigits?
  rw [Option.filter_eq_some_iff, Option.map_eq_some_iff]
  constructor
  · rintro ⟨⟨b, hb, rfl⟩, hn⟩
    obtain ⟨v, hv, hdigit⟩ := Option.bind_eq_some_iff.mp hb
    exact ⟨v, b, hv, hdigit, rfl, of_decide_eq_true hn⟩
  · rintro ⟨v, b, rfl, hdigit, rfl, hn⟩
    exact ⟨⟨b, hdigit, rfl⟩, decide_eq_true hn⟩

theorem groupNumber?_none (hu : decimalDigit? u = none) : groupNumber? count (u :: us) = none := by
  unfold groupNumber?
  dsimp only
  rw [hu]
  rfl

/-- After a first digit, a second one is tried first. -/
theorem groupNumber?_digit (hu : decimalDigit? u = some a) :
    groupNumber? count (u :: us) =
      ((twoDigits? count a us.head?).map (·, 2)).or (if 1 ≤ a ∧ a ≤ count then some (a, 1) else none) := by
  unfold groupNumber? twoDigits?
  dsimp only
  rw [hu]
  cases us with
  | nil => rfl
  | cons v us =>
    rw [List.head?_cons, Option.bind_some]
    cases hv : decimalDigit? v with
    | none => simp [hv]
    | some b =>
      by_cases hn : 1 ≤ 10 * a + b ∧ 10 * a + b ≤ count <;> simp [hv, hn, Option.filter_some]

/-- **Which group the digits name.** -/
theorem groupNumber?_eq_some_iff : groupNumber? count us = some (n, width) ↔ Refers count us n width := by
  cases us with
  | nil => exact ⟨nofun, nofun⟩
  | cons u us =>
    cases hu : decimalDigit? u with
    | none =>
      rw [groupNumber?_none hu]
      refine ⟨nofun, fun h => ?_⟩
      cases h with
      | two hu' | one hu' => cases hu.symm.trans hu'
    | some a =>
      rw [groupNumber?_digit hu]
      constructor
      · intro h
        cases htwo : twoDigits? count a us.head? with
        | some k =>
          rw [htwo] at h
          cases h
          obtain ⟨v, b, hv, hdigit, rfl, hn⟩ := twoDigits?_eq_some_iff.mp htwo
          obtain ⟨vs, rfl⟩ := List.head?_eq_some_iff.mp hv
          exact .two hu hdigit hn
        | none =>
          rw [htwo] at h
          obtain ⟨hn, heq⟩ := Option.ite_none_right_eq_some.mp h
          cases heq
          -- a second digit would have been taken
          refine .one hu hn fun v b hv hdigit hboth => ?_
          cases htwo.symm.trans (twoDigits?_eq_some_iff.mpr ⟨v, b, hv, hdigit, rfl, hboth⟩)
      · intro h
        cases h with
        | two hu' hv hn =>
          cases hu.symm.trans hu'
          rw [List.head?_cons, twoDigits?_eq_some_iff.mpr ⟨_, _, rfl, hv, rfl, hn⟩]
          rfl
        | one hu' hn hnot =>
          cases hu.symm.trans hu'
          have htwo : twoDigits? count n us.head? = none := by
            refine Option.eq_none_iff_forall_ne_some.mpr fun k hk => ?_
            obtain ⟨v, b, hv, hdigit, rfl, hboth⟩ := twoDigits?_eq_some_iff.mp hk
            exact hnot v b hv hdigit hboth
          rw [htwo, if_pos hn]
          rfl

end References

/-! ## 2. Rules -/

/-- The text of a group; a group that took no part has none. -/
def Match.groupText (x : Match) (subject : Text) (n : Nat) : Text :=
  ((x.groups[n - 1]?).join.map (spanText subject)).getD .empty

/-- The units that have a meaning after a dollar sign, digits apart: the dollar sign, the ampersand, the grave accent and
the apostrophe. -/
def signs : List CodeUnit := [0x24, 0x26, 0x60, 0x27]

/-- What a template stands for, from left to right. -/
inductive Expands (subject : Text) (x : Match) : (template out : List CodeUnit) → Prop
  | nil : Expands subject x [] []
  | plain {u : CodeUnit} {us out : List CodeUnit} (hu : u ≠ 0x24) (hrest : Expands subject x us out) :
      Expands subject x (u :: us) (u :: out)
  /-- A dollar sign. -/
  | dollar {us out : List CodeUnit} (hrest : Expands subject x us out) :
      Expands subject x (0x24 :: 0x24 :: us) (0x24 :: out)
  /-- The match. -/
  | whole {us out : List CodeUnit} (hrest : Expands subject x us out) :
      Expands subject x (0x24 :: 0x26 :: us) ((x.text subject).toList ++ out)
  /-- What comes before the match. -/
  | before {us out : List CodeUnit} (hrest : Expands subject x us out) :
      Expands subject x (0x24 :: 0x60 :: us) ((subject.take x.span.1).toList ++ out)
  /-- What comes after it. -/
  | after {us out : List CodeUnit} (hrest : Expands subject x us out) :
      Expands subject x (0x24 :: 0x27 :: us) ((subject.drop x.span.2).toList ++ out)
  /-- A group. -/
  | group {us out : List CodeUnit} {n width : Nat} (hrefers : Refers x.groups.length us n width)
      (hrest : Expands subject x (us.drop width) out) :
      Expands subject x (0x24 :: us) ((x.groupText subject n).toList ++ out)
  /-- Any other dollar sign stands for itself. -/
  | literal {us out : List CodeUnit} (hsign : ∀ u, us.head? = some u → u ∉ signs)
      (hrefers : ∀ n width, ¬ Refers x.groups.length us n width) (hrest : Expands subject x us out) :
      Expands subject x (0x24 :: us) (0x24 :: out)

section Rules

variable {subject : Text} {x : Match} {u : CodeUnit} {us out : List CodeUnit} {n width : Nat}

theorem expandUnits_plain (hu : u ≠ 0x24) : expandUnits subject x (u :: us) = u :: expandUnits subject x us := by
  rw [expandUnits, if_neg hu]

/-- A dollar sign with something that it stands for. -/
theorem expandUnits_special {t : Text} (ht : template? subject x us = some (t, width)) :
    expandUnits subject x (0x24 :: us) = t.toList ++ expandUnits subject x (us.drop width) := by
  rw [expandUnits, if_pos rfl, ht]

/-- A dollar sign with one unit that has a meaning. -/
theorem expandUnits_sign {t : Text} (ht : template? subject x (u :: us) = some (t, 1)) :
    expandUnits subject x (0x24 :: u :: us) = t.toList ++ expandUnits subject x us := expandUnits_special ht

theorem expandUnits_dollar (subject : Text) (x : Match) (us : List CodeUnit) :
    expandUnits subject x (0x24 :: 0x24 :: us) = 0x24 :: expandUnits subject x us :=
  expandUnits_sign (t := .ofUnit 0x24) rfl

theorem expandUnits_whole (subject : Text) (x : Match) (us : List CodeUnit) :
    expandUnits subject x (0x24 :: 0x26 :: us) = (x.text subject).toList ++ expandUnits subject x us :=
  expandUnits_sign rfl

theorem expandUnits_before (subject : Text) (x : Match) (us : List CodeUnit) :
    expandUnits subject x (0x24 :: 0x60 :: us) = (subject.take x.span.1).toList ++ expandUnits subject x us :=
  expandUnits_sign rfl

theorem expandUnits_after (subject : Text) (x : Match) (us : List CodeUnit) :
    expandUnits subject x (0x24 :: 0x27 :: us) = (subject.drop x.span.2).toList ++ expandUnits subject x us :=
  expandUnits_sign rfl

theorem expandUnits_literal (ht : template? subject x us = none) :
    expandUnits subject x (0x24 :: us) = 0x24 :: expandUnits subject x us := by
  rw [expandUnits, if_pos rfl, ht]

/-- A digit is none of the other units that have a meaning. -/
theorem Refers.not_sign {count : Nat} (hrefers : Refers count (u :: us) n width) : u ∉ signs := by
  intro hu
  have hdigit : decimalDigit? u = none := by
    rcases List.mem_cons.mp hu with rfl | hu
    · rfl
    rcases List.mem_cons.mp hu with rfl | hu
    · rfl
    rcases List.mem_cons.mp hu with rfl | hu
    · rfl
    rw [List.mem_singleton.mp hu]
    rfl
  cases hrefers with
  | two hu' | one hu' => cases hdigit.symm.trans hu'

/-- What is no sign is looked up as a reference. -/
theorem template?_of_not_sign (hu : u ∉ signs) : template? subject x (u :: us) =
    (groupNumber? x.groups.length (u :: us)).map fun (n, width) => (x.groupText subject n, width) := by
  have hne (v : CodeUnit) (hv : v ∈ signs) : u ≠ v := fun h => hu (h ▸ hv)
  unfold template?
  dsimp only
  rw [if_neg (hne 0x24 (by decide)), if_neg (hne 0x26 (by decide)), if_neg (hne 0x60 (by decide)),
    if_neg (hne 0x27 (by decide))]
  rfl

theorem template?_group (hrefers : Refers x.groups.length us n width) :
    template? subject x us = some (x.groupText subject n, width) := by
  cases us with
  | nil => cases hrefers
  | cons u us =>
    rw [template?_of_not_sign hrefers.not_sign, groupNumber?_eq_some_iff.mpr hrefers]
    rfl

theorem template?_literal (hsign : ∀ u, us.head? = some u → u ∉ signs)
    (hrefers : ∀ n width, ¬ Refers x.groups.length us n width) : template? subject x us = none := by
  cases us with
  | nil => rfl
  | cons u us =>
    have hnone : groupNumber? x.groups.length (u :: us) = none :=
      Option.eq_none_iff_forall_ne_some.mpr fun p hp => hrefers p.1 p.2 (groupNumber?_eq_some_iff.mp hp)
    rw [template?_of_not_sign (hsign u rfl), hnone]
    rfl

/-- The rules give what the definition gives. -/
theorem Expands.eq_expandUnits (h : Expands subject x us out) : out = expandUnits subject x us := by
  induction h with
  | nil => rw [expandUnits]
  | plain hu _ ih => rw [expandUnits_plain hu, ih]
  | dollar _ ih => rw [expandUnits_dollar, ih]
  | whole _ ih => rw [expandUnits_whole, ih]
  | before _ ih => rw [expandUnits_before, ih]
  | after _ ih => rw [expandUnits_after, ih]
  | group hrefers _ ih => rw [expandUnits_special (template?_group hrefers), ih]
  | literal hsign hrefers _ ih => rw [expandUnits_literal (template?_literal hsign hrefers), ih]

/-- What follows a dollar sign has a meaning of its own, names a group, or does neither. -/
theorem after_dollar (count : Nat) (us : List CodeUnit) :
    (∃ u vs, us = u :: vs ∧ u ∈ signs) ∨ (∃ n width, Refers count us n width) ∨
      (∀ u, us.head? = some u → u ∉ signs) ∧ ∀ n width, ¬ Refers count us n width := by
  by_cases hsign : ∃ u vs, us = u :: vs ∧ u ∈ signs
  · exact .inl hsign
  by_cases hrefers : ∃ n width, Refers count us n width
  · exact .inr (.inl hrefers)
  refine .inr (.inr ⟨fun u hu hmem => hsign ?_, fun n width h => hrefers ⟨n, width, h⟩⟩)
  obtain ⟨vs, rfl⟩ := List.head?_eq_some_iff.mp hu
  exact ⟨u, vs, rfl, hmem⟩

/-- The rules give something for every template. -/
theorem expands_expandUnits (subject : Text) (x : Match) (us : List CodeUnit) :
    Expands subject x us (expandUnits subject x us) := by
  -- on the length: a dollar sign takes up to two units with it
  induction hn : us.length using Nat.strong_induction_on generalizing us with
  | _ n ih =>
    subst hn
    cases us with
    | nil =>
      rw [expandUnits]
      exact .nil
    | cons u us =>
      have hless (k : Nat) : Expands subject x (us.drop k) (expandUnits subject x (us.drop k)) := by
        refine ih _ ?_ (us.drop k) rfl
        rw [List.length_cons, List.length_drop]
        omega
      by_cases hu : u = 0x24
      · subst hu
        rcases after_dollar x.groups.length us with ⟨v, vs, rfl, hv⟩ | ⟨n, width, hrefers⟩ | ⟨hsign, hrefers⟩
        · rcases List.mem_cons.mp hv with rfl | hv
          · rw [expandUnits_dollar]
            exact .dollar (hless 1)
          rcases List.mem_cons.mp hv with rfl | hv
          · rw [expandUnits_whole]
            exact .whole (hless 1)
          rcases List.mem_cons.mp hv with rfl | hv
          · rw [expandUnits_before]
            exact .before (hless 1)
          · rw [List.mem_singleton.mp hv, expandUnits_after]
            exact .after (hless 1)
        · rw [expandUnits_special (template?_group hrefers)]
          exact .group hrefers (hless width)
        · rw [expandUnits_literal (template?_literal hsign hrefers)]
          exact .literal hsign hrefers (hless 0)
      · rw [expandUnits_plain hu]
        exact .plain hu (hless 0)

/-- **What a template stands for** is what the rules say, and nothing else. -/
theorem expands_iff : Expands subject x us out ↔ out = expandUnits subject x us :=
  ⟨Expands.eq_expandUnits, fun h => h ▸ expands_expandUnits subject x us⟩

end Rules

/-! ## 3. Any text as a template -/

/-- A dollar sign twice, and any other unit as it is. -/
def doubledUnit (u : CodeUnit) : List CodeUnit := if u = 0x24 then [u, u] else [u]

theorem expandUnits_doubled (subject : Text) (x : Match) (us : List CodeUnit) :
    expandUnits subject x (us.flatMap doubledUnit) = us := by
  induction us with
  | nil =>
    rw [List.flatMap_nil, expandUnits]
  | cons u us ih =>
    rw [List.flatMap_cons]
    by_cases hu : u = 0x24
    · rw [hu, show doubledUnit 0x24 = [0x24, 0x24] from rfl]
      exact (expandUnits_dollar subject x _).trans (congrArg (0x24 :: ·) ih)
    · rw [show doubledUnit u = [u] from if_neg hu]
      exact (expandUnits_plain hu).trans (congrArg (u :: ·) ih)

/-! ## 4. A scan over positions -/

/-- The part of a text between two positions, if they are in order and in the text. -/
def part? (t : Text) (start stop : Nat) : Option Text :=
  if start ≤ stop ∧ stop ≤ t.length then some (t.slice start stop) else none

/-- The match and its groups lie in the text. -/
structure Match.Inside (x : Match) (subject : Text) : Prop where
  span : x.span.1 ≤ x.span.2 ∧ x.span.2 ≤ subject.length
  groups : ∀ s, some s ∈ x.groups → s.1 ≤ s.2 ∧ s.2 ≤ subject.length

/-- The text of a group, if it lies in the text or took no part. -/
def Match.capture? (x : Match) (subject : Text) (n : Nat) : Option Text :=
  match (x.groups[n - 1]?).join with
  | some (start, stop) => part? subject start stop
  | none => some .empty

/-- One step of a scan: what it writes at a position of the template, and where it goes on. It fails where it would look
at something outside the texts. -/
def scanStep? (template subject : Text) (x : Match) (i : Nat) : Option (List CodeUnit × Nat) := do
  let u ← template.get? i
  if u ≠ 0x24 ∨ template.length ≤ i + 1 then return ([u], i + 1)
  else
    let v ← template.get? (i + 1)
    if v = 0x24 then return ([0x24], i + 2)
    else if v = 0x26 then return ((← part? subject x.span.1 x.span.2).toList, i + 2)
    else if v = 0x60 then return ((← part? subject 0 x.span.1).toList, i + 2)
    else if v = 0x27 then return ((← part? subject x.span.2 subject.length).toList, i + 2)
    else
      match decimalDigit? v with
      | some a =>
        let two := twoDigits? x.groups.length a (template.get? (i + 2))
        let n := two.getD a
        let width := if two.isSome then 3 else 2
        if 1 ≤ n ∧ n ≤ x.groups.length then return ((← x.capture? subject n).toList, i + width)
        else return ([u], i + 1)
      | none => return ([u], i + 1)

/-- A scan from a position to the end of the template, without a bound on its steps, that fails nowhere. -/
inductive Scans (template subject : Text) (x : Match) : (i : Nat) → (out : List CodeUnit) → Prop
  | done {i : Nat} (hi : template.length ≤ i) : Scans template subject x i []
  | step {i j : Nat} {written out : List CodeUnit} (hi : i < template.length)
      (hstep : scanStep? template subject x i = some (written, j)) (hrest : Scans template subject x j out) :
      Scans template subject x i (written ++ out)

section Scan

variable {template subject : Text} {x : Match} {i n : Nat} {u v : CodeUnit} {rest out out' : List CodeUnit}

theorem part?_eq_some {t : Text} {start stop : Nat} (h : start ≤ stop ∧ stop ≤ t.length) :
    part? t start stop = some (t.slice start stop) := if_pos h

theorem capture?_of_inside (hx : x.Inside subject) (n : Nat) : x.capture? subject n = some (x.groupText subject n) := by
  unfold Match.capture? Match.groupText
  cases hgroup : (x.groups[n - 1]?).join with
  | none => rfl
  | some s =>
    have hmem : some s ∈ x.groups := List.mem_of_getElem? (Option.join_eq_some_iff.mp hgroup)
    exact if_pos (hx.groups s hmem)

/-- What the scan sees of the template from a position on. -/
theorem get?_of_drop (k : Nat) : template.get? (i + k) = (template.toList.drop i)[k]? := by
  rw [List.getElem?_drop]
  exact Array.getElem?_toList.symm

/-- A step over a unit that is no dollar sign, or the last one. -/
theorem scanStep?_plain (hu : template.get? i = some u) (hplain : u ≠ 0x24 ∨ template.length ≤ i + 1) :
    scanStep? template subject x i = some ([u], i + 1) := by
  unfold scanStep?
  rw [hu, Option.bind_eq_bind, Option.bind_some, if_pos hplain]
  rfl

/-- A step at a dollar sign writes what it stands for. -/
theorem scanStep?_dollar (hx : x.Inside subject) (hdrop : template.toList.drop i = 0x24 :: rest) :
    scanStep? template subject x i =
      some (((template? subject x rest).map fun (t, width) => (t.toList, i + 1 + width)).getD ([0x24], i + 1)) := by
  have hget (k : Nat) : template.get? (i + k) = (0x24 :: rest)[k]? := hdrop ▸ get?_of_drop k
  have hlength : template.length = i + rest.length + 1 := by
    have h := congrArg List.length hdrop
    rw [List.length_drop, List.length_cons, ← Text.length_eq] at h
    omega
  cases rest with
  | nil => exact scanStep?_plain (hget 0) (.inr (by rw [hlength]; exact Nat.le_refl _))
  | cons v vs =>
    have hfirst : template.get? i = some 0x24 := hget 0
    have hsecond : template.get? (i + 1) = some v := hget 1
    have hthird : template.get? (i + 2) = vs.head? := (hget 2).trans List.head?_eq_getElem?.symm
    have hlater : ¬ ((0x24 : CodeUnit) ≠ 0x24 ∨ template.length ≤ i + 1) := by
      rintro (h | h)
      · exact h rfl
      · rw [hlength, List.length_cons] at h
        omega
    unfold scanStep?
    rw [hfirst, Option.bind_eq_bind, Option.bind_some, if_neg hlater, hsecond, Option.bind_eq_bind, Option.bind_some]
    by_cases hv : v ∈ signs
    -- the parts that the signs stand for lie in the subject, as the match does
    · rcases List.mem_cons.mp hv with rfl | hv
      · rfl
      rcases List.mem_cons.mp hv with rfl | hv
      · rw [if_neg (by decide), if_pos rfl, part?_eq_some hx.span]
        rfl
      rcases List.mem_cons.mp hv with rfl | hv
      · rw [if_neg (by decide), if_neg (by decide), if_pos rfl,
          part?_eq_some ⟨Nat.zero_le _, Nat.le_trans hx.span.1 hx.span.2⟩]
        rfl
      · rw [List.mem_singleton.mp hv, if_neg (by decide), if_neg (by decide), if_neg (by decide), if_pos rfl,
          part?_eq_some ⟨hx.span.2, Nat.le_refl _⟩]
        rfl
    · have hne (w : CodeUnit) (hw : w ∈ signs) : v ≠ w := fun h => hv (h ▸ hw)
      rw [if_neg (hne 0x24 (by decide)), if_neg (hne 0x26 (by decide)), if_neg (hne 0x60 (by decide)),
        if_neg (hne 0x27 (by decide)), template?_of_not_sign hv]
      cases hdigit : decimalDigit? v with
      | none =>
        rw [groupNumber?_none hdigit]
        rfl
      | some a =>
        rw [groupNumber?_digit hdigit, hthird]
        dsimp only
        cases htwo : twoDigits? x.groups.length a vs.head? with
        | none =>
          rw [Option.getD_none, Option.isSome_none, if_neg Bool.false_ne_true]
          by_cases hn : 1 ≤ a ∧ a ≤ x.groups.length
          · rw [if_pos hn, if_pos hn, capture?_of_inside hx]
            rfl
          · rw [if_neg hn, if_neg hn]
            rfl
        | some n =>
          obtain ⟨_, _, _, _, _, hn⟩ := twoDigits?_eq_some_iff.mp htwo
          rw [Option.getD_some, Option.isSome_some, if_pos rfl, if_pos hn, capture?_of_inside hx]
          rfl

/-- **A step goes forward and writes what the template stands for there.** -/
theorem scanStep?_exact (hx : x.Inside subject) (hi : i < template.length) :
    ∃ written j, scanStep? template subject x i = some (written, j) ∧ i < j ∧
      expandUnits subject x (template.toList.drop i) = written ++ expandUnits subject x (template.toList.drop j) := by
  obtain ⟨u, rest, hdrop⟩ : ∃ u rest, template.toList.drop i = u :: rest := by
    rw [Text.length_eq] at hi
    exact ⟨_, _, List.drop_eq_getElem_cons hi⟩
  have hrest (k : Nat) : template.toList.drop (i + 1 + k) = rest.drop k := by
    rw [Nat.add_assoc, ← List.drop_drop, hdrop, Nat.add_comm 1 k]
    rfl
  by_cases hu : u = 0x24
  · subst hu
    rw [scanStep?_dollar hx hdrop, hdrop]
    cases htemplate : template? subject x rest with
    | none =>
      refine ⟨_, _, rfl, Nat.lt_succ_self i, ?_⟩
      rw [expandUnits_literal htemplate, ← List.drop_zero (l := rest), ← hrest 0]
      rfl
    | some p =>
      refine ⟨_, _, rfl, Nat.lt_of_lt_of_le (Nat.lt_succ_self i) (Nat.le_add_right _ _), ?_⟩
      rw [expandUnits_special htemplate, hrest]
  · have hget : template.get? i = some u := by
      have h : template.get? (i + 0) = _ := get?_of_drop 0
      rwa [hdrop] at h
    refine ⟨_, _, scanStep?_plain hget (.inl hu), Nat.lt_succ_self i, ?_⟩
    rw [hdrop, expandUnits_plain hu, ← List.drop_zero (l := rest), ← hrest 0]
    rfl

/-- A step has one outcome, and so has the scan. -/
theorem Scans.unique (hs : Scans template subject x i out) (hs' : Scans template subject x i out') : out = out' := by
  induction hs generalizing out' with
  | done hi =>
    cases hs' with
    | done => rfl
    | step hi' => exact absurd hi (Nat.not_le.mpr hi')
  | step hi hstep _ ih =>
    cases hs' with
    | done hi' => exact absurd hi' (Nat.not_le.mpr hi)
    | step _ hstep' hrest' =>
      cases hstep.symm.trans hstep'
      rw [ih hrest']

/-- The scan comes to an end, and fails nowhere. -/
theorem scans_expandUnits (hx : x.Inside subject) (i : Nat) :
    Scans template subject x i (expandUnits subject x (template.toList.drop i)) := by
  -- on what is left of the template: every step goes forward
  induction hn : template.length - i using Nat.strong_induction_on generalizing i with
  | _ n ih =>
    subst hn
    rcases Nat.lt_or_ge i template.length with hi | hi
    · obtain ⟨written, j, hstep, hj, hexpand⟩ := scanStep?_exact hx hi
      rw [hexpand]
      exact .step hi hstep (ih _ (by omega) j rfl)
    · rw [List.drop_eq_nil_of_le (Text.length_eq template ▸ hi), expandUnits]
      exact .done hi

/-- **The scan writes what the template stands for**, and nothing else. -/
theorem scans_iff (hx : x.Inside subject) :
    Scans template subject x 0 out ↔ out = (expandTemplate template subject x).toList := by
  unfold expandTemplate
  rw [Text.toList_ofList]
  exact ⟨fun hs => hs.unique (scans_expandUnits hx 0), fun h => h ▸ scans_expandUnits hx 0⟩

end Scan

end Pattern

open Pattern

/-- The text as a template: each dollar sign twice. -/
def Text.doubled (t : Text) : Text := .ofList (t.toList.flatMap doubledUnit)

/-- **A text with its dollar signs doubled stands for itself.** -/
theorem expandTemplate_doubled (t subject : Text) (x : Match) : expandTemplate t.doubled subject x = t := by
  refine Text.ext_toList ?_
  unfold expandTemplate Text.doubled
  rw [Text.toList_ofList, Text.toList_ofList, expandUnits_doubled]

/-- The template that stands for the match. -/
def wholeTemplate : Text := .ofString "$&"

theorem expandTemplate_whole (subject : Text) (x : Match) :
    expandTemplate wholeTemplate subject x = x.text subject := by
  have hunits : wholeTemplate.toList = [0x24, 0x26] := by decide
  refine Text.ext_toList ?_
  unfold expandTemplate
  rw [Text.toList_ofList, hunits, expandUnits_whole, expandUnits, List.append_nil]

/-! ## 5. Replacements -/

/-- A regular expression to search for finds only what lies in the text. -/
def Heap.FindsWithin (h : Heap) (t : Text) (search : Value) : Prop :=
  ∀ o r, h.asRegExp? search = some (o, r) → Finder.Within (r.pattern.find? t) t.length

/-- What is searched for without an error: a text, or a regular expression that can write where it goes on. One that is
not global reads that first, which is why it has to be a primitive value. -/
inductive Heap.Searches (h : Heap) : Value → Prop
  | text (s : Text) : h.Searches (.string s)
  | everywhere {o : ObjectId} {r : RegExp} {v : Value} (hr : h.Resumes o r v) (hglobal : r.flags.global = true) :
      h.Searches (.object o)
  | once {o : ObjectId} {r : RegExp} {v : Value} (hr : h.Resumes o r v) (hlocal : r.flags.global = false)
      (hv : v.isObject = false) : h.Searches (.object o)

section Replacements

variable {bodies : Bodies} {m m' : Machine} {t template : Text} {search : Value} {ms : List Match}

/-- **The matches that are found** lie one behind the other. -/
theorem inOrder_replacedMatches (hfind : m.heap.FindsWithin t search)
    (hfound : replacedMatches t search bodies m = .ok ms m') : InOrder t.length ms := by
  unfold replacedMatches at hfound
  rw [getHeap_bind_run] at hfound
  cases hsearch : m.heap.asRegExp? search with
  | none =>
    rw [hsearch] at hfound
    obtain ⟨needle, m₁, _, hfound⟩ := exists_of_bind_run_ok hfound
    cases hfound
    exact inOrder_toList fun x hx => (within_findText t needle 0 x hx).2
  | some p =>
    have hwithin := hfind p.1 p.2 hsearch
    rw [hsearch] at hfound
    dsimp only at hfound
    split at hfound
    · obtain ⟨_, m₁, _, hfound⟩ := exists_of_bind_run_ok hfound
      obtain ⟨_, m₂, _, hfound⟩ := exists_of_bind_run_ok hfound
      cases hfound
      exact (inOrder_matchesUpTo hwithin _ 0).1
    · obtain ⟨found, m₁, hrun, hfound⟩ := exists_of_bind_run_ok hfound
      cases hfound
      refine inOrder_toList fun x hx => ?_
      obtain ⟨i, hi⟩ := execRegExp_found (hx ▸ hrun)
      exact (hwithin i x hi).2

/-- The search gives no error. -/
theorem Heap.Searches.run (bodies : Bodies) (hs : m.heap.Searches search) (t : Text) :
    ∃ ms m', replacedMatches t search bodies m = .ok ms m' := by
  cases hs with
  | text s => exact ⟨_, m, rfl⟩
  | everywhere hr hglobal => exact ⟨_, _, replacedMatches_global bodies hr hglobal t⟩
  | @once o r v hr hlocal hv =>
    obtain ⟨m', hrun, _⟩ := execRegExp_local bodies hr hv hlocal t
    refine ⟨(r.pattern.find? t 0).toList, m', ?_⟩
    unfold replacedMatches
    rw [getHeap_bind_run, hr.asRegExp?]
    dsimp only
    rw [if_neg (Bool.eq_false_iff.mp hlocal)]
    exact (bind_run_ok hrun _).trans rfl

/-- Each match is replaced by what the template stands for. -/
theorem replaceMatches_template (hfound : replacedMatches t search bodies m = .ok ms m') (template : Text) :
    replaceMatches t search (.string template) bodies m =
      .ok (.string (Text.concat (weave (gaps t 0 ms) (ms.map (expandTemplate template t))))) m' := by
  have htemplate : toText (.string template) bodies m' = .ok template m' := rfl
  have htexts : ms.mapM (fun x => (pure (expandTemplate template t x) : Run Text)) bodies m' =
      .ok (ms.map (expandTemplate template t)) m' := mapM_run_ok fun x _ => rfl
  unfold replaceMatches
  rw [bind_run_ok hfound, getHeap_bind_run, if_neg (show ¬ m'.heap.isCallable (.string template) = true from nofun),
    bind_run_ok htemplate, replaceFrom_eq, bind_assoc, bind_run_ok htexts]
  rfl

/-- **A template that stands for the match leaves the text as it is.** -/
theorem replaceMatches_whole (hfind : m.heap.FindsWithin t search)
    (hfound : replacedMatches t search bodies m = .ok ms m') :
    replaceMatches t search (.string wholeTemplate) bodies m = .ok (.string t) m' := by
  have hms := inOrder_replacedMatches hfind hfound
  have hsame : ms.map (expandTemplate wholeTemplate t) = ms.map (·.text t) :=
    List.map_congr_left fun x _ => expandTemplate_whole t x
  rw [replaceMatches_template hfound, hsame, concat_weave_gaps hms fun x _ => Nat.zero_le _, Text.drop_zero]

/-- A text with its dollar signs doubled comes into the place of each match. -/
theorem replaceMatches_doubled (hfound : replacedMatches t search bodies m = .ok ms m') (u : Text) :
    replaceMatches t search (.string u.doubled) bodies m =
      .ok (.string (Text.concat (weave (gaps t 0 ms) (ms.map fun _ => u)))) m' := by
  have hsame : ms.map (expandTemplate u.doubled t) = ms.map fun _ => u :=
    List.map_congr_left fun x _ => expandTemplate_doubled u t x
  rw [replaceMatches_template hfound, hsame]

/-- An error of the search is an error of the replacement. -/
theorem replaceMatches_error {e : Failure} (hfound : replacedMatches t search bodies m = .error e m')
    (replacement : Value) : replaceMatches t search replacement bodies m = .error e m' := bind_run_error hfound _

end Replacements

/-! ## 6. All of it -/

/-- **Replacement templates**: the scan of a template fails nowhere and writes what the rules say, and nothing else; a
text with its dollar signs doubled stands for itself, and comes into the place of each match that is found; and the
template for the match leaves the text as it is, if the search gives no error. -/
theorem templates_exact (template u t : Text) (x : Match) (hx : x.Inside t) (bodies : Bodies) (m : Machine)
    (search : Value) (hfind : m.heap.FindsWithin t search) :
    (∀ out, Scans template t x 0 out ↔ out = (expandTemplate template t x).toList) ∧
      (∀ out, Expands t x template.toList out ↔ out = (expandTemplate template t x).toList) ∧
      expandTemplate u.doubled t x = u ∧
      (∀ ms m', replacedMatches t search bodies m = .ok ms m' →
        InOrder t.length ms ∧
          stringFunction .replace (.string t) [search, .string u.doubled] bodies m =
            .ok (.string (Text.concat (weave (gaps t 0 ms) (ms.map fun _ => u)))) m' ∧
          stringFunction .replace (.string t) [search, .string wholeTemplate] bodies m = .ok (.string t) m') ∧
      (∀ e m', replacedMatches t search bodies m = .error e m' →
        stringFunction .replace (.string t) [search, .string wholeTemplate] bodies m = .error e m') ∧
      (m.heap.Searches search →
        ∃ m', stringFunction .replace (.string t) [search, .string wholeTemplate] bodies m = .ok (.string t) m') := by
  have hwhole {ms : List Match} {m' : Machine} (hfound : replacedMatches t search bodies m = .ok ms m') :
      stringFunction .replace (.string t) [search, .string wholeTemplate] bodies m = .ok (.string t) m' :=
    replaceMatches_whole hfind hfound
  refine ⟨fun out => scans_iff hx, fun out => ?_, expandTemplate_doubled u t x, fun ms m' hfound => ?_,
    fun e m' hfound => replaceMatches_error hfound _, fun hs => ?_⟩
  · unfold expandTemplate
    rw [Text.toList_ofList]
    exact expands_iff
  · exact ⟨inOrder_replacedMatches hfind hfound, replaceMatches_doubled hfound u, hwhole hfound⟩
  · obtain ⟨ms, m', hfound⟩ := hs.run bodies t
    exact ⟨m', hwhole hfound⟩

/-- Of two groups, the first is named by one digit, since there is no eleventh; the second took no part; there is no
third; and the last dollar sign stands for itself. -/
theorem templates_exact_groups :
    Expands (.ofString "abc") ⟨(0, 2), [some (0, 1), none]⟩ (Text.ofString "$11$2$$$3$").toList
        (Text.ofString "a1$$3$").toList ∧
      ∃ m', stringFunction .replace (.string (.ofString "abc")) [.object 17, .string wholeTemplate] (bodiesAt 0)
        emptyMachine = .ok (.string (.ofString "abc")) m' := by
  have hinside : Match.Inside ⟨(0, 2), [some (0, 1), none]⟩ (.ofString "abc") := by
    refine ⟨by decide, fun s hs => ?_⟩
    rcases List.mem_cons.mp hs with hs | hs
    · cases hs
      decide
    · cases List.mem_singleton.mp hs
  have hfind : emptyMachine.heap.FindsWithin (.ofString "abc") (.object 17) := fun o r hr => by
    cases resumes_emptyMachine.asRegExp?.symm.trans hr
    exact within_emptyGlobal _
  obtain ⟨_, hexpands, _, _, _, hwhole⟩ := templates_exact (.ofString "$11$2$$$3$") .empty (.ofString "abc")
    ⟨(0, 2), [some (0, 1), none]⟩ hinside (bodiesAt 0) emptyMachine (.object 17) hfind
  exact ⟨(hexpands _).mpr (by decide +kernel), hwhole (.everywhere resumes_emptyMachine rfl)⟩

/-- The machine in which the expression goes on nowhere else than at the start. -/
def fixedMachine : Machine :=
  { emptyMachine with heap := emptyMachine.heap.store 17 lastIndexKey (.data (.ofNat 0) false false false) }

/-- With an expression that cannot write where it goes on, the template for the match gives an error. -/
theorem templates_fail :
    faultOf? (stringFunction .replace (.string (.ofString "abc")) [.object 17, .string wholeTemplate] (bodiesAt 0)
      fixedMachine) = some (.cannotPut (.ofString "lastIndex")) := by
  decide +kernel

end Ecma51
