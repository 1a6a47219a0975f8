import Ecma51.Proofs.JsonSpelling

/-!
# Reading JSON text

The reader accepts exactly the texts of the grammar whose nesting fits, and reads the data that they spell.
If it stops, the text is wrong at that place, or the nesting goes too deep before anything is wrong.

* `Json.Reads`: all this for one depth.
* **`Json.reads_readValue`**: it holds for every depth.
* **`Json.read_of_isText`**, **`Json.isText_of_read`**, **`Json.firstFault?_of_read`**: whole texts.
-/

namespace Ecma51

namespace Json

/-! ## 1. Data without inner structure -/

theorem kind_faultAt (total : Nat) (left : List CodeUnit) : (faultAt total left).kind = .syntaxError := by
  cases left <;> rfl

theorem readWord_sound {total : Nat} {s : String} {value j : Json} {us rest : List CodeUnit}
    (h : readWord total s value us = (j, some rest)) : j = value ∧ us = word s ++ rest := by
  unfold readWord at h
  cases hus : expect (Text.ofString s).toList us with
  | error left =>
    rw [hus] at h
    cases h
  | ok rest' =>
    rw [hus] at h
    cases h
    exact ⟨rfl, expect_iff.mp hus⟩

theorem readWord_complete (total : Nat) (s : String) (value : Json) (rest : List CodeUnit) :
    readWord total s value (word s ++ rest) = (value, some rest) := by
  unfold readWord
  have hus : expect (Text.ofString s).toList (word s ++ rest) = .ok rest := expect_iff.mpr rfl
  rw [hus]
  rfl

theorem ofPart_ok {α : Type} {total : Nat} {make : α → Json} {p : Part α} {j : Json}
    {rest : List CodeUnit} (h : ofPart total make p = (j, some rest)) :
    ∃ a, p = .ok (a, rest) ∧ j = make a := by
  cases p with
  | error left => cases h
  | ok r =>
    obtain ⟨a, rest'⟩ := r
    cases h
    exact ⟨a, rfl, rfl⟩

/-- What is read of data without inner structure is spelled. -/
theorem readScalar_sound {total : Nat} {us rest : List CodeUnit} {j : Json}
    (h : readScalar total us = (j, some rest)) : Spells j us rest ∧ j.nesting = 0 := by
  cases us with
  | nil => cases h
  | cons u us =>
    unfold readScalar at h
    dsimp only at h
    split at h
    · obtain ⟨t, ht, rfl⟩ := ofPart_ok h
      rw [Spells]
      exact ⟨readString_iff.mp ht, rfl⟩
    split at h
    · obtain ⟨rfl, hus⟩ := readWord_sound h
      rw [Spells]
      exact ⟨hus, rfl⟩
    split at h
    · obtain ⟨rfl, hus⟩ := readWord_sound h
      rw [Spells]
      exact ⟨hus, rfl⟩
    split at h
    · obtain ⟨rfl, hus⟩ := readWord_sound h
      rw [Spells]
      exact ⟨hus, rfl⟩
    split at h
    · obtain ⟨x, hx, rfl⟩ := ofPart_ok h
      rw [Spells]
      exact ⟨readNumber_sound hx, rfl⟩
    · cases h

/-- Data without inner structure that are spelled are read. -/
theorem readScalar_complete (total : Nat) {us rest : List CodeUnit} {j : Json} (h : Spells j us rest)
    (hj : j.nesting = 0) (hrest : Ends rest) : readScalar total us = (j, some rest) := by
  cases j with
  | null =>
    rw [Spells] at h
    rw [h]
    exact readWord_complete total "null" .null rest
  | boolean b =>
    cases b with
    | true =>
      rw [Spells] at h
      rw [h]
      exact readWord_complete total "true" (.boolean true) rest
    | false =>
      rw [Spells] at h
      rw [h]
      exact readWord_complete total "false" (.boolean false) rest
  | number x =>
    rw [Spells] at h
    have hread := readNumber_complete h hrest
    obtain ⟨negative, whole, fraction, exponent, us₁, us₂, us₃, hminus, hwhole, _⟩ := h
    cases hminus with
    | present =>
      show ofPart total .number (readNumber (0x2D :: us₁)) = _
      rw [hread]
      rfl
    | absent =>
      obtain ⟨u, us', rfl, hu⟩ := hwhole.head
      unfold readScalar
      dsimp only
      rw [if_neg fun h => ne_of_isDecimalDigit hu (by decide) (beq_iff_eq.mp h),
        if_neg fun h => ne_of_isDecimalDigit hu (by decide) (beq_iff_eq.mp h),
        if_neg fun h => ne_of_isDecimalDigit hu (by decide) (beq_iff_eq.mp h),
        if_neg fun h => ne_of_isDecimalDigit hu (by decide) (beq_iff_eq.mp h),
        if_pos (by rw [hu, Bool.or_true]), hread]
      rfl
  | string t =>
    rw [Spells] at h
    have hread := readString_iff.mpr h
    obtain ⟨us', rfl, _⟩ := h
    show ofPart total .string (readString (0x22 :: us')) = _
    rw [hread]
    rfl
  | array items =>
    rw [nesting] at hj
    omega
  | object members =>
    rw [nesting] at hj
    omega
  | broken f =>
    rw [Spells] at h
    exact h.elim

/-- Reading of data without inner structure stops only where the text is wrong. -/
theorem readScalar_fault {total : Nat} {us : List CodeUnit} {j : Json}
    (h : readScalar total us = (j, none)) : ∃ f, j.fault? = some f ∧ f.kind = .syntaxError := by
  have hpart {α : Type} {make : α → Json} {p : Part α} (h : ofPart total make p = (j, none)) :
      ∃ f, j.fault? = some f ∧ f.kind = .syntaxError := by
    cases p with
    | ok r => cases h
    | error left =>
      cases h
      exact ⟨_, rfl, kind_faultAt total left⟩
  cases us with
  | nil =>
    cases h
    exact ⟨_, rfl, rfl⟩
  | cons u us =>
    unfold readScalar at h
    dsimp only at h
    split at h
    · exact hpart h
    split at h
    · exact hpart h
    split at h
    · exact hpart h
    split at h
    · exact hpart h
    split at h
    · exact hpart h
    · cases h
      exact ⟨_, rfl, kind_faultAt total _⟩

/-! ## 2. What stands after an item -/

theorem Blanks.ends {us rest : List CodeUnit} {u : CodeUnit} (h : Blanks us (u :: rest))
    (hu : u = 0x2C ∨ u = 0x5D ∨ u = 0x7D) : Ends us := by
  rcases h.head with rfl | ⟨v, us', rfl, hv⟩
  · intro w hw
    cases hw
    exact .inr hu
  · intro w hw
    cases hw
    exact .inl hv

theorem ending_more {close : CodeUnit} {us rest : List CodeUnit} (h : ending close us = .more rest) :
    Blanks us (0x2C :: rest) := by
  have hblanks := blanks_skipBlanks us
  unfold ending at h
  cases hus : skipBlanks us with
  | nil =>
    rw [hus] at h
    cases h
  | cons u us' =>
    rw [hus] at h hblanks
    dsimp only at h
    split at h
    next hu =>
      cases h
      rw [beq_iff_eq.mp hu] at hblanks
      exact hblanks
    next =>
      split at h <;> cases h

theorem ending_closed {close : CodeUnit} {us rest : List CodeUnit} (h : ending close us = .closed rest) :
    Blanks us (close :: rest) := by
  have hblanks := blanks_skipBlanks us
  unfold ending at h
  cases hus : skipBlanks us with
  | nil =>
    rw [hus] at h
    cases h
  | cons u us' =>
    rw [hus] at h hblanks
    dsimp only at h
    split at h
    · cases h
    split at h
    next hu =>
      cases h
      rw [beq_iff_eq.mp hu] at hblanks
      exact hblanks
    next => cases h

theorem ending_of_comma (close : CodeUnit) {us rest : List CodeUnit} (h : Blanks us (0x2C :: rest)) :
    ending close us = .more rest := by
  unfold ending
  rw [h.skipBlanks_cons (by decide)]
  rfl

theorem ending_of_close {close : CodeUnit} {us rest : List CodeUnit} (h : Blanks us (close :: rest))
    (hclose : close = 0x5D ∨ close = 0x7D) : ending close us = .closed rest := by
  unfold ending
  rcases hclose with rfl | rfl <;>
  · rw [h.skipBlanks_cons (by decide)]
    rfl

theorem closedAtOnce?_iff {close : CodeUnit} {us rest : List CodeUnit} (hclose : isBlank close = false) :
    closedAtOnce? close us = some rest ↔ Blanks us (close :: rest) := by
  have hblanks := blanks_skipBlanks us
  constructor
  · intro h
    unfold closedAtOnce? at h
    cases hus : skipBlanks us with
    | nil =>
      rw [hus] at h
      cases h
    | cons u us' =>
      rw [hus] at h hblanks
      dsimp only at h
      split at h
      next hu =>
        cases h
        rw [beq_iff_eq.mp hu] at hblanks
        exact hblanks
      next => cases h
  · intro h
    unfold closedAtOnce?
    rw [h.skipBlanks_cons hclose]
    dsimp only
    rw [if_pos (beq_self_eq_true close)]

theorem faultOfItems?_append (xs ys : List Json) :
    faultOfItems? (xs ++ ys) = (faultOfItems? xs).or (faultOfItems? ys) := by
  induction xs with
  | nil => rfl
  | cons x xs ih => rw [List.cons_append, faultOfItems?, faultOfItems?, ih, Option.or_assoc]

theorem faultOfMembers?_append (xs ys : List (Text × Json)) :
    faultOfMembers? (xs ++ ys) = (faultOfMembers? xs).or (faultOfMembers? ys) := by
  induction xs with
  | nil => rfl
  | cons x xs ih => rw [List.cons_append, faultOfMembers?, faultOfMembers?, ih, Option.or_assoc]

theorem readName_iff {us rest : List CodeUnit} {name : Text} :
    readName us = .ok (name, rest) ↔ SpellsName name us rest := by
  unfold readName
  constructor
  · intro h
    obtain ⟨⟨name', us₂⟩, hstring, h⟩ := exists_of_bind_ok h
    obtain ⟨rest', hcolon, h⟩ := exists_of_bind_ok h
    cases h
    refine ⟨skipBlanks us, us₂, blanks_skipBlanks us, readString_iff.mp hstring, ?_⟩
    rw [show 0x3A :: rest = skipBlanks us₂ from (expect_iff.mp hcolon).symm]
    exact blanks_skipBlanks us₂
  · rintro ⟨us₁, us₂, hbefore, hstring, hafter⟩
    have hus : skipBlanks us = us₁ := by
      obtain ⟨us', rfl, _⟩ := hstring
      exact hbefore.skipBlanks_cons (by decide)
    rw [hus, readString_iff.mpr hstring, ok_bind_eq]
    dsimp only
    rw [hafter.skipBlanks_cons (by decide), expect_iff.mpr (show 0x3A :: rest = [0x3A] ++ rest from rfl)]
    rfl

theorem SpellsName.length_lt {name : Text} {us rest : List CodeUnit} (h : SpellsName name us rest) :
    rest.length < us.length :=
  Around.length_le h SpellsString.length_le

theorem Spells.pos {j : Json} {us us₁ rest : List CodeUnit} (h : Spells j us₁ rest)
    (hbefore : Blanks us us₁) : 0 < us.length := by
  obtain ⟨u, us', rfl, _⟩ := starts_of_spells h
  exact Nat.lt_of_lt_of_le (Nat.succ_pos _) hbefore.length_le

/-- Nothing too deep is opened where a text ends. -/
theorem Overruns.pos {d : Nat} {us : List CodeUnit} (h : Overruns d us) : 0 < us.length := by
  cases h with
  | opens hblanks _ => exact Nat.lt_of_lt_of_le (Nat.succ_pos _) hblanks.length_le
  | item hblanks _ _ => exact Nat.lt_of_lt_of_le (Nat.succ_pos _) hblanks.length_le
  | member hblanks _ _ _ => exact Nat.lt_of_lt_of_le (Nat.succ_pos _) hblanks.length_le

/-! ## 3. Readers of one depth -/

/-- A reader of data nested at most `d` deep, on texts of at most `total` units: it reads what is spelled,
and if it stops, it says what is wrong first. -/
structure Reads (total : Nat) (value : List CodeUnit → Reading Json) (d : Nat) : Prop where
  sound {us rest : List CodeUnit} {j : Json} : value us = (j, some rest) →
    ∃ us₁, Blanks us us₁ ∧ Spells j us₁ rest ∧ j.nesting ≤ d
  complete {us us₁ rest : List CodeUnit} {j : Json} : us.length ≤ total → Blanks us us₁ →
    Spells j us₁ rest → j.nesting ≤ d → Ends rest → value us = (j, some rest)
  fault {us : List CodeUnit} {j : Json} : value us = (j, none) →
    ∃ f, j.fault? = some f ∧ (f = .stackOverflow ∧ Overruns d us ∨ f.kind = .syntaxError)
  overrun {us : List CodeUnit} : us.length ≤ total → Overruns d us →
    ∃ j, value us = (j, none) ∧ j.fault? = some .stackOverflow

section Reads

variable {total d : Nat} {value : List CodeUnit → Reading Json} (hvalue : Reads total value d)
include hvalue

/-! ### Items -/

theorem readItems_sound {n : Nat} {us rest : List CodeUnit} {acc js : List Json}
    (h : readItems total value n us acc = (js, some rest)) :
    ∃ j more, js = acc.reverse ++ j :: more ∧ SpellsItems (j :: more) us rest ∧
      nestingOfItems (j :: more) ≤ d := by
  induction n generalizing us acc with
  | zero => cases h
  | succ n ih =>
    unfold readItems at h
    cases hj : value us with
    | mk j left =>
      rw [hj] at h
      cases left with
      | none => cases h
      | some us₂ =>
        obtain ⟨us₁, hbefore, hspells, hnesting⟩ := hvalue.sound hj
        dsimp only at h
        cases hend : ending 0x5D us₂ with
        | wrong left =>
          rw [hend] at h
          cases h
        | closed us₃ =>
          rw [hend] at h
          cases h
          refine ⟨j, [], List.reverse_cons, ?_, ?_⟩
          · rw [SpellsItems]
            exact ⟨_, ⟨us₁, us₂, hbefore, hspells, ending_closed hend⟩, by rw [SpellsMoreItems]⟩
          · exact Nat.max_le.mpr ⟨hnesting, Nat.zero_le d⟩
        | more us₃ =>
          rw [hend] at h
          obtain ⟨k, more, hjs, hmore, hdeep⟩ := ih h
          refine ⟨j, k :: more, ?_, ?_, Nat.max_le.mpr ⟨hnesting, hdeep⟩⟩
          · rw [hjs, List.reverse_cons, List.append_assoc]
            rfl
          · rw [SpellsItems] at hmore ⊢
            obtain ⟨mid, hk, hmore⟩ := hmore
            refine ⟨_, ⟨us₁, us₂, hbefore, hspells, ending_more hend⟩, ?_⟩
            rw [SpellsMoreItems]
            exact ⟨us₃, mid, rfl, hk, hmore⟩

theorem readItems_complete {n : Nat} {us rest : List CodeUnit} {j : Json} {more : List Json}
    (hspells : SpellsItems (j :: more) us rest) (hdeep : nestingOfItems (j :: more) ≤ d)
    (hn : us.length ≤ n) (htotal : n ≤ total) (acc : List Json) :
    readItems total value n us acc = (acc.reverse ++ j :: more, some rest) := by
  induction more generalizing n us j acc with
  | nil =>
    rw [SpellsItems] at hspells
    obtain ⟨mid, ⟨us₁, us₂, hbefore, hj, hafter⟩, hmore⟩ := hspells
    rw [SpellsMoreItems] at hmore
    subst hmore
    obtain ⟨n, rfl⟩ : ∃ k, n = k + 1 := ⟨n - 1, by have := hj.pos hbefore; omega⟩
    unfold readItems
    rw [hvalue.complete (Nat.le_trans hn htotal) hbefore hj (Nat.max_le.mp hdeep).1
      (hafter.ends (.inr (.inl rfl)))]
    dsimp only
    rw [ending_of_close hafter (.inl rfl)]
    dsimp only
    rw [List.reverse_cons]
  | cons k more ih =>
    rw [SpellsItems] at hspells
    obtain ⟨mid, ⟨us₁, us₂, hbefore, hj, hafter⟩, hmore⟩ := hspells
    rw [SpellsMoreItems] at hmore
    obtain ⟨us₃, mid', rfl, hk, hmore⟩ := hmore
    obtain ⟨n, rfl⟩ : ∃ k, n = k + 1 := ⟨n - 1, by have := hj.pos hbefore; omega⟩
    unfold readItems
    rw [hvalue.complete (Nat.le_trans hn htotal) hbefore hj (Nat.max_le.mp hdeep).1
      (hafter.ends (.inl rfl))]
    dsimp only
    rw [ending_of_comma 0x5D hafter]
    dsimp only
    have hlength : us₃.length < us.length :=
      Nat.le_trans hafter.length_le (Nat.le_trans (length_le_of_spells j hj) hbefore.length_le)
    rw [ih (by rw [SpellsItems]; exact ⟨mid', hk, hmore⟩) (Nat.max_le.mp hdeep).2 (by omega) (by omega),
      List.reverse_cons, List.append_assoc]
    rfl

theorem readItems_fault {n : Nat} {us : List CodeUnit} {acc js : List Json}
    (h : readItems total value n us acc = (js, none)) (hacc : faultOfItems? acc.reverse = none) :
    ∃ f, faultOfItems? js = some f ∧
      (f = .stackOverflow ∧ (∃ us', ItemsBefore d us us' ∧ Overruns d us') ∨ f.kind = .syntaxError) := by
  -- the fault of what comes after items that are right
  have hlast {acc : List Json} (hacc : faultOfItems? acc.reverse = none) (j : Json) :
      faultOfItems? (j :: acc).reverse = j.fault? := by
    rw [List.reverse_cons, faultOfItems?_append, hacc, faultOfItems?, faultOfItems?]
    exact Option.or_none
  induction n generalizing us acc with
  | zero =>
    cases h
    exact ⟨_, hlast hacc _, .inr (kind_faultAt total us)⟩
  | succ n ih =>
    unfold readItems at h
    cases hj : value us with
    | mk j left =>
      rw [hj] at h
      cases left with
      | none =>
        cases h
        obtain ⟨f, hf, hwhy⟩ := hvalue.fault hj
        refine ⟨f, (hlast hacc j).trans hf, hwhy.imp_left ?_⟩
        rintro ⟨hover, hus⟩
        exact ⟨hover, us, .none, hus⟩
      | some us₂ =>
        obtain ⟨us₁, hbefore, hspells, hnesting⟩ := hvalue.sound hj
        have hacc' : faultOfItems? (j :: acc).reverse = none :=
          (hlast hacc j).trans (fault?_of_spells j hspells)
        dsimp only at h
        cases hend : ending 0x5D us₂ with
        | wrong left =>
          rw [hend] at h
          cases h
          exact ⟨_, hlast hacc' _, .inr (kind_faultAt total left)⟩
        | closed us₃ =>
          rw [hend] at h
          cases h
        | more us₃ =>
          rw [hend] at h
          obtain ⟨f, hf, hwhy⟩ := ih h hacc'
          refine ⟨f, hf, hwhy.imp_left ?_⟩
          rintro ⟨hover, us', hitems, hus⟩
          exact ⟨hover, us', .more ⟨us₁, us₂, hbefore, hspells, ending_more hend⟩ hnesting hitems, hus⟩

theorem readItems_overrun {n : Nat} {us us' : List CodeUnit} (hitems : ItemsBefore d us us')
    (hus : Overruns d us') (hn : us.length ≤ n) (htotal : n ≤ total) (acc : List Json)
    (hacc : faultOfItems? acc.reverse = none) :
    ∃ js, readItems total value n us acc = (js, none) ∧ faultOfItems? js = some .stackOverflow := by
  induction hitems generalizing n acc with
  | none =>
    obtain ⟨n, rfl⟩ : ∃ k, n = k + 1 := ⟨n - 1, by have := hus.pos; omega⟩
    obtain ⟨j, hj, hfault⟩ := hvalue.overrun (Nat.le_trans hn htotal) hus
    unfold readItems
    rw [hj]
    refine ⟨_, rfl, ?_⟩
    rw [List.reverse_cons, faultOfItems?_append, hacc, faultOfItems?, hfault]
    rfl
  | @more j us mid rest hpadded hdeep _ ih =>
    obtain ⟨us₁, us₂, hbefore, hj, hafter⟩ := hpadded
    obtain ⟨n, rfl⟩ : ∃ k, n = k + 1 := ⟨n - 1, by have := hj.pos hbefore; omega⟩
    unfold readItems
    rw [hvalue.complete (Nat.le_trans hn htotal) hbefore hj hdeep (hafter.ends (.inl rfl))]
    dsimp only
    rw [ending_of_comma 0x5D hafter]
    dsimp only
    have hlength : mid.length < us.length :=
      Nat.le_trans hafter.length_le (Nat.le_trans (length_le_of_spells j hj) hbefore.length_le)
    refine ih hus (by omega) (by omega) (j :: acc) ?_
    rw [List.reverse_cons, faultOfItems?_append, hacc, faultOfItems?, fault?_of_spells j hj]
    rfl

/-! ### Members -/

theorem readMembers_sound {n : Nat} {us rest : List CodeUnit} {acc js : List (Text × Json)}
    (h : readMembers total value n us acc = (js, some rest)) :
    ∃ j more, js = acc.reverse ++ j :: more ∧ SpellsMembers (j :: more) us rest ∧
      nestingOfMembers (j :: more) ≤ d := by
  induction n generalizing us acc with
  | zero => cases h
  | succ n ih =>
    unfold readMembers at h
    cases hname : readName us with
    | error left =>
      rw [hname] at h
      cases h
    | ok r =>
      obtain ⟨name, us'⟩ := r
      rw [hname] at h
      dsimp only at h
      cases hj : value us' with
      | mk j left =>
        rw [hj] at h
        cases left with
        | none => cases h
        | some us₂ =>
          obtain ⟨us₁, hbefore, hspells, hnesting⟩ := hvalue.sound hj
          dsimp only at h
          cases hend : ending 0x7D us₂ with
          | wrong left =>
            rw [hend] at h
            cases h
          | closed us₃ =>
            rw [hend] at h
            cases h
            refine ⟨(name, j), [], List.reverse_cons, ?_, Nat.max_le.mpr ⟨hnesting, Nat.zero_le d⟩⟩
            rw [SpellsMembers]
            exact ⟨us', _, readName_iff.mp hname, ⟨us₁, us₂, hbefore, hspells, ending_closed hend⟩,
              by rw [SpellsMoreMembers]⟩
          | more us₃ =>
            rw [hend] at h
            obtain ⟨⟨name', k⟩, more, hjs, hmore, hdeep⟩ := ih h
            refine ⟨(name, j), (name', k) :: more, ?_, ?_, Nat.max_le.mpr ⟨hnesting, hdeep⟩⟩
            · rw [hjs, List.reverse_cons, List.append_assoc]
              rfl
            · rw [SpellsMembers] at hmore ⊢
              obtain ⟨us₄, mid, hname', hk, hmore⟩ := hmore
              refine ⟨us', _, readName_iff.mp hname, ⟨us₁, us₂, hbefore, hspells, ending_more hend⟩, ?_⟩
              rw [SpellsMoreMembers]
              exact ⟨us₃, us₄, mid, rfl, hname', hk, hmore⟩

theorem readMembers_complete {n : Nat} {us rest : List CodeUnit} {m : Text × Json}
    {more : List (Text × Json)} (hspells : SpellsMembers (m :: more) us rest)
    (hdeep : nestingOfMembers (m :: more) ≤ d) (hn : us.length ≤ n) (htotal : n ≤ total)
    (acc : List (Text × Json)) :
    readMembers total value n us acc = (acc.reverse ++ m :: more, some rest) := by
  induction more generalizing n us m acc with
  | nil =>
    obtain ⟨name, j⟩ := m
    rw [SpellsMembers] at hspells
    obtain ⟨us', mid, hname, ⟨us₁, us₂, hbefore, hj, hafter⟩, hmore⟩ := hspells
    rw [SpellsMoreMembers] at hmore
    subst hmore
    obtain ⟨n, rfl⟩ : ∃ k, n = k + 1 := ⟨n - 1, by have := hname.length_lt; omega⟩
    unfold readMembers
    rw [readName_iff.mpr hname]
    dsimp only
    rw [hvalue.complete (by have := hname.length_lt; omega) hbefore hj (Nat.max_le.mp hdeep).1
      (hafter.ends (.inr (.inr rfl)))]
    dsimp only
    rw [ending_of_close hafter (.inr rfl)]
    dsimp only
    rw [List.reverse_cons]
  | cons m' more ih =>
    obtain ⟨name, j⟩ := m
    obtain ⟨name', k⟩ := m'
    rw [SpellsMembers] at hspells
    obtain ⟨us', mid, hname, ⟨us₁, us₂, hbefore, hj, hafter⟩, hmore⟩ := hspells
    rw [SpellsMoreMembers] at hmore
    obtain ⟨us₃, us₄, mid', rfl, hname', hk, hmore⟩ := hmore
    obtain ⟨n, rfl⟩ : ∃ k, n = k + 1 := ⟨n - 1, by have := hname.length_lt; omega⟩
    unfold readMembers
    rw [readName_iff.mpr hname]
    dsimp only
    rw [hvalue.complete (by have := hname.length_lt; omega) hbefore hj (Nat.max_le.mp hdeep).1
      (hafter.ends (.inl rfl))]
    dsimp only
    rw [ending_of_comma 0x7D hafter]
    dsimp only
    have hlength : us₃.length < us'.length :=
      Nat.le_trans hafter.length_le (Nat.le_trans (length_le_of_spells j hj) hbefore.length_le)
    have hlength' := hname.length_lt
    rw [ih (by rw [SpellsMembers]; exact ⟨us₄, mid', hname', hk, hmore⟩) (Nat.max_le.mp hdeep).2
      (by omega) (by omega), List.reverse_cons, List.append_assoc]
    rfl

theorem readMembers_fault {n : Nat} {us : List CodeUnit} {acc js : List (Text × Json)}
    (h : readMembers total value n us acc = (js, none)) (hacc : faultOfMembers? acc.reverse = none) :
    ∃ f, faultOfMembers? js = some f ∧
      (f = .stackOverflow ∧
        (∃ us₁ name us₂, MembersBefore d us us₁ ∧ SpellsName name us₁ us₂ ∧ Overruns d us₂) ∨
      f.kind = .syntaxError) := by
  have hlast {acc : List (Text × Json)} (hacc : faultOfMembers? acc.reverse = none) (name : Text)
      (j : Json) : faultOfMembers? ((name, j) :: acc).reverse = j.fault? := by
    rw [List.reverse_cons, faultOfMembers?_append, hacc, faultOfMembers?, faultOfMembers?]
    exact Option.or_none
  induction n generalizing us acc with
  | zero =>
    cases h
    exact ⟨_, hlast hacc _ _, .inr (kind_faultAt total us)⟩
  | succ n ih =>
    unfold readMembers at h
    cases hname : readName us with
    | error left =>
      rw [hname] at h
      cases h
      exact ⟨_, hlast hacc _ _, .inr (kind_faultAt total left)⟩
    | ok r =>
      obtain ⟨name, us'⟩ := r
      rw [hname] at h
      dsimp only at h
      cases hj : value us' with
      | mk j left =>
        rw [hj] at h
        cases left with
        | none =>
          cases h
          obtain ⟨f, hf, hwhy⟩ := hvalue.fault hj
          refine ⟨f, (hlast hacc name j).trans hf, hwhy.imp_left ?_⟩
          rintro ⟨hover, hus⟩
          exact ⟨hover, us, name, us', .none, readName_iff.mp hname, hus⟩
        | some us₂ =>
          obtain ⟨us₁, hbefore, hspells, hnesting⟩ := hvalue.sound hj
          have hacc' : faultOfMembers? ((name, j) :: acc).reverse = none :=
            (hlast hacc name j).trans (fault?_of_spells j hspells)
          dsimp only at h
          cases hend : ending 0x7D us₂ with
          | wrong left =>
            rw [hend] at h
            cases h
            exact ⟨_, hlast hacc' _ _, .inr (kind_faultAt total left)⟩
          | closed us₃ =>
            rw [hend] at h
            cases h
          | more us₃ =>
            rw [hend] at h
            obtain ⟨f, hf, hwhy⟩ := ih h hacc'
            refine ⟨f, hf, hwhy.imp_left ?_⟩
            rintro ⟨hover, us₄, name', us₅, hmembers, hname', hus⟩
            have hpadded : Padded j us' (0x2C :: us₃) := ⟨us₁, us₂, hbefore, hspells, ending_more hend⟩
            exact ⟨hover, us₄, name', us₅, .more (readName_iff.mp hname) hpadded hnesting hmembers,
              hname', hus⟩

theorem readMembers_overrun {n : Nat} {us us₁ us₂ : List CodeUnit} {name : Text}
    (hmembers : MembersBefore d us us₁) (hname : SpellsName name us₁ us₂) (hus : Overruns d us₂)
    (hn : us.length ≤ n) (htotal : n ≤ total) (acc : List (Text × Json))
    (hacc : faultOfMembers? acc.reverse = none) :
    ∃ js, readMembers total value n us acc = (js, none) ∧ faultOfMembers? js = some .stackOverflow := by
  induction hmembers generalizing n acc with
  | none =>
    have hlength := hname.length_lt
    obtain ⟨n, rfl⟩ : ∃ k, n = k + 1 := ⟨n - 1, by omega⟩
    obtain ⟨j, hj, hfault⟩ := hvalue.overrun (by omega) hus
    unfold readMembers
    rw [readName_iff.mpr hname]
    dsimp only
    rw [hj]
    refine ⟨_, rfl, ?_⟩
    rw [List.reverse_cons, faultOfMembers?_append, hacc, faultOfMembers?, hfault]
    rfl
  | @more name' j us us' mid rest hname' hpadded hdeep _ ih =>
    obtain ⟨us₃, us₄, hbefore, hj, hafter⟩ := hpadded
    have hlength' := hname'.length_lt
    have hlength : mid.length < us'.length :=
      Nat.le_trans hafter.length_le (Nat.le_trans (length_le_of_spells j hj) hbefore.length_le)
    obtain ⟨n, rfl⟩ : ∃ k, n = k + 1 := ⟨n - 1, by omega⟩
    unfold readMembers
    rw [readName_iff.mpr hname']
    dsimp only
    rw [hvalue.complete (by omega) hbefore hj hdeep (hafter.ends (.inl rfl))]
    dsimp only
    rw [ending_of_comma 0x7D hafter]
    dsimp only
    refine ih hname (by omega) (by omega) ((name', j) :: acc) ?_
    rw [List.reverse_cons, faultOfMembers?_append, hacc, faultOfMembers?, fault?_of_spells j hj]
    rfl

end Reads

/-! ## 4. Readers of every depth -/

theorem readValue_blank (total d : Nat) {us : List CodeUnit} (h : skipBlanks us = []) :
    readValue total d us = (.broken .jsonEnded, none) := by
  cases d <;>
  · unfold readValue
    rw [h]
    rfl

theorem readValue_scalar (total d : Nat) {us rest : List CodeUnit} {u : CodeUnit}
    (h : skipBlanks us = u :: rest) (harray : u ≠ 0x5B) (hobject : u ≠ 0x7B) :
    readValue total d us = readScalar total (u :: rest) := by
  cases d with
  | zero =>
    unfold readValue
    rw [h]
    dsimp only
    rw [if_neg]
    rw [Bool.or_eq_true, beq_iff_eq, beq_iff_eq]
    exact fun h => h.elim hobject harray
  | succ d =>
    unfold readValue
    rw [h]
    dsimp only
    rw [if_neg fun h => harray (beq_iff_eq.mp h), if_neg fun h => hobject (beq_iff_eq.mp h)]

theorem readValue_array_closed (total d : Nat) {us us' rest : List CodeUnit}
    (h : skipBlanks us = 0x5B :: us') (hclosed : closedAtOnce? 0x5D us' = some rest) :
    readValue total (d + 1) us = (.array [], some rest) := by
  unfold readValue
  rw [h]
  dsimp only
  rw [if_pos (beq_self_eq_true _), hclosed]

theorem readValue_array_open (total d : Nat) {us us' : List CodeUnit} (h : skipBlanks us = 0x5B :: us')
    (hopen : closedAtOnce? 0x5D us' = none) :
    readValue total (d + 1) us = (.array (readItems total (readValue total d) total us' []).1,
      (readItems total (readValue total d) total us' []).2) := by
  rw [readValue, h]
  dsimp only
  rw [if_pos (beq_self_eq_true _), hopen]

theorem readValue_object_closed (total d : Nat) {us us' rest : List CodeUnit}
    (h : skipBlanks us = 0x7B :: us') (hclosed : closedAtOnce? 0x7D us' = some rest) :
    readValue total (d + 1) us = (.object [], some rest) := by
  unfold readValue
  rw [h]
  dsimp only
  rw [if_neg (nofun : ¬ ((0x7B : CodeUnit) == 0x5B) = true), if_pos (beq_self_eq_true _), hclosed]

theorem readValue_object_open (total d : Nat) {us us' : List CodeUnit} (h : skipBlanks us = 0x7B :: us')
    (hopen : closedAtOnce? 0x7D us' = none) :
    readValue total (d + 1) us = (.object (readMembers total (readValue total d) total us' []).1,
      (readMembers total (readValue total d) total us' []).2) := by
  rw [readValue, h]
  dsimp only
  rw [if_neg (nofun : ¬ ((0x7B : CodeUnit) == 0x5B) = true), if_pos (beq_self_eq_true _), hopen]

/-- Brackets are not closed at once if something else stands there. -/
theorem closedAtOnce?_of_starts {close u : CodeUnit} {us rest : List CodeUnit} (h : Blanks us (u :: rest))
    (hu : isBlank u = false) (hclose : u ≠ close) : closedAtOnce? close us = none := by
  unfold closedAtOnce?
  rw [h.skipBlanks_cons hu]
  dsimp only
  rw [if_neg fun h => hclose (beq_iff_eq.mp h)]

/-- What is read of data without inner structure does not start with a bracket. -/
theorem ne_bracket_of_readScalar {total : Nat} {us rest : List CodeUnit} {j : Json} {u : CodeUnit}
    (h : readScalar total (u :: us) = (j, some rest)) : u ≠ 0x5B ∧ u ≠ 0x7B := by
  constructor <;>
  · rintro rfl
    cases h

/-- What too deep nesting opens first, after items that are right. -/
theorem ItemsBefore.opened {d : Nat} {us us' : List CodeUnit} (h : ItemsBefore d us us')
    (hus : Overruns d us') : closedAtOnce? 0x5D us = .none := by
  cases h with
  | none =>
    cases hus with
    | opens hblanks hu =>
      rcases hu with rfl | rfl <;> exact closedAtOnce?_of_starts hblanks (by decide) (by decide)
    | item hblanks _ _ => exact closedAtOnce?_of_starts hblanks (by decide) (by decide)
    | member hblanks _ _ _ => exact closedAtOnce?_of_starts hblanks (by decide) (by decide)
  | more hpadded _ _ =>
    obtain ⟨us₁, us₂, hbefore, hj, _⟩ := hpadded
    obtain ⟨u, us', rfl, hblank, hclose, _⟩ := starts_of_spells hj
    exact closedAtOnce?_of_starts hbefore hblank hclose

theorem SpellsName.opened {name : Text} {us rest : List CodeUnit} (h : SpellsName name us rest) :
    closedAtOnce? 0x7D us = none := by
  obtain ⟨us₁, us₂, hbefore, ⟨us', rfl, _⟩, _⟩ := h
  exact closedAtOnce?_of_starts hbefore (by decide) (by decide)

theorem MembersBefore.opened {d : Nat} {name : Text} {us us₁ us₂ : List CodeUnit}
    (h : MembersBefore d us us₁) (hname : SpellsName name us₁ us₂) : closedAtOnce? 0x7D us = .none := by
  cases h with
  | none => exact hname.opened
  | more hname' _ _ _ => exact hname'.opened

theorem readValue_sound (total : Nat) {d : Nat} (hvalue : ∀ d' < d, Reads total (readValue total d') d')
    {us rest : List CodeUnit} {j : Json} (h : readValue total d us = (j, some rest)) :
    ∃ us₁, Blanks us us₁ ∧ Spells j us₁ rest ∧ j.nesting ≤ d := by
  have hblanks := blanks_skipBlanks us
  cases hus : skipBlanks us with
  | nil =>
    rw [readValue_blank total d hus] at h
    cases h
  | cons u us' =>
    rw [hus] at hblanks
    refine ⟨u :: us', hblanks, ?_⟩
    by_cases harray : u = 0x5B
    · subst harray
      cases d with
      | zero =>
        unfold readValue at h
        rw [hus] at h
        cases h
      | succ d =>
        cases hclosed : closedAtOnce? 0x5D us' with
        | some rest' =>
          rw [readValue_array_closed total d hus hclosed] at h
          cases h
          rw [Spells]
          refine ⟨⟨us', rfl, ?_⟩, Nat.le_add_left 1 d⟩
          rw [SpellsItems]
          exact (closedAtOnce?_iff (by decide)).mp hclosed
        | none =>
          rw [readValue_array_open total d hus hclosed] at h
          cases hread : readItems total (readValue total d) total us' [] with
          | mk items left =>
            rw [hread] at h
            cases h
            obtain ⟨j, more, rfl, hitems, hdeep⟩ := readItems_sound (hvalue d (Nat.lt_succ_self d)) hread
            rw [Spells, nesting, Nat.add_comm]
            exact ⟨⟨us', rfl, hitems⟩, Nat.succ_le_succ hdeep⟩
    by_cases hobject : u = 0x7B
    · subst hobject
      cases d with
      | zero =>
        unfold readValue at h
        rw [hus] at h
        cases h
      | succ d =>
        cases hclosed : closedAtOnce? 0x7D us' with
        | some rest' =>
          rw [readValue_object_closed total d hus hclosed] at h
          cases h
          rw [Spells]
          refine ⟨⟨us', rfl, ?_⟩, Nat.le_add_left 1 d⟩
          rw [SpellsMembers]
          exact (closedAtOnce?_iff (by decide)).mp hclosed
        | none =>
          rw [readValue_object_open total d hus hclosed] at h
          cases hread : readMembers total (readValue total d) total us' [] with
          | mk members left =>
            rw [hread] at h
            cases h
            obtain ⟨j, more, rfl, hmembers, hdeep⟩ := readMembers_sound (hvalue d (Nat.lt_succ_self d)) hread
            rw [Spells, nesting, Nat.add_comm]
            exact ⟨⟨us', rfl, hmembers⟩, Nat.succ_le_succ hdeep⟩
    · rw [readValue_scalar total d hus harray hobject] at h
      obtain ⟨hspells, hflat⟩ := readScalar_sound h
      exact ⟨hspells, by rw [hflat]; exact Nat.zero_le d⟩

theorem readValue_complete (total : Nat) {d : Nat}
    (hvalue : ∀ d' < d, Reads total (readValue total d') d') {us us₁ rest : List CodeUnit} {j : Json}
    (htotal : us.length ≤ total) (hbefore : Blanks us us₁) (hspells : Spells j us₁ rest)
    (hdeep : j.nesting ≤ d) (hrest : Ends rest) : readValue total d us = (j, some rest) := by
  have hus : skipBlanks us = us₁ := by
    obtain ⟨u, us', rfl, hblank, _⟩ := starts_of_spells hspells
    exact hbefore.skipBlanks_cons hblank
  by_cases hflat : j.nesting = 0
  · have hread := readScalar_complete total hspells hflat hrest
    obtain ⟨u, us', rfl, _⟩ := starts_of_spells hspells
    obtain ⟨harray, hobject⟩ := ne_bracket_of_readScalar hread
    rw [readValue_scalar total d hus harray hobject, hread]
  -- the rest has a bracket, which takes one of the levels
  obtain ⟨d, rfl⟩ : ∃ k, d = k + 1 := ⟨d - 1, by omega⟩
  have hlength := hbefore.length_le
  cases j with
  | array items =>
    rw [Spells] at hspells
    obtain ⟨us', rfl, hitems⟩ := hspells
    rw [nesting, Nat.add_comm] at hdeep
    rw [List.length_cons] at hlength
    cases items with
    | nil =>
      rw [SpellsItems] at hitems
      exact readValue_array_closed total d hus ((closedAtOnce?_iff (by decide)).mpr hitems)
    | cons k more =>
      have hopen : closedAtOnce? 0x5D us' = none := by
        rw [SpellsItems] at hitems
        obtain ⟨mid, ⟨us₁, us₂, hbefore, hk, _⟩, _⟩ := hitems
        obtain ⟨u, us'', rfl, hblank, hclose, _⟩ := starts_of_spells hk
        exact closedAtOnce?_of_starts hbefore hblank hclose
      rw [readValue_array_open total d hus hopen,
        readItems_complete (hvalue d (Nat.lt_succ_self d)) hitems (Nat.le_of_succ_le_succ hdeep)
          (by omega) (Nat.le_refl total) []]
      rfl
  | object members =>
    rw [Spells] at hspells
    obtain ⟨us', rfl, hmembers⟩ := hspells
    rw [nesting, Nat.add_comm] at hdeep
    rw [List.length_cons] at hlength
    cases members with
    | nil =>
      rw [SpellsMembers] at hmembers
      exact readValue_object_closed total d hus ((closedAtOnce?_iff (by decide)).mpr hmembers)
    | cons m more =>
      have hopen : closedAtOnce? 0x7D us' = none := by
        rw [SpellsMembers] at hmembers
        obtain ⟨us₁, mid, hname, _⟩ := hmembers
        exact hname.opened
      rw [readValue_object_open total d hus hopen,
        readMembers_complete (hvalue d (Nat.lt_succ_self d)) hmembers (Nat.le_of_succ_le_succ hdeep)
          (by omega) (Nat.le_refl total) []]
      rfl
  | null => exact absurd rfl hflat
  | boolean b => exact absurd rfl hflat
  | number x => exact absurd rfl hflat
  | string t => exact absurd rfl hflat
  | broken f => exact absurd rfl hflat

theorem readValue_fault (total : Nat) {d : Nat} (hvalue : ∀ d' < d, Reads total (readValue total d') d')
    {us : List CodeUnit} {j : Json} (h : readValue total d us = (j, none)) :
    ∃ f, j.fault? = some f ∧ (f = .stackOverflow ∧ Overruns d us ∨ f.kind = .syntaxError) := by
  have hblanks := blanks_skipBlanks us
  cases hus : skipBlanks us with
  | nil =>
    rw [readValue_blank total d hus] at h
    cases h
    exact ⟨_, rfl, .inr rfl⟩
  | cons u us' =>
    rw [hus] at hblanks
    by_cases harray : u = 0x5B
    · subst harray
      cases d with
      | zero =>
        unfold readValue at h
        rw [hus] at h
        cases h
        exact ⟨_, rfl, .inl ⟨rfl, .opens hblanks (.inl rfl)⟩⟩
      | succ d =>
        cases hclosed : closedAtOnce? 0x5D us' with
        | some rest' =>
          rw [readValue_array_closed total d hus hclosed] at h
          cases h
        | none =>
          rw [readValue_array_open total d hus hclosed] at h
          cases hread : readItems total (readValue total d) total us' [] with
          | mk items left =>
            rw [hread] at h
            cases h
            obtain ⟨f, hf, hwhy⟩ := readItems_fault (hvalue d (Nat.lt_succ_self d)) hread rfl
            refine ⟨f, hf, hwhy.imp_left ?_⟩
            rintro ⟨hover, us'', hitems, hus''⟩
            exact ⟨hover, .item hblanks hitems hus''⟩
    by_cases hobject : u = 0x7B
    · subst hobject
      cases d with
      | zero =>
        unfold readValue at h
        rw [hus] at h
        cases h
        exact ⟨_, rfl, .inl ⟨rfl, .opens hblanks (.inr rfl)⟩⟩
      | succ d =>
        cases hclosed : closedAtOnce? 0x7D us' with
        | some rest' =>
          rw [readValue_object_closed total d hus hclosed] at h
          cases h
        | none =>
          rw [readValue_object_open total d hus hclosed] at h
          cases hread : readMembers total (readValue total d) total us' [] with
          | mk members left =>
            rw [hread] at h
            cases h
            obtain ⟨f, hf, hwhy⟩ := readMembers_fault (hvalue d (Nat.lt_succ_self d)) hread rfl
            refine ⟨f, hf, hwhy.imp_left ?_⟩
            rintro ⟨hover, us₁, name, us₂, hmembers, hname, hus₂⟩
            exact ⟨hover, .member hblanks hmembers hname hus₂⟩
    · rw [readValue_scalar total d hus harray hobject] at h
      obtain ⟨f, hf, hkind⟩ := readScalar_fault h
      exact ⟨f, hf, .inr hkind⟩

theorem readValue_overrun (total : Nat) {d : Nat} (hvalue : ∀ d' < d, Reads total (readValue total d') d')
    {us : List CodeUnit} (htotal : us.length ≤ total) (h : Overruns d us) :
    ∃ j, readValue total d us = (j, none) ∧ j.fault? = some .stackOverflow := by
  cases h with
  | opens hblanks hu =>
    refine ⟨.broken .stackOverflow, ?_, rfl⟩
    unfold readValue
    rcases hu with rfl | rfl <;>
    · rw [hblanks.skipBlanks_cons (by decide)]
      rfl
  | @item d us us₁ us₂ hblanks hitems hus =>
    have hlength := hblanks.length_le
    rw [List.length_cons] at hlength
    obtain ⟨js, hjs, hfault⟩ := readItems_overrun (hvalue d (Nat.lt_succ_self d)) hitems hus (by omega)
      (Nat.le_refl total) [] rfl
    rw [readValue_array_open total d (hblanks.skipBlanks_cons (by decide)) (hitems.opened hus), hjs]
    exact ⟨_, rfl, hfault⟩
  | @member d name us us₁ us₂ us₃ hblanks hmembers hname hus =>
    have hlength := hblanks.length_le
    rw [List.length_cons] at hlength
    obtain ⟨js, hjs, hfault⟩ := readMembers_overrun (hvalue d (Nat.lt_succ_self d)) hmembers hname hus
      (by omega) (Nat.le_refl total) [] rfl
    rw [readValue_object_open total d (hblanks.skipBlanks_cons (by decide)) (hmembers.opened hname), hjs]
    exact ⟨_, rfl, hfault⟩

/-- **Data nested at most `d` deep are read as they are spelled, for every `d`.** -/
theorem reads_readValue (total d : Nat) : Reads total (readValue total d) d := by
  -- what is inside brackets is read by the readers of smaller depth
  induction d using Nat.strongRecOn with
  | ind d ih =>
    exact ⟨readValue_sound total ih, readValue_complete total ih, readValue_fault total ih,
      readValue_overrun total ih⟩

/-! ## 5. Whole texts -/

theorem Blanks.ends_nil {us : List CodeUnit} (h : Blanks us []) : Ends us := by
  rcases h.head with rfl | ⟨v, us', rfl, hv⟩
  · exact nofun
  · intro w hw
    cases hw
    exact .inl hv

/-- What is wrong first with a text that was read. -/
def firstFault? (reading : Json × Option Fault) : Option Fault := reading.1.fault?.or reading.2

/-- **A text that is spelled right and nested at most so deep is read as it is spelled.** -/
theorem read_of_isText {d : Nat} {t : Text} {j : Json} (h : IsText t.toList j) (hdeep : j.nesting ≤ d) :
    read d t = (j, none) := by
  obtain ⟨us₁, us₂, hbefore, hspells, hafter⟩ := h
  have hlength : t.toList.length ≤ t.length := Nat.le_refl _
  have hread := (reads_readValue t.length d).complete hlength hbefore hspells hdeep hafter.ends_nil
  unfold read
  rw [hread]
  dsimp only
  rw [hafter.skipBlanks_eq]
  rfl

/-- **If nothing is wrong with what was read, the text spells it.** -/
theorem isText_of_read {d : Nat} {t : Text} {j : Json} {excess : Option Fault}
    (h : read d t = (j, excess)) (hfault : firstFault? (j, excess) = none) :
    IsText t.toList j ∧ j.nesting ≤ d := by
  unfold firstFault? at hfault
  rw [Option.or_eq_none_iff] at hfault
  obtain ⟨hj, hexcess⟩ := hfault
  unfold read at h
  cases hread : readValue t.length d t.toList with
  | mk k left =>
    rw [hread] at h
    cases left with
    | none =>
      cases h
      obtain ⟨f, hf, _⟩ := (reads_readValue t.length d).fault hread
      rw [hj] at hf
      cases hf
    | some rest =>
      obtain ⟨us₁, hbefore, hspells, hdeep⟩ := (reads_readValue t.length d).sound hread
      have hafter := blanks_skipBlanks rest
      cases hrest : skipBlanks rest with
      | nil =>
        simp only [hrest] at h
        cases h
        rw [hrest] at hafter
        exact ⟨⟨us₁, rest, hbefore, hspells, hafter⟩, hdeep⟩
      | cons u rest' =>
        simp only [hrest] at h
        cases h
        cases hexcess

/-- **What is wrong first is too deep nesting, if the text is right up to there, and else the text
itself.** -/
theorem firstFault?_of_read {d : Nat} {t : Text} {f : Fault} (h : firstFault? (read d t) = some f) :
    f = .stackOverflow ∧ Overruns d t.toList ∨ f.kind = .syntaxError ∧ ¬ Overruns d t.toList := by
  by_cases hover : Overruns d t.toList
  · have hlength : t.toList.length ≤ t.length := Nat.le_refl _
    obtain ⟨j, hj, hfault⟩ := (reads_readValue t.length d).overrun hlength hover
    unfold read at h
    rw [hj] at h
    unfold firstFault? at h
    rw [hfault] at h
    cases h
    exact .inl ⟨rfl, hover⟩
  refine .inr ⟨?_, hover⟩
  unfold read at h
  cases hread : readValue t.length d t.toList with
  | mk j left =>
    rw [hread] at h
    cases left with
    | none =>
      obtain ⟨f', hf', hwhy⟩ := (reads_readValue t.length d).fault hread
      unfold firstFault? at h
      rw [hf'] at h
      cases h
      exact hwhy.resolve_left fun ⟨_, hus⟩ => hover hus
    | some rest =>
      obtain ⟨us₁, _, hspells, _⟩ := (reads_readValue t.length d).sound hread
      unfold firstFault? at h
      cases hrest : skipBlanks rest with
      | nil =>
        simp only [hrest, fault?_of_spells j hspells] at h
        cases h
      | cons u rest' =>
        simp only [hrest, fault?_of_spells j hspells] at h
        cases h
        exact kind_faultAt _ _

/-- A text spells one thing at most. -/
theorem isText_unique {t : Text} {j k : Json} (hj : IsText t.toList j) (hk : IsText t.toList k) : j = k := by
  have hread := read_of_isText hj (Nat.le_max_left j.nesting k.nesting)
  rw [read_of_isText hk (Nat.le_max_right j.nesting k.nesting)] at hread
  exact (congrArg Prod.fst hread).symm

end Json

end Ecma51
