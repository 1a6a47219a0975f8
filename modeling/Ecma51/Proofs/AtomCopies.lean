import Mathlib.Data.Finset.Card
import Mathlib.Data.Nat.Bitwise
import Ecma51.Text.Atom
import Ecma51.Proofs.Made

/-!
# Copies of texts and their numbers

Equal texts exist as several copies. The first copy of a text that asks for a number is entered into the table
of atoms and keeps its number; any other copy of the text is led to that one by its content. Numbers have 32
bits, and so has the table room for as many texts.

* `Copies.interned`, `Copies.numberOf`, `Copies.rawOf`, `Copies.keyAt?`: the operations on copies.
* `Copies.Consistent`: the two halves of the table are inverse to each other, and a copy that has a number is
  the one in the table.
* `Copies.interned_ends`: what numbering a copy leaves, for the table of atoms as for the copies.
* **`numbers_last`**: the number of a key is read back as that key, at once and after whatever else is numbered,
  and keys are equal exactly if their numbers are.
-/

namespace Ecma51

-- powers mean the same whether or not there are other instances in scope
attribute [local instance (high)] instPowNat

/-! ## 1. Operations -/

/-- A copy of a text, with its number if it was entered into the table. -/
structure Copy where
  text : Text
  number? : Option Nat

/-- The copies that were made, the number of each text that was entered, and the copy with each number. -/
structure Copies where
  made : Array Copy
  byText : Std.HashMap Text Nat
  byNumber : Array Nat

/-- A key whose name is a copy of a text. -/
inductive CopyKey where
  | index (i : ArrayIndex)
  | name (r : Nat)

namespace Copies

/-- No copies, and an empty table. -/
def empty : Copies := ⟨#[], ∅, #[]⟩

/-- The text of a copy. -/
def text? (s : Copies) (r : Nat) : Option Text := s.made[r]?.map Copy.text

/-- Another copy of a text, without a number. -/
def make (s : Copies) (t : Text) : Copies × Nat := ({ s with made := s.made.push ⟨t, none⟩ }, s.made.size)

/-- The table with a copy of a text that it does not have. -/
def enter (s : Copies) (r : Nat) (t : Text) : Copies :=
  let n := wrap32 s.byNumber.size
  { made := s.made.setIfInBounds r ⟨t, some n⟩
    byText := s.byText.insert t n
    byNumber := s.byNumber.push r }

/-- The copy in the table that has the text of a copy: itself if the text is new. There is none if a copy or
a number is asked for that does not exist. -/
def interned (s : Copies) (r : Nat) : Option (Copies × Nat) :=
  match s.made[r]? with
  | none => none
  | some ⟨t, number?⟩ =>
    if number?.isSome then some (s, r)
    else
      match s.byText[t]? with
      | some n => s.byNumber[n]?.map (s, ·)
      | none => some (s.enter r t, r)

/-- The number of the copy in the table; zero, should that copy have none. -/
def numberOf (s : Copies) (r : Nat) : Option (Copies × Nat) := do
  let (s, r) ← s.interned r
  return (s, (s.made[r]?.bind Copy.number?).getD 0)

/-- The copy in the table that has a text, of which a copy is made first. -/
def intern (s : Copies) (t : Text) : Option (Copies × Nat) :=
  let (s, r) := s.make t
  s.interned r

/-- The key that a copy of a text is. -/
def keyOfCopy? (s : Copies) (r : Nat) : Option CopyKey := do
  match Key.arrayIndex? (← s.text? r) with
  | some i => return .index i
  | none => return .name r

/-- The key that a key of copies stands for. -/
def key? (s : Copies) : CopyKey → Option Key
  | .index i => some (.index i)
  | .name r => (s.text? r).map .name

/-- The raw number of a key: an index is itself, a name has the number of its text below bit 32. -/
def rawOf (s : Copies) : CopyKey → Option (Copies × Nat)
  | .index i => some (s, i)
  | .name r => do
    let (s, n) ← s.numberOf r
    return (s, Atoms.nameBit ||| n)

/-- The key with a raw number. -/
def keyAt? (s : Copies) (raw : Nat) : Option Key :=
  if raw &&& Atoms.nameBit = 0 then some (.ofNat (wrap32 raw))
  else (s.byNumber[wrap32 raw]?.bind s.text?).map .name

/-- The raw number of the key that a text is. -/
def internKey (s : Copies) (t : Text) : Option (Copies × Nat) := do
  let (s, r) ← s.intern t
  s.rawOf (← s.keyOfCopy? r)

/-- What is asked of the copies and their table. -/
inductive Request where
  | make (t : Text)
  | intern (t : Text)
  | interned (r : Nat)
  | numberOf (r : Nat)
  | internKey (t : Text)

/-- The text of which a request makes a copy. -/
def Request.text? : Request → Option Text
  | .make t | .intern t | .internKey t => some t
  | .interned _ | .numberOf _ => none

/-- The copy that a request is about. -/
def Request.copy? : Request → Option Nat
  | .make _ | .intern _ | .internKey _ => none
  | .interned r | .numberOf r => some r

/-- What a request leaves. -/
def serve (s : Copies) : Request → Option Copies
  | .make t => some (s.make t).1
  | .intern t => (s.intern t).map Prod.fst
  | .interned r => (s.interned r).map Prod.fst
  | .numberOf r => (s.numberOf r).map Prod.fst
  | .internKey t => (s.internKey t).map Prod.fst

/-- What requests leave, one after the other. -/
def serveAll (s : Copies) (qs : List Request) : Option Copies := qs.foldlM serve s

/-- The texts of which requests make copies. -/
def texts (qs : List Request) : List Text := qs.filterMap Request.text?

/-- Every request is about a copy that was made before, `n` of them before all of the requests. -/
def RefersBack : Nat → List Request → Prop
  | _, [] => True
  | n, q :: qs => (∀ r ∈ q.copy?, r < n) ∧ RefersBack (n + (texts [q]).length) qs

/-- The texts of all copies. -/
def allTexts (s : Copies) : List Text := s.made.toList.map Copy.text

/-- The table of atoms, which has the text in place of its copy. -/
def atoms (s : Copies) : Atoms := ⟨s.byText, s.byNumber.map fun r => (s.text? r).getD .empty⟩

/-! ## 2. Consistency -/

/-- **The halves of the table are inverse to each other, and a copy with a number is the one in the table.** -/
structure Consistent (s : Copies) : Prop where
  ofText {t : Text} {n : Nat} : s.byText[t]? = some n → ∃ r, s.byNumber[n]? = some r ∧ s.text? r = some t
  ofNumber {n r : Nat} : s.byNumber[n]? = some r → ∃ t, s.made[r]? = some ⟨t, some n⟩ ∧ s.byText[t]? = some n
  ofCopy {r n : Nat} {t : Text} : s.made[r]? = some ⟨t, some n⟩ → s.byNumber[n]? = some r
  bounded : s.byNumber.size ≤ 2 ^ (32 : Nat)

/-- Copies and numbers are kept. -/
structure Extends (s s' : Copies) : Prop where
  text {r : Nat} {t : Text} : s.text? r = some t → s'.text? r = some t
  number {t : Text} {n : Nat} : s.byText[t]? = some n → s'.byText[t]? = some n
  entry {n r : Nat} : s.byNumber[n]? = some r → s'.byNumber[n]? = some r

variable {s s' s'' : Copies} {t : Text} {r n : Nat}

theorem Extends.refl (s : Copies) : Extends s s := ⟨id, id, id⟩

theorem Extends.trans (h : Extends s s') (h' : Extends s' s'') : Extends s s'' :=
  ⟨h'.text ∘ h.text, h'.number ∘ h.number, h'.entry ∘ h.entry⟩

theorem consistent_empty : empty.Consistent where
  ofText h := by
    change (∅ : Std.HashMap Text Nat)[_]? = _ at h
    simp at h
  ofNumber h := by
    change (#[] : Array Nat)[_]? = _ at h
    simp at h
  ofCopy h := by
    change (#[] : Array Copy)[_]? = _ at h
    simp at h
  bounded := Nat.zero_le _

theorem text?_eq_some_iff : s.text? r = some t ↔ ∃ number?, s.made[r]? = some ⟨t, number?⟩ := by
  unfold text?
  rw [Option.map_eq_some_iff]
  constructor
  · rintro ⟨⟨_, number?⟩, hmade, rfl⟩
    exact ⟨number?, hmade⟩
  · rintro ⟨number?, hmade⟩
    exact ⟨_, hmade, rfl⟩

theorem getElem?_allTexts (r : Nat) : s.allTexts[r]? = s.text? r := by
  simp [allTexts, text?]

theorem exists_text? (h : r < s.made.size) : ∃ t, s.text? r = some t := by
  unfold text?
  rw [Array.getElem?_eq_getElem h]
  exact ⟨_, rfl⟩

theorem lt_of_text? (h : s.text? r = some t) : r < s.made.size := by
  obtain ⟨_, hmade⟩ := text?_eq_some_iff.mp h
  exact (Array.getElem?_eq_some_iff.mp hmade).1

/-- A number stands for one text. -/
theorem Consistent.text_of_number (h : s.Consistent) {t' : Text} (ht : s.byText[t]? = some n)
    (ht' : s.byText[t']? = some n) : t = t' := by
  obtain ⟨r, hr, htext⟩ := h.ofText ht
  obtain ⟨r', hr', htext'⟩ := h.ofText ht'
  cases hr.symm.trans hr'
  exact Option.some.inj (htext.symm.trans htext')

/-- The table has no more entries than there are different texts. -/
theorem Consistent.size_le (h : s.Consistent) : s.byNumber.size ≤ s.allTexts.toFinset.card := by
  have hentry (n : Nat) (hn : n < s.byNumber.size) : ∃ t, s.byText[t]? = some n ∧ t ∈ s.allTexts := by
    obtain ⟨t, hmade, htext⟩ := h.ofNumber (Array.getElem?_eq_getElem hn)
    obtain ⟨hr, hcopy⟩ := Array.getElem?_eq_some_iff.mp hmade
    refine ⟨t, htext, List.mem_map.mpr ⟨⟨t, some n⟩, ?_, rfl⟩⟩
    exact Array.mem_toList_iff.mpr (Array.mem_of_getElem hcopy)
  choose! text hnumber hmem using hentry
  have hmaps : ∀ n ∈ Finset.range s.byNumber.size, text n ∈ s.allTexts.toFinset := fun n hn =>
    List.mem_toFinset.mpr (hmem n (Finset.mem_range.mp hn))
  have hinjective : Set.InjOn text (Finset.range s.byNumber.size) := by
    intro n hn n' hn' heq
    have hsame := hnumber n (Finset.mem_range.mp hn)
    rw [heq, hnumber n' (Finset.mem_range.mp hn')] at hsame
    exact (Option.some.inj hsame).symm
  calc s.byNumber.size = (Finset.range s.byNumber.size).card := (Finset.card_range _).symm
    _ ≤ s.allTexts.toFinset.card := Finset.card_le_card_of_injOn text hmaps hinjective

/-! ## 3. Another copy -/

@[simp] theorem made_make : (s.make t).1.made = s.made.push ⟨t, none⟩ := rfl

theorem text?_make : (s.make t).1.text? s.made.size = some t := by
  simp [text?]

theorem extends_make : Extends s (s.make t).1 where
  text {r _} h := by
    have hlt : r < s.made.size := lt_of_text? h
    simpa [text?, Array.getElem?_push_lt hlt, Array.getElem?_eq_getElem hlt] using h
  number h := h
  entry h := h

theorem Consistent.make (h : s.Consistent) (t : Text) : (s.make t).1.Consistent where
  ofText hn := by
    obtain ⟨r, hr, htext⟩ := h.ofText hn
    exact ⟨r, hr, extends_make.text htext⟩
  ofNumber {_ r} hn := by
    obtain ⟨t', hmade, htext⟩ := h.ofNumber hn
    refine ⟨t', ?_, htext⟩
    rw [made_make, Array.getElem?_push, if_neg, hmade]
    exact Nat.ne_of_lt (Array.getElem?_eq_some_iff.mp hmade).1
  ofCopy {r _ _} hmade := by
    rw [made_make, Array.getElem?_push] at hmade
    split at hmade
    · cases hmade
    · exact h.ofCopy hmade
  bounded := h.bounded

theorem allTexts_make : (s.make t).1.allTexts = s.allTexts ++ [t] := by
  simp [allTexts]

/-! ## 4. A copy is entered -/

theorem byText_enter (hroom : s.byNumber.size < 2 ^ 32) (t' : Text) :
    (s.enter r t).byText[t']? = if t = t' then some s.byNumber.size else s.byText[t']? := by
  show (s.byText.insert t (wrap32 s.byNumber.size))[t']? = _
  rw [Std.HashMap.getElem?_insert, wrap32_of_lt hroom]
  by_cases ht : t = t'
  · rw [if_pos (beq_iff_eq.mpr ht), if_pos ht]
  · rw [if_neg fun h => ht (beq_iff_eq.mp h), if_neg ht]

section Enter

variable (hmade : s.made[r]? = some ⟨t, none⟩) (hnew : s.byText[t]? = none) (hroom : s.byNumber.size < 2 ^ 32)

include hmade

theorem made_enter (r' : Nat) :
    (s.enter r t).made[r']? = if r' = r then some ⟨t, some (wrap32 s.byNumber.size)⟩ else s.made[r']? := by
  have hlt : r < s.made.size := (Array.getElem?_eq_some_iff.mp hmade).1
  show (s.made.setIfInBounds r _)[r']? = _
  rw [Array.getElem?_setIfInBounds]
  by_cases hr : r = r'
  · rw [if_pos hr, if_pos hlt, if_pos hr.symm]
  · rw [if_neg hr, if_neg fun h => hr h.symm]

theorem text?_enter (r' : Nat) : (s.enter r t).text? r' = s.text? r' := by
  unfold text?
  rw [made_enter hmade]
  split
  · rename_i hr
    rw [hr, hmade]
    rfl
  · rfl

theorem allTexts_enter : (s.enter r t).allTexts = s.allTexts := by
  apply List.ext_getElem?
  intro r'
  rw [getElem?_allTexts, getElem?_allTexts, text?_enter hmade]

include hnew

theorem extends_enter : Extends s (s.enter r t) where
  text h := (text?_enter hmade _).trans h
  number {t' _} h := by
    show (s.byText.insert t _)[t']? = _
    rw [Std.HashMap.getElem?_insert, if_neg, h]
    intro heq
    rw [← eq_of_beq heq, hnew] at h
    cases h
  entry {n _} h := by
    show (s.byNumber.push r)[n]? = _
    rw [Array.getElem?_push, if_neg, h]
    exact Nat.ne_of_lt (Array.getElem?_eq_some_iff.mp h).1

include hroom

/-- The entered copy has the next number. -/
theorem Consistent.enter (h : s.Consistent) : (s.enter r t).Consistent where
  ofText {t' n} hn := by
    rw [byText_enter hroom] at hn
    split at hn
    · rename_i ht
      cases hn
      refine ⟨r, Array.getElem?_push_size, ?_⟩
      rw [text?_enter hmade, ← ht]
      exact text?_eq_some_iff.mpr ⟨none, hmade⟩
    · obtain ⟨r', hr', htext⟩ := h.ofText hn
      exact ⟨r', (extends_enter hmade hnew).entry hr', (extends_enter hmade hnew).text htext⟩
  ofNumber {n r'} hn := by
    change (s.byNumber.push r)[n]? = some r' at hn
    rw [Array.getElem?_push] at hn
    split at hn
    · rename_i hsize
      cases hn
      refine ⟨t, ?_, ?_⟩
      · rw [made_enter hmade, if_pos rfl, wrap32_of_lt hroom, hsize]
      · rw [byText_enter hroom, if_pos rfl, hsize]
    · obtain ⟨t', hmade', htext⟩ := h.ofNumber hn
      refine ⟨t', ?_, (extends_enter hmade hnew).number htext⟩
      rw [made_enter hmade, if_neg, hmade']
      rintro rfl
      cases hmade.symm.trans hmade'
  ofCopy {r' n t'} hcopy := by
    rw [made_enter hmade] at hcopy
    split at hcopy
    · rename_i hr
      cases hcopy
      rw [hr, wrap32_of_lt hroom]
      exact Array.getElem?_push_size
    · exact (extends_enter hmade hnew).entry (h.ofCopy hcopy)
  bounded := by
    show (s.byNumber.push r).size ≤ _
    rw [Array.size_push]
    exact hroom

/-- To the table of atoms, a text was numbered. -/
theorem atoms_enter : s.atoms.intern t = ((s.enter r t).atoms, s.byNumber.size) := by
  have hmap : s.byNumber.map (fun r' => ((s.enter r t).text? r').getD .empty) =
      s.byNumber.map fun r' => (s.text? r').getD .empty :=
    Array.map_congr_left fun r' _ => congrArg (·.getD .empty) (text?_enter hmade r')
  have htext : (s.enter r t).text? r = some t :=
    (text?_enter hmade r).trans (text?_eq_some_iff.mpr ⟨none, hmade⟩)
  unfold Atoms.intern Atoms.find?
  rw [show s.atoms.byText[t]? = none from hnew]
  refine Prod.ext (congrArg₂ Atoms.mk ?_ ?_) ?_
  · show s.byText.insert t (s.byNumber.map _).size = s.byText.insert t (wrap32 s.byNumber.size)
    rw [Array.size_map, wrap32_of_lt hroom]
  · show (s.byNumber.map _).push t = (s.byNumber.push r).map _
    rw [Array.map_push, hmap, htext]
    rfl
  · exact Array.size_map

end Enter

/-! ## 5. The copy in the table -/

/-- A copy has this number in the table, for its text. -/
structure NumberedAs (s : Copies) (t : Text) (r n : Nat) : Prop where
  number : s.byText[t]? = some n
  entry : s.byNumber[n]? = some r
  made : s.made[r]? = some ⟨t, some n⟩

theorem NumberedAs.text (h : s.NumberedAs t r n) : s.text? r = some t := text?_eq_some_iff.mpr ⟨_, h.made⟩

theorem Consistent.lt_of_numberedAs (h : s.Consistent) (hn : s.NumberedAs t r n) : n < 2 ^ 32 :=
  Nat.lt_of_lt_of_le (Array.getElem?_eq_some_iff.mp hn.entry).1 h.bounded

theorem Consistent.numberedAs (h : s.Consistent) (hn : s.byText[t]? = some n) : ∃ r, s.NumberedAs t r n := by
  obtain ⟨r, hentry, htext⟩ := h.ofText hn
  obtain ⟨t', hmade, hnumber⟩ := h.ofNumber hentry
  cases h.text_of_number hn hnumber
  exact ⟨r, hn, hentry, hmade⟩

/-- **Numbering a copy never fails, and leaves the table with an entry for its text**; the table of atoms gives
the text the same number. -/
theorem interned_ends (h : s.Consistent) (hroom : s.byNumber.size < 2 ^ 32) (ht : s.text? r = some t) :
    ∃ s' r' n, s.interned r = some (s', r') ∧ s'.Consistent ∧ Extends s s' ∧ s'.NumberedAs t r' n ∧
      s'.allTexts = s.allTexts ∧ s.atoms.intern t = (s'.atoms, n) := by
  obtain ⟨number?, hmade⟩ := text?_eq_some_iff.mp ht
  have hfound {n : Nat} (hn : s.byText[t]? = some n) : s.atoms.intern t = (s.atoms, n) := by
    unfold Atoms.intern Atoms.find?
    rw [show s.atoms.byText[t]? = some n from hn]
  unfold interned
  rw [hmade]
  cases number? with
  | some n =>
    -- the copy is the one in the table
    have hentry := h.ofCopy hmade
    obtain ⟨t', hmade', hnumber⟩ := h.ofNumber hentry
    cases hmade.symm.trans hmade'
    exact ⟨s, r, n, rfl, h, .refl s, ⟨hnumber, hentry, hmade⟩, rfl, hfound hnumber⟩
  | none =>
    cases hn : s.byText[t]? with
    | some n =>
      -- the table has another copy
      obtain ⟨r', hr'⟩ := h.numberedAs hn
      refine ⟨s, r', n, ?_, h, .refl s, hr', rfl, hfound hn⟩
      simp [hn, hr'.entry]
    | none =>
      -- the text is new
      have hnumber : (s.enter r t).byText[t]? = some s.byNumber.size := by
        rw [byText_enter hroom, if_pos rfl]
      refine ⟨s.enter r t, r, s.byNumber.size, ?_, h.enter hmade hn hroom, extends_enter hmade hn,
        ⟨hnumber, Array.getElem?_push_size, ?_⟩, allTexts_enter hmade,
        atoms_enter hmade hn hroom⟩
      · simp [hn]
      · rw [made_enter hmade, if_pos rfl, wrap32_of_lt hroom]

/-! ## 6. Numbers and keys -/

theorem numberOf_ends (h : s.Consistent) (hroom : s.byNumber.size < 2 ^ 32) (ht : s.text? r = some t) :
    ∃ s' r' n, s.numberOf r = some (s', n) ∧ s'.Consistent ∧ Extends s s' ∧ s'.NumberedAs t r' n ∧
      s'.allTexts = s.allTexts ∧ s.atoms.intern t = (s'.atoms, n) := by
  obtain ⟨s', r', n, hrun, hafter, hextends, hentry, htexts, hatoms⟩ := interned_ends h hroom ht
  refine ⟨s', r', n, ?_, hafter, hextends, hentry, htexts, hatoms⟩
  unfold numberOf
  rw [hrun]
  simp [hentry.made]

/-- A key has this raw number. -/
def RawNumber (s : Copies) : Key → Nat → Prop
  | .index i, raw => raw = i
  | .name t, raw => ∃ r n, s.NumberedAs t r n ∧ raw = Atoms.nameBit + n

theorem nameBit_or {n : Nat} (hn : n < 2 ^ 32) : Atoms.nameBit ||| n = Atoms.nameBit + n := by
  have hsplit := Nat.two_pow_add_eq_or_of_lt (i := 32) hn 1
  rw [Nat.mul_one] at hsplit
  exact hsplit.symm

theorem and_nameBit_eq_zero_iff (raw : Nat) : raw &&& Atoms.nameBit = 0 ↔ raw / Atoms.nameBit % 2 = 0 := by
  unfold Atoms.nameBit
  rw [Nat.and_two_pow, Nat.testBit_eq_decide_div_mod_eq]
  simp

/-- **Numbering a key never fails**, and the table of atoms gives it the same number. -/
theorem rawOf_ends (h : s.Consistent) (hroom : s.byNumber.size < 2 ^ 32) {k : CopyKey} {key : Key}
    (hk : s.key? k = some key) :
    ∃ s' raw, s.rawOf k = some (s', raw) ∧ s'.Consistent ∧ Extends s s' ∧ s'.RawNumber key raw ∧
      s'.allTexts = s.allTexts ∧ s.atoms.rawOfKey key = (s'.atoms, raw) := by
  cases k with
  | index i =>
    cases hk
    exact ⟨s, i, rfl, h, .refl s, rfl, rfl, rfl⟩
  | name r =>
    obtain ⟨t, ht, rfl⟩ := Option.map_eq_some_iff.mp hk
    obtain ⟨s', r', n, hrun, hafter, hextends, hentry, htexts, hatoms⟩ := numberOf_ends h hroom ht
    have hor := nameBit_or (hafter.lt_of_numberedAs hentry)
    refine ⟨s', Atoms.nameBit ||| n, ?_, hafter, hextends, ⟨r', n, hentry, hor⟩, htexts, ?_⟩
    · simp [rawOf, hrun]
    · unfold Atoms.rawOfKey
      dsimp only
      rw [hatoms, hor]

/-- Reading a raw number asks for the same entry as in the table of atoms. -/
theorem Consistent.keyAt?_eq (h : s.Consistent) (raw : Nat) : s.keyAt? raw = s.atoms.keyOfRaw? raw := by
  have hentry (n : Nat) : s.byNumber[n]?.bind s.text? = s.atoms.text? n := by
    show _ = (s.byNumber.map _)[n]?
    rw [Array.getElem?_map]
    cases hn : s.byNumber[n]? with
    | none => rfl
    | some r =>
      obtain ⟨t, hmade, _⟩ := h.ofNumber hn
      have htext : s.text? r = some t := text?_eq_some_iff.mpr ⟨_, hmade⟩
      rw [Option.bind_some, Option.map_some, htext]
      rfl
  unfold keyAt? Atoms.keyOfRaw?
  dsimp only
  rw [hentry]
  exact if_congr (and_nameBit_eq_zero_iff raw) rfl rfl

/-- **A raw number is read back as its key.** -/
theorem Consistent.keyAt?_of_rawNumber (h : s.Consistent) {key : Key} {raw : Nat} (hraw : s.RawNumber key raw) :
    s.keyAt? raw = some key := by
  unfold keyAt?
  cases key with
  | index i =>
    cases hraw
    have hlt : (i : Nat) < 2 ^ 32 := Nat.lt_trans i.isLt (by decide)
    have hbit : (i : Nat) / Atoms.nameBit % 2 = 0 := by
      unfold Atoms.nameBit
      omega
    rw [if_pos ((and_nameBit_eq_zero_iff _).mpr hbit), wrap32_of_lt hlt, Key.ofNat_val]
  | name t =>
    obtain ⟨r, n, hentry, rfl⟩ := hraw
    have hn := h.lt_of_numberedAs hentry
    have hbit : (Atoms.nameBit + n) / Atoms.nameBit % 2 ≠ 0 := by
      unfold Atoms.nameBit
      omega
    have hlow : wrap32 (Atoms.nameBit + n) = n := by
      unfold wrap32 Atoms.nameBit
      omega
    rw [if_neg fun hzero => hbit ((and_nameBit_eq_zero_iff _).mp hzero), hlow, hentry.entry, Option.bind_some,
      hentry.text]
    rfl

/-- A raw number stays the number of its key. -/
theorem RawNumber.extend {key : Key} {raw : Nat} (hraw : s.RawNumber key raw) (hextends : Extends s s')
    (h' : s'.Consistent) : s'.RawNumber key raw := by
  cases key with
  | index i => exact hraw
  | name t =>
    obtain ⟨r, n, hentry, rfl⟩ := hraw
    obtain ⟨r', hr'⟩ := h'.numberedAs (hextends.number hentry.number)
    exact ⟨r', n, hr', rfl⟩

/-- A key has one raw number. -/
theorem RawNumber.unique {key : Key} {raw raw' : Nat} (hraw : s.RawNumber key raw) (hraw' : s.RawNumber key raw') :
    raw = raw' := by
  cases key with
  | index i => exact Eq.trans hraw (Eq.symm hraw')
  | name t =>
    obtain ⟨r, n, hentry, rfl⟩ := hraw
    obtain ⟨r', n', hentry', rfl⟩ := hraw'
    cases hentry.number.symm.trans hentry'.number
    rfl

/-- **Keys are equal exactly if their raw numbers are.** -/
theorem Consistent.rawNumber_inj (h : s.Consistent) {key key' : Key} {raw raw' : Nat}
    (hraw : s.RawNumber key raw) (hraw' : s.RawNumber key' raw') : raw = raw' ↔ key = key' := by
  constructor
  · rintro rfl
    exact Option.some.inj ((h.keyAt?_of_rawNumber hraw).symm.trans (h.keyAt?_of_rawNumber hraw'))
  · rintro rfl
    exact hraw.unique hraw'

/-! ## 7. Requests -/

/-- There are fewer different texts than numbers. -/
def Few (ts : List Text) : Prop := ts.toFinset.card < 2 ^ (32 : Nat)

theorem Few.of_subset {ts ts' : List Text} (h : Few ts') (hsub : ts ⊆ ts') : Few ts := by
  refine Nat.lt_of_le_of_lt (Finset.card_le_card fun t ht => ?_) h
  exact List.mem_toFinset.mpr (hsub (List.mem_toFinset.mp ht))

theorem Consistent.room (h : s.Consistent) (hfew : Few s.allTexts) : s.byNumber.size < 2 ^ 32 :=
  Nat.lt_of_le_of_lt h.size_le hfew

theorem length_allTexts : s.allTexts.length = s.made.size := by
  simp [allTexts]

theorem intern_ends (h : s.Consistent) (hfew : Few s.allTexts) (t : Text) :
    ∃ s' r n, s.intern t = some (s', r) ∧ s'.Consistent ∧ Extends s s' ∧ s'.NumberedAs t r n ∧
      s'.allTexts = s.allTexts ++ [t] := by
  obtain ⟨s', r, n, hrun, hafter, hextends, hentry, htexts, _⟩ :=
    interned_ends (h.make t) (h.room hfew) text?_make
  exact ⟨s', r, n, hrun, hafter, extends_make.trans hextends, hentry, htexts.trans allTexts_make⟩

theorem keyOfCopy?_ends (ht : s.text? r = some t) :
    ∃ k, s.keyOfCopy? r = some k ∧ s.key? k = some (.ofText t) := by
  unfold keyOfCopy? Key.ofText
  rw [ht]
  cases hi : Key.arrayIndex? t with
  | some i => exact ⟨.index i, by simp [hi], rfl⟩
  | none => exact ⟨.name r, by simp [hi], by simp [key?, ht]⟩

/-- A text that is an index is entered as well, but its raw number is the index. -/
theorem internKey_ends (h : s.Consistent) (hfew : Few (s.allTexts ++ [t])) :
    ∃ s' raw, s.internKey t = some (s', raw) ∧ s'.Consistent ∧ Extends s s' ∧ s'.RawNumber (.ofText t) raw ∧
      s'.allTexts = s.allTexts ++ [t] := by
  obtain ⟨s₁, r, n, hrun, h₁, hextends₁, hentry, htexts₁⟩ :=
    intern_ends h (hfew.of_subset (List.subset_append_left _ _)) t
  obtain ⟨k, hk, hkey⟩ := keyOfCopy?_ends hentry.text
  obtain ⟨s₂, raw, hraw, h₂, hextends₂, hnumber, htexts₂, _⟩ := rawOf_ends h₁ (h₁.room (htexts₁ ▸ hfew)) hkey
  refine ⟨s₂, raw, ?_, h₂, hextends₁.trans hextends₂, hnumber, htexts₂.trans htexts₁⟩
  simp [internKey, hrun, hk, hraw]

/-- **A request that refers back never fails.** -/
theorem serve_ends (h : s.Consistent) {q : Request} (hback : ∀ r ∈ q.copy?, r < s.made.size)
    (hfew : Few (s.allTexts ++ texts [q])) :
    ∃ s', s.serve q = some s' ∧ s'.Consistent ∧ Extends s s' ∧ s'.allTexts = s.allTexts ++ texts [q] := by
  have hbefore : Few s.allTexts := hfew.of_subset (List.subset_append_left _ _)
  have hnone : s.allTexts ++ [] = s.allTexts := List.append_nil _
  cases q with
  | make t => exact ⟨(s.make t).1, rfl, h.make t, extends_make, allTexts_make⟩
  | intern t =>
    obtain ⟨s', r, n, hrun, hafter, hextends, _, htexts⟩ := intern_ends h hbefore t
    exact ⟨s', by simp [serve, hrun], hafter, hextends, htexts⟩
  | interned r =>
    obtain ⟨t, ht⟩ := exists_text? (hback r rfl)
    obtain ⟨s', r', n, hrun, hafter, hextends, _, htexts, _⟩ := interned_ends h (h.room hbefore) ht
    exact ⟨s', by simp [serve, hrun], hafter, hextends, htexts.trans hnone.symm⟩
  | numberOf r =>
    obtain ⟨t, ht⟩ := exists_text? (hback r rfl)
    obtain ⟨s', r', n, hrun, hafter, hextends, _, htexts, _⟩ := numberOf_ends h (h.room hbefore) ht
    exact ⟨s', by simp [serve, hrun], hafter, hextends, htexts.trans hnone.symm⟩
  | internKey t =>
    obtain ⟨s', raw, hrun, hafter, hextends, _, htexts⟩ := internKey_ends h hfew
    exact ⟨s', by simp [serve, hrun], hafter, hextends, htexts⟩

theorem texts_cons (q : Request) (qs : List Request) : texts (q :: qs) = texts [q] ++ texts qs :=
  List.filterMap_append (l := [q])

theorem texts_append (qs qs' : List Request) : texts (qs ++ qs') = texts qs ++ texts qs' :=
  List.filterMap_append

theorem refersBack_append {qs qs' : List Request} {n : Nat} (h : RefersBack n (qs ++ qs')) :
    RefersBack n qs ∧ RefersBack (n + (texts qs).length) qs' := by
  induction qs generalizing n with
  | nil => exact ⟨trivial, h⟩
  | cons q qs ih =>
    obtain ⟨hq, hqs⟩ := h
    obtain ⟨hbefore, hafter⟩ := ih hqs
    refine ⟨⟨hq, hbefore⟩, ?_⟩
    rw [texts_cons, List.length_append, ← Nat.add_assoc]
    exact hafter

/-- **Requests that refer back never fail, whatever their order**, and keep the table consistent. -/
theorem serveAll_ends (h : s.Consistent) {qs : List Request} (hback : RefersBack s.made.size qs)
    (hfew : Few (s.allTexts ++ texts qs)) :
    ∃ s', s.serveAll qs = some s' ∧ s'.Consistent ∧ Extends s s' ∧ s'.allTexts = s.allTexts ++ texts qs := by
  induction qs generalizing s with
  | nil => exact ⟨s, rfl, h, .refl s, (List.append_nil _).symm⟩
  | cons q qs ih =>
    obtain ⟨hq, hqs⟩ := hback
    rw [texts_cons, ← List.append_assoc] at hfew
    obtain ⟨s₁, hrun₁, h₁, hextends₁, htexts₁⟩ := serve_ends h hq (hfew.of_subset (List.subset_append_left _ _))
    have hsize : s₁.made.size = s.made.size + (texts [q]).length := by
      rw [← length_allTexts, ← length_allTexts, htexts₁, List.length_append]
    obtain ⟨s₂, hrun₂, h₂, hextends₂, htexts₂⟩ := ih h₁ (hsize ▸ hqs) (htexts₁ ▸ hfew)
    refine ⟨s₂, ?_, h₂, hextends₁.trans hextends₂, ?_⟩
    · unfold serveAll
      rw [List.foldlM_cons, hrun₁]
      exact hrun₂
    · rw [htexts₂, htexts₁, texts_cons q qs, List.append_assoc]

end Copies

/-! ## 8. Numbers stay -/

/-- **Numbers of keys stay valid.** Whatever is asked of the copies and their table, of fewer than 2^32
different texts: nothing fails and the table is consistent, in itself and with the table of atoms; a key that is
numbered then has its number read back as itself, at once and after anything else was asked; and a key that is
numbered later has the same number exactly if it is the same key. -/
theorem numbers_last {before after : List Copies.Request} (hback : Copies.RefersBack 0 (before ++ after))
    (hfew : Copies.Few (Copies.texts (before ++ after))) :
    ∃ s, Copies.empty.serveAll before = some s ∧ s.Consistent ∧
      ∀ k key, s.key? k = some key →
        ∃ s₁ raw, s.rawOf k = some (s₁, raw) ∧ s₁.Consistent ∧ s₁.keyAt? raw = some key ∧
          s.atoms.rawOfKey key = (s₁.atoms, raw) ∧ s₁.atoms.keyOfRaw? raw = some key ∧
          ∃ s₂, s₁.serveAll after = some s₂ ∧ s₂.Consistent ∧ s₂.keyAt? raw = some key ∧
            s₂.atoms.keyOfRaw? raw = some key ∧
            ∀ k' key', s₂.key? k' = some key' →
              ∃ s₃ raw', s₂.rawOf k' = some (s₃, raw') ∧ s₃.Consistent ∧ s₃.keyAt? raw = some key ∧
                s₃.keyAt? raw' = some key' ∧ (raw = raw' ↔ key = key') := by
  obtain ⟨hbefore, hafter⟩ := Copies.refersBack_append hback
  rw [Copies.texts_append] at hfew
  obtain ⟨s, hrun, h, -, htexts⟩ := Copies.serveAll_ends Copies.consistent_empty hbefore
    (hfew.of_subset (List.subset_append_left _ _))
  replace htexts : s.allTexts = Copies.texts before := htexts
  refine ⟨s, hrun, h, fun k key hk => ?_⟩
  have hroom := h.room (htexts ▸ hfew.of_subset (List.subset_append_left _ _))
  obtain ⟨s₁, raw, hraw, h₁, -, hnumber, htexts₁, hatoms⟩ := Copies.rawOf_ends h hroom hk
  have hback₁ : Copies.RefersBack s₁.made.size after := by
    rw [← Copies.length_allTexts, htexts₁, htexts, ← Nat.zero_add (List.length _)]
    exact hafter
  have hfew₁ : Copies.Few (s₁.allTexts ++ Copies.texts after) := by
    rw [htexts₁, htexts]
    exact hfew
  obtain ⟨s₂, hrun₂, h₂, hextends₂, htexts₂⟩ := Copies.serveAll_ends h₁ hback₁ hfew₁
  have hnumber₂ := hnumber.extend hextends₂ h₂
  refine ⟨s₁, raw, hraw, h₁, h₁.keyAt?_of_rawNumber hnumber, hatoms, ?_, s₂, hrun₂, h₂,
    h₂.keyAt?_of_rawNumber hnumber₂, ?_, fun k' key' hk' => ?_⟩
  · rw [← h₁.keyAt?_eq, h₁.keyAt?_of_rawNumber hnumber]
  · rw [← h₂.keyAt?_eq, h₂.keyAt?_of_rawNumber hnumber₂]
  · obtain ⟨s₃, raw', hraw', h₃, hextends₃, hnumber', -, -⟩ := Copies.rawOf_ends h₂ (h₂.room (htexts₂ ▸ hfew₁)) hk'
    have hnumber₃ := hnumber₂.extend hextends₃ h₃
    exact ⟨s₃, raw', hraw', h₃, h₃.keyAt?_of_rawNumber hnumber₃, h₃.keyAt?_of_rawNumber hnumber',
      h₃.rawNumber_inj hnumber₃ hnumber'⟩

/-- The second copy of a text is numbered first; its number stays while the first copy is led to it, and an
index and another name are entered. -/
theorem numbers_last_copied :
    ∃ s s₁ s₂ raw, Copies.RefersBack 0 [.make "a", .make "a", .interned 0, .internKey "7", .internKey "b"] ∧
      Copies.Few (Copies.texts [.make "a", .make "a", .interned 0, .internKey "7", .internKey "b"]) ∧
      Copies.empty.serveAll [.make "a", .make "a"] = some s ∧ s.key? (.name 1) = some (.name "a") ∧
      s.rawOf (.name 1) = some (s₁, raw) ∧ s₁.serveAll [.interned 0, .internKey "7", .internKey "b"] = some s₂ ∧
      s₂.keyAt? raw = some (.name "a") := by
  have hback : Copies.RefersBack 0
      ([.make "a", .make "a"] ++ [.interned 0, .internKey "7", .internKey "b"]) := by
    simp [Copies.RefersBack, Copies.texts, Copies.Request.text?, Copies.Request.copy?]
  have hfew : Copies.Few (Copies.texts
      ([.make "a", .make "a"] ++ [.interned 0, .internKey "7", .internKey "b"])) := by
    unfold Copies.Few
    decide +kernel
  obtain ⟨s, hrun, -, hkeys⟩ := numbers_last hback hfew
  have hkey : s.key? (.name 1) = some (.name "a") := by
    cases hrun
    rfl
  obtain ⟨s₁, raw, hraw, -, -, -, -, s₂, hrun₂, -, hread, -⟩ := hkeys (.name 1) (.name "a") hkey
  exact ⟨s, s₁, s₂, raw, hback, hfew, hrun, hkey, hraw, hrun₂, hread⟩

end Ecma51
