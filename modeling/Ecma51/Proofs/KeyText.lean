import Mathlib.Data.List.Induction
import Ecma51.Property.Key

/-!
# Keys and their texts

A text and the key that it gives say the same: an index is spelled by the decimal digits of its number and
by no other text.

* **`Key.toText_ofText`**: a key remembers its text.
* `Key.ofText_injective`: different texts are different keys.
-/

namespace Ecma51

/-- The units of characters of the basic plane. -/
def Text.asUnits (cs : List Char) : List CodeUnit := cs.map fun c => c.toNat.toUInt16

theorem Text.toList_ofChars {cs : List Char} (h : ∀ c ∈ cs, c.toNat < 0x10000) :
    (Text.ofChars cs).toList = asUnits cs := by
  unfold ofChars asUnits
  rw [toList_ofList]
  induction cs with
  | nil => rfl
  | cons c cs ih =>
    rw [List.flatMap_cons, List.map_cons, ih fun d hd => h d (List.mem_cons_of_mem c hd)]
    unfold unitsOfCodePoint
    rw [if_pos (h c List.mem_cons_self)]
    rfl

/-- Decimal digits are in the basic plane. -/
theorem toNat_lt_of_isDigit {c : Char} (h : c.isDigit = true) : c.toNat < 0x10000 := by
  obtain ⟨_, hle⟩ := Char.isDigit_iff_toNat.mp h
  exact Nat.lt_of_le_of_lt hle (by decide)

theorem toNat_toUInt16 {c : Char} (h : c.isDigit = true) : (c.toNat.toUInt16 : CodeUnit).toNat = c.toNat := by
  rw [Nat.toUInt16_eq, UInt16.toNat_ofNat']
  exact Nat.mod_eq_of_lt (toNat_lt_of_isDigit h)

namespace Key

/-- The units of a number are its decimal digits. -/
theorem toList_ofNat (n : Nat) : (Text.ofNat n).toList = Text.asUnits (Nat.toDigits 10 n) := by
  unfold Text.ofNat Text.ofString
  rw [Nat.toString_eq_repr, Nat.toList_repr]
  refine Text.toList_ofChars fun c hc => toNat_lt_of_isDigit ?_
  exact Nat.isDigit_of_mem_toDigits (by decide) (by decide) hc

/-- A digit is the unit of its value. -/
theorem toUInt16_digitChar {u : CodeUnit} (hu : u.isDecimalDigit = true) :
    u.toNat - 0x30 < 10 ∧ (Nat.digitChar (u.toNat - 0x30)).toNat.toUInt16 = u := by
  unfold CodeUnit.isDecimalDigit CodeUnit.between at hu
  rw [Bool.and_eq_true, decide_eq_true_iff, decide_eq_true_iff] at hu
  have hlower : 0x30 ≤ u.toNat := hu.1
  have hupper : u.toNat ≤ 0x39 := hu.2
  have hlt : u.toNat - 0x30 < 10 := by omega
  refine ⟨hlt, ?_⟩
  rw [Nat.toNat_digitChar_of_lt_ten hlt, show 48 + (u.toNat - 0x30) = u.toNat by omega]
  exact UInt16.ofNat_toNat

/-- Digits without a needless zero before them are those of the number that they spell. -/
theorem toList_ofNat_of_decimalValue? {us : List CodeUnit} {n : Nat} (h : decimalValue? us = some n)
    (hne : us ≠ []) (hzero : 1 < us.length → us.head? ≠ some 0x30) : (Text.ofNat n).toList = us := by
  induction us using List.reverseRecOn generalizing n with
  | nil => exact absurd rfl hne
  | append_singleton us u ih =>
    -- the last digit, and the number before it
    unfold decimalValue? at h
    rw [List.foldlM_append] at h
    obtain ⟨k, hk, hlast⟩ := Option.bind_eq_some_iff.mp h
    rw [List.foldlM_cons] at hlast
    have hu : u.isDecimalDigit = true := by
      cases hu : u.isDecimalDigit with
      | true => rfl
      | false =>
        rw [hu] at hlast
        cases hlast
    rw [if_pos hu] at hlast
    cases hlast
    obtain ⟨hlt, hchar⟩ := toUInt16_digitChar hu
    rw [toList_ofNat]
    cases us with
    | nil =>
      cases hk
      rw [Nat.zero_mul, Nat.zero_add, Nat.toDigits_of_lt_base hlt]
      exact congrArg ([·]) hchar
    | cons w us =>
      have hlong : 1 < (w :: us ++ [u]).length := by
        rw [List.length_append]
        exact Nat.le_add_left 2 us.length
      have hbefore : (Text.ofNat k).toList = w :: us :=
        ih hk (List.cons_ne_nil w us) fun _ => hzero hlong
      have hpos : 0 < k := by
        refine Nat.pos_of_ne_zero fun hk => ?_
        rw [hk] at hbefore
        have hw : w = 0x30 := (List.cons.inj hbefore).1.symm
        exact hzero hlong (congrArg some hw)
      have hunits : Text.asUnits (Nat.toDigits 10 k) = w :: us := (toList_ofNat k).symm.trans hbefore
      rw [Nat.mul_comm, ← Nat.toDigits_append_toDigits (by decide) hpos hlt, Nat.toDigits_of_lt_base hlt]
      unfold Text.asUnits at hunits ⊢
      rw [List.map_append, hunits, List.map_singleton, hchar]

/-- **A key remembers its text.** -/
theorem toText_ofText (t : Text) : (ofText t).toText = t := by
  unfold ofText
  cases hi : arrayIndex? t with
  | none => rfl
  | some i =>
    unfold arrayIndex? at hi
    split at hi
    · cases hi
    · rename_i hform
      obtain ⟨n, hn, hi⟩ := Option.bind_eq_some_iff.mp hi
      have hval : i.val = n := by
        unfold ArrayIndex.ofNat? at hi
        split at hi
        · cases hi
          rfl
        · cases hi
      have hspelled : (Text.ofNat n).toList = t.toList := by
        refine toList_ofNat_of_decimalValue? hn ?_ ?_
        · intro hnil
          exact hform (.inl (congrArg List.length hnil))
        · intro hlong hzero
          refine hform (.inr (.inr ⟨hlong, ?_⟩))
          rw [List.head?_eq_getElem?] at hzero
          exact (Array.getElem?_toList).symm.trans hzero
      show Text.ofNat i.val = t
      rw [hval, ← Text.ofList_toList (Text.ofNat n), hspelled, Text.ofList_toList]

theorem ofText_injective : Function.Injective ofText :=
  Function.LeftInverse.injective toText_ofText

end Key

end Ecma51
