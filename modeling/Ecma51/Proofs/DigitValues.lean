import Mathlib.Algebra.Order.Ring.Nat
import Mathlib.Data.List.Induction
import Ecma51.Number.Format

/-!
# What decimal digits are worth

The number that digits spell, its parts, and the digits of a number: digits without a zero before them are the
digits of what they spell.

* `Decimal.valueOf_append`, `Decimal.valueOf_take`, `Decimal.valueOf_drop`: parts of digits.
* `Decimal.Significant`: digits that do not start with zero.
* `Decimal.valueOf_lt`, `Decimal.le_valueOf`: how large digits are.
* **`Decimal.digitsOf_valueOf`**: digits are determined by their number and by what they spell.
-/

namespace Ecma51

-- powers mean the same whether or not there are other instances in scope
attribute [local instance (high)] instPowNat

theorem Double.digitChars_append (ds es : List Nat) : digitChars (ds ++ es) = digitChars ds ++ digitChars es :=
  List.map_append

theorem Double.digitChars_zeros (z : Nat) : digitChars (List.replicate z 0) = zeros z := List.map_replicate

namespace Decimal

/-! ## 1. The number that digits spell -/

/-- The value of digits is that of the last one and of those before it. -/
theorem valueOf_concat (ds : List Nat) (d : Nat) : valueOf (ds ++ [d]) = valueOf ds * 10 + d := by
  unfold valueOf
  rw [List.foldl_append]
  rfl

theorem valueOf_append (ds es : List Nat) : valueOf (ds ++ es) = valueOf ds * 10 ^ es.length + valueOf es := by
  induction es using List.reverseRecOn with
  | nil => rw [List.append_nil, List.length_nil, Nat.pow_zero, Nat.mul_one]; rfl
  | append_singleton es e ih =>
    rw [← List.append_assoc, valueOf_concat, ih, valueOf_concat, List.length_append, List.length_singleton,
      Nat.pow_succ, Nat.add_mul, Nat.mul_assoc, Nat.add_assoc]

theorem valueOf_zeros (z : Nat) : valueOf (List.replicate z 0) = 0 := by
  induction z with
  | zero => rfl
  | succ z ih => rw [List.replicate_succ', valueOf_concat, ih]

/-- Zeros before the digits change nothing. -/
theorem valueOf_zeros_append (z : Nat) (ds : List Nat) : valueOf (List.replicate z 0 ++ ds) = valueOf ds := by
  rw [valueOf_append, valueOf_zeros, Nat.zero_mul, Nat.zero_add]

/-- **The decimal digits of a number are read as the number.** -/
theorem valueOf_digitsOf (n : Nat) : valueOf (digitsOf n) = n := by
  unfold digitsOf
  induction n using Nat.strongRecOn with
  | ind n ih =>
    have hlast := Nat.mod_lt n (show 10 > 0 by decide)
    have hdigit {d : Nat} (hd : d < 10) : (Nat.digitChar d).toNat - 48 = d := by
      rw [Nat.toNat_digitChar_of_lt_ten hd]
      omega
    by_cases hsmall : n < 10
    · rw [Nat.toDigits_of_lt_base hsmall, List.map_singleton, hdigit hsmall]
      show 0 * 10 + n = n
      omega
    · have hdigits := Nat.toDigits_append_toDigits (b := 10) (by decide) (show 0 < n / 10 by omega) hlast
      rw [Nat.div_add_mod, Nat.toDigits_of_lt_base hlast] at hdigits
      rw [← hdigits, List.map_append, List.map_singleton, valueOf_concat, ih (n / 10) (by omega), hdigit hlast]
      omega

/-! ## 2. Digits as they are written -/

/-- A digit is written as it was read. -/
theorem digitChars_digitsOf (n : Nat) : Double.digitChars (digitsOf n) = Nat.toDigits 10 n := by
  unfold Double.digitChars digitsOf
  rw [List.map_map]
  refine (List.map_congr_left fun c hc => ?_).trans (List.map_id _)
  obtain ⟨hlow, _⟩ := Char.isDigit_iff_toNat.mp (Nat.isDigit_of_mem_toDigits (by decide) (by decide) hc)
  have hlow : 48 ≤ c.toNat := hlow
  show Char.ofNat (48 + (c.toNat - 48)) = c
  rw [Nat.add_sub_cancel' hlow, Char.ofNat_toNat]

/-- The zeros that are stripped can be put back. -/
theorem exists_stripZeros_append (ds : List Nat) : ∃ z, ds = stripZeros ds ++ List.replicate z 0 := by
  have hzeros : ds.reverse.takeWhile (· == 0) = List.replicate (ds.reverse.takeWhile (· == 0)).length 0 :=
    List.eq_replicate_of_mem fun d hd => beq_iff_eq.mp (List.all_eq_true.mp List.all_takeWhile d hd)
  have hparts : ds = (ds.reverse.dropWhile (· == 0)).reverse ++ (ds.reverse.takeWhile (· == 0)).reverse := by
    rw [← List.reverse_append, List.takeWhile_append_dropWhile, List.reverse_reverse]
  generalize (ds.reverse.takeWhile (· == 0)).length = z at hzeros
  rw [hzeros, List.reverse_replicate] at hparts
  unfold stripZeros
  split
  · rename_i hnone
    rw [hnone, List.nil_append] at hparts
    refine ⟨z - 1, ?_⟩
    rw [hparts, List.take_replicate, List.replicate_append_replicate]
    congr 1
    omega
  · exact ⟨z, hparts⟩

/-! ## 3. Significant digits -/

/-- Digits, at least one, that do not start with zero. -/
structure Significant (ds : List Nat) : Prop where
  ne_nil : ds ≠ []
  lt : ∀ d ∈ ds, d < 10
  head : ds.head? ≠ some 0

theorem head?_toDigits {n : Nat} (hn : 0 < n) : (Nat.toDigits 10 n).head? ≠ some ('0') := by
  induction n using Nat.strongRecOn with
  | ind n ih =>
    by_cases hlt : n < 10
    · rw [Nat.toDigits_of_lt_base hlt]
      intro h
      have hchar := congrArg Char.toNat (Option.some.inj h)
      rw [Nat.toNat_digitChar_of_lt_ten hlt] at hchar
      have : 48 + n = 48 := hchar
      omega
    · have hbefore := ih (n / 10) (by omega) (by omega)
      rw [List.head?_eq_some_head Nat.toDigits_ne_nil] at hbefore
      rw [Nat.toDigits_of_base_le (by decide) (Nat.le_of_not_lt hlt), List.head?_append,
        List.head?_eq_some_head Nat.toDigits_ne_nil]
      exact hbefore

theorem significant_digitsOf {n : Nat} (hn : 0 < n) : Significant (digitsOf n) where
  ne_nil h := Nat.toDigits_ne_nil (List.map_eq_nil_iff.mp h)
  lt d hd := by
    obtain ⟨c, hc, rfl⟩ := List.mem_map.mp hd
    obtain ⟨hle, hge⟩ := Char.isDigit_iff_toNat.mp (Nat.isDigit_of_mem_toDigits (by decide) (by decide) hc)
    have hge' : c.toNat ≤ 57 := hge
    omega
  head h := by
    unfold digitsOf at h
    rw [List.head?_map] at h
    obtain ⟨c, hc, hval⟩ := Option.map_eq_some_iff.mp h
    have hdigit := Nat.isDigit_of_mem_toDigits (by decide) (by decide) (List.mem_of_head? hc)
    obtain ⟨hle, _⟩ := Char.isDigit_iff_toNat.mp hdigit
    have hle' : 48 ≤ c.toNat := hle
    have hnat : c.toNat = 48 := by omega
    exact head?_toDigits hn (hc.trans (congrArg some (Char.toNat_inj.mp hnat)))

theorem Significant.of_prefix {ds es : List Nat} (h : Significant ds) (hes : es <+: ds) (hne : es ≠ []) :
    Significant es := by
  obtain ⟨more, rfl⟩ := hes
  refine ⟨hne, fun d hd => h.lt d (List.mem_append_left more hd), fun hhead => h.head ?_⟩
  rw [List.head?_append, hhead]
  rfl

theorem Significant.append_zeros {ds : List Nat} (h : Significant ds) (z : Nat) :
    Significant (ds ++ List.replicate z 0) where
  ne_nil hnil := h.ne_nil (List.append_eq_nil_iff.mp hnil).1
  lt := List.forall_mem_append.mpr ⟨h.lt, fun a ha => by rw [List.eq_of_mem_replicate ha]; decide⟩
  head hzero := by
    rw [List.head?_append, List.head?_eq_some_head h.ne_nil, Option.some_or,
      ← List.head?_eq_some_head h.ne_nil] at hzero
    exact h.head hzero

theorem Significant.stripZeros {ds : List Nat} (h : Significant ds) :
    Significant (stripZeros ds) := by
  have hprefix : (ds.reverse.dropWhile (· == 0)).reverse <+: ds := by
    have hsuffix := List.dropWhile_suffix (l := ds.reverse) (· == 0)
    rwa [← List.reverse_prefix, List.reverse_reverse] at hsuffix
  unfold Decimal.stripZeros
  split
  · refine h.of_prefix (List.take_prefix 1 ds) ?_
    rw [Ne, List.take_eq_nil_iff]
    exact fun hnil => hnil.elim (by decide) h.ne_nil
  · rename_i hne
    exact h.of_prefix hprefix fun hnil => hne hnil

/-! ## 4. Bounds and parts -/

variable {ds es : List Nat}

/-- All are decimal digits. -/
def AllDigits (ds : List Nat) : Prop := ∀ d ∈ ds, d < 10

theorem AllDigits.of_append (h : AllDigits (ds ++ es)) : AllDigits ds ∧ AllDigits es :=
  List.forall_mem_append.mp h

theorem AllDigits.take (h : AllDigits ds) (n : Nat) : AllDigits (ds.take n) := fun d hd => h d (List.mem_of_mem_take hd)

theorem AllDigits.drop (h : AllDigits ds) (n : Nat) : AllDigits (ds.drop n) := fun d hd => h d (List.mem_of_mem_drop hd)

theorem allDigits_zeros (z : Nat) : AllDigits (List.replicate z 0) := by
  intro d hd
  rw [List.eq_of_mem_replicate hd]
  decide

theorem valueOf_lt (h : AllDigits ds) : valueOf ds < 10 ^ ds.length := by
  induction ds using List.reverseRecOn with
  | nil => decide
  | append_singleton ds d ih =>
    obtain ⟨hds, hd⟩ := h.of_append
    have hbefore := ih hds
    have hlast : d < 10 := hd d List.mem_cons_self
    rw [valueOf_concat, List.length_append, List.length_singleton, Nat.pow_succ]
    omega

theorem valueOf_take (h : AllDigits ds) (n : Nat) : valueOf (ds.take n) = valueOf ds / 10 ^ (ds.length - n) := by
  have hlow := valueOf_lt (h.drop n)
  rw [List.length_drop] at hlow
  conv_rhs => rw [← List.take_append_drop n ds, valueOf_append, List.take_append_drop, List.length_drop, Nat.mul_comm]
  rw [Nat.mul_add_div (Nat.pow_pos (by decide)), Nat.div_eq_of_lt hlow, Nat.add_zero]

theorem valueOf_drop (h : AllDigits ds) (n : Nat) : valueOf (ds.drop n) = valueOf ds % 10 ^ (ds.length - n) := by
  have hlow := valueOf_lt (h.drop n)
  rw [List.length_drop] at hlow
  conv_rhs => rw [← List.take_append_drop n ds, valueOf_append, List.take_append_drop, List.length_drop, Nat.mul_comm]
  rw [Nat.mul_add_mod, Nat.mod_eq_of_lt hlow]

/-- Digits that do not start with zero are as large as their number says. -/
theorem le_valueOf (h : Significant ds) : 10 ^ (ds.length - 1) ≤ valueOf ds := by
  obtain ⟨hne, -, hhead⟩ := h
  cases ds with
  | nil => exact absurd rfl hne
  | cons d ds =>
    have hd : 0 < d := Nat.pos_of_ne_zero fun hzero => hhead (congrArg some hzero)
    have hparts := valueOf_append [d] ds
    have hfirst : valueOf [d] = d := Nat.zero_add d
    rw [hfirst] at hparts
    calc 10 ^ ds.length ≤ d * 10 ^ ds.length := Nat.le_mul_of_pos_left _ hd
      _ ≤ valueOf (d :: ds) := hparts ▸ Nat.le_add_right _ _

/-! ## 5. The digits of a number -/

/-- Equally many digits that spell the same number are the same digits. -/
theorem eq_of_valueOf_eq (hds : AllDigits ds) (hes : AllDigits es) (hlength : ds.length = es.length)
    (hvalue : valueOf ds = valueOf es) : ds = es := by
  induction ds using List.reverseRecOn generalizing es with
  | nil => exact (List.length_eq_zero_iff.mp hlength.symm).symm
  | append_singleton ds d ih =>
    cases es using List.reverseRecOn with
    | nil => simp at hlength
    | append_singleton es e =>
      obtain ⟨hds, hd⟩ := hds.of_append
      obtain ⟨hes, he⟩ := hes.of_append
      have hd : d < 10 := hd d List.mem_cons_self
      have he : e < 10 := he e List.mem_cons_self
      rw [valueOf_concat, valueOf_concat] at hvalue
      rw [List.length_append, List.length_append] at hlength
      have hlast : d = e := by omega
      rw [ih hds hes (by simpa using hlength) (by omega), hlast]

theorem allDigits_digitsOf (n : Nat) : AllDigits (digitsOf n) := by
  by_cases hn : n = 0
  · subst hn
    exact allDigits_zeros 1
  · exact (significant_digitsOf (Nat.pos_of_ne_zero hn)).lt

/-- Digits that do not start with zero are as many as the powers of ten around their number say. -/
theorem length_eq_of_bounds {k : Nat} (hds : Significant ds) (hlow : 10 ^ k ≤ valueOf ds)
    (hhigh : valueOf ds < 10 ^ (k + 1)) : ds.length = k + 1 := by
  have hle := le_valueOf hds
  have hlt := valueOf_lt hds.lt
  have hpos : 0 < ds.length := List.length_pos_iff.mpr hds.ne_nil
  have h₁ := (Nat.pow_lt_pow_iff_right (a := 10) (by decide)).mp (Nat.lt_of_le_of_lt hlow hlt)
  have h₂ := (Nat.pow_lt_pow_iff_right (a := 10) (by decide)).mp (Nat.lt_of_le_of_lt hle hhigh)
  omega

/-- **Digits that do not start with zero are the digits of what they spell.** -/
theorem digitsOf_valueOf (h : Significant ds) : digitsOf (valueOf ds) = ds := by
  have hpos : 0 < valueOf ds := Nat.lt_of_lt_of_le (Nat.pow_pos (by decide)) (le_valueOf h)
  have hdigits := significant_digitsOf hpos
  have hlength : ds.length = ds.length - 1 + 1 := by
    have := List.length_pos_iff.mpr h.ne_nil
    omega
  refine eq_of_valueOf_eq hdigits.lt h.lt (Eq.trans ?_ hlength.symm) (valueOf_digitsOf _)
  refine length_eq_of_bounds hdigits ?_ ?_
  · rw [valueOf_digitsOf]
    exact le_valueOf h
  · rw [valueOf_digitsOf, ← hlength]
    exact valueOf_lt h.lt

end Decimal

end Ecma51
