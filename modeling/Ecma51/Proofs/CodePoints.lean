import Mathlib.Algebra.Order.Ring.Nat
import Ecma51.Proofs.UriEscapes

/-!
# Code points as octets and as units

Octets are read as a code point exactly if they are what is written for a scalar value, and units at a place of a text
exactly if they spell one there, whatever stands before and behind them. Both conversions are given by masks and shifts
of 32-bit words as well, which are the quotients and remainders of numbers.

* `Utf8.encodeWord`, `Utf8.decodeWord?`: octets by words; `Utf8.encodeWord_eq`, `Utf8.decodeWord?_eq`.
* `Text.unitsOfWord`, `Text.codePointWordAt?`: units by words; `Text.unitsOfWord_eq`, `Text.codePointWordAt?_eq`.
* **`Text.codePointAt_iff`**: where a scalar value is read in a text.
* **`codePoints_exact`**: all of this together.
-/

namespace Ecma51

/-! ## 1. Octets by words -/

namespace Utf8

/-- The octet that continues a sequence with the last six bits of a word. -/
def continuationOf (w : UInt32) : UInt8 := (0x80 : UInt8) ||| (w &&& 0x3F).toUInt8

/-- The octets of a code point, by masks and shifts. -/
def encodeWord (cp : UInt32) : List UInt8 :=
  if cp < 0x80 then [cp.toUInt8]
  else if cp < 0x800 then [(0xC0 : UInt8) ||| (cp >>> 6).toUInt8, continuationOf cp]
  else if cp < 0x10000 then
    [(0xE0 : UInt8) ||| (cp >>> 12).toUInt8, continuationOf (cp >>> 6), continuationOf cp]
  else
    [(0xF0 : UInt8) ||| (cp >>> 18).toUInt8, continuationOf (cp >>> 12), continuationOf (cp >>> 6), continuationOf cp]

/-- The word that continuing octets make of the one before them; `none` if an octet does not continue a sequence. -/
def continueWord? : UInt32 → List UInt8 → Option UInt32
  | cp, [] => some cp
  | cp, b :: bs =>
    if isContinuation b then continueWord? ((cp <<< 6) ||| (b &&& 0x3F).toUInt32) bs else none

/-- The least code point that needs as many octets, of those that need more than one. -/
def leastWord (n : Nat) : UInt32 := if n = 2 then 0x80 else if n = 3 then 0x800 else 0x10000

/-- The code point of one complete sequence, by masks and shifts. -/
def decodeWord? : List UInt8 → Option UInt32
  | [] => none
  | lead :: rest =>
    let n := rest.length + 1
    if sequenceLength? lead ≠ some n then none
    else if n = 1 then some lead.toUInt32
    else
      match continueWord? (lead.toUInt32 &&& (0x7F >>> n.toUInt32)) rest with
      | none => none
      | some cp =>
        if cp < leastWord n ∨ 0x10FFFF < cp ∨ (0xD800 ≤ cp ∧ cp ≤ 0xDFFF) then none else some cp

theorem toUInt8_shiftRight (cp k : UInt32) (hk : k.toNat < 32) :
    (cp >>> k).toUInt8 = (cp.toNat / 2 ^ k.toNat).toUInt8 := by
  apply UInt8.toNat_inj.mp
  rw [UInt32.toNat_toUInt8, UInt32.toNat_shiftRight, Nat.mod_eq_of_lt hk, Nat.shiftRight_eq_div_pow]
  rfl

theorem continuationOf_eq (w : UInt32) : continuationOf w = (0x80 : UInt8) ||| (w.toNat % 0x40).toUInt8 := by
  unfold continuationOf
  congr 1
  apply UInt8.toNat_inj.mp
  rw [UInt32.toNat_toUInt8, UInt32.toNat_and]
  show (w.toNat &&& 2 ^ 6 - 1) % 256 = _
  rw [Nat.and_two_pow_sub_one_eq_mod]
  rfl

theorem continuationOf_shiftRight (cp k : UInt32) (hk : k.toNat < 32) :
    continuationOf (cp >>> k) = (0x80 : UInt8) ||| (cp.toNat / 2 ^ k.toNat % 0x40).toUInt8 := by
  rw [continuationOf_eq, UInt32.toNat_shiftRight, Nat.mod_eq_of_lt hk, Nat.shiftRight_eq_div_pow]

/-- **The octets of a word are those of its number.** -/
theorem encodeWord_eq (cp : UInt32) : encodeWord cp = encode cp.toNat := by
  have hcases {α : Type} (k : UInt32) {x y x' y' : α} (hx : x = x') (hy : y = y') :
      (if cp < k then x else y) = if cp.toNat < k.toNat then x' else y' :=
    ite_congr (propext UInt32.lt_iff_toNat_lt) (fun _ => hx) fun _ => hy
  refine hcases 0x80 rfl (hcases 0x800 ?_ (hcases 0x10000 ?_ ?_))
  · rw [toUInt8_shiftRight cp 6 (by decide), continuationOf_eq]
    rfl
  · rw [toUInt8_shiftRight cp 12 (by decide), continuationOf_shiftRight cp 6 (by decide), continuationOf_eq]
    rfl
  · rw [toUInt8_shiftRight cp 18 (by decide), continuationOf_shiftRight cp 12 (by decide),
      continuationOf_shiftRight cp 6 (by decide), continuationOf_eq]
    rfl

/-- One more octet, appended to a word that has room for it. -/
theorem toNat_append (cp : UInt32) (b : UInt8) (h : cp.toNat < 2 ^ 26) :
    ((cp <<< 6) ||| (b &&& 0x3F).toUInt32).toNat = cp.toNat * 0x40 + b.toNat % 0x40 := by
  have hpayload : (b &&& 0x3F).toUInt32.toNat = b.toNat % 2 ^ 6 := by
    rw [UInt8.toNat_toUInt32, UInt8.toNat_and]
    exact Nat.and_two_pow_sub_one_eq_mod _ 6
  have hshift : (cp <<< 6).toNat = cp.toNat <<< 6 := by
    rw [UInt32.toNat_shiftLeft]
    show cp.toNat <<< 6 % 2 ^ 32 = _
    rw [Nat.mod_eq_of_lt]
    rw [Nat.shiftLeft_eq]
    omega
  rw [UInt32.toNat_or, hshift, hpayload, ← Nat.shiftLeft_add_eq_or_of_lt (Nat.mod_lt _ (by decide)), Nat.shiftLeft_eq]

/-- What continuing octets append. -/
def appended (v : Nat) (rest : List UInt8) : Nat := rest.foldl (fun acc b => acc * 0x40 + b.toNat % 0x40) v

theorem appended_lt (v : Nat) (rest : List UInt8) : appended v rest < (v + 1) * 0x40 ^ rest.length := by
  induction rest generalizing v with
  | nil => exact Nat.lt_of_lt_of_le (Nat.lt_succ_self v) (Nat.le_of_eq (Nat.mul_one _).symm)
  | cons b bs ih =>
    have hdigit : b.toNat % 0x40 < 0x40 := Nat.mod_lt _ (by decide)
    calc appended (v * 0x40 + b.toNat % 0x40) bs
        < (v * 0x40 + b.toNat % 0x40 + 1) * 0x40 ^ bs.length := ih _
      _ ≤ (v + 1) * 0x40 * 0x40 ^ bs.length := Nat.mul_le_mul_right _ (by omega)
      _ = (v + 1) * 0x40 ^ (b :: bs).length := by
        rw [List.length_cons, Nat.pow_succ, Nat.mul_assoc, Nat.mul_comm 0x40]

/-- As long as there is room, nothing is shifted out. -/
theorem continueWord?_eq {cp : UInt32} {rest : List UInt8} (h : (cp.toNat + 1) * 0x40 ^ rest.length ≤ 2 ^ 32) :
    continueWord? cp rest = if rest.all isContinuation then some (appended cp.toNat rest).toUInt32 else none := by
  induction rest generalizing cp with
  | nil => exact congrArg some UInt32.ofNat_toNat.symm
  | cons b bs ih =>
    rw [List.length_cons, Nat.pow_succ] at h
    have hpow : 1 ≤ 0x40 ^ bs.length := Nat.one_le_pow _ _ (by decide)
    have hroom : (cp.toNat + 1) * 0x40 ≤ 2 ^ 32 :=
      calc (cp.toNat + 1) * 0x40 ≤ (cp.toNat + 1) * (0x40 ^ bs.length * 0x40) :=
            Nat.mul_le_mul_left _ (Nat.le_mul_of_pos_left _ hpow)
        _ ≤ 2 ^ 32 := h
    have hvalue := toNat_append cp b (by omega)
    have hdigit : b.toNat % 0x40 < 0x40 := Nat.mod_lt _ (by decide)
    rw [continueWord?, List.all_cons]
    cases isContinuation b with
    | false => rfl
    | true =>
      rw [if_pos rfl, Bool.true_and, ih, hvalue]
      · rfl
      · calc (_ + 1) * 0x40 ^ bs.length ≤ (cp.toNat + 1) * 0x40 * 0x40 ^ bs.length := by
              rw [hvalue]
              exact Nat.mul_le_mul_right _ (by omega)
          _ ≤ 2 ^ 32 := by rwa [Nat.mul_assoc, Nat.mul_comm 0x40]

/-- The payload of a lead octet is masked out of it. -/
theorem leadPayload_eq (lead : UInt8) {n : Nat} (h : n = 2 ∨ n = 3 ∨ n = 4) :
    (lead.toUInt32 &&& (0x7F >>> n.toUInt32)).toNat = leadPayload n lead ∧ leadPayload n lead < 2 ^ 5 := by
  have hmask (k : Nat) : lead.toNat &&& 2 ^ k - 1 = lead.toNat % 2 ^ k := Nat.and_two_pow_sub_one_eq_mod _ k
  rw [UInt32.toNat_and, UInt8.toNat_toUInt32]
  rcases h with rfl | rfl | rfl
  · exact ⟨hmask 5, Nat.mod_lt _ (by decide)⟩
  · exact ⟨hmask 4, Nat.lt_trans (Nat.mod_lt _ (by decide)) (by decide)⟩
  · exact ⟨hmask 3, Nat.lt_trans (Nat.mod_lt _ (by decide)) (by decide)⟩

/-- The words that are refused are those of numbers that are no scalar values, or need fewer octets. -/
theorem refused_iff {v n : Nat} (hv : v < 2 ^ 32) (h : n = 2 ∨ n = 3 ∨ n = 4) :
    (v.toUInt32 < leastWord n ∨ 0x10FFFF < v.toUInt32 ∨ (0xD800 ≤ v.toUInt32 ∧ v.toUInt32 ≤ 0xDFFF)) ↔
      ¬ (leastOfLength n ≤ v && isScalarValue v) = true := by
  have hword : v.toUInt32.toNat = v := UInt32.toNat_ofNat_of_lt' hv
  have hleast : (leastWord n).toNat = leastOfLength n := by rcases h with rfl | rfl | rfl <;> rfl
  rw [UInt32.lt_iff_toNat_lt, UInt32.lt_iff_toNat_lt, UInt32.le_iff_toNat_le, UInt32.le_iff_toNat_le, hword, hleast,
    Bool.and_eq_true, decide_eq_true_iff, isScalarValue_iff]
  show v < leastOfLength n ∨ 0x10FFFF < v ∨ (0xD800 ≤ v ∧ v ≤ 0xDFFF) ↔ _
  omega

/-- What is read of octets, by their number and payload. -/
theorem decode?_eq_ite (lead : UInt8) (rest : List UInt8) :
    decode? (lead :: rest) =
      if sequenceLength? lead = some (rest.length + 1) ∧ rest.all isContinuation = true then
        let v := appended (leadPayload (rest.length + 1) lead) rest
        if (leastOfLength (rest.length + 1) ≤ v && isScalarValue v) = true then some v else none
      else none := by
  rw [decode?]
  exact ite_congr (propext (by rw [Bool.and_eq_true, beq_iff_eq])) (fun _ => rfl) fun _ => rfl

/-- **Octets are read by words as by numbers.** -/
theorem decodeWord?_eq (bytes : List UInt8) : decodeWord? bytes = (decode? bytes).map Nat.toUInt32 := by
  cases bytes with
  | nil => rfl
  | cons lead rest =>
    rw [decodeWord?, decode?_eq_ite]
    dsimp only
    by_cases hlength : sequenceLength? lead = some (rest.length + 1)
    · have hfour := sequenceLength?_le lead _ hlength
      rw [if_neg (not_not_intro hlength)]
      by_cases hone : rest.length + 1 = 1
      · -- a single octet is its own code point
        obtain rfl := List.eq_nil_of_length_eq_zero (Nat.succ.inj hone)
        have hsmall := lead_of_one lead hlength
        have hscalar : isScalarValue lead.toNat = true := isScalarValue_iff.mpr (by omega)
        have hgood : (leastOfLength 1 ≤ lead.toNat && isScalarValue lead.toNat) = true := by
          rw [hscalar]
          rfl
        rw [if_pos hone, if_pos ⟨hlength, rfl⟩]
        refine Eq.trans ?_ (congrArg (Option.map Nat.toUInt32) (if_pos hgood)).symm
        refine congrArg some (UInt32.toNat_inj.mp ?_)
        rw [UInt8.toNat_toUInt32]
        exact (UInt32.toNat_ofNat_of_lt' (Nat.lt_trans hsmall (by decide))).symm
      · have hn : rest.length + 1 = 2 ∨ rest.length + 1 = 3 ∨ rest.length + 1 = 4 := by omega
        obtain ⟨hpayload, hpayloadLt⟩ := leadPayload_eq lead hn
        generalize lead.toUInt32 &&& (0x7F >>> (rest.length + 1).toUInt32) = cp at hpayload
        have hroom : (cp.toNat + 1) * 0x40 ^ rest.length ≤ 2 ^ 32 :=
          calc (cp.toNat + 1) * 0x40 ^ rest.length ≤ 2 ^ 5 * 0x40 ^ 3 :=
                Nat.mul_le_mul (by omega) (Nat.pow_le_pow_right (by decide) (by omega))
            _ ≤ 2 ^ 32 := by decide
        have hvalue := Nat.lt_of_lt_of_le (appended_lt cp.toNat rest) hroom
        have hrefused := refused_iff hvalue hn
        rw [if_neg hone, continueWord?_eq hroom, ← hpayload]
        generalize appended cp.toNat rest = v at hrefused ⊢
        by_cases hall : rest.all isContinuation = true
        · rw [if_pos hall, if_pos ⟨hlength, hall⟩]
          dsimp only
          by_cases hgood : (leastOfLength (rest.length + 1) ≤ v && isScalarValue v) = true
          · rw [if_neg (fun h => hrefused.mp h hgood), if_pos hgood]
            rfl
          · rw [if_pos (hrefused.mpr hgood), if_neg hgood]
            rfl
        · rw [if_neg hall, if_neg (fun h => hall h.2)]
          rfl
    · rw [if_pos hlength, if_neg (fun h => hlength h.1)]
      rfl

end Utf8

/-! ## 2. Units by words -/

namespace Text

/-- The units of a code point, by masks and shifts. -/
def unitsOfWord (cp : UInt32) : List CodeUnit :=
  if cp < 0x10000 then [cp.toUInt16]
  else
    let v := cp - 0x10000
    [(0xD800 : UInt16) + (v >>> 10).toUInt16, (0xDC00 : UInt16) + (v &&& 0x3FF).toUInt16]

/-- The word of a surrogate pair. -/
def pairWord (high low : CodeUnit) : UInt32 :=
  (0x10000 : UInt32) + ((high.toUInt32 - 0xD800) <<< 10) + (low.toUInt32 - 0xDC00)

/-- The code point that starts at a position, by words. -/
def codePointWordAt? (t : Text) (i : Nat) : Option (UInt32 × Nat) :=
  match t.get? i, t.get? (i + 1) with
  | none, _ => none
  | some first, none => some (first.toUInt32, 1)
  | some first, some second =>
    if first.isHighSurrogate && second.isLowSurrogate then some (pairWord first second, 2)
    else some (first.toUInt32, 1)

/-- **The units of a word are those of its number.** -/
theorem unitsOfWord_eq (cp : UInt32) : unitsOfWord cp = unitsOfCodePoint cp.toNat := by
  unfold unitsOfWord unitsOfCodePoint
  by_cases h : cp.toNat < 0x10000
  · rw [if_pos (UInt32.lt_iff_toNat_lt.mpr h), if_pos h]
    exact congrArg (· :: []) (UInt16.toNat_inj.mp (UInt32.toNat_toUInt16 cp))
  · have hsub : (cp - 0x10000).toNat = cp.toNat - 0x10000 :=
      UInt32.toNat_sub_of_le _ _ (UInt32.le_iff_toNat_le.mpr (Nat.not_lt.mp h))
    have hten : (10 : UInt32).toNat % 32 = 10 := by decide
    have hmask : (0x3FF : UInt32).toNat = 2 ^ 10 - 1 := by decide
    have hhigh : ((cp - 0x10000) >>> 10).toUInt16 = ((cp.toNat - 0x10000) / 0x400).toUInt16 := by
      apply UInt16.toNat_inj.mp
      rw [UInt32.toNat_toUInt16, UInt32.toNat_shiftRight, hsub, hten, Nat.shiftRight_eq_div_pow, Nat.toUInt16_eq,
        UInt16.toNat_ofNat']
    have hlow : ((cp - 0x10000) &&& 0x3FF).toUInt16 = ((cp.toNat - 0x10000) % 0x400).toUInt16 := by
      apply UInt16.toNat_inj.mp
      rw [UInt32.toNat_toUInt16, UInt32.toNat_and, hsub, hmask, Nat.and_two_pow_sub_one_eq_mod, Nat.toUInt16_eq,
        UInt16.toNat_ofNat']
    rw [if_neg (fun h' => h (UInt32.lt_iff_toNat_lt.mp h')), if_neg h]
    dsimp only
    rw [hhigh, hlow]

/-- The word of a pair is its code point. -/
theorem toNat_pairWord {high low : CodeUnit} (hhigh : high.isHighSurrogate = true) (hlow : low.isLowSurrogate = true) :
    (pairWord high low).toNat = pairCodePoint high low := by
  have hhigh := isHighSurrogate_iff.mp hhigh
  have hlow := isLowSurrogate_iff.mp hlow
  have hfirst : (high.toUInt32 - 0xD800).toNat = high.toNat - 0xD800 :=
    UInt32.toNat_sub_of_le _ _ (UInt32.le_iff_toNat_le.mpr (by rw [UInt16.toNat_toUInt32]; exact hhigh.1))
  have hsecond : (low.toUInt32 - 0xDC00).toNat = low.toNat - 0xDC00 :=
    UInt32.toNat_sub_of_le _ _ (UInt32.le_iff_toNat_le.mpr (by rw [UInt16.toNat_toUInt32]; exact hlow.1))
  have hshift : ((high.toUInt32 - 0xD800) <<< 10).toNat = (high.toNat - 0xD800) * 0x400 := by
    rw [UInt32.toNat_shiftLeft, hfirst]
    show (high.toNat - 0xD800) <<< 10 % 2 ^ 32 = _
    rw [Nat.shiftLeft_eq, Nat.mod_eq_of_lt (by omega)]
  unfold pairWord pairCodePoint
  rw [UInt32.toNat_add, UInt32.toNat_add, hshift, hsecond]
  show ((0x10000 + (high.toNat - 0xD800) * 0x400) % 2 ^ 32 + (low.toNat - 0xDC00)) % 2 ^ 32 = _
  omega

theorem toUInt32_eq (u : CodeUnit) : u.toUInt32 = u.toNat.toUInt32 := by
  apply UInt32.toNat_inj.mp
  rw [UInt16.toNat_toUInt32, Nat.toUInt32_eq, UInt32.toNat_ofNat_of_lt' (Nat.lt_trans u.toNat_lt (by decide))]

/-- **Code points are read by words as by numbers.** -/
theorem codePointWordAt?_eq (t : Text) (i : Nat) :
    codePointWordAt? t i = (t.codePointAt i).map fun p => (p.1.toUInt32, p.2) := by
  unfold codePointWordAt? codePointAt
  cases hfirst : t.get? i with
  | none => rfl
  | some u =>
    cases hsecond : t.get? (i + 1) with
    | none => exact congrArg (fun w => some (w, 1)) (toUInt32_eq u)
    | some v =>
      show (if (u.isHighSurrogate && v.isLowSurrogate) = true then some (pairWord u v, 2) else some (u.toUInt32, 1)) =
        some (((if (u.isHighSurrogate && v.isLowSurrogate) = true then (pairCodePoint u v, 2)
          else (u.toNat, 1)).1.toUInt32), (if (u.isHighSurrogate && v.isLowSurrogate) = true then (pairCodePoint u v, 2)
          else (u.toNat, 1)).2)
      by_cases hpair : (u.isHighSurrogate && v.isLowSurrogate) = true
      · obtain ⟨hu, hv⟩ := (Bool.and_eq_true _ _).mp hpair
        rw [if_pos hpair, if_pos hpair, ← toNat_pairWord hu hv]
        exact congrArg (fun w => some (w, 2)) UInt32.ofNat_toNat.symm
      · rw [if_neg hpair, if_neg hpair, toUInt32_eq]

/-! ## 3. Where a code point stands -/

/-- Units stand in a text from a place on. -/
def StandsAt (t : Text) (i : Nat) (us : List CodeUnit) : Prop :=
  ∃ before after, t.toList = before ++ us ++ after ∧ before.length = i

/-- What the units of a scalar value are: one that is no surrogate, or a pair. -/
theorem unitsOfCodePoint_cases {cp : Nat} (h : Utf8.isScalarValue cp = true) :
    (∃ u : CodeUnit, unitsOfCodePoint cp = [u] ∧ u.toNat = cp ∧ u.isSurrogate = false) ∨
    ∃ u v : CodeUnit, unitsOfCodePoint cp = [u, v] ∧ u.isHighSurrogate = true ∧ v.isLowSurrogate = true ∧
      pairCodePoint u v = cp := by
  rw [Utf8.isScalarValue_iff] at h
  have hunit {n : Nat} (hn : n < 0x10000) : (n.toUInt16).toNat = n := UInt16.toNat_ofNat_of_lt' hn
  unfold unitsOfCodePoint
  by_cases hsize : cp < 0x10000
  · rw [if_pos hsize]
    refine .inl ⟨_, rfl, hunit hsize, Bool.eq_false_iff.mpr fun hsurrogate => ?_⟩
    have := isSurrogate_iff.mp hsurrogate
    rw [hunit hsize] at this
    omega
  · rw [if_neg hsize]
    have hhigh : (0xD800 + ((cp - 0x10000) / 0x400).toUInt16 : CodeUnit).toNat = 0xD800 + (cp - 0x10000) / 0x400 := by
      rw [UInt16.toNat_add, hunit (by omega)]
      exact Nat.mod_eq_of_lt (show 0xD800 + _ < 0x10000 by omega)
    have hlow : (0xDC00 + ((cp - 0x10000) % 0x400).toUInt16 : CodeUnit).toNat = 0xDC00 + (cp - 0x10000) % 0x400 := by
      rw [UInt16.toNat_add, hunit (by omega)]
      exact Nat.mod_eq_of_lt (show 0xDC00 + _ < 0x10000 by omega)
    refine .inr ⟨_, _, rfl, isHighSurrogate_iff.mpr ?_, isLowSurrogate_iff.mpr ?_, ?_⟩
    · rw [hhigh]
      omega
    · rw [hlow]
      omega
    · unfold pairCodePoint
      rw [hhigh, hlow]
      omega

/-- What is read at a place depends on the units from there on. -/
theorem codePointAt_split {t : Text} {before rest : List CodeUnit} {u : CodeUnit}
    (h : t.toList = before ++ u :: rest) : t.codePointAt before.length = some (headCodePoint u rest) := by
  have hget (i : Nat) : t.get? i = (before ++ u :: rest)[i]? := by
    rw [← h]
    exact Array.getElem?_toList.symm
  have hnext : headCodePoint u ((u :: rest)[1]?).toList = headCodePoint u rest := by
    cases rest <;> rfl
  unfold codePointAt
  rw [hget, hget, List.getElem?_append_right (Nat.le_refl _), List.getElem?_append_right (Nat.le_add_right _ 1),
    Nat.sub_self, Nat.add_sub_cancel_left, ← hnext]
  rfl

/-- **A scalar value is read at a place exactly if its units stand there**, and it is as wide as they are. -/
theorem codePointAt_iff {t : Text} {i cp width : Nat} :
    t.codePointAt i = some (cp, width) ∧ Utf8.isScalarValue cp = true ↔
      Utf8.isScalarValue cp = true ∧ StandsAt t i (unitsOfCodePoint cp) ∧ width = (unitsOfCodePoint cp).length := by
  constructor
  · rintro ⟨hread, hscalar⟩
    obtain ⟨u, hu, -⟩ := Option.map_eq_some_iff.mp hread
    obtain ⟨hi, hget⟩ := List.getElem?_eq_some_iff.mp (Array.getElem?_toList.trans hu)
    have hdrop : t.toList.drop i = u :: t.toList.drop (i + 1) :=
      (List.drop_eq_getElem_cons hi).trans (congrArg (· :: _) hget)
    have hsplit : t.toList = t.toList.take i ++ u :: t.toList.drop (i + 1) := by
      rw [← hdrop, List.take_append_drop]
    have hlength : (t.toList.take i).length = i := List.length_take_of_le (Nat.le_of_lt hi)
    have hhead := codePointAt_split hsplit
    rw [hlength, hread] at hhead
    refine ⟨hscalar, ?_⟩
    rcases headCodePoint_cases u (t.toList.drop (i + 1)) with
      ⟨hsurrogate, hcp, -⟩ | ⟨-, hcp⟩ | ⟨v, rest, hrest, hhigh, hlow, hcp⟩
    · obtain ⟨rfl, rfl⟩ := Prod.mk.inj (Option.some.inj (hhead.trans (congrArg some hcp)))
      exact absurd (isSurrogate_iff.mp hsurrogate) (Utf8.isScalarValue_iff.mp hscalar).2
    · obtain ⟨rfl, rfl⟩ := Prod.mk.inj (Option.some.inj (hhead.trans (congrArg some hcp)))
      rw [unitsOfCodePoint_toNat]
      exact ⟨⟨_, _, hsplit.trans (by rw [List.append_assoc]; rfl), hlength⟩, rfl⟩
    · obtain ⟨hvalue, hwidth⟩ := Prod.mk.inj (Option.some.inj (hhead.trans (congrArg some hcp)))
      rw [hvalue, hwidth, unitsOfCodePoint_pair hhigh hlow]
      rw [hrest] at hsplit
      exact ⟨⟨_, rest, hsplit.trans (by rw [List.append_assoc]; rfl), hlength⟩, rfl⟩
  · rintro ⟨hscalar, ⟨before, after, ht, rfl⟩, rfl⟩
    refine ⟨?_, hscalar⟩
    rw [List.append_assoc] at ht
    rcases unitsOfCodePoint_cases hscalar with ⟨u, hunits, rfl, hplain⟩ | ⟨u, v, hunits, hhigh, hlow, rfl⟩
    · rw [hunits] at ht ⊢
      have hread : t.codePointAt before.length = some (headCodePoint u after) := codePointAt_split ht
      rw [hread]
      rcases headCodePoint_cases u after with ⟨hsurrogate, -⟩ | ⟨-, hhead⟩ | ⟨v, rest, -, hhigh, -⟩
      · rw [hplain] at hsurrogate
        cases hsurrogate
      · exact congrArg some hhead
      · have hbounds := isHighSurrogate_iff.mp hhigh
        rw [isSurrogate_iff.mpr (by omega)] at hplain
        cases hplain
    · rw [hunits] at ht ⊢
      have hread : t.codePointAt before.length = some (headCodePoint u (v :: after)) := codePointAt_split ht
      rw [hread, headCodePoint, hhigh, hlow]
      rfl

end Text

/-- **Code points as octets and as units.** Octets are read as a code point exactly if it is a scalar value and they are
written for it, so exactly the octets of scalar values are accepted; a scalar value is read at a place of a text exactly
if its units stand there; and masks and shifts of words do the same. -/
theorem codePoints_exact :
    (∀ bs cp, Utf8.decode? bs = some cp ↔ Utf8.isScalarValue cp = true ∧ bs = Utf8.encode cp) ∧
    (∀ bs, (Utf8.decode? bs).isSome = true ↔ ∃ cp, Utf8.isScalarValue cp = true ∧ bs = Utf8.encode cp) ∧
    (∀ t : Text, ∀ i cp width, t.codePointAt i = some (cp, width) ∧ Utf8.isScalarValue cp = true ↔
      Utf8.isScalarValue cp = true ∧ t.StandsAt i (Text.unitsOfCodePoint cp) ∧
        width = (Text.unitsOfCodePoint cp).length) ∧
    (∀ cp, Utf8.encodeWord cp = Utf8.encode cp.toNat ∧ Text.unitsOfWord cp = Text.unitsOfCodePoint cp.toNat) ∧
    (∀ bs, Utf8.decodeWord? bs = (Utf8.decode? bs).map Nat.toUInt32) ∧
    ∀ t : Text, ∀ i, t.codePointWordAt? i = (t.codePointAt i).map fun p => (p.1.toUInt32, p.2) := by
  refine ⟨fun bs cp => Utf8.decode?_eq_some_iff, fun bs => ?_, fun t i cp width => Text.codePointAt_iff,
    fun cp => ⟨Utf8.encodeWord_eq cp, Text.unitsOfWord_eq cp⟩, Utf8.decodeWord?_eq, Text.codePointWordAt?_eq⟩
  rw [Option.isSome_iff_exists]
  exact exists_congr fun cp => Utf8.decode?_eq_some_iff

end Ecma51
