import Ecma51.Text.Uri

/-!
# Runs of escapes

A character is spelled by the octets of its scalar value, each escaped as a percent sign and two digits in either
case. No other way to spell it is read: the octets are the shortest ones, all of them, and nothing stands between.

* `Utf8.decode?_encode`: the octets of a scalar value are read back.
* **`Utf8.decode?_eq_some_iff`**: and no others are read as it.
* `Uri.Spells`: a run of escapes that spells a scalar value.
* **`Uri.escapedCodePoint?_eq_some_iff`**: a character is read where such a run stands, whatever follows.
* `Uri.decodeUnits?_run`: how units are read behind one.
-/

namespace Ecma51

/-! ## 1. Octets -/

namespace Utf8

theorem single_facts : ∀ n < 0x80, sequenceLength? n.toUInt8 = some 1 ∧ n.toUInt8.toNat = n := by
  decide

theorem leadOfTwo_facts : ∀ n < 0x20, sequenceLength? (0xC0 ||| n.toUInt8) = some 2 ∧
    (0xC0 ||| n.toUInt8).toNat % 0x20 = n := by decide

theorem leadOfThree_facts : ∀ n < 0x10, sequenceLength? (0xE0 ||| n.toUInt8) = some 3 ∧
    (0xE0 ||| n.toUInt8).toNat % 0x10 = n := by decide

theorem leadOfFour_facts : ∀ n < 0x08, sequenceLength? (0xF0 ||| n.toUInt8) = some 4 ∧
    (0xF0 ||| n.toUInt8).toNat % 0x08 = n := by decide

theorem continuation_facts : ∀ n < 0x40, isContinuation (0x80 ||| n.toUInt8) = true ∧
    (0x80 ||| n.toUInt8).toNat % 0x40 = n := by decide

/-- A sequence is read when its length is right, all but the lead octet continue it, and its value is a
scalar value that needs so many octets. -/
theorem decode?_cons {lead : UInt8} {rest : List UInt8} {cp : Nat}
    (hlength : sequenceLength? lead = some (rest.length + 1))
    (hrest : ∀ b ∈ rest, isContinuation b = true)
    (hvalue : rest.foldl (fun acc b => acc * 0x40 + b.toNat % 0x40)
      (leadPayload (rest.length + 1) lead) = cp)
    (hleast : leastOfLength (rest.length + 1) ≤ cp) (hscalar : isScalarValue cp = true) :
    decode? (lead :: rest) = some cp := by
  have hall : rest.all isContinuation = true := List.all_eq_true.mpr hrest
  have hsequence : (sequenceLength? lead == some (rest.length + 1) && rest.all isContinuation) = true := by
    rw [hlength, hall, beq_self_eq_true]
    rfl
  rw [decode?, if_pos hsequence]
  dsimp only
  rw [hvalue, if_pos (by rw [hscalar, decide_eq_true hleast]; rfl)]

theorem isScalarValue_iff {cp : Nat} :
    isScalarValue cp = true ↔ cp ≤ 0x10FFFF ∧ ¬ (0xD800 ≤ cp ∧ cp ≤ 0xDFFF) := by
  unfold isScalarValue
  rw [Bool.and_eq_true, Bool.not_eq_true', Bool.and_eq_false_iff, decide_eq_true_iff, decide_eq_false_iff_not,
    decide_eq_false_iff_not]
  omega

/-- **The octets of a scalar value are read back.** -/
theorem decode?_encode {cp : Nat} (h : isScalarValue cp = true) : decode? (encode cp) = some cp := by
  have hrange : cp ≤ 0x10FFFF := (isScalarValue_iff.mp h).1
  obtain ⟨hlast, hlastValue⟩ := continuation_facts (cp % 0x40) (Nat.mod_lt _ (by decide))
  obtain ⟨hmiddle, hmiddleValue⟩ := continuation_facts (cp / 0x40 % 0x40) (Nat.mod_lt _ (by decide))
  obtain ⟨hsecond, hsecondValue⟩ := continuation_facts (cp / 0x1000 % 0x40) (Nat.mod_lt _ (by decide))
  unfold encode
  split
  · rename_i hsize
    obtain ⟨hlength, hvalue⟩ := single_facts cp hsize
    exact decode?_cons hlength (by simp) hvalue (Nat.zero_le _) h
  split
  · rename_i _ hsize
    obtain ⟨hlength, hvalue⟩ := leadOfTwo_facts (cp / 0x40) (by omega)
    refine decode?_cons hlength (by simp [hlast]) ?_ (show 0x80 ≤ cp by omega) h
    show (0xC0 ||| (cp / 0x40).toUInt8).toNat % 0x20 * 0x40 + _ = cp
    rw [hvalue, hlastValue]
    omega
  split
  · rename_i _ _ hsize
    obtain ⟨hlength, hvalue⟩ := leadOfThree_facts (cp / 0x1000) (by omega)
    refine decode?_cons hlength (by simp [hmiddle, hlast]) ?_ (show 0x800 ≤ cp by omega) h
    show ((0xE0 ||| (cp / 0x1000).toUInt8).toNat % 0x10 * 0x40 + _) * 0x40 + _ = cp
    rw [hvalue, hmiddleValue, hlastValue]
    omega
  · obtain ⟨hlength, hvalue⟩ := leadOfFour_facts (cp / 0x40000) (by omega)
    refine decode?_cons hlength (by simp [hsecond, hmiddle, hlast]) ?_ (show 0x10000 ≤ cp by omega) h
    show (((0xF0 ||| (cp / 0x40000).toUInt8).toNat % 0x08 * 0x40 + _) * 0x40 + _) * 0x40 + _ = cp
    rw [hvalue, hsecondValue, hmiddleValue, hlastValue]
    omega

theorem sequenceLength?_of_decode? {lead : UInt8} {rest : List UInt8} {cp : Nat}
    (h : decode? (lead :: rest) = some cp) : sequenceLength? lead = some (rest.length + 1) := by
  rw [decode?] at h
  split at h
  · rename_i hsequence
    rw [Bool.and_eq_true, beq_iff_eq] at hsequence
    exact hsequence.1
  · cases h

/-- What holds of the octet of every number below 256 holds of every octet. -/
theorem octets {P : UInt8 → Prop} (h : ∀ n < 0x100, P n.toUInt8) (b : UInt8) : P b := by
  have hb := h b.toNat b.toNat_lt
  rwa [show b.toNat.toUInt8 = b from UInt8.ofNat_toNat] at hb

theorem lead_of_one : ∀ b, sequenceLength? b = some 1 → b.toNat < 0x80 := octets (by decide +kernel)

theorem lead_of_two : ∀ b, sequenceLength? b = some 2 → b = 0xC0 ||| (b.toNat % 0x20).toUInt8 :=
  octets (by decide +kernel)

theorem lead_of_three : ∀ b, sequenceLength? b = some 3 → b = 0xE0 ||| (b.toNat % 0x10).toUInt8 :=
  octets (by decide +kernel)

theorem lead_of_four : ∀ b, sequenceLength? b = some 4 → b = 0xF0 ||| (b.toNat % 0x08).toUInt8 :=
  octets (by decide +kernel)

theorem sequenceLength?_le : ∀ b, ∀ n ∈ sequenceLength? b, n ≤ 4 := octets (by decide +kernel)

theorem continuation_eq : ∀ b, isContinuation b = true → b = 0x80 ||| (b.toNat % 0x40).toUInt8 :=
  octets (by decide +kernel)

/-- What octets must be like to be read. -/
theorem of_decode?_cons {lead : UInt8} {rest : List UInt8} {cp : Nat} (h : decode? (lead :: rest) = some cp) :
    (∀ b ∈ rest, isContinuation b = true) ∧
    rest.foldl (fun acc b => acc * 0x40 + b.toNat % 0x40) (leadPayload (rest.length + 1) lead) = cp ∧
    leastOfLength (rest.length + 1) ≤ cp ∧ isScalarValue cp = true := by
  rw [decode?] at h
  split at h
  · rename_i hsequence
    dsimp only at h
    split at h
    · rename_i hvalue
      obtain rfl := Option.some.inj h
      rw [Bool.and_eq_true, decide_eq_true_iff] at hvalue
      exact ⟨List.all_eq_true.mp ((Bool.and_eq_true _ _).mp hsequence).2, rfl, hvalue⟩
    · cases h
  · cases h

/-- The octets that are read as a code point are those that are written for it: the value determines the bits of
each. -/
theorem eq_encode_of_decode?_cons {lead : UInt8} {rest : List UInt8} {cp : Nat}
    (h : decode? (lead :: rest) = some cp) : lead :: rest = encode cp := by
  have hlength := sequenceLength?_of_decode? h
  obtain ⟨hrest, hvalue, hleast, _⟩ := of_decode?_cons h
  have hfour : rest.length + 1 ≤ 4 := sequenceLength?_le lead _ hlength
  match rest with
  | [] =>
    have hsmall := lead_of_one lead hlength
    have hcp : lead.toNat = cp := hvalue
    rw [encode, if_pos (by omega), ← hcp]
    exact congrArg (· :: []) UInt8.ofNat_toNat.symm
  | [b] =>
    have hlead := lead_of_two lead hlength
    have hb := continuation_eq b (hrest b (by simp))
    have hcp : lead.toNat % 0x20 * 0x40 + b.toNat % 0x40 = cp := hvalue
    have hleast : 0x80 ≤ cp := hleast
    rw [encode, if_neg (by omega), if_pos (by omega), show cp / 0x40 = lead.toNat % 0x20 by omega,
      show cp % 0x40 = b.toNat % 0x40 by omega, ← hlead, ← hb]
  | [b, c] =>
    have hlead := lead_of_three lead hlength
    have hb := continuation_eq b (hrest b (by simp))
    have hc := continuation_eq c (hrest c (by simp))
    have hcp : (lead.toNat % 0x10 * 0x40 + b.toNat % 0x40) * 0x40 + c.toNat % 0x40 = cp := hvalue
    have hleast : 0x800 ≤ cp := hleast
    rw [encode, if_neg (by omega), if_neg (by omega), if_pos (by omega),
      show cp / 0x1000 = lead.toNat % 0x10 by omega, show cp / 0x40 % 0x40 = b.toNat % 0x40 by omega,
      show cp % 0x40 = c.toNat % 0x40 by omega, ← hlead, ← hb, ← hc]
  | [b, c, d] =>
    have hlead := lead_of_four lead hlength
    have hb := continuation_eq b (hrest b (by simp))
    have hc := continuation_eq c (hrest c (by simp))
    have hd := continuation_eq d (hrest d (by simp))
    have hcp : ((lead.toNat % 0x08 * 0x40 + b.toNat % 0x40) * 0x40 + c.toNat % 0x40) * 0x40 + d.toNat % 0x40 = cp :=
      hvalue
    have hleast : 0x10000 ≤ cp := hleast
    rw [encode, if_neg (by omega), if_neg (by omega), if_neg (by omega),
      show cp / 0x40000 = lead.toNat % 0x08 by omega, show cp / 0x1000 % 0x40 = b.toNat % 0x40 by omega,
      show cp / 0x40 % 0x40 = c.toNat % 0x40 by omega, show cp % 0x40 = d.toNat % 0x40 by omega, ← hlead, ← hb, ← hc,
      ← hd]
  | _ :: _ :: _ :: _ :: _ =>
    simp only [List.length_cons] at hfour
    omega

/-- **Octets are read as a code point** if and only if it is a scalar value and they are written for it. -/
theorem decode?_eq_some_iff {bs : List UInt8} {cp : Nat} :
    decode? bs = some cp ↔ isScalarValue cp = true ∧ bs = encode cp := by
  constructor
  · intro h
    cases bs with
    | nil => cases h
    | cons lead rest => exact ⟨(of_decode?_cons h).2.2.2, eq_encode_of_decode?_cons h⟩
  · rintro ⟨hscalar, rfl⟩
    exact decode?_encode hscalar

end Utf8

/-! ## 2. Escapes -/

namespace Uri

theorem between_iff {lo hi u : CodeUnit} :
    CodeUnit.between lo hi u = true ↔ lo.toNat ≤ u.toNat ∧ u.toNat ≤ hi.toNat := by
  unfold CodeUnit.between
  rw [Bool.and_eq_true, decide_eq_true_iff, decide_eq_true_iff]
  rfl

/-- The unit is the hexadecimal digit with the value, in either case. -/
def IsHexDigit (u : CodeUnit) (d : Nat) : Prop := d < 16 ∧ (u = hexUnit d ∨ u = CodeUnit.ofDigit d)

/-- Units that are escapes of octets, each a percent sign and two digits. -/
inductive Escapes : List UInt8 → List CodeUnit → Prop where
  | nil : Escapes [] []
  | cons {b : UInt8} {bs : List UInt8} {hi lo : CodeUnit} {us : List CodeUnit} : IsHexDigit hi (b.toNat / 16) →
      IsHexDigit lo (b.toNat % 16) → Escapes bs us → Escapes (b :: bs) (0x25 :: hi :: lo :: us)

/-- The units are a complete run of escapes that spells a scalar value: its octets, escaped. -/
def Spells (run : List CodeUnit) (cp : Nat) : Prop := Utf8.isScalarValue cp = true ∧ Escapes (Utf8.encode cp) run

theorem hexValue?_eq_some_iff {u : CodeUnit} {d : Nat} : u.hexValue? = some d ↔ IsHexDigit u d := by
  constructor
  · intro h
    obtain ⟨hvalue, hlt⟩ := Option.filter_eq_some_iff.mp h
    rw [decide_eq_true_iff] at hlt
    have hunit (base : Nat) (hbase : base ≤ u.toNat) : (base + (u.toNat - base)).toUInt16 = u := by
      rw [Nat.add_sub_cancel' hbase]
      exact UInt16.ofNat_toNat
    refine ⟨hlt, ?_⟩
    unfold CodeUnit.digitValue? at hvalue
    split at hvalue
    · rename_i hdigit
      obtain ⟨hge, hle⟩ := between_iff.mp hdigit
      obtain rfl := Option.some.inj hvalue
      have hsmall : u.toNat - 0x30 < 10 := Nat.sub_lt_left_of_lt_add hge (Nat.lt_succ_of_le hle)
      refine .inl ?_
      unfold hexUnit
      rw [if_pos hsmall]
      exact (hunit 0x30 hge).symm
    split at hvalue
    · rename_i hupper
      obtain ⟨hge, _⟩ := between_iff.mp hupper
      obtain rfl := Option.some.inj hvalue
      refine .inl ?_
      unfold hexUnit
      rw [if_neg (Nat.not_lt.mpr (Nat.le_add_left _ _)), Nat.add_sub_cancel]
      exact (hunit 0x41 hge).symm
    split at hvalue
    · rename_i hlower
      obtain ⟨hge, _⟩ := between_iff.mp hlower
      obtain rfl := Option.some.inj hvalue
      refine .inr ?_
      unfold CodeUnit.ofDigit
      rw [if_neg (Nat.not_lt.mpr (Nat.le_add_left _ _)), Nat.add_sub_cancel]
      exact (hunit 0x61 hge).symm
    · cases hvalue
  · have hread : ∀ d < 16, (hexUnit d).hexValue? = some d ∧ (CodeUnit.ofDigit d).hexValue? = some d := by decide
    rintro ⟨hlt, rfl | rfl⟩
    · exact (hread d hlt).1
    · exact (hread d hlt).2

theorem escapedByte?_cons (p hi lo : CodeUnit) (rest : List CodeUnit) :
    escapedByte? (p :: hi :: lo :: rest) =
      if p = 0x25 then hi.hexValue?.bind fun h => lo.hexValue?.map fun l => (h * 16 + l).toUInt8 else none := by
  by_cases hp : p = 0x25
  · subst hp
    rw [if_pos rfl]
    show (hi.hexValue?.bind fun h => lo.hexValue?.bind fun l => some (h * 16 + l).toUInt8) = _
    cases hi.hexValue? with
    | none => rfl
    | some h => cases lo.hexValue? <;> rfl
  · rw [if_neg hp]
    unfold escapedByte?
    dsimp only
    rw [if_pos hp]
    rfl

/-- An octet is read where its escape stands. -/
theorem escapedByte?_eq_some_iff {us : List CodeUnit} {b : UInt8} :
    escapedByte? us = some b ↔ ∃ hi lo rest, us = 0x25 :: hi :: lo :: rest ∧ IsHexDigit hi (b.toNat / 16) ∧
      IsHexDigit lo (b.toNat % 16) := by
  constructor
  · intro h
    match us, h with
    | p :: hi :: lo :: rest, h =>
      rw [escapedByte?_cons] at h
      split at h
      · rename_i hp
        obtain ⟨x, hx, h⟩ := Option.bind_eq_some_iff.mp h
        obtain ⟨y, hy, h⟩ := Option.map_eq_some_iff.mp h
        have hx := hexValue?_eq_some_iff.mp hx
        have hy := hexValue?_eq_some_iff.mp hy
        have hvalue : b.toNat = x * 16 + y := by
          have hlt : x * 16 + y < 2 ^ 8 := by
            have := hx.1
            have := hy.1
            omega
          rw [← h]
          exact UInt8.toNat_ofNat_of_lt' hlt
        refine ⟨hi, lo, rest, by rw [hp], ?_⟩
        have hlt := hy.1
        rw [show b.toNat / 16 = x by omega, show b.toNat % 16 = y by omega]
        exact ⟨hx, hy⟩
      · cases h
    | [], h => cases h
    | [_], h => cases h
    | [_, _], h => cases h
  · rintro ⟨hi, lo, rest, rfl, hhi, hlo⟩
    rw [escapedByte?_cons, if_pos rfl, hexValue?_eq_some_iff.mpr hhi, hexValue?_eq_some_iff.mpr hlo]
    show some (b.toNat / 16 * 16 + b.toNat % 16).toUInt8 = some b
    rw [Nat.div_add_mod']
    exact congrArg some UInt8.ofNat_toNat

theorem Escapes.length {bs : List UInt8} {run : List CodeUnit} (h : Escapes bs run) : run.length = 3 * bs.length := by
  induction h with
  | nil => rfl
  | cons _ _ _ ih =>
    simp only [List.length_cons, ih]
    omega

/-- Several octets are read where their escapes stand, one behind the other. -/
theorem mapM_escapedByte?_eq_some_iff {n : Nat} {us : List CodeUnit} {bs : List UInt8} :
    ((List.range n).mapM fun j => escapedByte? (us.drop (3 * j))) = some bs ↔
      bs.length = n ∧ ∃ run rest, us = run ++ rest ∧ Escapes bs run := by
  induction n generalizing us bs with
  | zero =>
    constructor
    · intro h
      cases h
      exact ⟨rfl, [], us, rfl, .nil⟩
    · rintro ⟨hlength, _⟩
      rw [List.eq_nil_of_length_eq_zero hlength]
      rfl
  | succ n ih =>
    have hsplit : ((List.range (n + 1)).mapM fun j => escapedByte? (us.drop (3 * j))) =
        (escapedByte? us).bind fun b =>
          ((List.range n).mapM fun j => escapedByte? ((us.drop 3).drop (3 * j))).map (b :: ·) := by
      have hshift (j : Nat) : us.drop (3 * (j + 1)) = (us.drop 3).drop (3 * j) := by
        rw [List.drop_drop, show 3 + 3 * j = 3 * (j + 1) by omega]
      rw [List.range_succ_eq_map, List.mapM_cons, List.mapM_map]
      simp only [Function.comp_def, Nat.succ_eq_add_one, hshift, Nat.mul_zero, List.drop_zero]
      refine congrArg (Option.bind _) (funext fun b => ?_)
      rw [Option.map_eq_bind]
      rfl
    rw [hsplit]
    constructor
    · intro h
      obtain ⟨b, hb, h⟩ := Option.bind_eq_some_iff.mp h
      obtain ⟨tail, htail, rfl⟩ := Option.map_eq_some_iff.mp h
      obtain ⟨hi, lo, rest, rfl, hhi, hlo⟩ := escapedByte?_eq_some_iff.mp hb
      obtain ⟨hlength, run, left, hrest, hrun⟩ := ih.mp htail
      have hrest : rest = run ++ left := hrest
      refine ⟨by rw [List.length_cons, hlength], 0x25 :: hi :: lo :: run, left, by rw [hrest]; rfl, .cons hhi hlo hrun⟩
    · rintro ⟨hlength, run, rest, rfl, hrun⟩
      cases hrun with
      | nil => cases hlength
      | cons hhi hlo htail =>
        rename_i b bs hi lo us
        have hread : escapedByte? (0x25 :: hi :: lo :: us ++ rest) = some b :=
          escapedByte?_eq_some_iff.mpr ⟨hi, lo, us ++ rest, rfl, hhi, hlo⟩
        have hmore : ((List.range n).mapM fun j => escapedByte? ((us ++ rest).drop (3 * j))) = some bs :=
          ih.mpr ⟨Nat.succ.inj hlength, us, rest, rfl, htail⟩
        rw [hread, Option.bind_some]
        show Option.map (b :: ·) ((List.range n).mapM fun j => escapedByte? ((us ++ rest).drop (3 * j))) = _
        rw [hmore]
        rfl

/-- **A code point is read** where a run of escapes that spells it stands. -/
theorem escapedCodePoint?_eq_some_iff {us : List CodeUnit} {cp n : Nat} :
    escapedCodePoint? us = some (cp, n) ↔
      ∃ run rest, us = run ++ rest ∧ Spells run cp ∧ n = (Utf8.encode cp).length := by
  constructor
  · intro h
    obtain ⟨lead, _, h⟩ := Option.bind_eq_some_iff.mp h
    obtain ⟨k, _, h⟩ := Option.bind_eq_some_iff.mp h
    obtain ⟨bs, hbs, h⟩ := Option.bind_eq_some_iff.mp h
    obtain ⟨cp', hcp, h⟩ := Option.bind_eq_some_iff.mp h
    cases h
    obtain ⟨hlength, run, rest, rfl, hrun⟩ := mapM_escapedByte?_eq_some_iff.mp hbs
    obtain ⟨hscalar, rfl⟩ := Utf8.decode?_eq_some_iff.mp hcp
    exact ⟨run, rest, rfl, ⟨hscalar, hrun⟩, hlength.symm⟩
  · rintro ⟨run, rest, rfl, ⟨hscalar, hrun⟩, rfl⟩
    have hdecode := Utf8.decode?_encode hscalar
    have hall := mapM_escapedByte?_eq_some_iff.mpr ⟨rfl, run, rest, rfl, hrun⟩
    unfold escapedCodePoint?
    cases hoctets : Utf8.encode cp with
    | nil =>
      rw [hoctets] at hdecode
      cases hdecode
    | cons lead octets =>
      rw [hoctets] at hdecode hall hrun
      have hlength : Utf8.sequenceLength? lead = some (lead :: octets).length :=
        Utf8.sequenceLength?_of_decode? hdecode
      have hlead : escapedByte? (run ++ rest) = some lead := by
        cases hrun with
        | cons hhi hlo _ => exact escapedByte?_eq_some_iff.mpr ⟨_, _, _, rfl, hhi, hlo⟩
      simp only [hlead, hlength, hall, hdecode, Option.bind_eq_bind, Option.bind_some]

theorem Spells.length {run : List CodeUnit} {cp : Nat} (h : Spells run cp) :
    run.length = 3 * (Utf8.encode cp).length := h.2.length

/-- A run begins with a percent sign. -/
theorem Spells.eq_cons {run : List CodeUnit} {cp : Nat} (h : Spells run cp) : ∃ us, run = 0x25 :: us := by
  have hdecode := Utf8.decode?_encode h.1
  have hrun := h.2
  generalize Utf8.encode cp = bs at hdecode hrun
  cases hrun with
  | nil => cases hdecode
  | cons _ _ _ => exact ⟨_, rfl⟩

/-! ## 3. Units -/

section Units

variable {reserved : CodeUnit → Bool}

theorem decodeUnits?_cons {u : CodeUnit} (hu : u ≠ 0x25) (rest : List CodeUnit) :
    decodeUnits? reserved (u :: rest) = (decodeUnits? reserved rest).map (u :: ·) := by
  rw [decodeUnits?, if_neg hu]

/-- How units are read behind a run. -/
theorem decodeUnits?_run {run : List CodeUnit} {cp : Nat} (h : Spells run cp) (us : List CodeUnit) :
    decodeUnits? reserved (run ++ us) = (decodeUnits? reserved us).map
      ((if (decide (cp < 0x10000) && reserved cp.toUInt16) = true then run else Text.unitsOfCodePoint cp) ++ ·) := by
  have hread := escapedCodePoint?_eq_some_iff.mpr ⟨run, us, rfl, h, rfl⟩
  have hlength := h.length
  obtain ⟨tail, rfl⟩ := h.eq_cons
  have hwidth : 3 * (Utf8.encode cp).length - 1 = tail.length := by
    rw [← hlength]
    rfl
  rw [List.cons_append] at hread ⊢
  rw [decodeUnits?, if_pos rfl, hread]
  simp only [hwidth, List.drop_left, List.take_left]

end Units

end Uri

end Ecma51
