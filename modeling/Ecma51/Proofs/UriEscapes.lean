import Ecma51.Library.Global
import Ecma51.Proofs.UriRuns

/-!
# Escapes, written and read

A text is escaped character by character, and reading the escapes gives the text again: a unit that is
kept is no percent sign, and a reserved unit is kept and not escaped, so that its escape, which reading
leaves alone, is not written. Only a surrogate without partner has no escape.

Reading goes over the units from the head on. At a percent sign there must be a run of escapes that spells one
scalar value; the next percent sign that counts is behind it.

* `Uri.spells_escape`: what is written for a scalar value spells it, so that it is read back.
* `Text.LoneAt`: a surrogate that is no half of a pair.
* **`uri_roundTrip`**: what escaping does to every text.
* `Uri.Meets`, `Uri.Reads`: what is met on the way, and what the whole is read as.
* `Uri.decodeUnits?_of_reads`, `Uri.reads_of_decodeUnits?`: reading gives that and nothing else.
* `Uri.decodes_of_meets`: when there is something to give.
* **`uri_reading`**: which units are read, and as what.
-/

namespace Ecma51

/-! ## 1. Escapes -/

namespace Uri

/-- What is written for an octet is an escape of it. -/
theorem escapes_flatMap (bs : List UInt8) : Escapes bs (bs.flatMap escapeByte) := by
  induction bs with
  | nil => exact .nil
  | cons b bs ih =>
    have hb : b.toNat < 256 := b.toNat_lt
    exact .cons ⟨Nat.div_lt_of_lt_mul hb, .inl rfl⟩ ⟨Nat.mod_lt _ (by decide), .inl rfl⟩ ih

/-- **The escape of a scalar value is a run that spells it.** -/
theorem spells_escape {cp : Nat} (h : Utf8.isScalarValue cp = true) : Spells (escape cp) cp :=
  ⟨h, escapes_flatMap _⟩

/-- An escape that does not stand for a reserved unit is read as the units of its code point. -/
theorem decodeUnits?_escape {reserved : CodeUnit → Bool} {cp : Nat} (h : Utf8.isScalarValue cp = true)
    (hreserved : (decide (cp < 0x10000) && reserved cp.toUInt16) = false) (rest : List CodeUnit) :
    decodeUnits? reserved (escape cp ++ rest) =
      (decodeUnits? reserved rest).map (Text.unitsOfCodePoint cp ++ ·) := by
  rw [decodeUnits?_run (spells_escape h), hreserved, if_neg Bool.false_ne_true]

theorem hexUnit_lt : ∀ d < 16, hexUnit d < 0x80 := by decide

theorem lt_of_mem_escape {cp : Nat} {c : CodeUnit} (h : c ∈ escape cp) : c < 0x80 := by
  obtain ⟨b, _, hc⟩ := List.mem_flatMap.mp h
  have hb : b.toNat < 256 := b.toNat_lt
  simp only [escapeByte, List.mem_cons, List.not_mem_nil, or_false] at hc
  rcases hc with rfl | rfl | rfl
  · decide
  · exact hexUnit_lt _ (by omega)
  · exact hexUnit_lt _ (by omega)

/-! ## 2. Units that are kept -/

theorem mem_of_isOneOf {s : String} {u : CodeUnit} (h : isOneOf s u = true) :
    u ∈ s.toList.map CodeUnit.ofChar := by
  obtain ⟨c, hc, hu⟩ := List.any_eq_true.mp h
  exact List.mem_map.mpr ⟨c, hc, beq_iff_eq.mp hu⟩

/-- What is kept is ASCII, and not the sign that begins an escape. -/
theorem Scope.keeps_ascii {s : Scope} {u : CodeUnit} (h : s.keeps u = true) :
    u < 0x80 ∧ u ≠ 0x25 := by
  -- checked sign by sign, not unit by unit
  have hsigns {cs : List Char} {v : CodeUnit} (hv : v ∈ cs.map CodeUnit.ofChar)
      (hall : (cs.map CodeUnit.ofChar).all (fun v => decide (v < 0x80 ∧ v ≠ 0x25)) = true) :
      v < 0x80 ∧ v ≠ 0x25 := of_decide_eq_true (List.all_eq_true.mp hall v hv)
  have hrange {lo hi : CodeUnit} (hlo : 0x25 < lo.toNat) (hhi : hi.toNat < 0x80)
      (hu : CodeUnit.between lo hi u = true) : u < 0x80 ∧ u ≠ 0x25 := by
    obtain ⟨hge, hle⟩ := between_iff.mp hu
    refine ⟨show u.toNat < 0x80 by omega, ?_⟩
    rintro rfl
    exact absurd (Nat.lt_of_lt_of_le hlo hge) (by decide)
  simp only [Scope.keeps, isUnescaped, CodeUnit.isAlpha, CodeUnit.isDecimalDigit, isReserved,
    Bool.or_eq_true, Bool.and_eq_true] at h
  rcases h with (((h | h) | h) | h) | h
  · exact hrange (by decide) (by decide) h
  · exact hrange (by decide) (by decide) h
  · exact hrange (by decide) (by decide) h
  · exact hsigns (mem_of_isOneOf h) (by decide)
  · exact hsigns (mem_of_isOneOf h.2) (by decide)

theorem Scope.keeps_of_reserves {s : Scope} {u : CodeUnit} (h : s.reserves u = true) :
    s.keeps u = true := by
  unfold Scope.reserves at h
  unfold Scope.keeps
  rw [h, Bool.or_true]

end Uri

/-! ## 3. Surrogates -/

namespace Text

/-- A high surrogate and a low one stand at a place and the next. -/
def PairAt (us : List CodeUnit) (i : Nat) : Prop :=
  ∃ u v, us[i]? = some u ∧ us[i + 1]? = some v ∧ u.isHighSurrogate = true ∧ v.isLowSurrogate = true

/-- A surrogate stands at a place that is no half of a pair. -/
def LoneAt (us : List CodeUnit) (i : Nat) : Prop :=
  (∃ u, us[i]? = some u ∧ u.isSurrogate = true) ∧ ¬ PairAt us i ∧ ∀ j, i = j + 1 → ¬ PairAt us j

theorem isSurrogate_iff {u : CodeUnit} :
    u.isSurrogate = true ↔ 0xD800 ≤ u.toNat ∧ u.toNat ≤ 0xDFFF := Uri.between_iff

theorem isHighSurrogate_iff {u : CodeUnit} :
    u.isHighSurrogate = true ↔ 0xD800 ≤ u.toNat ∧ u.toNat ≤ 0xDBFF := Uri.between_iff

theorem isLowSurrogate_iff {u : CodeUnit} :
    u.isLowSurrogate = true ↔ 0xDC00 ≤ u.toNat ∧ u.toNat ≤ 0xDFFF := Uri.between_iff

theorem pairAt_succ {u : CodeUnit} {us : List CodeUnit} {i : Nat} :
    PairAt (u :: us) (i + 1) ↔ PairAt us i := Iff.rfl

theorem pairAt_zero {u v : CodeUnit} {us : List CodeUnit} :
    PairAt (u :: v :: us) 0 ↔ u.isHighSurrogate = true ∧ v.isLowSurrogate = true := by
  constructor
  · rintro ⟨_, _, ⟨⟩, ⟨⟩, h⟩
    exact h
  · exact fun h => ⟨u, v, rfl, rfl, h⟩

/-- A place is lone behind units of which the last begins no pair if it is lone without them. -/
theorem loneAt_succ {u : CodeUnit} {us : List CodeUnit} (h : ¬ PairAt (u :: us) 0) {i : Nat} :
    LoneAt (u :: us) (i + 1) ↔ LoneAt us i := by
  unfold LoneAt
  rw [pairAt_succ]
  refine and_congr Iff.rfl (and_congr Iff.rfl ⟨?_, ?_⟩)
  · rintro hbefore j rfl
    exact hbefore (j + 1) rfl
  · rintro hbefore j ⟨⟩
    cases i with
    | zero => exact h
    | succ i => exact hbefore i rfl

theorem exists_loneAt_cons {u : CodeUnit} {us : List CodeUnit} (hu : u.isSurrogate = false) :
    (∃ i, LoneAt (u :: us) i) ↔ ∃ i, LoneAt us i := by
  have hpair : ¬ PairAt (u :: us) 0 := by
    rintro ⟨_, _, ⟨⟩, _, hhigh, _⟩
    have hhigh := isHighSurrogate_iff.mp hhigh
    rw [isSurrogate_iff.mpr (by omega)] at hu
    cases hu
  constructor
  · rintro ⟨i, hi⟩
    cases i with
    | zero =>
      obtain ⟨⟨_, ⟨⟩, hsurrogate⟩, _⟩ := hi
      rw [hu] at hsurrogate
      cases hsurrogate
    | succ i => exact ⟨i, (loneAt_succ hpair).mp hi⟩
  · rintro ⟨i, hi⟩
    exact ⟨i + 1, (loneAt_succ hpair).mpr hi⟩

theorem exists_loneAt_pair {u v : CodeUnit} {us : List CodeUnit} (hu : u.isHighSurrogate = true)
    (hv : v.isLowSurrogate = true) :
    (∃ i, LoneAt (u :: v :: us) i) ↔ ∃ i, LoneAt us i := by
  have hpair : PairAt (u :: v :: us) 0 := pairAt_zero.mpr ⟨hu, hv⟩
  -- the second half begins no pair
  have hnext : ¬ PairAt (v :: us) 0 := by
    rintro ⟨_, _, ⟨⟩, _, hhigh, _⟩
    have hhigh := isHighSurrogate_iff.mp hhigh
    have hlow := isLowSurrogate_iff.mp hv
    omega
  have hshift {i : Nat} : LoneAt (u :: v :: us) (i + 2) ↔ LoneAt us i := by
    unfold LoneAt
    rw [pairAt_succ, pairAt_succ]
    refine and_congr Iff.rfl (and_congr Iff.rfl ⟨?_, ?_⟩)
    · rintro hbefore j rfl
      exact hbefore (j + 2) rfl
    · rintro hbefore j ⟨⟩
      cases i with
      | zero => exact hnext
      | succ i => exact hbefore i rfl
  constructor
  · rintro ⟨i, hi⟩
    match i with
    | 0 => exact absurd hpair hi.2.1
    | 1 => exact absurd hpair (hi.2.2 0 rfl)
    | i + 2 => exact ⟨i, hshift.mp hi⟩
  · rintro ⟨i, hi⟩
    exact ⟨i + 2, hshift.mpr hi⟩

/-- What stands at the head of units: a lone surrogate, a unit of its own, or a pair. -/
theorem headCodePoint_cases (u : CodeUnit) (us : List CodeUnit) :
    (u.isSurrogate = true ∧ headCodePoint u us = (u.toNat, 1) ∧ LoneAt (u :: us) 0) ∨
    (u.isSurrogate = false ∧ headCodePoint u us = (u.toNat, 1)) ∨
    ∃ v rest, us = v :: rest ∧ u.isHighSurrogate = true ∧ v.isLowSurrogate = true ∧
      headCodePoint u us = (pairCodePoint u v, 2) := by
  by_cases hpair : ∃ v rest, us = v :: rest ∧ u.isHighSurrogate = true ∧ v.isLowSurrogate = true
  · obtain ⟨v, rest, rfl, hu, hv⟩ := hpair
    refine .inr (.inr ⟨v, rest, rfl, hu, hv, ?_⟩)
    rw [headCodePoint, hu, hv]
    rfl
  · have hhead : headCodePoint u us = (u.toNat, 1) := by
      unfold headCodePoint
      split
      · rename_i v rest
        refine if_neg fun h => hpair ⟨v, rest, rfl, ?_⟩
        exact (Bool.and_eq_true _ _).mp h
      · rfl
    cases hu : u.isSurrogate with
    | false => exact .inr (.inl ⟨rfl, hhead⟩)
    | true =>
      refine .inl ⟨rfl, hhead, ⟨u, rfl, hu⟩, ?_, fun j hj => absurd hj.symm (Nat.succ_ne_zero j)⟩
      rintro ⟨_, v, ⟨⟩, hv, hhigh, hlow⟩
      cases us with
      | nil => cases hv
      | cons w rest =>
        cases hv
        exact hpair ⟨_, rest, rfl, hhigh, hlow⟩

theorem unitsOfCodePoint_toNat (u : CodeUnit) : unitsOfCodePoint u.toNat = [u] := by
  unfold unitsOfCodePoint
  rw [if_pos u.toNat_lt]
  exact congrArg (· :: []) UInt16.ofNat_toNat

theorem unitsOfCodePoint_pair {u v : CodeUnit} (hu : u.isHighSurrogate = true)
    (hv : v.isLowSurrogate = true) : unitsOfCodePoint (pairCodePoint u v) = [u, v] := by
  have hu := isHighSurrogate_iff.mp hu
  have hv := isLowSurrogate_iff.mp hv
  have hhigh : (pairCodePoint u v - 0x10000) / 0x400 = u.toNat - 0xD800 := by
    unfold pairCodePoint
    omega
  have hlow : (pairCodePoint u v - 0x10000) % 0x400 = v.toNat - 0xDC00 := by
    unfold pairCodePoint
    omega
  have hback (base w : CodeUnit) (hbase : base.toNat ≤ w.toNat) :
      base + (w.toNat - base.toNat).toUInt16 = w := by
    apply UInt16.toNat_inj.mp
    have hw : w.toNat < 0x10000 := w.toNat_lt
    rw [UInt16.toNat_add, UInt16.toNat_ofNat_of_lt' (show _ < 0x10000 by omega)]
    omega
  unfold unitsOfCodePoint
  rw [if_neg (by unfold pairCodePoint; omega), hhigh, hlow]
  have hfirst := hback 0xD800 u hu.1
  have hsecond := hback 0xDC00 v hv.1
  exact (congrArg (· :: _) hfirst).trans (congrArg (u :: [·]) hsecond)

theorem isScalarValue_pair {u v : CodeUnit} (hu : u.isHighSurrogate = true)
    (hv : v.isLowSurrogate = true) : Utf8.isScalarValue (pairCodePoint u v) = true := by
  have hu := isHighSurrogate_iff.mp hu
  have hv := isLowSurrogate_iff.mp hv
  rw [Utf8.isScalarValue_iff]
  unfold pairCodePoint
  omega

theorem isScalarValue_toNat {u : CodeUnit} (hu : u.isSurrogate = false) :
    Utf8.isScalarValue u.toNat = true := by
  have hrange : u.toNat < 0x10000 := u.toNat_lt
  have hnot : ¬ (0xD800 ≤ u.toNat ∧ u.toNat ≤ 0xDFFF) := by
    intro h
    rw [isSurrogate_iff.mpr h] at hu
    cases hu
  exact Utf8.isScalarValue_iff.mpr ⟨by omega, hnot⟩

end Text

/-! ## 4. Escaping a text -/

namespace Uri

theorem Scope.not_isSurrogate_of_keeps {s : Scope} {u : CodeUnit} (h : s.keeps u = true) :
    u.isSurrogate = false := by
  have hascii : u.toNat < 0x80 := (Scope.keeps_ascii h).1
  refine Bool.eq_false_iff.mpr fun hu => ?_
  have hu := Text.isSurrogate_iff.mp hu
  omega

/-- How units are escaped from their head on: a unit is kept, a lone surrogate has no escape, a unit or a
pair is escaped. -/
theorem Scope.encodeUnits?_cons_cases (s : Scope) (u : CodeUnit) (rest : List CodeUnit) :
    (s.keeps u = true ∧ encodeUnits? s.keeps (u :: rest) = (encodeUnits? s.keeps rest).map (u :: ·)) ∨
    (Text.LoneAt (u :: rest) 0 ∧ encodeUnits? s.keeps (u :: rest) = none) ∨
    (s.keeps u = false ∧ u.isSurrogate = false ∧ encodeUnits? s.keeps (u :: rest) =
      (encodeUnits? s.keeps rest).map (escape u.toNat ++ ·)) ∨
    ∃ v tail, rest = v :: tail ∧ u.isHighSurrogate = true ∧ v.isLowSurrogate = true ∧
      encodeUnits? s.keeps (u :: rest) =
        (encodeUnits? s.keeps tail).map (escape (Text.pairCodePoint u v) ++ ·) := by
  cases hkeeps : s.keeps u with
  | true =>
    refine .inl ⟨rfl, ?_⟩
    rw [encodeUnits?, if_pos hkeeps]
  | false =>
    have hkeeps' : ¬ s.keeps u = true := by
      rw [hkeeps]
      exact Bool.false_ne_true
    refine .inr ?_
    rw [encodeUnits?, if_neg hkeeps']
    rcases Text.headCodePoint_cases u rest with
      ⟨hu, hhead, hlone⟩ | ⟨hu, hhead⟩ | ⟨v, tail, rfl, hu, hv, hhead⟩
    · refine .inl ⟨hlone, ?_⟩
      rw [hhead]
      exact if_pos (Text.isSurrogate_iff.mp hu)
    · refine .inr (.inl ⟨rfl, hu, ?_⟩)
      rw [hhead]
      refine if_neg fun h => ?_
      rw [Text.isSurrogate_iff.mpr h] at hu
      cases hu
    · refine .inr (.inr ⟨v, tail, rfl, hu, hv, ?_⟩)
      rw [hhead]
      refine if_neg fun h => ?_
      unfold Text.pairCodePoint at h
      omega

/-- **A text has an escaped form unless a surrogate in it stands alone.** -/
theorem Scope.encodeUnits?_eq_none_iff (s : Scope) (us : List CodeUnit) :
    encodeUnits? s.keeps us = none ↔ ∃ i, Text.LoneAt us i := by
  match us with
  | [] =>
    rw [encodeUnits?]
    constructor
    · exact fun h => by cases h
    · rintro ⟨i, ⟨u, hu, _⟩, _⟩
      cases hu
  | u :: rest =>
    rcases s.encodeUnits?_cons_cases u rest with
      ⟨hkeeps, hencode⟩ | ⟨hlone, hencode⟩ | ⟨_, hu, hencode⟩ | ⟨v, tail, rfl, hu, hv, hencode⟩
    · rw [hencode, Option.map_eq_none_iff, s.encodeUnits?_eq_none_iff rest,
        Text.exists_loneAt_cons (Scope.not_isSurrogate_of_keeps hkeeps)]
    · exact iff_of_true hencode ⟨0, hlone⟩
    · rw [hencode, Option.map_eq_none_iff, s.encodeUnits?_eq_none_iff rest,
        Text.exists_loneAt_cons hu]
    · rw [hencode, Option.map_eq_none_iff, s.encodeUnits?_eq_none_iff tail,
        Text.exists_loneAt_pair hu hv]
termination_by us.length

/-- **Reading the escapes gives the units again**, and the escaped form is ASCII. -/
theorem Scope.decodeUnits?_of_encodeUnits? (s : Scope) {us out : List CodeUnit}
    (h : encodeUnits? s.keeps us = some out) :
    decodeUnits? s.reserves out = some us ∧ ∀ c ∈ out, c < 0x80 := by
  match us with
  | [] =>
    rw [encodeUnits?] at h
    cases h
    exact ⟨by rw [decodeUnits?], fun c hc => by cases hc⟩
  | u :: rest =>
    rcases s.encodeUnits?_cons_cases u rest with
      ⟨hkeeps, hencode⟩ | ⟨_, hencode⟩ | ⟨hkeeps, hu, hencode⟩ | ⟨v, tail, rfl, hu, hv, hencode⟩ <;>
      rw [hencode] at h
    · obtain ⟨tailOut, htail, rfl⟩ := Option.map_eq_some_iff.mp h
      obtain ⟨hread, hascii⟩ := s.decodeUnits?_of_encodeUnits? htail
      obtain ⟨hlt, hne⟩ := Scope.keeps_ascii hkeeps
      refine ⟨by rw [decodeUnits?_cons hne, hread]; rfl, fun c hc => ?_⟩
      rcases List.mem_cons.mp hc with rfl | hc
      · exact hlt
      · exact hascii c hc
    · cases h
    · obtain ⟨tailOut, htail, rfl⟩ := Option.map_eq_some_iff.mp h
      obtain ⟨hread, hascii⟩ := s.decodeUnits?_of_encodeUnits? htail
      -- what is reserved is kept, so this unit is not
      have hreserved : (decide (u.toNat < 0x10000) && s.reserves u.toNat.toUInt16) = false := by
        rw [show u.toNat.toUInt16 = u from UInt16.ofNat_toNat, Bool.and_eq_false_iff]
        refine .inr (Bool.eq_false_iff.mpr fun hr => ?_)
        rw [Scope.keeps_of_reserves hr] at hkeeps
        cases hkeeps
      refine ⟨?_, fun c hc => ?_⟩
      · rw [decodeUnits?_escape (Text.isScalarValue_toNat hu) hreserved, hread,
          Text.unitsOfCodePoint_toNat]
        rfl
      · exact (List.mem_append.mp hc).elim lt_of_mem_escape (hascii c)
    · obtain ⟨tailOut, htail, rfl⟩ := Option.map_eq_some_iff.mp h
      obtain ⟨hread, hascii⟩ := s.decodeUnits?_of_encodeUnits? htail
      have hreserved : (decide (Text.pairCodePoint u v < 0x10000) &&
          s.reserves (Text.pairCodePoint u v).toUInt16) = false := by
        rw [Bool.and_eq_false_iff]
        refine .inl (decide_eq_false ?_)
        unfold Text.pairCodePoint
        omega
      refine ⟨?_, fun c hc => ?_⟩
      · rw [decodeUnits?_escape (Text.isScalarValue_pair hu hv) hreserved, hread,
          Text.unitsOfCodePoint_pair hu hv]
        rfl
      · exact (List.mem_append.mp hc).elim lt_of_mem_escape (hascii c)
termination_by us.length

/-- The global function that writes escapes. -/
def Scope.encoder : Scope → GlobalFunction
  | .whole => .encodeURI
  | .component => .encodeURIComponent

/-- The global function that reads escapes. -/
def Scope.decoder : Scope → GlobalFunction
  | .whole => .decodeURI
  | .component => .decodeURIComponent

theorem Scope.encoder_run (s : Scope) (t : Text) (bodies : Bodies) (m : Machine) :
    globalFunction s.encoder [.string t] bodies m =
      match encode? s t with
      | some u => .ok (.string u) m
      | none => .error (.fault .uriEncode) m := by
  cases s with
  | whole =>
    show orFault .uriEncode (encode? .whole t) bodies m = _
    cases encode? .whole t <;> rfl
  | component =>
    show orFault .uriEncode (encode? .component t) bodies m = _
    cases encode? .component t <;> rfl

theorem Scope.decoder_ends (s : Scope) (t : Text) (bodies : Bodies) (m : Machine) :
    globalFunction s.decoder [.string t] bodies m =
      match decode? s t with
      | some u => .ok (.string u) m
      | none => .error (.fault .badUri) m := by
  cases s with
  | whole =>
    show orFault .badUri (decode? .whole t) bodies m = _
    cases decode? .whole t <;> rfl
  | component =>
    show orFault .badUri (decode? .component t) bodies m = _
    cases decode? .component t <;> rfl

theorem Scope.decoder_run {s : Scope} {t u : Text} (h : decode? s u = some t) (bodies : Bodies)
    (m : Machine) : globalFunction s.decoder [.string u] bodies m = .ok (.string t) m := by
  rw [s.decoder_ends, h]

end Uri

/-- **Escapes are read back.** Escaping a text, as a whole or as a component, fails if and only if it holds
a surrogate that is no half of a pair, and the fault is reported as a URI error. Otherwise the escaped text
is ASCII, reading it gives the text again, and escaping what was read gives the escaped text again. -/
theorem uri_roundTrip (s : Uri.Scope) (t : Text) :
    (Uri.encode? s t = none ↔ ∃ i, Text.LoneAt t.toList i) ∧
    (∀ u, Uri.encode? s t = some u → (∀ c ∈ u.toList, c < 0x80) ∧ Uri.decode? s u = some t ∧
      ∀ r, Uri.decode? s u = some r → Uri.encode? s r = some u) ∧
    ∀ (bodies : Bodies) (m : Machine),
      (∃ i, Text.LoneAt t.toList i) ∧ Fault.uriEncode.kind = .uriError ∧
        globalFunction s.encoder [.string t] bodies m = .error (.fault .uriEncode) m ∨
      ∃ u, globalFunction s.encoder [.string t] bodies m = .ok (.string u) m ∧
        globalFunction s.decoder [.string u] bodies m = .ok (.string t) m := by
  have hfails : Uri.encode? s t = none ↔ ∃ i, Text.LoneAt t.toList i := by
    unfold Uri.encode?
    rw [Option.map_eq_none_iff, s.encodeUnits?_eq_none_iff]
  have hreads {u : Text} (hu : Uri.encode? s t = some u) :
      Uri.decode? s u = some t ∧ ∀ c ∈ u.toList, c < 0x80 := by
    obtain ⟨out, hout, rfl⟩ := Option.map_eq_some_iff.mp hu
    obtain ⟨hread, hascii⟩ := s.decodeUnits?_of_encodeUnits? hout
    rw [Text.toList_ofList]
    refine ⟨?_, hascii⟩
    unfold Uri.decode?
    rw [Text.toList_ofList, hread, Option.map_some, Text.ofList_toList]
  refine ⟨hfails, fun u hu => ⟨(hreads hu).2, (hreads hu).1, fun r hr => ?_⟩, fun bodies m => ?_⟩
  · cases (hreads hu).1.symm.trans hr
    exact hu
  · have hrun := s.encoder_run t bodies m
    cases hu : Uri.encode? s t with
    | none =>
      rw [hu] at hrun
      exact .inl ⟨hfails.mp hu, rfl, hrun⟩
    | some u =>
      rw [hu] at hrun
      exact .inr ⟨u, hrun, Uri.Scope.decoder_run (hreads hu).1 bodies m⟩

/-- A percent sign, a reserved character, its escape, a surrogate pair and a unit of three octets. -/
theorem uri_roundTrip_percent :
    Uri.encode? .whole (.ofString "%/%2F😀€") = some (.ofString "%25/%252F%F0%9F%98%80%E2%82%AC") ∧
    Uri.decode? .whole (.ofString "%25/%252F%F0%9F%98%80%E2%82%AC") = some (.ofString "%/%2F😀€") := by
  have h : Uri.encode? .whole (.ofString "%/%2F😀€") =
      some (.ofString "%25/%252F%F0%9F%98%80%E2%82%AC") := by decide +kernel
  exact ⟨h, ((uri_roundTrip .whole _).2.1 _ h).2.1⟩

namespace Uri

section Reading

variable {reserved : CodeUnit → Bool} {us rest run out : List CodeUnit} {cp : Nat}

/-! ## 5. What is met -/

/-- The places to which reading comes when it goes over the units, each given by what is left there. -/
inductive Meets : (us rest : List CodeUnit) → Prop where
  | here (us : List CodeUnit) : Meets us us
  | unit {u : CodeUnit} {us rest : List CodeUnit} : u ≠ 0x25 → Meets us rest → Meets (u :: us) rest
  | run {run us rest : List CodeUnit} {cp : Nat} : Spells run cp → Meets us rest → Meets (run ++ us) rest

/-- What units are read as: a run of escapes is the character that it spells, or stays as it is if that is a
reserved unit, and all other units stay. -/
inductive Reads (reserved : CodeUnit → Bool) : (us out : List CodeUnit) → Prop where
  | nil : Reads reserved [] []
  | unit {u : CodeUnit} {us out : List CodeUnit} : u ≠ 0x25 → Reads reserved us out → Reads reserved (u :: us) (u :: out)
  | character {run us out : List CodeUnit} {cp : Nat} : Spells run cp → ¬ (cp < 0x10000 ∧ reserved cp.toUInt16 = true) →
      Reads reserved us out → Reads reserved (run ++ us) (Text.unitsOfCodePoint cp ++ out)
  | reserved {run us out : List CodeUnit} {cp : Nat} : Spells run cp → cp < 0x10000 → reserved cp.toUInt16 = true →
      Reads reserved us out → Reads reserved (run ++ us) (run ++ out)

/-- A run begins the units. -/
def BeginsRun (us : List CodeUnit) : Prop := ∃ run cp rest, us = run ++ rest ∧ Spells run cp

/-- A percent sign that begins no run cannot be read. -/
theorem decodeUnits?_stuck (h : ¬ BeginsRun (0x25 :: us)) : decodeUnits? reserved (0x25 :: us) = none := by
  have hnone : escapedCodePoint? (0x25 :: us) = none := by
    refine Option.eq_none_iff_forall_ne_some.mpr fun ⟨cp, n⟩ hread => ?_
    obtain ⟨run, rest, hus, hrun, _⟩ := escapedCodePoint?_eq_some_iff.mp hread
    exact h ⟨run, cp, rest, hus, hrun⟩
  rw [decodeUnits?, if_pos rfl, hnone]

/-- What stands at the head of units: nothing, a unit that stays, a run, or a percent sign that begins none. -/
theorem head_cases (us : List CodeUnit) :
    us = [] ∨ (∃ u rest, us = u :: rest ∧ u ≠ 0x25) ∨
      (∃ run cp rest, us = run ++ rest ∧ Spells run cp ∧ rest.length < us.length) ∨
      ∃ rest, us = 0x25 :: rest ∧ ¬ BeginsRun us := by
  cases us with
  | nil => exact .inl rfl
  | cons u rest =>
    by_cases hu : u = 0x25
    · subst hu
      by_cases hrun : BeginsRun (0x25 :: rest)
      · obtain ⟨run, cp, tail, heq, hspells⟩ := hrun
        obtain ⟨us, rfl⟩ := hspells.eq_cons
        refine .inr (.inr (.inl ⟨_, cp, tail, heq, hspells, ?_⟩))
        rw [heq, List.length_append, List.length_cons]
        omega
      · exact .inr (.inr (.inr ⟨rest, rfl, hrun⟩))
    · exact .inr (.inl ⟨u, rest, rfl, hu⟩)

/-! ## 6. What is read -/

/-- **Reading gives what the units are read as.** -/
theorem decodeUnits?_of_reads (h : Reads reserved us out) : decodeUnits? reserved us = some out := by
  induction h with
  | nil => rw [decodeUnits?]
  | unit hu _ ih => rw [decodeUnits?_cons hu, ih, Option.map_some]
  | character hrun hfree _ ih =>
    rw [decodeUnits?_run hrun, ih, if_neg, Option.map_some]
    rw [Bool.and_eq_true, decide_eq_true_iff]
    exact hfree
  | reserved hrun hlt hreserved _ ih =>
    rw [decodeUnits?_run hrun, ih, if_pos, Option.map_some]
    rw [decide_eq_true hlt, hreserved]
    rfl

/-- **And it gives nothing else.** -/
theorem reads_of_decodeUnits? {us out : List CodeUnit} (h : decodeUnits? reserved us = some out) : Reads reserved us out := by
  rcases head_cases us with rfl | ⟨u, rest, rfl, hu⟩ | ⟨run, cp, rest, rfl, hrun, hshorter⟩ | ⟨rest, rfl, hstuck⟩
  · rw [decodeUnits?] at h
    cases h
    exact .nil
  · rw [decodeUnits?_cons hu] at h
    obtain ⟨tail, htail, rfl⟩ := Option.map_eq_some_iff.mp h
    exact .unit hu (reads_of_decodeUnits? htail)
  · rw [decodeUnits?_run hrun] at h
    obtain ⟨tail, htail, rfl⟩ := Option.map_eq_some_iff.mp h
    have hreads := reads_of_decodeUnits? htail
    split
    · rename_i hreserved
      rw [Bool.and_eq_true, decide_eq_true_iff] at hreserved
      exact .reserved hrun hreserved.1 hreserved.2 hreads
    · rename_i hfree
      rw [Bool.and_eq_true, decide_eq_true_iff] at hfree
      exact .character hrun hfree hreads
  · rw [decodeUnits?_stuck hstuck] at h
    cases h
termination_by us.length

/-- If units are read, so is what is left at every place to which reading comes. -/
theorem Meets.decodes (h : Meets us rest) (hus : ∃ out, decodeUnits? reserved us = some out) :
    ∃ out, decodeUnits? reserved rest = some out := by
  induction h with
  | here => exact hus
  | unit hu _ ih =>
    obtain ⟨out, hout⟩ := hus
    rw [decodeUnits?_cons hu] at hout
    obtain ⟨tail, htail, _⟩ := Option.map_eq_some_iff.mp hout
    exact ih ⟨tail, htail⟩
  | run hrun _ ih =>
    obtain ⟨out, hout⟩ := hus
    rw [decodeUnits?_run hrun] at hout
    obtain ⟨tail, htail, _⟩ := Option.map_eq_some_iff.mp hout
    exact ih ⟨tail, htail⟩

/-- Units are read if every percent sign that is met begins a run. -/
theorem decodes_of_meets {us : List CodeUnit} (h : ∀ rest, Meets us (0x25 :: rest) → BeginsRun (0x25 :: rest)) :
    ∃ out, decodeUnits? reserved us = some out := by
  rcases head_cases us with rfl | ⟨u, rest, rfl, hu⟩ | ⟨run, cp, rest, rfl, hrun, hshorter⟩ | ⟨rest, rfl, hstuck⟩
  · exact ⟨[], by rw [decodeUnits?]⟩
  · obtain ⟨out, hout⟩ := decodes_of_meets fun tail ht => h tail (.unit hu ht)
    exact ⟨u :: out, by rw [decodeUnits?_cons hu, hout, Option.map_some]⟩
  · obtain ⟨out, hout⟩ := decodes_of_meets fun tail ht => h tail (.run hrun ht)
    exact ⟨_, by rw [decodeUnits?_run hrun, hout, Option.map_some]⟩
  · exact absurd (h rest (.here _)) hstuck
termination_by us.length

end Reading

end Uri

/-- **Which units are read, and as what.** For every set of reserved units: reading succeeds if and only if every
percent sign that is met on the way begins a run of escapes that spells a scalar value; then each such run is the
character, or stays as it is if that is a reserved unit, and all other units stay. The functions that read whole URIs
and components give that, and otherwise fail with a URI error. -/
theorem uri_reading :
    (∀ (reserved : CodeUnit → Bool) (us : List CodeUnit),
      ((∃ out, Uri.decodeUnits? reserved us = some out) ↔
        ∀ rest, Uri.Meets us (0x25 :: rest) → Uri.BeginsRun (0x25 :: rest)) ∧
      ∀ out, Uri.decodeUnits? reserved us = some out ↔ Uri.Reads reserved us out) ∧
    ∀ (s : Uri.Scope) (t : Text) (bodies : Bodies) (m : Machine),
      (∃ out, Uri.Reads s.reserves t.toList out ∧
        globalFunction s.decoder [.string t] bodies m = .ok (.string (.ofList out)) m) ∨
      (∃ rest, Uri.Meets t.toList (0x25 :: rest) ∧ ¬ Uri.BeginsRun (0x25 :: rest)) ∧
        Fault.badUri.kind = .uriError ∧
        globalFunction s.decoder [.string t] bodies m = .error (.fault .badUri) m := by
  have hreads (reserved : CodeUnit → Bool) (us : List CodeUnit) : (∃ out, Uri.decodeUnits? reserved us = some out) ↔
      ∀ rest, Uri.Meets us (0x25 :: rest) → Uri.BeginsRun (0x25 :: rest) := by
    refine ⟨fun hus rest hmeets => ?_, Uri.decodes_of_meets⟩
    refine Classical.byContradiction fun hstuck => ?_
    obtain ⟨out, hout⟩ := hmeets.decodes hus
    rw [Uri.decodeUnits?_stuck hstuck] at hout
    cases hout
  refine ⟨fun reserved us => ⟨hreads reserved us, fun out =>
    ⟨Uri.reads_of_decodeUnits?, Uri.decodeUnits?_of_reads⟩⟩, fun s t bodies m => ?_⟩
  rw [s.decoder_ends, Uri.decode?]
  cases hout : Uri.decodeUnits? s.reserves t.toList with
  | some out => exact .inl ⟨out, Uri.reads_of_decodeUnits? hout, rfl⟩
  | none =>
    have hnot : ¬ ∀ rest, Uri.Meets t.toList (0x25 :: rest) → Uri.BeginsRun (0x25 :: rest) := by
      intro hall
      obtain ⟨out, hsome⟩ := (hreads s.reserves t.toList).mpr hall
      rw [hsome] at hout
      cases hout
    obtain ⟨rest, hrest⟩ := Classical.not_forall.mp hnot
    exact .inr ⟨⟨rest, Classical.not_imp.mp hrest⟩, rfl, rfl⟩

/-- Digits in either case; an escape of a reserved unit, which stays; and an overlong form, a surrogate and a sequence
that breaks off, which are not read. -/
example : Uri.decode? .whole (.ofString "%e2%82%AC%2F") = some (.ofString "€%2F") ∧
    Uri.decode? .component (.ofString "%C0%AF") = none ∧ Uri.decode? .component (.ofString "%ED%A0%80") = none ∧
    Uri.decode? .component (.ofString "%E2%82") = none := by decide +kernel

end Ecma51
