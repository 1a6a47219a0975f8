import Ecma51.Pattern.Class
import Ecma51.Proofs.GlobalMatches
import Ecma51.Proofs.MatchBounds
import Ecma51.Proofs.RadixTexts
import Ecma51.Proofs.ShownTexts

/-!
# Searching in shown texts

The characters of a range of units are no range of characters when the range reaches into the surrogates. It is written as
up to three ranges, in each of which the characters follow one another as the units do; together they hold the characters
of the units of the range and no others, whether they are read as written or as items of a class.

A search may be left to an engine that knows nothing of units: it is shown a text with one character for each unit, is told
where to begin in octets, and tells in octets what it has found. As long as it cuts no character, every span that it tells
is that of units, and of the same units for every reader; so whatever it finds is found in units.

* `SameBlock`: the ends of a range between which stand-ins do not leave their plane.
* `exists_piece_iff`, **`exists_shownPiece_iff`**: the units of the pieces of a range, and their characters.
* `writtenRange`, `readRanges?`, `readRanges?_writtenRange`: the pieces as text, and the ranges of a text.
* `Writes`, **`exists_writes`**: what a range is written as.
* `join?_ofRanges`, **`exists_class`**: the pieces as items of a class.
* `OctetSearch`, `OctetSearch.find?`: an engine for octets, and the search in units that is left to it.
* `OctetSearch.KeepsBoundaries`: it cuts no character.
* `Translates`, **`OctetSearch.find?_eq_some_iff`**: the search finds what the engine tells.
* **`Pattern.find?_octetSearch`**: a search in units, left to octets, finds the same.
* **`shownTexts_exact`**: units, offsets, ranges and matches together.
-/

namespace Ecma51

namespace Pattern

variable {lo hi a b cp n : Nat} {ps : List (Nat × Nat)}

/-! ## 1. Pieces -/

/-- A range of units within one of the three blocks: below the surrogates, the surrogates, and above them. -/
structure SameBlock (a b : Nat) : Prop where
  le : a ≤ b
  last : b ≤ 0xFFFF
  block : b ≤ 0xD7FF ∨ (0xD800 ≤ a ∧ b ≤ 0xDFFF) ∨ 0xE000 ≤ a

/-- Within a block, all stand-ins are as far from their units as that of the first. -/
theorem SameBlock.standIn_eq (h : SameBlock a b) (hlow : a ≤ n) (hhigh : n ≤ b) :
    standIn n + a = standIn a + n := by
  obtain ⟨hle, hlast, hblock⟩ := h
  rcases standIn_cases (show a ≤ 0xFFFF by omega) with ⟨_, _, ha⟩ | ⟨_, ha⟩ <;>
    rcases standIn_cases (show n ≤ 0xFFFF by omega) with ⟨_, _, hn⟩ | ⟨_, hn⟩ <;> omega

theorem SameBlock.standIn_le (h : SameBlock a b) : standIn a ≤ standIn b := by
  have hends := h.standIn_eq h.le (Nat.le_refl b)
  have hle := h.le
  omega

/-- **Between the stand-ins of the ends stand those of the units between, and nothing else.** -/
theorem SameBlock.exists_standIn_iff (h : SameBlock a b) :
    standIn a ≤ cp ∧ cp ≤ standIn b ↔ ∃ n, a ≤ n ∧ n ≤ b ∧ standIn n = cp := by
  have hends := h.standIn_eq h.le (Nat.le_refl b)
  constructor
  · rintro ⟨hlow, hhigh⟩
    have hunit := h.standIn_eq (n := a + (cp - standIn a)) (by omega) (by omega)
    exact ⟨a + (cp - standIn a), by omega, by omega, by omega⟩
  · rintro ⟨n, hlow, hhigh, rfl⟩
    have hunit := h.standIn_eq hlow hhigh
    omega

/-- A range that reaches into the surrogates: what is below them and above them may be missing. -/
theorem mem_rangePieces (hreach : lo ≤ hi ∧ 0xD800 ≤ hi ∧ lo ≤ 0xDFFF) {p : Nat × Nat} :
    p ∈ rangePieces lo hi ↔ (lo < 0xD800 ∧ p = (lo, 0xD7FF)) ∨ p = (max lo 0xD800, min hi 0xDFFF) ∨
      (0xDFFF < hi ∧ p = (0xE000, hi)) := by
  unfold rangePieces
  rw [if_neg (by omega), List.mem_append, List.mem_append, or_assoc, List.mem_singleton, List.mem_ite_nil_right,
    List.mem_ite_nil_right, List.mem_singleton, List.mem_singleton]

theorem length_rangePieces_le (lo hi : Nat) : (rangePieces lo hi).length ≤ 3 := by
  unfold rangePieces
  split
  · exact Nat.le_add_left 1 2
  · split <;> split <;> exact Nat.le_of_ble_eq_true rfl

/-- Each piece lies within a block. -/
theorem sameBlock_of_mem (hle : lo ≤ hi) (hhi : hi ≤ 0xFFFF) {p : Nat × Nat} (hp : p ∈ rangePieces lo hi) :
    SameBlock p.1 p.2 := by
  by_cases hreach : 0xD800 ≤ hi ∧ lo ≤ 0xDFFF
  · rcases (mem_rangePieces ⟨hle, hreach⟩).mp hp with ⟨_, rfl⟩ | rfl | ⟨_, rfl⟩
    · exact ⟨by dsimp only; omega, by dsimp only; omega, by dsimp only; omega⟩
    · exact ⟨by dsimp only; omega, by dsimp only; omega, by dsimp only; omega⟩
    · exact ⟨by dsimp only; omega, by dsimp only; omega, by dsimp only; omega⟩
  · unfold rangePieces at hp
    rw [if_pos (by omega), List.mem_singleton] at hp
    subst hp
    exact ⟨hle, hhi, by dsimp only; omega⟩

/-- **A unit lies in one of the pieces exactly if it lies in the range.** -/
theorem exists_piece_iff (hle : lo ≤ hi) : (∃ p ∈ rangePieces lo hi, p.1 ≤ n ∧ n ≤ p.2) ↔ lo ≤ n ∧ n ≤ hi := by
  by_cases hreach : 0xD800 ≤ hi ∧ lo ≤ 0xDFFF
  · have hmem {p : Nat × Nat} := mem_rangePieces (p := p) ⟨hle, hreach⟩
    constructor
    · rintro ⟨p, hp, hn⟩
      rcases hmem.mp hp with ⟨_, rfl⟩ | rfl | ⟨_, rfl⟩ <;> dsimp only at hn <;> omega
    · intro hn
      rcases Nat.lt_or_ge n 0xD800 with hbelow | hbelow
      · exact ⟨_, hmem.mpr (.inl ⟨by omega, rfl⟩), hn.1, Nat.le_of_lt_succ hbelow⟩
      · rcases Nat.lt_or_ge 0xDFFF n with habove | habove
        · exact ⟨_, hmem.mpr (.inr (.inr ⟨by omega, rfl⟩)), habove, hn.2⟩
        · exact ⟨_, hmem.mpr (.inr (.inl rfl)), Nat.max_le.mpr ⟨hn.1, hbelow⟩, Nat.le_min.mpr ⟨hn.2, habove⟩⟩
  · unfold rangePieces
    rw [if_pos (by omega)]
    simp only [List.mem_singleton, exists_eq_left]

/-- **The characters of the pieces are those of the units of the range.** -/
theorem exists_shownPiece_iff (hle : lo ≤ hi) (hhi : hi ≤ 0xFFFF) :
    (∃ p ∈ rangePieces lo hi, standIn p.1 ≤ cp ∧ cp ≤ standIn p.2) ↔ ∃ n, lo ≤ n ∧ n ≤ hi ∧ standIn n = cp := by
  constructor
  · rintro ⟨p, hp, hcp⟩
    obtain ⟨n, hlow, hhigh, hn⟩ := (sameBlock_of_mem hle hhi hp).exists_standIn_iff.mp hcp
    obtain ⟨hlow, hhigh⟩ := (exists_piece_iff hle).mp ⟨p, hp, hlow, hhigh⟩
    exact ⟨n, hlow, hhigh, hn⟩
  · rintro ⟨n, hlow, hhigh, hn⟩
    obtain ⟨p, hp, hlow, hhigh⟩ := (exists_piece_iff hle).mpr ⟨hlow, hhigh⟩
    exact ⟨p, hp, (sameBlock_of_mem hle hhi hp).exists_standIn_iff.mpr ⟨n, hlow, hhigh, hn⟩⟩

/-! ## 2. Pieces as they are written -/

/-- The character of a unit in a pattern: its code point in hexadecimal, in braces. -/
def writtenUnit (n : Nat) : List Char := '\\' :: 'x' :: '\x7b' :: (Nat.toDigits 16 (standIn n) ++ ['\x7d'])

/-- Pieces in a class: the ends of each joined by a dash. -/
def writtenPieces (ps : List (Nat × Nat)) : List Char := ps.flatMap fun (a, b) => writtenUnit a ++ '-' :: writtenUnit b

/-- A range of units in a class. -/
def writtenRange (lo hi : Nat) : List Char := writtenPieces (rangePieces lo hi)

/-- The number that hexadecimal digits up to the closing brace continue, and what is behind the brace. -/
def readDigits? : Nat → List Char → Option (Nat × List Char)
  | _, [] => none
  | acc, c :: cs =>
    if c = '\x7d' then some (acc, cs)
    else (CodeUnit.ofChar c).hexValue?.bind fun d => readDigits? (acc * 16 + d) cs

/-- The code point of an escape in braces, and what is behind it. -/
def readCodePoint? : List Char → Option (Nat × List Char)
  | '\\' :: 'x' :: '\x7b' :: cs => readDigits? 0 cs
  | _ => none

/-- The ends of a range of characters, both included, and what is behind it. -/
def readRange? (cs : List Char) : Option ((Nat × Nat) × List Char) := do
  let (lo, rest) ← readCodePoint? cs
  match rest with
  | '-' :: rest => (readCodePoint? rest).map fun (hi, after) => ((lo, hi), after)
  | _ => none

/-- The ranges of a text, of which there are so many at most. -/
def readRangesUpTo? : Nat → List Char → Option (List (Nat × Nat))
  | _, [] => some []
  | 0, _ :: _ => none
  | k + 1, c :: cs => do
    let (range, rest) ← readRange? (c :: cs)
    return range :: (← readRangesUpTo? k rest)

/-- The ranges of a text. -/
def readRanges? (cs : List Char) : Option (List (Nat × Nat)) := readRangesUpTo? cs.length cs

/-- The digits of a number in hexadecimal. -/
theorem exists_hexDigits (n : Nat) :
    ∃ ds, (∀ d ∈ ds, d < 16) ∧ baseNumber 16 ds = n ∧ Nat.toDigits 16 n = ds.map Nat.digitChar := by
  induction n using Nat.strongRecOn with
  | ind n ih =>
    by_cases hsmall : n < 16
    · exact ⟨[n], List.forall_mem_singleton.mpr hsmall, Nat.zero_add n, Nat.toDigits_of_lt_base hsmall⟩
    · obtain ⟨ds, hlt, hnumber, hdigits⟩ := ih (n / 16) (by omega)
      have hlast : n % 16 < 16 := Nat.mod_lt n (by decide)
      refine ⟨ds ++ [n % 16], ?_, ?_, ?_⟩
      · exact List.forall_mem_append.mpr ⟨hlt, List.forall_mem_singleton.mpr hlast⟩
      · rw [baseNumber_concat, hnumber]
        omega
      · rw [Nat.toDigits_of_base_le (by decide) (Nat.not_lt.mp hsmall), hdigits, List.map_append, List.map_singleton]

theorem digitChar_hex {d : Nat} (hd : d < 16) :
    Nat.digitChar d ≠ '\x7d' ∧ (CodeUnit.ofChar (Nat.digitChar d)).hexValue? = some d := by
  have hall : ∀ d < 16, Nat.digitChar d ≠ '\x7d' ∧ (CodeUnit.ofChar (Nat.digitChar d)).hexValue? = some d := by decide
  exact hall d hd

theorem readDigits?_digits {ds : List Nat} (hds : ∀ d ∈ ds, d < 16) (acc : Nat) (rest : List Char) :
    readDigits? acc (ds.map Nat.digitChar ++ '\x7d' :: rest) =
      some (ds.foldl (fun acc d => acc * 16 + d) acc, rest) := by
  induction ds generalizing acc with
  | nil => rfl
  | cons d ds ih =>
    obtain ⟨hbrace, hvalue⟩ := digitChar_hex (hds d List.mem_cons_self)
    rw [List.map_cons, List.cons_append, readDigits?, if_neg hbrace, hvalue]
    exact ih (fun e he => hds e (List.mem_cons_of_mem d he)) _

/-- A written unit is read as the code point of its character. -/
theorem readCodePoint?_writtenUnit (n : Nat) (rest : List Char) :
    readCodePoint? (writtenUnit n ++ rest) = some (standIn n, rest) := by
  obtain ⟨ds, hlt, hnumber, hdigits⟩ := exists_hexDigits (standIn n)
  have hshape : writtenUnit n ++ rest = '\\' :: 'x' :: '\x7b' :: (ds.map Nat.digitChar ++ '\x7d' :: rest) := by
    rw [writtenUnit, hdigits, List.cons_append, List.cons_append, List.cons_append, List.append_assoc]
    rfl
  rw [hshape, readCodePoint?, readDigits?_digits hlt]
  exact congrArg (fun k => some (k, rest)) hnumber

/-- The characters at the ends of a range of units. -/
def shownEnds (p : Nat × Nat) : Nat × Nat := (standIn p.1, standIn p.2)

theorem readRangesUpTo?_writtenPieces {k : Nat} (hk : ps.length ≤ k) :
    readRangesUpTo? k (writtenPieces ps) = some (ps.map shownEnds) := by
  induction ps generalizing k with
  | nil => rw [writtenPieces, List.flatMap_nil, readRangesUpTo?, List.map_nil]
  | cons p ps ih =>
    obtain _ | k := k
    · cases hk
    · have hrange : readRange? (writtenUnit p.1 ++ '-' :: (writtenUnit p.2 ++ writtenPieces ps)) =
          some (shownEnds p, writtenPieces ps) := by
        unfold readRange?
        rw [readCodePoint?_writtenUnit]
        show (readCodePoint? (writtenUnit p.2 ++ _)).map _ = _
        rw [readCodePoint?_writtenUnit]
        rfl
      have hshape : writtenPieces (p :: ps) = writtenUnit p.1 ++ '-' :: (writtenUnit p.2 ++ writtenPieces ps) := by
        rw [writtenPieces, List.flatMap_cons, List.append_assoc]
        rfl
      rw [hshape]
      show (readRange? (writtenUnit p.1 ++ '-' :: (writtenUnit p.2 ++ writtenPieces ps))).bind (fun (range, rest) =>
        (readRangesUpTo? k rest).bind fun found => some (range :: found)) = _
      rw [hrange]
      show (readRangesUpTo? k (writtenPieces ps)).bind _ = _
      rw [ih (Nat.le_of_succ_le_succ hk)]
      rfl

theorem length_le_length_writtenPieces (ps : List (Nat × Nat)) : ps.length ≤ (writtenPieces ps).length := by
  induction ps with
  | nil => exact Nat.le_refl 0
  | cons p ps ih =>
    rw [writtenPieces, List.flatMap_cons, List.length_append, List.length_append, List.length_cons, List.length_cons]
    exact Nat.le_trans (Nat.add_le_add_right ih 1) (by rw [writtenPieces]; omega)

/-- **A range of units is read as the ranges of the characters of its pieces.** -/
theorem readRanges?_writtenRange (lo hi : Nat) :
    readRanges? (writtenRange lo hi) = some ((rangePieces lo hi).map shownEnds) :=
  readRangesUpTo?_writtenPieces (length_le_length_writtenPieces _)

/-- What a range of units is written as: three ranges of characters at most, with ends that exist and in order, that hold
the characters of the units of the range and no others. -/
structure Writes (lo hi : Nat) (ranges : List (Nat × Nat)) : Prop where
  read : readRanges? (writtenRange lo hi) = some ranges
  length_le : ranges.length ≤ 3
  ends : ∀ r ∈ ranges, r.1 ≤ r.2 ∧ Utf8.isScalarValue r.1 = true ∧ Utf8.isScalarValue r.2 = true
  characters : ∀ c : Char, (∃ r ∈ ranges, r.1 ≤ c.toNat ∧ c.toNat ≤ r.2) ↔
    ∃ u : CodeUnit, lo ≤ u.toNat ∧ u.toNat ≤ hi ∧ standInChar u = c

/-- **A range of units is written as the characters of its units.** -/
theorem exists_writes (hle : lo ≤ hi) (hhi : hi ≤ 0xFFFF) : ∃ ranges, Writes lo hi ranges := by
  refine ⟨_, readRanges?_writtenRange lo hi, ?_, fun r hr => ?_, fun c => ?_⟩
  · rw [List.length_map]
    exact length_rangePieces_le lo hi
  · obtain ⟨p, hp, rfl⟩ := List.mem_map.mp hr
    exact ⟨(sameBlock_of_mem hle hhi hp).standIn_le, isScalarValue_standIn _, isScalarValue_standIn _⟩
  · have hpieces : (∃ r ∈ (rangePieces lo hi).map shownEnds, r.1 ≤ c.toNat ∧ c.toNat ≤ r.2) ↔
        ∃ p ∈ rangePieces lo hi, standIn p.1 ≤ c.toNat ∧ c.toNat ≤ standIn p.2 := by
      simp only [List.mem_map, exists_exists_and_eq_and, shownEnds]
    rw [hpieces, exists_shownPiece_iff hle hhi]
    constructor
    · rintro ⟨n, hlow, hhigh, hn⟩
      have hunit : n.toUInt16.toNat = n := UInt16.toNat_ofNat_of_lt' (Nat.lt_succ_of_le (Nat.le_trans hhigh hhi))
      refine ⟨n.toUInt16, by rwa [hunit], by rwa [hunit], Char.toNat_inj.mp ?_⟩
      rw [toNat_standInChar, hunit, hn]
    · rintro ⟨u, hlow, hhigh, rfl⟩
      exact ⟨u.toNat, hlow, hhigh, (toNat_standInChar u).symm⟩

/-! ## 3. Pieces as items -/

/-- Of the three blocks only that of the range has units between its ends. -/
theorem unitsBetween_eq (h : SameBlock a b) : unitsBetween a b = [(a, b)] := by
  have hunits : unstandIn (standIn a) = a ∧ unstandIn (standIn b) = b :=
    ⟨unstandIn_standIn (Nat.le_trans h.le h.last), unstandIn_standIn h.last⟩
  have hends : standIn 0 = 0 ∧ standIn 0xD7FF = 0xD7FF ∧ standIn 0xE000 = 0xE000 ∧ standIn 0xFFFF = 0xFFFF ∧
      standIn 0xD800 = 0xF0000 ∧ standIn 0xDFFF = 0xF07FF := by decide
  obtain ⟨h₁, h₂, h₃, h₄, h₅, h₆⟩ := hends
  obtain ⟨hle, hlast, hblock⟩ := h
  have ha := standIn_cases (show a ≤ 0xFFFF by omega)
  have hb := standIn_cases hlast
  unfold unitsBetween
  simp only [List.filterMap_cons, List.filterMap_nil, h₁, h₂, h₃, h₄, h₅, h₆]
  rcases hblock with hbelow | hinside | habove
  · have hlow : max 0 (standIn a) = standIn a := by omega
    have hhigh : min 0xD7FF (standIn b) = standIn b := by omega
    rw [hlow, hhigh, if_pos (by omega), if_neg (by omega), if_neg (by omega), hunits.1, hunits.2]
  · have hlow : max 0xF0000 (standIn a) = standIn a := by omega
    have hhigh : min 0xF07FF (standIn b) = standIn b := by omega
    rw [hlow, hhigh, if_neg (by omega), if_neg (by omega), if_pos (by omega), hunits.1, hunits.2]
  · have hlow : max 0xE000 (standIn a) = standIn a := by omega
    have hhigh : min 0xFFFF (standIn b) = standIn b := by omega
    rw [hlow, hhigh, if_neg (by omega), if_pos (by omega), if_neg (by omega), hunits.1, hunits.2]

/-- **The items of the pieces are the class of the pieces**, whatever the case. -/
theorem join?_ofRanges (folded : Bool) (hps : ∀ p ∈ ps, SameBlock p.1 p.2) :
    ClassItem.join? folded (ClassItem.ofRanges ps) = some (ps, none) := by
  induction ps with
  | nil =>
    show ClassItem.join? folded [] = _
    rw [ClassItem.join?]
  | cons p ps ih =>
    have hp := hps p List.mem_cons_self
    show ClassItem.join? folded (.unit p.1 false :: .dash :: .unit p.2 false :: ClassItem.ofRanges ps) = _
    rw [ClassItem.join?]
    · show (if standIn p.1 ≤ standIn p.2 then _ else _) = _
      rw [if_pos hp.standIn_le, ih fun q hq => hps q (List.mem_cons_of_mem p hq)]
      show some (unitsBetween p.1 p.2 ++ ps, none) = _
      rw [unitsBetween_eq hp]
      rfl
    · exact fun _ h => by cases h

/-- **A range of units is the class of its units.** -/
theorem exists_class (hle : lo ≤ hi) (hhi : hi ≤ 0xFFFF) (folded : Bool) :
    ∃ s : UnitSet, ClassItem.join? folded (ClassItem.ofRanges (rangePieces lo hi)) = some (s, none) ∧
      ∀ n, s.holds n = true ↔ lo ≤ n ∧ n ≤ hi := by
  refine ⟨_, join?_ofRanges folded fun p hp => sameBlock_of_mem hle hhi hp, fun n => ?_⟩
  rw [← exists_piece_iff hle, UnitSet.holds, List.any_eq_true]
  simp only [Bool.and_eq_true, decide_eq_true_iff]

end Pattern

open Pattern (Span Match)

/-! ## 4. Searches -/

namespace Offsets

variable {t : Text} {s : Span}

/-- A span of octets as a span of units. -/
def unitSpan (o : Offsets) (s : Span) : Span := (o.toUnit s.1, o.toUnit s.2)

/-- A span of units as a span of octets. -/
def octetSpan (o : Offsets) (s : Span) : Span := (o.toByte s.1, o.toByte s.2)

theorem unitSpan_octetSpan (h : Pattern.SpanWithin t.length s) :
    (ofText t).unitSpan ((ofText t).octetSpan s) = s :=
  Prod.ext (toUnit_toByte h.1) (toUnit_toByte h.2)

end Offsets

/-- An engine that searches in octets. From a shown text and an offset it tells, if there is a match from there on, the
spans of the match, as number 0, and of the groups that took part. -/
structure OctetSearch where
  groups : Nat
  run : String → Nat → Option (Nat → Option Span)

namespace OctetSearch

/-- The first match from a unit position on, left to an engine. -/
def find? (e : OctetSearch) (subject : Text) (start : Nat) : Option Match := do
  if subject.length < start then none
  let o := Offsets.ofText subject
  let told ← e.run o.shown (o.toByte start)
  let span ← (told 0).map o.unitSpan
  some { span, groups := (List.range e.groups).map fun i => (told (i + 1)).map o.unitSpan }

/-- An engine that begins between two characters tells spans that begin and end between two characters. -/
def KeepsBoundaries (e : OctetSearch) : Prop :=
  ∀ s b told i span, IsBoundary s b → e.run s b = some told → told i = some span →
    IsBoundary s span.1 ∧ IsBoundary s span.2

end OctetSearch

/-- A match in units is what is told in octets: as many spans, each of units of the text, and in octets the ones that are
told. -/
structure Translates (t : Text) (groups : Nat) (told : Nat → Option Span) (m : Match) : Prop where
  whole : told 0 = some ((Offsets.ofText t).octetSpan m.span)
  count : m.groups.length = groups
  group : ∀ i < groups, told (i + 1) = (m.groups[i]?.join).map (Offsets.ofText t).octetSpan
  inside : m.LiesIn t

section Translations

variable {t : Text} {groups : Nat} {told : Nat → Option Span} {m : Match} {e : OctetSearch} {start : Nat}

theorem Translates.span_eq (h : Translates t groups told m) : (told 0).map (Offsets.ofText t).unitSpan = some m.span := by
  rw [h.whole, Option.map_some, Offsets.unitSpan_octetSpan (h.inside m.span List.mem_cons_self)]

theorem Translates.groups_eq (h : Translates t groups told m) :
    ((List.range groups).map fun i => (told (i + 1)).map (Offsets.ofText t).unitSpan) = m.groups := by
  refine List.ext_getElem (by rw [List.length_map, List.length_range, h.count]) fun i hi hi' => ?_
  have hrange : i < groups := h.count ▸ hi'
  rw [List.getElem_map, List.getElem_range, h.group i hrange, List.getElem?_eq_getElem hi', Option.join_some]
  cases hs : m.groups[i] with
  | none => rfl
  | some s =>
    have hmem : some s ∈ m.spans := List.mem_cons_of_mem _ (hs ▸ List.getElem_mem hi')
    rw [Option.map_some, Option.map_some, Offsets.unitSpan_octetSpan (h.inside s hmem)]

/-- A span between characters of a shown text is that of units of the text. -/
theorem octetSpan_unitSpan {s : Span} (hfirst : IsBoundary (Offsets.ofText t).shown s.1)
    (hlast : IsBoundary (Offsets.ofText t).shown s.2) :
    Pattern.SpanWithin t.length ((Offsets.ofText t).unitSpan s) ∧
      (Offsets.ofText t).octetSpan ((Offsets.ofText t).unitSpan s) = s := by
  obtain ⟨first, last⟩ := s
  obtain ⟨i, hi, rfl⟩ := Offsets.isBoundary_shown_iff.mp hfirst
  obtain ⟨j, hj, rfl⟩ := Offsets.isBoundary_shown_iff.mp hlast
  have hunits := Offsets.unitSpan_octetSpan (t := t) (s := (i, j)) ⟨hi, hj⟩
  change (Offsets.ofText t).unitSpan ((Offsets.ofText t).toByte i, (Offsets.ofText t).toByte j) = (i, j) at hunits
  rw [hunits]
  exact ⟨⟨hi, hj⟩, rfl⟩

theorem OctetSearch.find?_of_le (e : OctetSearch) (hstart : start ≤ t.length) :
    e.find? t start = (e.run (Offsets.ofText t).shown ((Offsets.ofText t).toByte start)).bind fun told =>
      ((told 0).map (Offsets.ofText t).unitSpan).bind fun span =>
        some ⟨span, (List.range e.groups).map fun i => (told (i + 1)).map (Offsets.ofText t).unitSpan⟩ := by
  unfold OctetSearch.find?
  dsimp only
  rw [if_neg (Nat.not_lt.mpr hstart)]
  rfl

theorem OctetSearch.find?_of_lt (e : OctetSearch) (hstart : t.length < start) : e.find? t start = none := by
  unfold OctetSearch.find?
  dsimp only
  rw [if_pos hstart]
  rfl

/-- **The search in units finds a match exactly if the engine tells this match in octets.** -/
theorem OctetSearch.find?_eq_some_iff (he : e.KeepsBoundaries) :
    e.find? t start = some m ↔ start ≤ t.length ∧
      ∃ told, e.run (Offsets.ofText t).shown ((Offsets.ofText t).toByte start) = some told ∧
        Translates t e.groups told m := by
  rcases Nat.lt_or_ge t.length start with hbeyond | hstart
  · rw [e.find?_of_lt hbeyond]
    exact iff_of_false (fun h => by cases h) fun h => absurd h.1 (Nat.not_le.mpr hbeyond)
  rw [e.find?_of_le hstart, Option.bind_eq_some_iff, and_iff_right hstart]
  refine exists_congr fun told => and_congr_right fun hrun => ?_
  have hbegin : IsBoundary (Offsets.ofText t).shown ((Offsets.ofText t).toByte start) :=
    Offsets.isBoundary_shown_iff.mpr ⟨start, hstart, rfl⟩
  have hcut {i : Nat} {s : Span} (hs : told i = some s) := octetSpan_unitSpan (he _ _ told i s hbegin hrun hs).1
    (he _ _ told i s hbegin hrun hs).2
  rw [Option.bind_eq_some_iff]
  constructor
  · rintro ⟨span, hspan, hm⟩
    obtain ⟨s, hs, rfl⟩ := Option.map_eq_some_iff.mp hspan
    obtain rfl := Option.some.inj hm
    refine ⟨hs.trans (congrArg some (hcut hs).2.symm), ?_, fun i hi => ?_, fun x hx => ?_⟩
    · rw [List.length_map, List.length_range]
    · rw [List.getElem?_map, List.getElem?_range hi, Option.map_some, Option.join_some]
      cases hgroup : told (i + 1) with
      | none => rfl
      | some s' => exact congrArg some (hcut hgroup).2.symm
    · rcases List.mem_cons.mp hx with hx | hx
      · obtain rfl := Option.some.inj hx
        exact (hcut hs).1
      · obtain ⟨i, _, hi⟩ := List.mem_map.mp hx
        obtain ⟨s', hs', rfl⟩ := Option.map_eq_some_iff.mp hi
        exact (hcut hs').1
  · intro h
    exact ⟨m.span, h.span_eq, congrArg some (congrArg (Match.mk m.span) h.groups_eq)⟩

end Translations

/-! ## 5. A search in units, left to octets -/

/-- The text that is shown by these characters. -/
def Text.ofShown (s : String) : Text := .ofList (s.toList.map fun c => (unstandIn c.toNat).toUInt16)

/-- **A text is read from the characters that show it.** -/
theorem Text.ofShown_shown (t : Text) : Text.ofShown (Offsets.ofText t).shown = t := by
  have hunit (u : CodeUnit) : (unstandIn (standInChar u).toNat).toUInt16 = u := by
    rw [toNat_standInChar, unstandIn_standIn (toNat_le u)]
    exact UInt16.ofNat_toNat
  refine Text.ext_toList ?_
  rw [Text.ofShown, Text.toList_ofList]
  show (Offsets.showUnits t.toList).1.toList.map _ = _
  rw [Offsets.toList_showUnits, List.map_map]
  exact (List.map_congr_left fun u _ => hunit u).trans (List.map_id _)

namespace Pattern

variable {p : Pattern} {t : Text} {start : Nat}

/-- The spans of a match by number, in octets. -/
def Match.told (o : Offsets) (m : Match) (i : Nat) : Option Span := (m.spans[i]?.join).map o.octetSpan

/-- The search for a pattern as an engine that works on octets. -/
def octetSearch (p : Pattern) : OctetSearch where
  groups := p.groups
  run s b :=
    let t := Text.ofShown s
    (p.find? t ((Offsets.ofText t).toUnit b)).map (Match.told (Offsets.ofText t))

theorem find?_of_lt (hstart : t.length < start) : p.find? t start = none := by
  unfold Pattern.find?
  dsimp only
  rw [if_pos (show t.units.size < start from hstart)]
  rfl

/-- A match reports all groups of the pattern. -/
theorem length_groups_of_find? {m : Match} (h : p.find? t start = some m) : m.groups.length = p.groups := by
  rcases Nat.lt_or_ge t.length start with hbeyond | hstart
  · rw [find?_of_lt hbeyond] at h
    cases h
  · unfold Pattern.find? at h
    dsimp only at h
    rw [if_neg (show ¬ t.units.size < start from Nat.not_lt.mpr hstart)] at h
    obtain ⟨slots, _, h⟩ := Option.bind_eq_some_iff.mp h
    obtain ⟨span, _, h⟩ := Option.bind_eq_some_iff.mp h
    obtain rfl := Option.some.inj h
    exact (List.length_map _).trans List.length_range

/-- **Left to octets, a search finds what it finds in units.** -/
theorem find?_octetSearch {flags : RegExpFlags} {source : Text} (hp : read? flags source = some p) :
    p.octetSearch.find? t start = p.find? t start := by
  rcases Nat.lt_or_ge t.length start with hbeyond | hstart
  · rw [OctetSearch.find?_of_lt _ hbeyond, find?_of_lt hbeyond]
  · have hrun : p.octetSearch.run (Offsets.ofText t).shown ((Offsets.ofText t).toByte start) =
        (p.find? t start).map (Match.told (Offsets.ofText t)) := by
      show (p.find? (Text.ofShown _) ((Offsets.ofText (Text.ofShown _)).toUnit _)).map _ = _
      rw [Text.ofShown_shown, Offsets.toUnit_toByte hstart]
    rw [OctetSearch.find?_of_le _ hstart, hrun]
    cases hm : p.find? t start with
    | none => rfl
    | some m =>
      have htranslates : Translates t p.groups (m.told (Offsets.ofText t)) m :=
        ⟨rfl, length_groups_of_find? hm, fun _ _ => rfl, liesIn_of_read? hp hm⟩
      rw [Option.map_some, Option.bind_some, htranslates.span_eq, Option.bind_some]
      exact congrArg some (congrArg (Match.mk m.span) htranslates.groups_eq)

end Pattern

/-! ## 6. All of it -/

/-- **Units survive being shown.** A unit is read from its character, and units with one character are one. A text is shown
with a character for each unit, at offsets that ascend and lead back to the units, and an octet inside a character leads to
the unit that holds it. A range of units is written as up to three ranges that hold exactly the characters of its units, and
so does the class of these ranges. And a search in units that is left to an engine for octets finds a match exactly if the
engine tells this match in octets; left to octets, a regular expression finds what it finds in units. -/
theorem shownTexts_exact :
    (∀ u : CodeUnit, unstandIn (standInChar u).toNat = u.toNat) ∧ Function.Injective standInChar ∧
    (∀ t : Text, (Offsets.ofText t).Shows t) ∧
    (∀ lo hi, lo ≤ hi → hi ≤ 0xFFFF → (∃ ranges, Pattern.Writes lo hi ranges) ∧
      ∀ folded, ∃ s : Pattern.UnitSet,
        Pattern.ClassItem.join? folded (Pattern.ClassItem.ofRanges (Pattern.rangePieces lo hi)) = some (s, none) ∧
        ∀ n, s.holds n = true ↔ lo ≤ n ∧ n ≤ hi) ∧
    (∀ e : OctetSearch, e.KeepsBoundaries → ∀ (t : Text) start (m : Match),
      e.find? t start = some m ↔ start ≤ t.length ∧
        ∃ told, e.run (Offsets.ofText t).shown ((Offsets.ofText t).toByte start) = some told ∧
          Translates t e.groups told m) ∧
    (∀ source flags (r : RegExp), RegExp.read source flags = .ok r → ∀ (t : Text) start,
      r.pattern.octetSearch.find? t start = r.pattern.find? t start) := by
  refine ⟨fun u => ?_, standInChar_injective, Offsets.shows_ofText, fun lo hi hle hhi => ⟨?_, ?_⟩, ?_, ?_⟩
  · rw [toNat_standInChar, unstandIn_standIn (toNat_le u)]
  · exact Pattern.exists_writes hle hhi
  · exact Pattern.exists_class hle hhi
  · exact fun e he t start m => OctetSearch.find?_eq_some_iff he
  · intro source flags r hr t start
    obtain ⟨flags, hp⟩ := Pattern.exists_read? hr
    exact Pattern.find?_octetSearch hp

/-- The engine for the pattern that takes everything: it finds the rest of the text. -/
def OctetSearch.everything : OctetSearch where
  groups := 0
  run s b := some fun i => if i = 0 then some (b, s.utf8ByteSize) else none

theorem OctetSearch.keepsBoundaries_everything : everything.KeepsBoundaries := by
  intro s b told i span hbegin hrun hspan
  obtain rfl := Option.some.inj hrun
  dsimp only at hspan
  split at hspan
  · obtain rfl := Option.some.inj hspan
    exact ⟨hbegin, s, "", String.append_empty.symm, rfl⟩
  · cases hspan

/-- Halves of surrogate pairs in the wrong order, with another character between them. -/
theorem shownTexts_exact_illFormed :
    let t := Text.ofList [0xDE00, 0xE9, 0xD83D]
    OctetSearch.everything.KeepsBoundaries ∧ OctetSearch.everything.find? t 1 = some ⟨(1, 3), []⟩ ∧
    emptyGlobal.pattern.octetSearch.find? t 2 = some ⟨(2, 2), []⟩ ∧
    (∃ ranges, Pattern.Writes 0xD7FF 0xE000 ranges) := by
  obtain ⟨_, _, _, hranges, hengine, hpattern⟩ := shownTexts_exact
  refine ⟨OctetSearch.keepsBoundaries_everything, ?_, ?_, (hranges _ _ (by decide) (by decide)).1⟩
  · refine (hengine _ OctetSearch.keepsBoundaries_everything _ _ _).mpr ⟨by decide, _, rfl, ?_⟩
    refine ⟨?_, rfl, fun i hi => absurd hi (Nat.not_lt_zero i), fun s hs => ?_⟩
    · exact congrArg (fun stop => some ((Offsets.ofText _).toByte 1, stop)) (Offsets.toByte_length _).symm
    · obtain rfl := Option.some.inj (List.mem_singleton.mp hs)
      exact ⟨by decide, by decide⟩
  · rw [hpattern _ _ _ read_emptyGlobal]
    exact find?_emptyGlobal (by decide)

end Ecma51
