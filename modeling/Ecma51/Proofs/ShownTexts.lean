import Mathlib.Data.List.Induction
import Mathlib.Data.Nat.Init
import Ecma51.Proofs.TextParts
import Ecma51.Proofs.UriRuns
import Ecma51.Text.Offsets

/-!
# Shown texts

A text is shown to a search with one character for each unit. The characters of a unit are told apart, and each takes
an octet at least, so the offsets of the units ascend, and halving finds the unit of every octet.

* **`unstandIn_standIn`**, `standInChar_injective`: a unit is read from its character.
* `Place.Holds`, **`Place.holds_of`**: what binary search says of a number.
* **`Offsets.toByte_lt`**: the offsets of units ascend.
* **`Offsets.toUnit_eq`**, `Offsets.toUnit_toByte`: the unit of an octet.
* **`Offsets.isBoundary_shown_iff`**: where a shown text can be cut.
-/

namespace Ecma51

/-! ## 1. Characters of units -/

section StandIns

variable {u v : CodeUnit}

theorem isScalarValue_standIn (n : Nat) : Utf8.isScalarValue (standIn n) = true := by
  unfold standIn surrogatePlane
  split
  · rw [Utf8.isScalarValue_iff]
    omega
  · split
    · assumption
    · decide

theorem toNat_standInChar (u : CodeUnit) : (standInChar u).toNat = standIn u.toNat := by
  have hscalar := Utf8.isScalarValue_iff.mp (isScalarValue_standIn u.toNat)
  have hvalid : (standIn u.toNat).isValidChar := by
    rcases Nat.lt_or_ge (standIn u.toNat) 0xD800 with hlow | hhigh
    · exact .inl hlow
    · exact .inr ⟨by omega, by omega⟩
  unfold standInChar Char.ofNat
  rw [dif_pos hvalid]
  rfl

/-- The stand-in of a unit: itself below and above the surrogates, and in a plane of their own for these. -/
theorem standIn_cases {n : Nat} (hn : n ≤ 0xFFFF) :
    (0xD800 ≤ n ∧ n ≤ 0xDFFF ∧ standIn n = 0xF0000 + (n - 0xD800)) ∨ ((n < 0xD800 ∨ 0xDFFF < n) ∧ standIn n = n) := by
  unfold standIn surrogatePlane
  by_cases hsurrogate : 0xD800 ≤ n ∧ n ≤ 0xDFFF
  · rw [if_pos hsurrogate]
    exact .inl ⟨hsurrogate.1, hsurrogate.2, rfl⟩
  · have hscalar : Utf8.isScalarValue n = true := Utf8.isScalarValue_iff.mpr ⟨by omega, hsurrogate⟩
    rw [if_neg hsurrogate, if_pos hscalar]
    exact .inr ⟨by omega, rfl⟩

theorem toNat_le (u : CodeUnit) : u.toNat ≤ 0xFFFF := Nat.le_of_lt_succ (UInt16.toNat_lt u)

/-- **The unit of a character is the one for which it stands.** -/
theorem unstandIn_standIn {n : Nat} (hn : n ≤ 0xFFFF) : unstandIn (standIn n) = n := by
  unfold unstandIn surrogatePlane
  rcases standIn_cases hn with ⟨hlow, hhigh, hstand⟩ | ⟨hother, hstand⟩
  · rw [hstand, if_pos (by omega)]
    omega
  · rw [hstand, if_neg (by omega)]

theorem standInChar_injective : Function.Injective standInChar := by
  intro u v h
  have hnat : standIn u.toNat = standIn v.toNat := by rw [← toNat_standInChar, ← toNat_standInChar, h]
  apply UInt16.toNat_inj.mp
  rw [← unstandIn_standIn (toNat_le u), hnat, unstandIn_standIn (toNat_le v)]

end StandIns

/-! ## 2. Binary search -/

/-- The entries of an array grow. -/
def Ascending (xs : Array Nat) : Prop := ∀ i j (hi : i < xs.size) (hj : j < xs.size), i < j → xs[i] < xs[j]

namespace Place

variable {xs : Array Nat} {x : Nat}

/-- What a place says of a number: it stands there, or all that is before is less and all from there on is greater. -/
def Holds (xs : Array Nat) (x : Nat) : Place → Prop
  | .found i => xs[i]? = some x
  | .missing i => i ≤ xs.size ∧ ∀ j (hj : j < xs.size), (j < i → xs[j] < x) ∧ (i ≤ j → x < xs[j])

/-- As long as what was left out lies on the right sides, the place among the rest is the place in the array. -/
theorem holds_between (hxs : Ascending xs) {lo hi : Nat} (hhi : hi ≤ xs.size) (hle : lo ≤ hi)
    (hbelow : ∀ j (hj : j < xs.size), j < lo → xs[j] < x) (habove : ∀ j (hj : j < xs.size), hi ≤ j → x < xs[j]) :
    (between xs x lo hi hhi).Holds xs x := by
  fun_induction between xs x lo hi hhi with
  | case1 lo hi hhi hlt mid hmid hless ih =>
    refine ih (by omega) (fun j hj hjmid => ?_) habove
    -- up to the middle everything is at most the entry in the middle
    rcases Nat.lt_or_eq_of_le (Nat.le_of_lt_succ hjmid) with hbefore | rfl
    · exact Nat.lt_trans (hxs j mid hj (by omega) hbefore) hless
    · exact hless
  | case2 lo hi hhi hlt mid hmid hless hgreater ih =>
    refine ih (by omega) hbelow fun j hj hjmid => ?_
    rcases Nat.lt_or_eq_of_le hjmid with hafter | rfl
    · exact Nat.lt_trans hgreater (hxs mid j (by omega) hj hafter)
    · exact hgreater
  | case3 lo hi hhi hlt mid hmid hless hgreater =>
    have heq : xs[mid] = x := Nat.le_antisymm (Nat.not_lt.mp hgreater) (Nat.not_lt.mp hless)
    exact (Array.getElem?_eq_getElem (by omega)).trans (congrArg some heq)
  | case4 lo hi hhi hlt =>
    exact ⟨by omega, fun j hj => ⟨hbelow j hj, fun hge => habove j hj (by omega)⟩⟩

/-- **A number is found in an ascending array exactly where it stands**, and else between its neighbours. -/
theorem holds_of (hxs : Ascending xs) (x : Nat) : (of xs x).Holds xs x :=
  holds_between hxs (Nat.le_refl _) (Nat.zero_le _) (fun _ _ h => absurd h (Nat.not_lt_zero _))
    fun _ hj h => absurd hj (Nat.not_lt.mpr h)

end Place

/-! ## 3. Offsets -/

namespace Offsets

/-- The octets of the characters of units. -/
def octets (us : List CodeUnit) : Nat := (showUnits us).1.utf8ByteSize

section Units

variable {us : List CodeUnit} {i : Nat}

theorem showUnits_concat (us : List CodeUnit) (u : CodeUnit) : showUnits (us ++ [u]) = showUnit (showUnits us) u :=
  List.foldl_append

/-- What is shown of units: a character for each. -/
theorem toList_showUnits (us : List CodeUnit) : (showUnits us).1.toList = us.map standInChar := by
  induction us using List.reverseRecOn with
  | nil => rfl
  | append_singleton us u ih =>
    rw [showUnits_concat, List.map_append, ← ih]
    exact String.toList_push _

theorem octets_concat (us : List CodeUnit) (u : CodeUnit) : octets (us ++ [u]) = octets us + (standInChar u).utf8Size := by
  unfold octets
  rw [showUnits_concat]
  exact String.utf8ByteSize_push

/-- The offsets of units: what is before each of them. -/
theorem starts_showUnits (us : List CodeUnit) :
    (showUnits us).2.size = us.length ∧ ∀ i < us.length, (showUnits us).2[i]? = some (octets (us.take i)) := by
  induction us using List.reverseRecOn with
  | nil => exact ⟨rfl, fun i hi => absurd hi (Nat.not_lt_zero i)⟩
  | append_singleton us u ih =>
    obtain ⟨hsize, hstart⟩ := ih
    rw [showUnits_concat, List.length_append]
    refine ⟨(Array.size_push _).trans (congrArg (· + 1) hsize), fun i hi => ?_⟩
    show ((showUnits us).2.push (octets us))[i]? = _
    rcases Nat.lt_or_eq_of_le (Nat.le_of_lt_succ hi) with hlt | rfl
    · rw [Array.getElem?_push_lt (hsize ▸ hlt), List.take_append_of_le_length (Nat.le_of_lt hlt), ← hstart i hlt]
      exact (Array.getElem?_eq_getElem _).symm
    · rw [← hsize, Array.getElem?_push_size, hsize, List.take_left]

end Units

section Texts

variable {t : Text} {i j b : Nat}

theorem size_starts (t : Text) : (ofText t).starts.size = t.length + 1 := by
  rw [Text.length_eq, ← (starts_showUnits t.toList).1]
  exact Array.size_push _

theorem lt_size_starts : i < (ofText t).starts.size ↔ i ≤ t.length := by
  rw [size_starts, Nat.lt_succ_iff]

theorem getElem?_starts (hi : i ≤ t.length) : (ofText t).starts[i]? = some (octets (t.toList.take i)) := by
  obtain ⟨hsize, hstart⟩ := starts_showUnits t.toList
  rw [Text.length_eq] at hi
  show ((showUnits t.toList).2.push (octets t.toList))[i]? = _
  rcases Nat.lt_or_eq_of_le hi with hlt | rfl
  · rw [Array.getElem?_push_lt (hsize ▸ hlt), ← hstart i hlt]
    exact (Array.getElem?_eq_getElem _).symm
  · rw [← hsize, Array.getElem?_push_size, hsize, List.take_length]

/-- **A unit begins where the characters of the units before it end.** -/
theorem toByte_eq (hi : i ≤ t.length) : (ofText t).toByte i = octets (t.toList.take i) := by
  have hlast := size_starts t
  have hmin : min i ((ofText t).starts.size - 1) = i := by omega
  apply Option.some.inj
  rw [← getElem?_starts hi, toByte, ← Array.getElem?_eq_getElem, hmin]

theorem octets_take_lt (hi : i < t.length) : octets (t.toList.take i) < octets (t.toList.take (i + 1)) := by
  have hlist : i < t.toList.length := hi
  rw [List.take_succ_eq_append_getElem hlist, octets_concat]
  exact Nat.lt_add_of_pos_right (Char.utf8Size_pos _)

/-- **The offsets of units ascend.** -/
theorem toByte_lt (hij : i < j) (hj : j ≤ t.length) : (ofText t).toByte i < (ofText t).toByte j := by
  induction j, hij using Nat.le_induction with
  | base =>
    rw [toByte_eq (Nat.le_of_lt hj), toByte_eq hj]
    exact octets_take_lt hj
  | succ j hij ih =>
    refine Nat.lt_trans (ih (Nat.le_of_lt hj)) ?_
    rw [toByte_eq (Nat.le_of_lt hj), toByte_eq hj]
    exact octets_take_lt hj

theorem toByte_le (hij : i ≤ j) (hj : j ≤ t.length) : (ofText t).toByte i ≤ (ofText t).toByte j := by
  rcases Nat.lt_or_eq_of_le hij with hlt | rfl
  · exact Nat.le_of_lt (toByte_lt hlt hj)
  · exact Nat.le_refl _

theorem getElem_starts (hi : i < (ofText t).starts.size) : (ofText t).starts[i] = (ofText t).toByte i := by
  have hle : i ≤ t.length := lt_size_starts.mp hi
  apply Option.some.inj
  rw [← Array.getElem?_eq_getElem, getElem?_starts hle, toByte_eq hle]

theorem ascending_starts (t : Text) : Ascending (ofText t).starts := by
  intro i j hi hj hij
  rw [getElem_starts hi, getElem_starts hj]
  exact toByte_lt hij (lt_size_starts.mp hj)

/-- **An octet belongs to the last unit that begins there or before.** -/
theorem toUnit_eq (hi : i ≤ t.length) (hle : (ofText t).toByte i ≤ b)
    (hnext : i < t.length → b < (ofText t).toByte (i + 1)) : (ofText t).toUnit b = i := by
  have hsize := size_starts t
  have hplace := Place.holds_of (ascending_starts t) b
  unfold toUnit
  cases hof : Place.of (ofText t).starts b with
  | found k =>
    rw [hof] at hplace
    obtain ⟨hk, hstart⟩ := Array.getElem?_eq_some_iff.mp hplace
    rw [getElem_starts hk] at hstart
    rcases Nat.lt_trichotomy k i with hbefore | rfl | hafter
    · exact absurd (toByte_lt hbefore hi) (by omega)
    · rfl
    · have hk' : k ≤ t.length := by omega
      exact absurd (toByte_le hafter hk') (Nat.not_le.mpr (hstart ▸ hnext (by omega)))
  | missing k =>
    rw [hof] at hplace
    obtain ⟨hk, hsides⟩ := hplace
    -- the unit lies before the place, and the next one behind it
    have hbefore : i < k := by
      refine Nat.lt_of_not_le fun hge => ?_
      have hgreater := (hsides i (by omega)).2 hge
      rw [getElem_starts (by omega)] at hgreater
      omega
    have hbehind : ¬ i + 1 < k := by
      intro hlt
      have hless := (hsides (i + 1) (by omega)).1 hlt
      rw [getElem_starts (by omega)] at hless
      exact absurd (hnext (by omega)) (Nat.not_lt.mpr (Nat.le_of_lt hless))
    show k - 1 = i
    omega

/-- **From a unit position to octets and back.** -/
theorem toUnit_toByte (hi : i ≤ t.length) : (ofText t).toUnit ((ofText t).toByte i) = i :=
  toUnit_eq hi (Nat.le_refl _) fun hlt => toByte_lt (Nat.lt_succ_self i) hlt

end Texts

/-! ## 4. Boundaries -/

section Boundaries

variable {t : Text} {i b : Nat}

theorem shown_eq (t : Text) : (ofText t).shown = String.ofList (t.toList.map standInChar) := by
  rw [← toList_showUnits, String.ofList_toList]
  rfl

theorem toByte_length (t : Text) : (ofText t).toByte t.length = (ofText t).byteLength := by
  rw [toByte_eq (Nat.le_refl _), Text.length_eq, List.take_length]
  rfl

theorem byteLength_take (hi : i ≤ t.length) : (ofText (t.take i)).byteLength = (ofText t).toByte i := by
  rw [toByte_eq hi, ← Text.toList_take]
  rfl

theorem shown_take_append_drop (t : Text) (i : Nat) :
    (ofText t).shown = (ofText (t.take i)).shown ++ (ofText (t.drop i)).shown := by
  rw [shown_eq, shown_eq, shown_eq, ← String.ofList_append, ← List.map_append, Text.toList_take, Text.toList_drop,
    List.take_append_drop]

end Boundaries

end Offsets

/-- A number of octets after which a string can be cut between two characters. -/
def IsBoundary (s : String) (b : Nat) : Prop := ∃ before after : String, s = before ++ after ∧ before.utf8ByteSize = b

namespace Offsets

/-- What is shown of a text, and how its octets lie: a character for each unit, each unit where the characters before it
end, and for an octet inside a character the unit that holds it. -/
structure Shows (o : Offsets) (t : Text) : Prop where
  characters : o.shown.toList = t.toList.map standInChar
  begins : ∀ i ≤ t.length, o.toByte i = (String.ofList (o.shown.toList.take i)).utf8ByteSize
  ascending : ∀ i j, i < j → j ≤ t.length → o.toByte i < o.toByte j
  returns : ∀ i ≤ t.length, o.toUnit (o.toByte i) = i
  holds : ∀ i < t.length, ∀ b, o.toByte i ≤ b → b < o.toByte (i + 1) → o.toUnit b = i
  beyond : ∀ b, o.byteLength ≤ b → o.toUnit b = t.length

theorem shows_ofText (t : Text) : (ofText t).Shows t where
  characters := toList_showUnits t.toList
  begins i hi := by
    rw [← byteLength_take hi, byteLength, shown_eq, Text.toList_take, shown_eq, String.toList_ofList, List.map_take]
  ascending _ _ := toByte_lt
  returns _ := toUnit_toByte
  holds i hi _ hle hlt := toUnit_eq (Nat.le_of_lt hi) hle fun _ => hlt
  beyond b hb := toUnit_eq (Nat.le_refl _) (toByte_length t ▸ hb) fun h => absurd h (Nat.lt_irrefl _)

/-- **A shown text can be cut exactly where its units begin, and at its end.** -/
theorem isBoundary_shown_iff {t : Text} {b : Nat} :
    IsBoundary (ofText t).shown b ↔ ∃ i, i ≤ t.length ∧ (ofText t).toByte i = b := by
  constructor
  · rintro ⟨before, after, hcut, rfl⟩
    have hlist : t.toList.map standInChar = before.toList ++ after.toList := by
      rw [← String.toList_append, ← hcut]
      exact (toList_showUnits t.toList).symm
    have hbefore : (t.toList.take before.toList.length).map standInChar = before.toList := by
      rw [List.map_take, hlist, List.take_left]
    have hle : before.toList.length ≤ t.length := by
      have hlength := congrArg List.length hlist
      rw [List.length_map, List.length_append] at hlength
      rw [Text.length_eq]
      omega
    refine ⟨_, hle, ?_⟩
    rw [← byteLength_take hle]
    show (ofText _).shown.utf8ByteSize = _
    rw [shown_eq, Text.toList_take, hbefore, String.ofList_toList]
  · rintro ⟨i, hi, rfl⟩
    exact ⟨_, _, shown_take_append_drop t i, byteLength_take hi⟩

end Offsets

end Ecma51
