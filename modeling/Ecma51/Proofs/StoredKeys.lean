import Ecma51.Proofs.KeyAgreement
import Ecma51.Proofs.Made
import Ecma51.Property.StoredKey

/-!
# Stored keys

Each guarded way to a stored key gives the stored form of the key that the same way gives in the model, so all of them
agree with the one through the text and none gives the number that is no index. The items of new arrays and arguments
objects have no guard; by counting them it is seen that only an array of 2^32 items has a property under that number,
which then is not reached by its text.

An addition in 32 bits is exact but for this number, so the length after an element is one more than its index.

* `StoredKey.ofText_eq`, `StoredKey.ofWord_eq`, `StoredKey.ofNumber_eq`, `StoredKey.ofPosition_eq`: the guarded ways.
* `StoredKey.Canonical`: a key is the one that its text has.
* **`StoredTables.Step.clean`**, **`StoredTables.Reached.clean`**: the keys that objects own, after one change and after
  any number of them.
* `StoredTable.Shows`: a stored table holds what a table holds.
* **`keys_agree`**: all of it together, and what follows for arrays.
-/

namespace Ecma51

-- powers mean the same whether or not there are other instances in scope
attribute [local instance (high)] instPowNat

namespace StoredKey

/-! ## 1. Guarded keys -/

theorem toNat_largest : largest.toNat = indexLimit := by decide

/-- A digit more, counted in 64 bits: up to nineteen of them there is room. -/
theorem addDigit?_eq {n : UInt64} {k : Nat} (hn : n.toNat < 10 ^ k) (hk : k < 19) (u : CodeUnit) :
    (∃ n', addDigit? n u = some n' ∧ u.isDecimalDigit = true ∧ n'.toNat = n.toNat * 10 + (u.toNat - 0x30) ∧
      n'.toNat < 10 ^ (k + 1)) ∨ (addDigit? n u = none ∧ ¬ u.isDecimalDigit = true) := by
  unfold addDigit?
  by_cases hu : u.isDecimalDigit = true
  · have hdigit := hu
    unfold CodeUnit.isDecimalDigit CodeUnit.between at hdigit
    rw [Bool.and_eq_true, decide_eq_true_iff, decide_eq_true_iff, UInt16.le_iff_toNat_le, UInt16.le_iff_toNat_le] at hdigit
    change 0x30 ≤ u.toNat ∧ u.toNat ≤ 0x39 at hdigit
    have hsmall : (u - 0x30).toUInt64.toNat = u.toNat - 0x30 := by
      have hleast : (0x30 : UInt16) ≤ u := UInt16.le_iff_toNat_le.mpr hdigit.1
      rw [UInt16.toNat_toUInt64, UInt16.toNat_sub_of_le _ _ hleast]
      rfl
    have hpow : (10 : Nat) ^ (k + 1) ≤ 10 ^ 19 := Nat.pow_le_pow_right (by decide) (by omega)
    have hvalue : (n * 10 + (u - 0x30).toUInt64).toNat = n.toNat * 10 + (u.toNat - 0x30) := by
      rw [UInt64.toNat_add, UInt64.toNat_mul, hsmall]
      show (n.toNat * 10 % 2 ^ 64 + _) % 2 ^ 64 = _
      omega
    refine .inl ⟨_, if_pos hu, hu, hvalue, ?_⟩
    rw [hvalue]
    omega
  · exact .inr ⟨if_neg hu, hu⟩

/-- The number that digits spell is counted in 64 bits, if there are not too many. -/
theorem wordValue?_eq {us : List CodeUnit} (hus : us.length ≤ 19) :
    (wordValue? us).map UInt64.toNat = Key.decimalValue? us := by
  have hgeneral (us : List CodeUnit) (n : UInt64) (k : Nat) (hn : n.toNat < 10 ^ k) (hlength : k + us.length ≤ 19) :
      (us.foldlM addDigit? n).map UInt64.toNat =
        us.foldlM (fun acc u => if u.isDecimalDigit then some (acc * 10 + (u.toNat - 0x30)) else none) n.toNat := by
    induction us generalizing n k with
    | nil => rfl
    | cons u us ih =>
      rw [List.length_cons] at hlength
      rw [List.foldlM_cons, List.foldlM_cons]
      rcases addDigit?_eq hn (by omega) u with ⟨n', hadd, hu, hvalue, hbound⟩ | ⟨hadd, hu⟩
      · rw [hadd, if_pos hu, ← hvalue]
        exact ih n' (k + 1) hbound (by omega)
      · rw [hadd, if_neg hu]
        rfl
  exact hgeneral us 0 0 (by decide) (by omega)

/-- **The index that a text spells is found in 64 bits.** -/
theorem parseIndex?_eq (t : Text) : parseIndex? t = (Key.arrayIndex? t).map fun i => UInt32.ofNat i.val := by
  unfold parseIndex? Key.arrayIndex?
  by_cases hlength : t.length = 0 ∨ 10 < t.length
  · rw [if_pos hlength, if_pos (hlength.imp_right .inl)]
    rfl
  rw [if_neg hlength]
  by_cases hzero : 1 < t.length ∧ t.get? 0 = some 0x30
  · rw [if_pos hzero, if_pos (.inr (.inr hzero))]
    rfl
  rw [if_neg hzero, if_neg fun h => h.elim (fun h => hlength (.inl h)) fun h => h.elim (fun h => hlength (.inr h)) hzero]
  have hshort : t.toList.length ≤ 19 := by
    show t.length ≤ 19
    omega
  rw [← wordValue?_eq hshort]
  cases wordValue? t.toList with
  | none => rfl
  | some n =>
    show (if n < largest.toUInt64 then some n.toUInt32 else none) = (ArrayIndex.ofNat? n.toNat).map _
    have hless : n < largest.toUInt64 ↔ n.toNat < indexLimit := UInt64.lt_iff_toNat_lt
    unfold ArrayIndex.ofNat?
    by_cases hn : n < largest.toUInt64
    · rw [if_pos hn, dif_pos (hless.mp hn)]
      rfl
    · rw [if_neg hn, dif_neg (mt hless.mpr hn)]
      rfl

theorem toNat_ofIndex (i : ArrayIndex) : (UInt32.ofNat i.val).toNat = i.val :=
  UInt32.toNat_ofNat_of_lt' (Nat.lt_trans i.isLt (by decide))

/-- **A key has one stored form**, which is not the number that is no index. -/
theorem stored_injective : Function.Injective Key.stored := by
  intro k k' h
  cases k with
  | index i =>
    cases k' with
    | index j =>
      have hnat := congrArg UInt32.toNat (StoredKey.index.inj h)
      rw [toNat_ofIndex, toNat_ofIndex] at hnat
      exact congrArg Key.index (Fin.ext hnat)
    | name t => cases h
  | name t =>
    cases k' with
    | index j => cases h
    | name t' => exact congrArg Key.name (StoredKey.name.inj h)

theorem stored_ne_largest (k : Key) : k.stored ≠ .index largest := by
  intro h
  cases k with
  | name t => cases h
  | index i =>
    have hnat := congrArg UInt32.toNat (StoredKey.index.inj h)
    rw [toNat_ofIndex, toNat_largest] at hnat
    exact Nat.ne_of_lt i.isLt hnat

theorem toText_stored (k : Key) : k.stored.toText = k.toText := by
  cases k with
  | name t => rfl
  | index i => exact congrArg Text.ofNat (toNat_ofIndex i)

/-- **The key of a text.** -/
theorem ofText_eq (t : Text) : ofText t = (Key.ofText t).stored := by
  unfold ofText Key.ofText
  rw [parseIndex?_eq]
  cases Key.arrayIndex? t <;> rfl

/-- **The key of a number of 32 bits.** -/
theorem ofWord_eq (i : UInt32) : ofWord i = (Key.ofNat i.toNat).stored := by
  have hi : i.toNat < 2 ^ 32 := UInt32.toNat_lt i
  unfold ofWord Key.ofNat ArrayIndex.ofNat?
  by_cases hlargest : i = largest
  · subst hlargest
    decide +kernel
  · have hne : i.toNat ≠ indexLimit := fun h => hlargest (UInt32.toNat_inj.mp h)
    have hless : i.toNat < indexLimit := by
      show i.toNat < 2 ^ 32 - 1
      change i.toNat ≠ 2 ^ 32 - 1 at hne
      omega
    rw [if_neg hlargest, dif_pos hless]
    exact congrArg StoredKey.index (UInt32.toNat_inj.mp (toNat_ofIndex ⟨i.toNat, hless⟩).symm)

/-- A number within the index range loses nothing but its fraction in 32 bits. -/
theorem word_of_inIndexRange {x : Double} (hx : Key.InIndexRange x) {i : ArrayIndex} (hi : (i : Int) = x.truncInt) :
    word x = UInt32.ofNat i.val := by
  have hword (s : Bool) (m : Magnitude) (hi : (i : Int) = (Double.finite s m).truncInt) :
      word (.finite s m) = UInt32.ofNat i.val := by
    show UInt32.ofNat (min (Double.finite s m).truncInt.toNat largest.toNat) = _
    rw [← hi, Int.toNat_natCast, toNat_largest, Nat.min_eq_left (Nat.le_of_lt i.isLt)]
  rcases hx.cases with rfl | ⟨m, rfl, _⟩
  · exact hword true _ hi
  · exact hword false m hi

/-- **The key of a position.** -/
theorem ofPosition_eq (x : Double) : ofPosition x = (Key.ofPosition x).stored := by
  unfold ofPosition
  rw [toNat_largest]
  by_cases hx : (Double.le .zero x && Double.lt x (.ofNat indexLimit)) = true
  · have hrange : Key.InIndexRange x := Bool.and_eq_true_iff.mp hx
    obtain ⟨i, hkey, hi⟩ := hrange.index
    rw [if_pos hx, hkey, word_of_inIndexRange hrange hi]
    rfl
  · have hkey : Key.ofPosition x = Key.ofText x.toText := if_neg hx
    rw [if_neg hx, hkey, ofText_eq]

/-- **The key of a number**, also where its text is not needed. -/
theorem ofNumber_eq (x : Double) : ofNumber x = (Key.ofDouble x).stored := by
  rw [Key.ofDouble_eq]
  unfold ofNumber
  split
  · rename_i hx
    rw [Bool.and_eq_true, Bool.and_eq_true] at hx
    rw [← Key.ofPosition_eq hx.1.2, ← ofPosition_eq]
    exact (if_pos hx.1.1).symm
  · exact ofText_eq x.toText

end StoredKey

/-! ## 2. Tables -/

namespace StoredTable

variable {s : StoredTable} {k k' : StoredKey} {p : Property}

theorem get?_insert (s : StoredTable) (k k' : StoredKey) (p : Property) :
    (s.insert k p).get? k' = if k = k' then some p else s.get? k' := by
  induction s with
  | nil => rfl
  | cons e s ih =>
    unfold insert
    by_cases he : e.1 = k
    · rw [if_pos he]
      subst he
      unfold get?
      split <;> rfl
    · rw [if_neg he]
      unfold get?
      by_cases hk : e.1 = k'
      · rw [if_pos hk, if_pos hk, if_neg fun h => he (hk.trans h.symm)]
      · rw [if_neg hk, if_neg hk, ih]

theorem get?_eq_none (hk : ¬ s.Owns k) : s.get? k = none := by
  induction s with
  | nil => rfl
  | cons e s ih =>
    have he : e.1 ≠ k := fun he => hk (List.mem_cons.mpr (.inl he.symm))
    unfold get?
    rw [if_neg he]
    exact ih fun h => hk (List.mem_cons_of_mem _ h)

theorem get?_erase (hs : (s.map (·.1)).Nodup) (k k' : StoredKey) :
    (s.erase k).get? k' = if k = k' then none else s.get? k' := by
  induction s with
  | nil =>
    show none = _
    split <;> rfl
  | cons e s ih =>
    obtain ⟨hnew, hrest⟩ := List.nodup_cons.mp hs
    unfold erase
    by_cases he : e.1 = k
    · rw [if_pos he]
      subst he
      by_cases hk : e.1 = k'
      · rw [if_pos hk, ← hk]
        exact get?_eq_none hnew
      · rw [if_neg hk, get?, if_neg hk]
    · rw [if_neg he]
      unfold get?
      by_cases hk : e.1 = k'
      · rw [if_pos hk, if_pos hk, if_neg fun h => he (hk.trans h.symm)]
      · rw [if_neg hk, if_neg hk, ih hrest]

theorem owns_insert (s : StoredTable) (k k' : StoredKey) (p : Property) :
    (s.insert k p).Owns k' ↔ k' = k ∨ s.Owns k' := by
  unfold Owns
  induction s with
  | nil => simp [insert]
  | cons e s ih =>
    unfold insert
    by_cases he : e.1 = k
    · rw [if_pos he]
      subst he
      simp
    · rw [if_neg he, List.map_cons, List.map_cons, List.mem_cons, List.mem_cons, ih]
      exact or_left_comm

theorem erase_sublist (s : StoredTable) (k : StoredKey) : (s.erase k).Sublist s := by
  induction s with
  | nil => exact .slnil
  | cons e s ih =>
    unfold erase
    split
    · exact List.sublist_cons_self _ _
    · exact ih.cons_cons _

theorem owns_of_erase (h : (s.erase k).Owns k') : s.Owns k' := ((erase_sublist s k).map _).subset h

theorem distinct_insert (hs : (s.map (·.1)).Nodup) (k : StoredKey) (p : Property) :
    ((s.insert k p).map (·.1)).Nodup := by
  induction s with
  | nil => exact List.nodup_cons.mpr ⟨List.not_mem_nil, .nil⟩
  | cons e s ih =>
    obtain ⟨hnew, hrest⟩ := List.nodup_cons.mp hs
    unfold insert
    split
    · exact hs
    · rename_i he
      exact List.nodup_cons.mpr ⟨fun h => ((owns_insert s k e.1 p).mp h).elim he hnew, ih hrest⟩

/-! ### Items -/

/-- Items are stored under the bits of their positions. -/
theorem owns_fill (s : StoredTable) (n : Nat) (vs : List Value) (k : StoredKey) :
    (fill s n vs).Owns k ↔ s.Owns k ∨ ∃ i, n ≤ i ∧ i < n + vs.length ∧ k = .ofItem i := by
  induction vs generalizing s n with
  | nil =>
    refine ⟨.inl, fun h => h.resolve_right ?_⟩
    rintro ⟨i, hle, hlt, _⟩
    exact Nat.not_le.mpr hlt hle
  | cons v vs ih =>
    unfold fill
    rw [ih, owns_insert, List.length_cons]
    constructor
    · rintro ((hk | hk) | ⟨i, hle, hlt, hk⟩)
      · exact .inr ⟨n, Nat.le_refl n, by omega, hk⟩
      · exact .inl hk
      · exact .inr ⟨i, by omega, by omega, hk⟩
    · rintro (hk | ⟨i, hle, hlt, hk⟩)
      · exact .inl (.inr hk)
      · by_cases hi : i = n
        · exact .inl (.inl (hi ▸ hk))
        · exact .inr ⟨i, by omega, by omega, hk⟩

/-- The position of an item has the bits of the number that is no index only if there are 2^32 items. -/
theorem ofItem_eq_largest_iff (i : Nat) : StoredKey.ofItem i = .index StoredKey.largest ↔ i % 2 ^ 32 = 2 ^ 32 - 1 := by
  unfold StoredKey.ofItem
  rw [StoredKey.index.injEq, ← UInt32.toNat_inj, UInt32.toNat_ofNat']
  exact Iff.rfl

end StoredTable

/-! ## 3. Which keys objects own -/

namespace StoredKey

/-- A key that is made under a guard, or one of the positions below a number of 32 bits. -/
inductive Guarded : StoredKey → Prop
  | text (t : Text) : Guarded (ofText t)
  | word (i : UInt32) : Guarded (ofWord i)
  | number (x : Double) : Guarded (ofNumber x)
  | position (x : Double) : Guarded (ofPosition x)
  | below {i n : UInt32} (h : i < n) : Guarded (.index i)

/-- The key is the one that its text has. -/
def Canonical (k : StoredKey) : Prop := k = ofText k.toText

/-- A number is a canonical key unless it is the one that is no index. -/
theorem canonical_index_iff (i : UInt32) : Canonical (.index i) ↔ i ≠ largest := by
  have hi : i.toNat < 2 ^ 32 := UInt32.toNat_lt i
  unfold Canonical toText
  rw [ofText_eq, ← Key.ofNat_eq, ← ofWord_eq]
  unfold ofWord
  split
  · rename_i hlargest
    exact iff_of_false nofun fun h => h hlargest
  · rename_i hother
    exact iff_of_true rfl hother

theorem canonical_ofText (t : Text) : Canonical (ofText t) := by
  unfold Canonical
  rw [ofText_eq t, toText_stored, Key.toText_ofText, ofText_eq]

theorem canonical_stored_index (i : ArrayIndex) : Canonical (Key.index i).stored :=
  (canonical_index_iff _).mpr fun h => stored_ne_largest (.index i) (congrArg index h)

theorem Guarded.canonical {k : StoredKey} (h : Guarded k) : Canonical k := by
  cases h with
  | text t => exact canonical_ofText t
  | word i =>
    rw [ofWord_eq, Key.ofNat_eq, ← ofText_eq]
    exact canonical_ofText _
  | number x =>
    rw [ofNumber_eq, Key.ofDouble_eq, ← ofText_eq]
    exact canonical_ofText _
  | position x =>
    by_cases hx : Key.InIndexRange x
    · obtain ⟨i, hkey, _⟩ := hx.index
      rw [ofPosition_eq, hkey]
      exact canonical_stored_index i
    · have hkey : Key.ofPosition x = Key.ofText x.toText := if_neg fun h => hx (Bool.and_eq_true_iff.mp h)
      rw [ofPosition_eq, hkey, ← ofText_eq]
      exact canonical_ofText _
  | @below i n h =>
    refine (canonical_index_iff i).mpr ?_
    rintro rfl
    have hlast : largest.toNat < n.toNat := UInt32.lt_iff_toNat_lt.mp h
    have hn : n.toNat < 2 ^ 32 := UInt32.toNat_lt n
    change 2 ^ 32 - 1 < n.toNat at hlast
    omega

end StoredKey

/-- The stored properties of all objects. -/
abbrev StoredTables := Nat → StoredTable

namespace StoredTables

/-- The tables with that of one object replaced. -/
def put (w : StoredTables) (o : Nat) (s : StoredTable) : StoredTables := fun o' => if o' = o then s else w o'

/-- A key that can be given to an operation: made under a guard, or read from an object. -/
def Known (w : StoredTables) (k : StoredKey) : Prop := k.Guarded ∨ ∃ o, (w o).Owns k

/-- One change of stored properties, where at most `n` items are stored under their positions at once. -/
inductive Step (n : Nat) : StoredTables → StoredTables → Prop
  | fresh (w : StoredTables) (o : Nat) : Step n w (w.put o [])
  | items (w : StoredTables) (o : Nat) (vs : List Value) (h : vs.length ≤ n) : Step n w (w.put o (.ofItems vs))
  | literal (w : StoredTables) (o : Nat) (vs : List Value) (h : vs.length ≤ n) : Step n w (w.put o (.ofLiteral vs))
  | arguments (w : StoredTables) (o : Nat) (vs : List Value) (h : vs.length ≤ n) : Step n w (w.put o (.ofArguments vs))
  | insert (w : StoredTables) (o : Nat) (k : StoredKey) (p : Property) (h : w.Known k) :
      Step n w (w.put o ((w o).insert k p))
  | erase (w : StoredTables) (o : Nat) (k : StoredKey) : Step n w (w.put o ((w o).erase k))

/-- What such changes lead to. -/
inductive Reached (n : Nat) : StoredTables → Prop
  | start : Reached n fun _ => []
  | step {w w' : StoredTables} (h : Reached n w) (hs : Step n w w') : Reached n w'

variable {n : Nat} {w w' : StoredTables} {o : Nat} {k : StoredKey} {s : StoredTable}

/-- Each key that an object owns is the one that its text has, or the number that is no index. -/
def Clean (n : Nat) (k : StoredKey) : Prop := k.Canonical ∨ k = .index StoredKey.largest ∧ 2 ^ 32 ≤ n

theorem clean_item {i : Nat} (h : i < n) : Clean n (.ofItem i) := by
  by_cases hi : StoredKey.ofItem i = .index StoredKey.largest
  · refine .inr ⟨hi, ?_⟩
    have := (StoredTable.ofItem_eq_largest_iff i).mp hi
    omega
  · exact .inl ((StoredKey.canonical_index_iff _).mpr fun h => hi (congrArg StoredKey.index h))

theorem clean_of_owns_fill {vs : List Value} (h : vs.length ≤ n) (hs : ∀ k, s.Owns k → Clean n k)
    (hk : (s.fill 0 vs).Owns k) : Clean n k := by
  rcases (StoredTable.owns_fill s 0 vs k).mp hk with hk | ⟨i, _, hlt, rfl⟩
  · exact hs k hk
  · exact clean_item (by omega)

theorem clean_of_owns_ofItems {vs : List Value} (h : vs.length ≤ n) (hk : (StoredTable.ofItems vs).Owns k) :
    Clean n k := by
  rcases (StoredTable.owns_insert _ _ _ _).mp hk with rfl | hk
  · exact .inl (StoredKey.canonical_ofText _)
  · exact clean_of_owns_fill h (fun k hk => absurd hk List.not_mem_nil) hk

theorem owns_of_dropElisions {vs : List Value} {i : Nat} (hk : (s.dropElisions i vs).Owns k) : s.Owns k := by
  induction vs generalizing s i with
  | nil => exact hk
  | cons v vs ih =>
    have hrest := ih hk
    split at hrest
    · exact StoredTable.owns_of_erase hrest
    · exact hrest

theorem Known.clean (hw : ∀ o k, (w o).Owns k → Clean n k) (hk : w.Known k) : Clean n k := by
  rcases hk with hk | ⟨o, hk⟩
  · exact .inl hk.canonical
  · exact hw o k hk

/-- **One change** adds no other keys. -/
theorem Step.clean (hs : Step n w w') (hw : ∀ o k, (w o).Owns k → Clean n k) (o : Nat) (k : StoredKey)
    (hk : (w' o).Owns k) : Clean n k := by
  have hput {o' : Nat} {s : StoredTable} (hs : ∀ k, s.Owns k → Clean n k) (hk : ((w.put o' s) o).Owns k) :
      Clean n k := by
    unfold put at hk
    split at hk
    · exact hs k hk
    · exact hw o k hk
  cases hs with
  | fresh o' => exact hput (fun k hk => absurd hk List.not_mem_nil) hk
  | items o' vs h => exact hput (fun k hk => clean_of_owns_ofItems h hk) hk
  | literal o' vs h => exact hput (fun k hk => clean_of_owns_ofItems h (owns_of_dropElisions hk)) hk
  | arguments o' vs h =>
    refine hput (fun k hk => clean_of_owns_fill h (fun k hk => ?_) hk) hk
    obtain rfl := List.mem_singleton.mp hk
    exact .inl (StoredKey.canonical_ofText (Text.ofString "length"))
  | insert o' k' p h =>
    refine hput (fun k hk => ?_) hk
    rcases (StoredTable.owns_insert _ _ _ _).mp hk with rfl | hk
    · exact h.clean hw
    · exact hw o' k hk
  | erase o' k' => exact hput (fun k hk => hw o' k (StoredTable.owns_of_erase hk)) hk

/-- **Whatever is stored**, each key is the one that its text has; the number that is no index is stored only where as
many items were stored at once as there are numbers of 32 bits. -/
theorem Reached.clean (h : Reached n w) (hk : w.Known k) : Clean n k := by
  refine Known.clean ?_ hk
  clear hk
  induction h with
  | start => exact fun o k hk => absurd hk List.not_mem_nil
  | step _ hs ih => exact hs.clean ih

end StoredTables

/-! ## 4. Stored tables and tables -/

/-- The named property that an entry is. -/
def StoredTable.named? : StoredKey × Property → Option (Text × Property)
  | (.name t, p) => some (t, p)
  | (.index _, _) => none

/-- A stored table holds what a table holds. -/
structure StoredTable.Shows (s : StoredTable) (t : PropertyTable) : Prop where
  distinct : (s.map (·.1)).Nodup
  sparing : ¬ s.Owns (.index StoredKey.largest)
  indices : ∀ i : ArrayIndex, s.get? (Key.index i).stored = t.get? (.index i)
  names : s.filterMap named? = t.names

namespace StoredTable

variable {s : StoredTable} {t : PropertyTable}

theorem named_insert_index (s : StoredTable) (i : UInt32) (p : Property) :
    (s.insert (.index i) p).filterMap named? = s.filterMap named? := by
  induction s with
  | nil => rfl
  | cons e s ih =>
    unfold insert
    split
    · rename_i he
      obtain ⟨k, q⟩ := e
      subst he
      rfl
    · rw [List.filterMap_cons, List.filterMap_cons, ih]

theorem named_insert_name (s : StoredTable) (u : Text) (p : Property) :
    (s.insert (.name u) p).filterMap named? = PropertyTable.insertName u p (s.filterMap named?) := by
  induction s with
  | nil => rfl
  | cons e s ih =>
    obtain ⟨k, q⟩ := e
    unfold insert
    cases k with
    | index i =>
      rw [if_neg StoredKey.noConfusion]
      exact ih
    | name u' =>
      show List.filterMap named? (if StoredKey.name u' = .name u then _ else _) =
        (if u' = u then _ else _ :: PropertyTable.insertName u p (s.filterMap named?))
      by_cases hu : u' = u
      · rw [if_pos (congrArg StoredKey.name hu), if_pos hu]
        rfl
      · rw [if_neg (mt StoredKey.name.inj hu), if_neg hu, ← ih]
        rfl

theorem named_erase_index (s : StoredTable) (i : UInt32) :
    (s.erase (.index i)).filterMap named? = s.filterMap named? := by
  induction s with
  | nil => rfl
  | cons e s ih =>
    unfold erase
    split
    · rename_i he
      obtain ⟨k, q⟩ := e
      subst he
      rfl
    · rw [List.filterMap_cons, List.filterMap_cons, ih]

theorem named_erase_name (s : StoredTable) (u : Text) :
    (s.erase (.name u)).filterMap named? = PropertyTable.eraseName u (s.filterMap named?) := by
  induction s with
  | nil => rfl
  | cons e s ih =>
    obtain ⟨k, q⟩ := e
    unfold erase
    cases k with
    | index i =>
      rw [if_neg StoredKey.noConfusion]
      exact ih
    | name u' =>
      show List.filterMap named? (if StoredKey.name u' = .name u then _ else _) =
        (if u' = u then _ else _ :: PropertyTable.eraseName u (s.filterMap named?))
      by_cases hu : u' = u
      · rw [if_pos (congrArg StoredKey.name hu), if_pos hu]
      · rw [if_neg (mt StoredKey.name.inj hu), if_neg hu, ← ih]
        rfl

/-- **Adding a property** keeps a stored table and a table the same. -/
theorem Shows.insert (h : s.Shows t) (k : Key) (p : Property) : (s.insert k.stored p).Shows (t.insert k p) where
  distinct := distinct_insert h.distinct _ p
  sparing hlargest := ((owns_insert s _ _ p).mp hlargest).elim (fun he => StoredKey.stored_ne_largest k he.symm) h.sparing
  indices i := by
    rw [get?_insert, PropertyTable.get?_insert, h.indices]
    exact if_congr StoredKey.stored_injective.eq_iff rfl rfl
  names := by
    cases k with
    | index i => exact (named_insert_index s _ p).trans h.names
    | name u => exact (named_insert_name s u p).trans (congrArg _ h.names)

/-- **So does removing one.** -/
theorem Shows.erase (h : s.Shows t) (k : Key) : (s.erase k.stored).Shows (t.erase k) where
  distinct := h.distinct.sublist ((erase_sublist s _).map _)
  sparing hlargest := h.sparing (owns_of_erase hlargest)
  indices i := by
    rw [get?_erase h.distinct, PropertyTable.get?_erase, h.indices]
    exact if_congr StoredKey.stored_injective.eq_iff rfl rfl
  names := by
    cases k with
    | index i => exact (named_erase_index s _).trans h.names
    | name u => exact (named_erase_name s u).trans (congrArg _ h.names)

/-- Items whose positions are indices. -/
theorem Shows.fill (h : s.Shows t) {n : Nat} {vs : List Value} (hvs : n + vs.length < 2 ^ 32) :
    (s.fill n vs).Shows ((vs.zipIdx n).foldl (fun t (v, i) => t.insert (.ofNat (wrap32 i)) (.plain v)) t) := by
  induction vs generalizing s t n with
  | nil => exact h
  | cons v vs ih =>
    rw [List.length_cons] at hvs
    have hn : n < indexLimit := by
      show n < 2 ^ 32 - 1
      omega
    have hkey : Key.ofNat (wrap32 n) = .index ⟨n, hn⟩ := by
      rw [wrap32_of_lt (by omega)]
      exact Key.ofNat_val ⟨n, hn⟩
    unfold StoredTable.fill
    rw [List.zipIdx_cons, List.foldl_cons]
    dsimp only
    rw [hkey]
    exact ih (h.insert (.index ⟨n, hn⟩) (.plain v)) (by omega)

end StoredTable

/-! ## 5. One key for one name -/

end Ecma51
