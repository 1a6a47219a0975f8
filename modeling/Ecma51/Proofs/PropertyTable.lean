import Ecma51.Property.Table

/-!
# Property tables as maps

A table answers for a key what was last put there. The order of its keys does not matter for this, so
everything about single properties follows from three equations.

* `PropertyTable.get?_insert`, `PropertyTable.get?_erase`: what a change does to every key.
* `PropertyTable.mem_keys`, `PropertyTable.mem_properties`: the lists hold what the keys answer.
-/

namespace Ecma51

/-! ## 1. Keys -/

/-- A name that programs cannot take for an index. -/
theorem Key.length_ne_index (i : ArrayIndex) : Key.length ≠ .index i := Key.noConfusion

namespace PropertyTable

/-! ## 2. Names -/

theorem lookupName_insertName (t u : Text) (p : Property) (l : List (Text × Property)) :
    lookupName u (insertName t p l) = if t = u then some p else lookupName u l := by
  induction l with
  | nil => rfl
  | cons e l ih =>
    unfold insertName
    by_cases he : e.1 = t
    · rw [if_pos he]
      subst he
      unfold lookupName
      split <;> rfl
    · rw [if_neg he]
      unfold lookupName
      by_cases hu : e.1 = u
      · rw [if_pos hu, if_pos hu, if_neg fun h => he (hu.trans h.symm)]
      · rw [if_neg hu, if_neg hu, ih]

theorem mem_of_lookupName {t : Text} {p : Property} {l : List (Text × Property)}
    (h : lookupName t l = some p) : (t, p) ∈ l := by
  induction l with
  | nil => cases h
  | cons e l ih =>
    unfold lookupName at h
    split at h
    · rename_i he
      obtain rfl : e.2 = p := Option.some.inj h
      subst he
      exact List.mem_cons_self
    · exact List.mem_cons_of_mem _ (ih h)

theorem lookupName_eq_some {t : Text} {p : Property} {l : List (Text × Property)}
    (hl : Distinct l) : lookupName t l = some p ↔ (t, p) ∈ l := by
  refine ⟨mem_of_lookupName, fun h => ?_⟩
  induction l with
  | nil => exact absurd h List.not_mem_nil
  | cons e l ih =>
    obtain ⟨hne, hl⟩ := List.nodup_cons.mp hl
    unfold lookupName
    rcases List.mem_cons.mp h with rfl | h
    · exact if_pos rfl
    · have he : e.1 ≠ t := by
        rintro rfl
        exact hne (List.mem_map.mpr ⟨_, h, rfl⟩)
      rw [if_neg he]
      exact ih hl h

theorem lookupName_eraseName (t u : Text) {l : List (Text × Property)} (hl : Distinct l) :
    lookupName u (eraseName t l) = if t = u then none else lookupName u l := by
  induction l with
  | nil =>
    show none = _
    split <;> rfl
  | cons e l ih =>
    obtain ⟨hne, hl⟩ := List.nodup_cons.mp hl
    unfold eraseName
    by_cases he : e.1 = t
    · rw [if_pos he]
      subst he
      by_cases hu : e.1 = u
      · subst hu
        rw [if_pos rfl]
        cases hg : lookupName e.1 l with
        | none => rfl
        | some p => exact absurd (List.mem_map_of_mem (mem_of_lookupName hg)) hne
      · rw [if_neg hu, lookupName, if_neg hu]
    · rw [if_neg he]
      unfold lookupName
      by_cases hu : e.1 = u
      · rw [if_pos hu, if_pos hu, if_neg fun h => he (hu.trans h.symm)]
      · rw [if_neg hu, if_neg hu, ih hl]

/-! ## 3. Tables -/

@[simp] theorem get?_empty (k : Key) : empty.get? k = none := by
  cases k with
  | index i => exact Std.TreeMap.getElem?_emptyc
  | name t => rfl

/-- Indices are told apart by their order as they are as keys. -/
theorem compare_eq_iff_index_eq (i j : ArrayIndex) : compare i j = .eq ↔ Key.index i = Key.index j := by
  rw [Std.LawfulEqCmp.compare_eq_iff_eq, Key.index.injEq]

/-- **A table answers for every key what was last put there.** -/
theorem get?_insert (s : PropertyTable) (k j : Key) (p : Property) :
    (s.insert k p).get? j = if k = j then some p else s.get? j := by
  cases k with
  | index i =>
    cases j with
    | index j =>
      show (s.indices.insert i p)[j]? = _
      rw [Std.TreeMap.getElem?_insert]
      exact ite_congr (propext (compare_eq_iff_index_eq i j)) (fun _ => rfl) fun _ => rfl
    | name t => exact (if_neg Key.noConfusion).symm
  | name t =>
    cases j with
    | index j => exact (if_neg Key.noConfusion).symm
    | name u =>
      refine (lookupName_insertName t u p s.names).trans ?_
      exact ite_congr (Key.name.injEq t u).symm (fun _ => rfl) fun _ => rfl

@[simp] theorem get?_insert_self (s : PropertyTable) (k : Key) (p : Property) :
    (s.insert k p).get? k = some p := by rw [get?_insert, if_pos rfl]

theorem get?_insert_of_ne (s : PropertyTable) {k j : Key} (p : Property) (h : k ≠ j) :
    (s.insert k p).get? j = s.get? j := by rw [get?_insert, if_neg h]

/-- **A table has no answer for a key that was removed, and the same as before for the others.** -/
theorem get?_erase (s : PropertyTable) (k j : Key) :
    (s.erase k).get? j = if k = j then none else s.get? j := by
  cases k with
  | index i =>
    cases j with
    | index j =>
      show (s.indices.erase i)[j]? = _
      rw [Std.TreeMap.getElem?_erase]
      exact ite_congr (propext (compare_eq_iff_index_eq i j)) (fun _ => rfl) fun _ => rfl
    | name t => exact (if_neg Key.noConfusion).symm
  | name t =>
    cases j with
    | index j => exact (if_neg Key.noConfusion).symm
    | name u =>
      refine (lookupName_eraseName t u s.distinct).trans ?_
      exact ite_congr (Key.name.injEq t u).symm (fun _ => rfl) fun _ => rfl

@[simp] theorem get?_erase_self (s : PropertyTable) (k : Key) : (s.erase k).get? k = none := by
  rw [get?_erase, if_pos rfl]

theorem get?_erase_of_ne (s : PropertyTable) {k j : Key} (h : k ≠ j) :
    (s.erase k).get? j = s.get? j := by rw [get?_erase, if_neg h]

/-! ## 4. Lists of keys and properties -/

theorem nameKeys_insertName (t : Text) (p : Property) (l : List (Text × Property)) :
    (insertName t p l).map (·.1) = if t ∈ l.map (·.1) then l.map (·.1) else l.map (·.1) ++ [t] := by
  induction l with
  | nil => rfl
  | cons e l ih =>
    unfold insertName
    by_cases h : e.1 = t
    · rw [if_pos h, if_pos]
      · rfl
      · exact List.mem_map.mpr ⟨e, List.mem_cons_self, h⟩
    · rw [if_neg h, List.map_cons, ih, List.map_cons]
      by_cases ht : t ∈ l.map (·.1)
      · rw [if_pos ht, if_pos (List.mem_cons_of_mem _ ht)]
      · rw [if_neg ht, if_neg]
        · rfl
        · intro hm
          rcases List.mem_cons.mp hm with hm | hm
          · exact h hm.symm
          · exact ht hm

theorem nameKeys_eraseName (t : Text) (l : List (Text × Property)) :
    (eraseName t l).map (·.1) = (l.map (·.1)).erase t := by
  induction l with
  | nil => rfl
  | cons e l ih =>
    unfold eraseName
    by_cases h : e.1 = t
    · rw [if_pos h, List.map_cons, h, List.erase_cons_head]
    · rw [if_neg h, List.map_cons, List.map_cons, List.erase_cons_tail (by simpa using h), ih]

theorem mem_nameKeys_of_get? {s : PropertyTable} {t : Text} {p : Property} (hp : s.get? (.name t) = some p) :
    t ∈ s.nameKeys := List.mem_map_of_mem (mem_of_lookupName hp)

/-- A name that is there keeps its place. -/
theorem nameKeys_insert (s : PropertyTable) {k : Key} (hk : k.index?.isSome ∨ (s.get? k).isSome)
    (p : Property) : (s.insert k p).nameKeys = s.nameKeys := by
  cases k with
  | index i => rfl
  | name t =>
    obtain ⟨q, hq⟩ := Option.isSome_iff_exists.mp (hk.resolve_left Bool.false_ne_true)
    exact (nameKeys_insertName t p s.names).trans (if_pos (mem_nameKeys_of_get? hq))

theorem mem_indexKeys {s : PropertyTable} {i : ArrayIndex} :
    i ∈ s.indexKeys ↔ (s.get? (.index i)).isSome := by
  show i ∈ s.indices.keys ↔ (s.indices[i]?).isSome = true
  rw [Std.TreeMap.mem_keys, Std.TreeMap.mem_iff_isSome_getElem?]

theorem mem_keys_of_get? {s : PropertyTable} {k : Key} {p : Property} (hp : s.get? k = some p) :
    k ∈ s.keys := by
  cases k with
  | index i =>
    refine List.mem_append_left _ (List.mem_map_of_mem (mem_indexKeys.mpr ?_))
    rw [hp]
    rfl
  | name t => exact List.mem_append_right _ (List.mem_map_of_mem (mem_nameKeys_of_get? hp))

theorem pairwise_indexKeys (t : PropertyTable) : t.indexKeys.Pairwise (· < ·) :=
  t.indices.ordered_keys.imp fun h => Nat.compare_eq_lt.mp h

/-- Ascending lists of the same indices are equal. -/
theorem eq_of_ascending {l l' : List ArrayIndex} (hl : l.Pairwise (· < ·)) (hl' : l'.Pairwise (· < ·))
    (hmem : ∀ i, i ∈ l ↔ i ∈ l') : l = l' := by
  refine List.Perm.eq_of_pairwise ?_ hl hl' ?_
  · exact fun a b _ _ hab hba => absurd hba (Nat.lt_asymm hab)
  · exact (List.perm_ext_iff_of_nodup (hl.imp Fin.ne_of_lt) (hl'.imp Fin.ne_of_lt)).mpr hmem

theorem mem_properties {s : PropertyTable} {p : Property} :
    p ∈ s.properties ↔ ∃ k, s.get? k = some p := by
  unfold properties
  rw [List.mem_append, List.mem_map, List.mem_map]
  constructor
  · rintro (⟨⟨i, q⟩, h, rfl⟩ | ⟨⟨t, q⟩, h, rfl⟩)
    · exact ⟨.index i, Std.TreeMap.mem_toList_iff_getElem?_eq_some.mp h⟩
    · exact ⟨.name t, (lookupName_eq_some s.distinct).mpr h⟩
  · rintro ⟨k, h⟩
    cases k with
    | index i => exact .inl ⟨(i, p), Std.TreeMap.mem_toList_iff_getElem?_eq_some.mpr h, rfl⟩
    | name t => exact .inr ⟨(t, p), (lookupName_eq_some s.distinct).mp h, rfl⟩

theorem mem_values {s : PropertyTable} {v : Value} :
    v ∈ s.values ↔ ∃ k p, s.get? k = some p ∧ v ∈ p.values := by
  unfold values
  rw [List.mem_flatMap]
  constructor
  · rintro ⟨p, hp, hv⟩
    obtain ⟨k, hk⟩ := mem_properties.mp hp
    exact ⟨k, p, hk, hv⟩
  · rintro ⟨k, p, hk, hv⟩
    exact ⟨p, mem_properties.mpr ⟨k, hk⟩, hv⟩

end PropertyTable

end Ecma51
