import Ecma51.Proofs.Allocation
import Ecma51.Proofs.JsonGrammar
import Ecma51.Proofs.KeyText
import Ecma51.Proofs.Made
import Ecma51.Proofs.Store

/-!
# Trees in the heap

Values that stand for JSON data: arrays and objects of the heap, each with its number, around values without
inner structure.

* `Object.IsRecord`: an object with given members, of which the last of each name counts.
* `Object.IsArrayOf`: an array with given elements.
* `Heap.Holds`: a value stands for data, with objects of its own.
* **`Heap.Holds.keep`**: it still does if the objects that can be reached from it are as before.
-/

namespace Ecma51

/-! ## 1. Records -/

/-- An ordinary object with the given members: of those with one name the last counts, and names that are no
indices have the order in which they first came. -/
structure Object.IsRecord (x : Object) (pairs : List (Text × Value)) : Prop where
  className : x.className = "Object"
  prototype : x.prototype = some Intrinsic.objectPrototype.id
  extensible : x.extensible = true
  kind : x.kind = .ordinary
  get? (name : Text) : x.properties.get? (.ofText name) = (pairs.reverse.lookup name).map .plain
  only (k : Key) : (x.properties.get? k).isSome → ∃ pair ∈ pairs, k = .ofText pair.1
  names : x.properties.nameKeys =
    ((pairs.map (·.1)).filter fun name => (Key.arrayIndex? name).isNone).eraseDups

namespace Object.IsRecord

variable {x : Object} {pairs : List (Text × Value)}

theorem nil : (Object.ordinary (some Intrinsic.objectPrototype.id)).IsRecord [] where
  className := rfl
  prototype := rfl
  extensible := rfl
  kind := rfl
  get? name := PropertyTable.get?_empty _
  only k h := by
    rw [show (Object.ordinary (some Intrinsic.objectPrototype.id)).properties = .empty from rfl,
      PropertyTable.get?_empty] at h
    cases h
  names := rfl

/-- The last member counts. -/
theorem lookup_append (pairs : List (Text × Value)) (name other : Text) (v : Value) :
    (pairs ++ [(name, v)]).reverse.lookup other =
      if name = other then some v else pairs.reverse.lookup other := by
  rw [List.reverse_append, List.reverse_singleton, List.singleton_append, List.lookup_cons]
  by_cases h : name = other
  · rw [if_pos h, h, beq_self_eq_true]
  · rw [if_neg h, beq_false_of_ne (Ne.symm h)]

/-- The names after one more. -/
theorem eraseDups_append_singleton {α : Type} [BEq α] [LawfulBEq α] (l : List α) (a : α) :
    (l ++ [a]).eraseDups = if l.elem a then l.eraseDups else l.eraseDups ++ [a] := by
  rw [List.eraseDups_append]
  unfold List.removeAll
  by_cases h : l.elem a = true
  · rw [if_pos h, List.filter_cons_of_neg (by rw [h]; decide), List.filter_nil]
    exact List.append_nil _
  · rw [if_neg h, List.filter_cons_of_pos (by rw [Bool.eq_false_iff.mpr h]; rfl), List.filter_nil]
    rfl

/-- One more member, put in place of the one with its name if there is one. -/
theorem insert (hx : x.IsRecord pairs) (name : Text) (v : Value) :
    (x.withProperty (.ofText name) (.plain v)).IsRecord (pairs ++ [(name, v)]) where
  className := hx.className
  prototype := hx.prototype
  extensible := hx.extensible
  kind := hx.kind
  get? other := by
    rw [lookup_append]
    by_cases h : name = other
    · rw [if_pos h, ← h]
      exact PropertyTable.get?_insert_self _ _ _
    · rw [if_neg h, ← hx.get? other]
      exact PropertyTable.get?_insert_of_ne _ _ fun hk => h (Key.ofText_injective hk)
  only k h := by
    by_cases hk : Key.ofText name = k
    · exact ⟨(name, v), List.mem_append_right _ List.mem_cons_self, hk.symm⟩
    · rw [Object.get?_withProperty_of_ne _ hk] at h
      obtain ⟨pair, hpair, hname⟩ := hx.only k h
      exact ⟨pair, List.mem_append_left _ hpair, hname⟩
  names := by
    have hnames := hx.names
    rw [List.map_append, List.filter_append, List.map_singleton]
    unfold Object.withProperty PropertyTable.nameKeys PropertyTable.insert Key.ofText
    unfold PropertyTable.nameKeys at hnames
    cases hi : Key.arrayIndex? name with
    | some i =>
      rw [List.filter_cons_of_neg (by rw [hi]; exact Bool.false_ne_true), List.filter_nil, List.append_nil]
      exact hnames
    | none =>
      rw [List.filter_cons_of_pos (by rw [hi]; rfl), List.filter_nil, eraseDups_append_singleton,
        ← hnames]
      dsimp only
      rw [PropertyTable.nameKeys_insertName]
      refine if_congr ?_ rfl rfl
      rw [hnames, List.mem_eraseDups, List.elem_eq_mem, decide_eq_true_iff]

/-- One more member that is there already. -/
theorem again (hx : x.IsRecord pairs) {name : Text} {v : Value}
    (hv : x.properties.get? (.ofText name) = some (.plain v)) : x.IsRecord (pairs ++ [(name, v)]) where
  className := hx.className
  prototype := hx.prototype
  extensible := hx.extensible
  kind := hx.kind
  get? other := by
    rw [lookup_append]
    by_cases h : name = other
    · rw [if_pos h, ← h]
      exact hv
    · rw [if_neg h]
      exact hx.get? other
  only k h := by
    obtain ⟨pair, hpair, hname⟩ := hx.only k h
    exact ⟨pair, List.mem_append_left _ hpair, hname⟩
  names := by
    -- the name is among those that came before
    have hmem : name ∈ pairs.map (·.1) := by
      obtain ⟨pair, hpair, hname⟩ := hx.only _ (by rw [hv]; rfl)
      rw [Key.ofText_injective hname]
      exact List.mem_map_of_mem hpair
    rw [List.map_append, List.filter_append, List.map_singleton, hx.names]
    cases hi : Key.arrayIndex? name with
    | some i =>
      rw [List.filter_cons_of_neg (by rw [hi]; exact Bool.false_ne_true), List.filter_nil, List.append_nil]
    | none =>
      rw [List.filter_cons_of_pos (by rw [hi]; rfl), List.filter_nil, eraseDups_append_singleton, if_pos]
      rw [List.elem_eq_mem, decide_eq_true_iff]
      exact List.mem_filter.mpr ⟨hmem, by rw [hi]; rfl⟩

end Object.IsRecord

/-! ## 2. Arrays -/

theorem Key.eq_of_ofNat_eq {n k : Nat} (hn : n < 2 ^ 32) (hk : k < 2 ^ 32) (h : Key.ofNat n = .ofNat k) :
    n = k := by
  unfold ofNat ArrayIndex.ofNat? at h
  by_cases hn' : n < indexLimit
  · rw [dif_pos hn'] at h
    by_cases hk' : k < indexLimit
    · rw [dif_pos hk'] at h
      exact congrArg Fin.val (Key.index.inj h)
    · rw [dif_neg hk'] at h
      cases h
  · by_cases hk' : k < indexLimit
    · rw [dif_neg hn', dif_pos hk'] at h
      cases h
    · unfold indexLimit at hn' hk'
      omega

theorem Key.length_ne_ofNat {n : Nat} (hn : n < 2 ^ 32) : Key.length ≠ .ofNat n := by
  unfold ofNat ArrayIndex.ofNat?
  by_cases hn' : n < indexLimit
  · rw [dif_pos hn']
    exact Key.noConfusion
  · have hlast : n = 2 ^ 32 - 1 := by
      unfold indexLimit at hn'
      omega
    rw [dif_neg hn', hlast]
    decide

theorem get?_foldl_zipIdx (vs : List Value) (t : PropertyTable) {n i : Nat} (hn : n + vs.length < 2 ^ 32)
    (hi : i < 2 ^ 32) :
    ((vs.zipIdx n).foldl (fun t (v, i) => t.insert (.ofNat (wrap32 i)) (.plain v)) t).get? (.ofNat i) =
      if n ≤ i ∧ i < n + vs.length then vs[i - n]?.map .plain else t.get? (.ofNat i) := by
  induction vs generalizing n t with
  | nil => rw [if_neg (by rw [List.length_nil]; omega)]; rfl
  | cons v vs ih =>
    rw [List.length_cons] at hn
    rw [List.zipIdx_cons, List.foldl_cons, ih _ (by omega), List.length_cons]
    dsimp only
    rw [wrap32_of_lt (by omega), PropertyTable.get?_insert]
    by_cases hlt : n + 1 ≤ i ∧ i < n + 1 + vs.length
    · rw [if_pos hlt, if_pos (by omega), show i - n = (i - (n + 1)) + 1 by omega, List.getElem?_cons_succ]
    · rw [if_neg hlt]
      by_cases heq : n = i
      · rw [if_pos (by rw [heq]), if_pos (by omega), heq, Nat.sub_self]
        rfl
      · rw [if_neg fun h => heq (Key.eq_of_ofNat_eq (by omega) hi h), if_neg (by omega)]

theorem get?_foldl_isSome {elements : List (Value × Nat)} {t : PropertyTable} {k : Key}
    (h : ((elements.foldl (fun t (v, i) => t.insert (.ofNat (wrap32 i)) (.plain v)) t).get? k).isSome) :
    (∃ e ∈ elements, k = .ofNat (wrap32 e.2)) ∨ (t.get? k).isSome := by
  induction elements generalizing t with
  | nil => exact .inr h
  | cons e elements ih =>
    rcases ih h with ⟨e', he', hk⟩ | hsome
    · exact .inl ⟨e', List.mem_cons_of_mem e he', hk⟩
    · by_cases hk : .ofNat (wrap32 e.2) = k
      · exact .inl ⟨e, List.mem_cons_self, hk.symm⟩
      · dsimp only at hsome
        rw [PropertyTable.get?_insert_of_ne _ _ hk] at hsome
        exact .inr hsome

/-- An array with the given elements and nothing else. -/
structure Object.IsArrayOf (x : Object) (vs : List Value) : Prop where
  className : x.className = "Array"
  prototype : x.prototype = some Intrinsic.arrayPrototype.id
  extensible : x.extensible = true
  kind : x.kind = .array
  length : x.properties.get? .length = some (.data (.ofNat vs.length) true false false)
  get? (i : Nat) : i < 2 ^ 32 → x.properties.get? (.ofNat i) = vs[i]?.map .plain
  only (k : Key) : (x.properties.get? k).isSome → k = .length ∨ ∃ i < vs.length, k = .ofNat i

/-- **A new array of fewer than 2³² elements has them at their indices.** -/
theorem isArrayOf_arrayOf {vs : List Value} (hvs : vs.length < 2 ^ 32) : (arrayOf vs).IsArrayOf vs where
  className := rfl
  prototype := rfl
  extensible := rfl
  kind := rfl
  length := by
    rw [← wrap32_of_lt hvs]
    exact lengthIs_arrayWith _ _
  get? i hi := by
    unfold arrayOf
    rw [properties_arrayWith, PropertyTable.get?_insert_of_ne _ _ (Key.length_ne_ofNat hi),
      get?_foldl_zipIdx vs _ (by omega) hi, Nat.sub_zero]
    by_cases h : i < vs.length
    · rw [if_pos (by omega)]
    · rw [if_neg (by omega), PropertyTable.get?_empty, List.getElem?_eq_none (Nat.le_of_not_lt h)]
      rfl
  only k h := by
    by_cases hk : Key.length = k
    · exact .inl hk.symm
    unfold arrayOf at h
    rw [properties_arrayWith, PropertyTable.get?_insert_of_ne _ _ hk] at h
    rcases get?_foldl_isSome h with ⟨e, he, hek⟩ | hempty
    · have hlt := snd_lt_of_mem_zipIdx he
      rw [wrap32_of_lt (Nat.lt_trans hlt hvs)] at hek
      exact .inr ⟨e.2, hlt, hek⟩
    · rw [PropertyTable.get?_empty] at hempty
      cases hempty

/-! ## 3. Trees -/

namespace Heap

theorem object_of_getElem? {h : Heap} {o : ObjectId} {x : Object} (ho : h.objects[o]? = some x) :
    h.object o = x := by
  unfold object
  rw [Std.TreeMap.getD_eq_getD_getElem?, ho]
  rfl

theorem object_of_same {h h' : Heap} {o : ObjectId} (hsame : h'.objects[o]? = h.objects[o]?) :
    h'.object o = h.object o := by
  unfold object
  rw [Std.TreeMap.getD_eq_getD_getElem?, Std.TreeMap.getD_eq_getD_getElem?, hsame]

/-- A number stands for an object of the heap or for an empty one. -/
theorem object_cases (h : Heap) (o : ObjectId) : h.objects[o]? = some (h.object o) ∨ h.object o = default := by
  unfold object
  rw [Std.TreeMap.getD_eq_getD_getElem?]
  cases h.objects[o]? with
  | some x => exact .inl rfl
  | none => exact .inr rfl

mutual

/-- The value stands for data. Its objects are numbered from `a` on and below `b`, and each is in one place:
an array comes after its items and an object before its members. Arrays count their elements in 32 bits. -/
def Holds (h : Heap) : Json → (a b : Nat) → Value → Prop
  | .null, a, b, v => a = b ∧ v = .null
  | .boolean t, a, b, v => a = b ∧ v = .boolean t
  | .number x, a, b, v => a = b ∧ v = .number x
  | .string t, a, b, v => a = b ∧ v = .string t
  | .array items, a, b, v => ∃ o x, v = .object o ∧ a ≤ o ∧ o + 1 = b ∧ h.objects[o]? = some x ∧
      (items.length < 2 ^ 32 → ∃ vs, x.IsArrayOf vs ∧ HoldsItems h items a o vs)
  | .object members, a, b, v => ∃ x pairs, v = .object a ∧ h.objects[a]? = some x ∧ x.IsRecord pairs ∧
      HoldsMembers h members (a + 1) b pairs
  | .broken _, _, _, _ => False

/-- The values stand for the items of an array. -/
def HoldsItems (h : Heap) : List Json → (a b : Nat) → List Value → Prop
  | [], a, b, vs => a = b ∧ vs = []
  | j :: js, a, b, vs => ∃ c v more, vs = v :: more ∧ Holds h j a c v ∧ HoldsItems h js c b more

/-- The values stand for the members of an object, as far as they count. -/
def HoldsMembers (h : Heap) : List (Text × Json) → (a b : Nat) → List (Text × Value) → Prop
  | [], a, b, pairs => a = b ∧ pairs = []
  | (name, j) :: js, a, b, pairs => ∃ c v more, pairs = (name, v) :: more ∧ a ≤ c ∧
      (name ∉ js.map (·.1) → Holds h j a c v) ∧ HoldsMembers h js c b more

end

mutual

theorem Holds.le {h : Heap} : ∀ (j : Json) {a b : Nat} {v : Value}, h.Holds j a b v → a ≤ b
  | .null, a, b, v, hv | .boolean _, a, b, v, hv | .number _, a, b, v, hv | .string _, a, b, v, hv => by
    rw [Holds] at hv
    exact Nat.le_of_eq hv.1
  | .array items, a, b, v, hv => by
    rw [Holds] at hv
    obtain ⟨o, x, _, hle, rfl, _⟩ := hv
    exact Nat.le_succ_of_le hle
  | .object members, a, b, v, hv => by
    rw [Holds] at hv
    obtain ⟨x, pairs, _, _, _, hmembers⟩ := hv
    exact Nat.le_of_succ_le (HoldsMembers.le members hmembers)
  | .broken _, a, b, v, hv => by
    rw [Holds] at hv
    exact hv.elim

theorem HoldsMembers.le {h : Heap} : ∀ (js : List (Text × Json)) {a b : Nat} {pairs : List (Text × Value)},
    h.HoldsMembers js a b pairs → a ≤ b
  | [], a, b, pairs, hp => by
    rw [HoldsMembers] at hp
    exact Nat.le_of_eq hp.1
  | (name, j) :: js, a, b, pairs, hp => by
    rw [HoldsMembers] at hp
    obtain ⟨c, v, more, _, hle, _, hmore⟩ := hp
    exact Nat.le_trans hle (HoldsMembers.le js hmore)

end

theorem HoldsItems.le {h : Heap} {js : List Json} {a b : Nat} {vs : List Value}
    (hvs : h.HoldsItems js a b vs) : a ≤ b := by
  induction js generalizing a vs with
  | nil =>
    rw [HoldsItems] at hvs
    exact Nat.le_of_eq hvs.1
  | cons j js ih =>
    rw [HoldsItems] at hvs
    obtain ⟨c, v, more, _, hv, hmore⟩ := hvs
    exact Nat.le_trans (Holds.le j hv) (ih hmore)

theorem HoldsItems.length {h : Heap} {js : List Json} {a b : Nat} {vs : List Value}
    (hvs : h.HoldsItems js a b vs) : vs.length = js.length := by
  induction js generalizing a vs with
  | nil =>
    rw [HoldsItems] at hvs
    rw [hvs.2]
    rfl
  | cons j js ih =>
    rw [HoldsItems] at hvs
    obtain ⟨c, v, more, rfl, _, hmore⟩ := hvs
    rw [List.length_cons, List.length_cons, ih hmore]

theorem names_of_holdsMembers {h : Heap} {js : List (Text × Json)} {a b : Nat} {pairs : List (Text × Value)}
    (hp : h.HoldsMembers js a b pairs) : pairs.map (·.1) = js.map (·.1) := by
  induction js generalizing a pairs with
  | nil =>
    rw [HoldsMembers] at hp
    rw [hp.2]
    rfl
  | cons e js ih =>
    obtain ⟨name, j⟩ := e
    rw [HoldsMembers] at hp
    obtain ⟨c, v, more, rfl, _, _, hmore⟩ := hp
    rw [List.map_cons, List.map_cons, ih hmore]

theorem lookup_of_not_mem {name : Text} {pairs : List (Text × Value)} (h : name ∉ pairs.map (·.1)) :
    pairs.reverse.lookup name = none := by
  rw [List.lookup_eq_none_iff]
  intro p hp
  refine bne_iff_ne.mpr ?_
  rintro rfl
  exact h (List.mem_map_of_mem (List.mem_reverse.mp hp))

/-! ## 4. Changes of the heap -/

/-- What can be reached through properties from where this holds. -/
def Spreads (h : Heap) (P : ObjectId → Prop) : Prop :=
  ∀ {p o : ObjectId} {x : Object} {k : Key} {q : Property}, P p → h.objects[p]? = some x →
    x.properties.get? k = some q → .object o ∈ q.values → P o

section Keep

variable {h h' : Heap} {P : ObjectId → Prop}

mutual

/-- **A value still stands for data if the objects that can be reached from it are as before.** -/
theorem Holds.keep (hP : h.Spreads P) : ∀ (j : Json) {a b : Nat} {v : Value}, h.Holds j a b v →
    (∀ o, v = .object o → P o) →
    (∀ o, P o → a ≤ o → o < b → h'.objects[o]? = h.objects[o]?) → h'.Holds j a b v
  | .null, a, b, v, hv, _, _ | .boolean _, a, b, v, hv, _, _ | .number _, a, b, v, hv, _, _
  | .string _, a, b, v, hv, _, _ => by
    rw [Holds] at hv ⊢
    exact hv
  | .array items, a, b, v, hv, hroot, hsame => by
    rw [Holds] at hv ⊢
    obtain ⟨o, x, rfl, hle, rfl, ho, hitems⟩ := hv
    have hPo := hroot o rfl
    refine ⟨o, x, rfl, hle, rfl, (hsame o hPo hle (Nat.lt_succ_self o)).trans ho, fun hshort => ?_⟩
    obtain ⟨vs, hx, hvs⟩ := hitems hshort
    rw [← HoldsItems.length hvs] at hshort
    refine ⟨vs, hx, HoldsItems.keep hP items hvs ?_ fun p hp hap hpo => ?_⟩
    · intro p hp
      obtain ⟨i, hi, hip⟩ := List.getElem_of_mem hp
      have hget : x.properties.get? (.ofNat i) = some (.plain (.object p)) := by
        rw [hx.get? i (Nat.lt_trans hi hshort), List.getElem?_eq_getElem hi, hip]
        rfl
      exact hP hPo ho hget List.mem_cons_self
    · exact hsame p hp hap (Nat.lt_succ_of_lt hpo)
  | .object members, a, b, v, hv, hroot, hsame => by
    rw [Holds] at hv ⊢
    obtain ⟨x, pairs, rfl, ha, hx, hmembers⟩ := hv
    have hPa := hroot a rfl
    have hab := HoldsMembers.le members hmembers
    refine ⟨x, pairs, rfl, (hsame a hPa (Nat.le_refl a) hab).trans ha, hx, ?_⟩
    refine HoldsMembers.keep hP members hmembers ?_ fun p hp hap hpb => hsame p hp (Nat.le_of_succ_le hap) hpb
    intro p name hp
    have hget : x.properties.get? (.ofText name) = some (.plain (.object p)) := by
      rw [hx.get?, hp]
      rfl
    exact hP hPa ha hget List.mem_cons_self
  | .broken _, a, b, v, hv, _, _ => by
    rw [Holds] at hv
    exact hv.elim

theorem HoldsItems.keep (hP : h.Spreads P) : ∀ (js : List Json) {a b : Nat} {vs : List Value},
    h.HoldsItems js a b vs →
    (∀ o, .object o ∈ vs → P o) →
    (∀ o, P o → a ≤ o → o < b → h'.objects[o]? = h.objects[o]?) → h'.HoldsItems js a b vs
  | [], a, b, vs, hvs, _, _ => by
    rw [HoldsItems] at hvs ⊢
    exact hvs
  | j :: js, a, b, vs, hvs, hroots, hsame => by
    rw [HoldsItems] at hvs ⊢
    obtain ⟨c, v, more, rfl, hv, hmore⟩ := hvs
    have hac := Holds.le j hv
    have hcb := HoldsItems.le hmore
    refine ⟨c, v, more, rfl, ?_, ?_⟩
    · refine Holds.keep hP j hv (fun o ho => hroots o (ho ▸ List.mem_cons_self)) ?_
      exact fun o ho hao hoc => hsame o ho hao (Nat.lt_of_lt_of_le hoc hcb)
    · refine HoldsItems.keep hP js hmore (fun o ho => hroots o (List.mem_cons_of_mem v ho)) ?_
      exact fun o ho hco hob => hsame o ho (Nat.le_trans hac hco) hob

theorem HoldsMembers.keep (hP : h.Spreads P) : ∀ (js : List (Text × Json)) {a b : Nat}
    {pairs : List (Text × Value)}, h.HoldsMembers js a b pairs →
    (∀ o name, pairs.reverse.lookup name = some (.object o) → P o) →
    (∀ o, P o → a ≤ o → o < b → h'.objects[o]? = h.objects[o]?) → h'.HoldsMembers js a b pairs
  | [], a, b, pairs, hp, _, _ => by
    rw [HoldsMembers] at hp ⊢
    exact hp
  | (name, j) :: js, a, b, pairs, hp, hroots, hsame => by
    rw [HoldsMembers] at hp ⊢
    obtain ⟨c, v, more, rfl, hac, hv, hmore⟩ := hp
    have hcb := HoldsMembers.le js hmore
    refine ⟨c, v, more, rfl, hac, fun hlast => ?_, ?_⟩
    · refine Holds.keep hP j (hv hlast) (fun o ho => hroots o name ?_) ?_
      · rw [List.reverse_cons, List.lookup_append,
          lookup_of_not_mem (by rwa [names_of_holdsMembers hmore]), ho]
        exact List.lookup_cons_self
      · exact fun o ho hao hoc => hsame o ho hao (Nat.lt_of_lt_of_le hoc hcb)
    · refine HoldsMembers.keep hP js hmore (fun o name' ho => hroots o name' ?_) ?_
      · rw [List.reverse_cons, List.lookup_append, ho]
        rfl
      · exact fun o ho hco hob => hsame o ho (Nat.le_trans hac hco) hob

end

/-- Only the objects of a tree matter for it. -/
theorem Holds.of_same {j : Json} {a b : Nat} {v : Value} (hv : h.Holds j a b v)
    (hsame : ∀ o, a ≤ o → o < b → h'.objects[o]? = h.objects[o]?) : h'.Holds j a b v :=
  Holds.keep (fun _ _ _ _ => trivial) j hv (fun _ _ => trivial) fun o _ => hsame o

theorem HoldsMembers.of_same {js : List (Text × Json)} {a b : Nat} {pairs : List (Text × Value)}
    (hp : h.HoldsMembers js a b pairs)
    (hsame : ∀ o, a ≤ o → o < b → h'.objects[o]? = h.objects[o]?) : h'.HoldsMembers js a b pairs :=
  HoldsMembers.keep (fun _ _ _ _ => trivial) js hp (fun _ _ _ => trivial) fun o _ => hsame o

theorem spreads_inUse (h : Heap) (outside borrowed : List Nat) :
    h.Spreads fun o => h.InUse outside borrowed (objectNode o) :=
  fun hp hx hk hq => hp.refers (.property hx hk hq)

/-- One more member at the end. -/
theorem HoldsMembers.append {js : List (Text × Json)} {a b c : Nat} {pairs : List (Text × Value)}
    (hp : h.HoldsMembers js a c pairs) (name : Text) {j : Json} {v : Value} (hv : h.Holds j c b v) :
    h.HoldsMembers (js ++ [(name, j)]) a b (pairs ++ [(name, v)]) := by
  induction js generalizing a pairs with
  | nil =>
    rw [HoldsMembers] at hp
    obtain ⟨rfl, rfl⟩ := hp
    rw [List.nil_append, List.nil_append, HoldsMembers]
    exact ⟨b, v, [], rfl, Holds.le j hv, fun _ => hv, by rw [HoldsMembers]; exact ⟨rfl, rfl⟩⟩
  | cons e js ih =>
    obtain ⟨name', j'⟩ := e
    rw [HoldsMembers] at hp
    obtain ⟨d, w, more, rfl, had, hw, hmore⟩ := hp
    rw [List.cons_append, List.cons_append, HoldsMembers]
    refine ⟨d, w, more ++ [(name, v)], rfl, had, fun hlast => hw fun hmem => hlast ?_, ih hmore⟩
    rw [List.map_append]
    exact List.mem_append_left _ hmem

end Keep

end Heap

end Ecma51
