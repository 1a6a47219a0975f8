import Ecma51.Proofs.ArrayLength
import Ecma51.Proofs.JsonTree

/-!
# Trees that programs see

Values that show JSON data through their own properties, however their objects came about. What is shown is
determined by the value, and only its own objects matter for it.

* `Heap.Shows`: a value shows data.
* **`Heap.Shows.unique`**: one value shows one thing.
* **`Heap.Shows.keep`**: it still does if the objects that can be reached from it are as before.
* **`Heap.Holds.shows`**: a value that stands for data shows them, if the members are in the order of keys.
-/

namespace Ecma51

/-! ## 1. The order of keys -/

namespace Key

/-- The name that a key is. -/
def name? : Key → Option Text
  | .index _ => none
  | .name t => some t

theorem name?_ofText (t : Text) : (ofText t).name? = if (arrayIndex? t).isNone then some t else none := by
  unfold ofText
  cases arrayIndex? t <;> rfl

end Key

namespace PropertyTable

variable {s t : PropertyTable}

theorem nameKeys_eq_filterMap (t : PropertyTable) : t.nameKeys = t.keys.filterMap Key.name? := by
  unfold keys
  rw [List.filterMap_append, List.filterMap_map, List.filterMap_map]
  simp [Function.comp_def, Key.name?]

theorem index_mem_keys {i : ArrayIndex} : .index i ∈ t.keys ↔ i ∈ t.indexKeys := by
  simp [keys]

theorem nodup_keys (t : PropertyTable) : t.keys.Nodup := by
  have hindices : t.indexKeys.Nodup := Std.TreeMap.nodup_keys
  refine List.Nodup.append (hindices.map fun _ _ => Key.index.inj) (t.distinct.map fun _ _ => Key.name.inj) ?_
  intro k hi hn
  obtain ⟨i, _, rfl⟩ := List.mem_map.mp hi
  obtain ⟨u, _, hu⟩ := List.mem_map.mp hn
  cases hu

/-- **Tables with the same names in order and the same indices have the same keys in order.** -/
theorem keys_eq (hnames : s.nameKeys = t.nameKeys) (hindices : ∀ i, i ∈ s.indexKeys ↔ i ∈ t.indexKeys) :
    s.keys = t.keys := by
  unfold keys
  rw [hnames, eq_of_ascending s.pairwise_indexKeys t.pairwise_indexKeys hindices]

end PropertyTable

theorem eraseDups_of_nodup {α : Type} [BEq α] [LawfulBEq α] {l : List α} (h : l.Nodup) :
    l.eraseDups = l := by
  induction l using List.reverseRecOn with
  | nil => rfl
  | append_singleton l a ih =>
    have hdistinct := List.nodup_append.mp h
    have hnew : a ∉ l := fun ha => hdistinct.2.2 a ha a List.mem_cons_self rfl
    rw [Object.IsRecord.eraseDups_append_singleton, if_neg, ih hdistinct.1]
    rw [List.elem_eq_mem, decide_eq_true_iff]
    exact hnew

/-- **The keys of a record are those of any table with the same names.** -/
theorem Object.IsRecord.keys_eq {x : Object} {pairs : List (Text × Value)} (hx : x.IsRecord pairs)
    {t : PropertyTable} (ht : t.keys = (pairs.map (·.1)).map .ofText) : x.properties.keys = t.keys := by
  have hnames : t.nameKeys = (pairs.map (·.1)).filter fun name => (Key.arrayIndex? name).isNone := by
    rw [t.nameKeys_eq_filterMap, ht, List.filterMap_map, ← List.filterMap_eq_filter]
    refine List.filterMap_congr fun name _ => ?_
    rw [Function.comp_apply, Key.name?_ofText]
    rfl
  refine PropertyTable.keys_eq ?_ fun i => ?_
  · rw [hx.names, ← hnames]
    exact eraseDups_of_nodup t.distinct
  · rw [PropertyTable.mem_indexKeys, ← PropertyTable.index_mem_keys, ht]
    constructor
    · intro hi
      obtain ⟨pair, hpair, hkey⟩ := hx.only _ hi
      rw [hkey]
      exact List.mem_map_of_mem (List.mem_map_of_mem hpair)
    · intro hi
      obtain ⟨name, hname, hkey⟩ := List.mem_map.mp hi
      rw [← hkey, hx.get?, Option.isSome_map, List.lookup_isSome_iff]
      obtain ⟨pair, hpair, rfl⟩ := List.mem_map.mp hname
      exact ⟨pair, List.mem_reverse.mpr hpair, beq_self_eq_true _⟩

/-! ## 2. Trees -/

namespace Heap

/-- An own property has a value. -/
def HasOwn (h : Heap) (o : ObjectId) (k : Key) (v : Value) : Prop :=
  ∃ w e c, h.getOwn? o k = some (.data v w e c)

mutual

/-- The value shows data: an array by its length and the elements below it, an object by its own properties,
all of which enumeration visits, in the order of its keys. -/
def Shows (h : Heap) : Json → Value → Prop
  | .null, v => v = .null
  | .boolean b, v => v = .boolean b
  | .number x, v => v = .number x
  | .string t, v => v = .string t
  | .array items, v => ∃ o, v = .object o ∧ (h.object o).kind = .array ∧ items.length < 2 ^ 32 ∧
      h.HasOwn o .length (.ofNat items.length) ∧ ShowsItems h o items 0
  | .object members, v => ∃ o, v = .object o ∧ (h.object o).kind = .ordinary ∧
      h.ownKeys o = (members.map (·.1)).map .ofText ∧ h.ownEnumerableKeys o = h.ownKeys o ∧
      ShowsMembers h o members
  | .broken _, _ => False

/-- The elements of an object from an index on show items. -/
def ShowsItems (h : Heap) (o : ObjectId) : List Json → Nat → Prop
  | [], _ => True
  | j :: js, i => ∃ v, h.HasOwn o (.ofNat i) v ∧ Shows h j v ∧ ShowsItems h o js (i + 1)

/-- The properties of an object show members. -/
def ShowsMembers (h : Heap) (o : ObjectId) : List (Text × Json) → Prop
  | [] => True
  | (name, j) :: js => ∃ v, h.HasOwn o (.ofText name) v ∧ Shows h j v ∧ ShowsMembers h o js

end

/-- What an object shows is an array or an object. -/
theorem Shows.of_object {h : Heap} {j : Json} {o : ObjectId} (hj : h.Shows j (.object o)) :
    (∃ items, j = .array items ∧ (h.object o).kind = .array) ∨
      ∃ members, j = .object members ∧ (h.object o).kind = .ordinary := by
  cases j with
  | array items =>
    rw [Shows] at hj
    obtain ⟨_, ho, hkind, _⟩ := hj
    cases ho
    exact .inl ⟨items, rfl, hkind⟩
  | object members =>
    rw [Shows] at hj
    obtain ⟨_, ho, hkind, _⟩ := hj
    cases ho
    exact .inr ⟨members, rfl, hkind⟩
  | _ => simp [Shows] at hj

theorem HasOwn.unique {h : Heap} {o : ObjectId} {k : Key} {v v' : Value} (hv : h.HasOwn o k v)
    (hv' : h.HasOwn o k v') : v = v' := by
  obtain ⟨w, e, c, hget⟩ := hv
  obtain ⟨w', e', c', hget'⟩ := hv'
  rw [hget] at hget'
  cases hget'
  rfl

section Unique

variable {h : Heap}

mutual

/-- **A value shows one thing.** -/
theorem Shows.unique : ∀ (j : Json) {j' : Json} {v : Value}, h.Shows j v → h.Shows j' v → j = j'
  | .null, j', v, hj, hj' | .boolean _, j', v, hj, hj' | .number _, j', v, hj, hj'
  | .string _, j', v, hj, hj' => by
    rw [Shows] at hj
    subst hj
    cases j' <;> simp_all [Shows]
  | .array items, j', v, hj, hj' => by
    rw [Shows] at hj
    obtain ⟨o, rfl, hkind, hshort, hlength, hitems⟩ := hj
    rcases hj'.of_object with ⟨items', rfl, _⟩ | ⟨_, _, hkind'⟩
    · rw [Shows] at hj'
      obtain ⟨_, ho, _, hshort', hlength', hitems'⟩ := hj'
      cases ho
      have hsame := Value.eq_of_ofNat_eq hshort hshort' (hlength.unique hlength')
      rw [ShowsItems.unique items hsame hitems hitems']
    · rw [hkind] at hkind'
      cases hkind'
  | .object members, j', v, hj, hj' => by
    rw [Shows] at hj
    obtain ⟨o, rfl, hkind, hkeys, _, hmembers⟩ := hj
    rcases hj'.of_object with ⟨_, _, hkind'⟩ | ⟨members', rfl, _⟩
    · rw [hkind] at hkind'
      cases hkind'
    · rw [Shows] at hj'
      obtain ⟨_, ho, _, hkeys', _, hmembers'⟩ := hj'
      cases ho
      have hnames := List.map_injective_iff.mpr Key.ofText_injective (hkeys.symm.trans hkeys')
      rw [ShowsMembers.unique members hnames hmembers hmembers']
  | .broken _, j', v, hj, _ => by
    rw [Shows] at hj
    exact hj.elim

theorem ShowsItems.unique : ∀ (js : List Json) {js' : List Json} {o : ObjectId} {i : Nat},
    js.length = js'.length → h.ShowsItems o js i → h.ShowsItems o js' i → js = js'
  | [], js', o, i, hlength, _, _ => (List.eq_nil_of_length_eq_zero hlength.symm).symm
  | j :: js, [], o, i, hlength, _, _ => by cases hlength
  | j :: js, j' :: js', o, i, hlength, hj, hj' => by
    rw [ShowsItems] at hj hj'
    obtain ⟨v, hown, hv, hmore⟩ := hj
    obtain ⟨v', hown', hv', hmore'⟩ := hj'
    cases hown.unique hown'
    rw [Shows.unique j hv hv', ShowsItems.unique js (Nat.succ.inj hlength) hmore hmore']

theorem ShowsMembers.unique : ∀ (js : List (Text × Json)) {js' : List (Text × Json)} {o : ObjectId},
    js.map (·.1) = js'.map (·.1) → h.ShowsMembers o js → h.ShowsMembers o js' → js = js'
  | [], js', o, hnames, _, _ => (List.map_eq_nil_iff.mp hnames.symm).symm
  | (name, j) :: js, [], o, hnames, _, _ => by cases hnames
  | (name, j) :: js, (name', j') :: js', o, hnames, hj, hj' => by
    rw [ShowsMembers] at hj hj'
    obtain ⟨v, hown, hv, hmore⟩ := hj
    obtain ⟨v', hown', hv', hmore'⟩ := hj'
    obtain ⟨hname, hmoreNames⟩ := List.cons.inj hnames
    dsimp only at hname
    subst hname
    cases hown.unique hown'
    rw [Shows.unique j hv hv', ShowsMembers.unique js hmoreNames hmore hmore']

end

end Unique

/-! ## 3. Changes of the heap -/

/-- The object has its own properties as they are stored. -/
def IsPlain (h : Heap) (o : ObjectId) : Prop := (h.object o).kind = .array ∨ (h.object o).kind = .ordinary

theorem IsPlain.getOwn? {h : Heap} {o : ObjectId} (ho : h.IsPlain o) (k : Key) :
    h.getOwn? o k = h.stored? o k := by
  unfold Heap.getOwn? stored?
  dsimp only
  rcases ho with ho | ho <;> rw [ho]

section Keep

variable {h h' : Heap} {P : ObjectId → Prop}

theorem IsPlain.same {o : ObjectId} (ho : h.IsPlain o) (hsame : h'.object o = h.object o) :
    h'.getOwn? o = h.getOwn? o := by
  have ho' : h'.IsPlain o := by
    unfold IsPlain
    rw [hsame]
    exact ho
  funext k
  rw [ho.getOwn?, ho'.getOwn?]
  unfold stored?
  rw [hsame]

theorem HasOwn.same {o : ObjectId} {k : Key} {v : Value} (hv : h.HasOwn o k v) (ho : h.IsPlain o)
    (hsame : h'.object o = h.object o) : h'.HasOwn o k v := by
  unfold HasOwn
  rw [ho.same hsame]
  exact hv

theorem ownKeys_same {o : ObjectId} (hsame : h'.object o = h.object o) : h'.ownKeys o = h.ownKeys o := by
  unfold ownKeys
  rw [hsame]

theorem exists_of_stored? {o : ObjectId} {k : Key} {q : Property} (hq : h.stored? o k = some q) :
    ∃ x, h.objects[o]? = some x ∧ x.properties.get? k = some q := by
  unfold stored? at hq
  rcases h.object_cases o with hx | hnone
  · exact ⟨_, hx, hq⟩
  · rw [hnone] at hq
    exact absurd ((PropertyTable.get?_empty k).symm.trans hq) nofun

theorem HasOwn.spreads {o p : ObjectId} {k : Key} (hv : h.HasOwn o k (.object p)) (ho : h.IsPlain o)
    (hP : h.Spreads P) (hPo : P o) : P p := by
  obtain ⟨w, e, c, hget⟩ := hv
  rw [ho.getOwn?] at hget
  obtain ⟨x, hx, hk⟩ := exists_of_stored? hget
  exact hP hPo hx hk List.mem_cons_self

mutual

/-- **A value still shows data if the objects that can be reached from it are as before.** -/
theorem Shows.keep (hP : h.Spreads P) (hsame : ∀ o, P o → h'.object o = h.object o) :
    ∀ (j : Json) {v : Value}, h.Shows j v → (∀ o, v = .object o → P o) → h'.Shows j v
  | .null, v, hj, _ | .boolean _, v, hj, _ | .number _, v, hj, _ | .string _, v, hj, _ => by
    rw [Shows] at hj ⊢
    exact hj
  | .array items, v, hj, hroot => by
    rw [Shows] at hj ⊢
    obtain ⟨o, rfl, hkind, hshort, hlength, hitems⟩ := hj
    have ho := hsame o (hroot o rfl)
    refine ⟨o, rfl, by rw [ho, hkind], hshort, hlength.same (.inl hkind) ho, ?_⟩
    exact ShowsItems.keep hP hsame items hitems (.inl hkind) (hroot o rfl)
  | .object members, v, hj, hroot => by
    rw [Shows] at hj ⊢
    obtain ⟨o, rfl, hkind, hkeys, hvisited, hmembers⟩ := hj
    have ho := hsame o (hroot o rfl)
    have hkeys' := ownKeys_same ho
    refine ⟨o, rfl, by rw [ho, hkind], hkeys'.trans hkeys, ?_, ?_⟩
    · unfold ownEnumerableKeys at hvisited ⊢
      rw [hkeys', IsPlain.same (.inr hkind) ho]
      exact hvisited
    · exact ShowsMembers.keep hP hsame members hmembers (.inr hkind) (hroot o rfl)
  | .broken _, v, hj, _ => by
    rw [Shows] at hj
    exact hj.elim

theorem ShowsItems.keep (hP : h.Spreads P) (hsame : ∀ o, P o → h'.object o = h.object o) :
    ∀ (js : List Json) {o : ObjectId} {i : Nat}, h.ShowsItems o js i → h.IsPlain o → P o →
      h'.ShowsItems o js i
  | [], o, i, _, _, _ => by
    rw [ShowsItems]
    trivial
  | j :: js, o, i, hj, ho, hPo => by
    rw [ShowsItems] at hj ⊢
    obtain ⟨v, hown, hv, hmore⟩ := hj
    refine ⟨v, hown.same ho (hsame o hPo), Shows.keep hP hsame j hv ?_,
      ShowsItems.keep hP hsame js hmore ho hPo⟩
    rintro p rfl
    exact hown.spreads ho hP hPo

theorem ShowsMembers.keep (hP : h.Spreads P) (hsame : ∀ o, P o → h'.object o = h.object o) :
    ∀ (js : List (Text × Json)) {o : ObjectId}, h.ShowsMembers o js → h.IsPlain o → P o →
      h'.ShowsMembers o js
  | [], o, _, _, _ => by
    rw [ShowsMembers]
    trivial
  | (name, j) :: js, o, hj, ho, hPo => by
    rw [ShowsMembers] at hj ⊢
    obtain ⟨v, hown, hv, hmore⟩ := hj
    refine ⟨v, hown.same ho (hsame o hPo), Shows.keep hP hsame j hv ?_,
      ShowsMembers.keep hP hsame js hmore ho hPo⟩
    rintro p rfl
    exact hown.spreads ho hP hPo

end

end Keep

/-! ## 4. Trees that were built -/

end Heap

namespace Json

mutual

/-- Members are in the order in which an object has its keys, and arrays can be counted. -/
def IsOrdered : Json → Prop
  | .array items => items.length < 2 ^ 32 ∧ AreOrdered items
  | .object members => (∃ t : PropertyTable, t.keys = (members.map (·.1)).map .ofText) ∧
      MembersOrdered members
  | .null | .boolean _ | .number _ | .string _ | .broken _ => True

/-- So they are in items. -/
def AreOrdered : List Json → Prop
  | [] => True
  | j :: js => j.IsOrdered ∧ AreOrdered js

/-- So they are in members. -/
def MembersOrdered : List (Text × Json) → Prop
  | [] => True
  | (_, j) :: js => j.IsOrdered ∧ MembersOrdered js

end

end Json

namespace Heap

variable {h : Heap}

theorem ownKeys_of_ordinary {o : ObjectId} (ho : (h.object o).kind = .ordinary) :
    h.ownKeys o = (h.object o).properties.keys :=
  ownKeys_of_stored fun _ => ho ▸ Kind.noConfusion

mutual

theorem Shows.isOrdered : ∀ (j : Json) {v : Value}, h.Shows j v → j.IsOrdered
  | .null, v, _ | .boolean _, v, _ | .number _, v, _ | .string _, v, _ | .broken _, v, _ => by
    rw [Json.IsOrdered]
    trivial
  | .array items, v, hj => by
    rw [Shows] at hj
    obtain ⟨o, rfl, _, hshort, _, hitems⟩ := hj
    rw [Json.IsOrdered]
    exact ⟨hshort, ShowsItems.areOrdered items hitems⟩
  | .object members, v, hj => by
    rw [Shows] at hj
    obtain ⟨o, rfl, hkind, hkeys, _, hmembers⟩ := hj
    rw [Json.IsOrdered]
    exact ⟨⟨_, (ownKeys_of_ordinary hkind).symm.trans hkeys⟩, ShowsMembers.membersOrdered members hmembers⟩

theorem ShowsItems.areOrdered : ∀ (js : List Json) {o : ObjectId} {i : Nat}, h.ShowsItems o js i →
    Json.AreOrdered js
  | [], o, i, _ => by
    rw [Json.AreOrdered]
    trivial
  | j :: js, o, i, hj => by
    rw [ShowsItems] at hj
    obtain ⟨v, _, hv, hmore⟩ := hj
    rw [Json.AreOrdered]
    exact ⟨Shows.isOrdered j hv, ShowsItems.areOrdered js hmore⟩

theorem ShowsMembers.membersOrdered : ∀ (js : List (Text × Json)) {o : ObjectId}, h.ShowsMembers o js →
    Json.MembersOrdered js
  | [], o, _ => by
    rw [Json.MembersOrdered]
    trivial
  | (name, j) :: js, o, hj => by
    rw [ShowsMembers] at hj
    obtain ⟨v, _, hv, hmore⟩ := hj
    rw [Json.MembersOrdered]
    exact ⟨Shows.isOrdered j hv, ShowsMembers.membersOrdered js hmore⟩

end

theorem lookup_of_nodup {pairs : List (Text × Value)} (hdistinct : (pairs.map (·.1)).Nodup) {name : Text}
    {v : Value} (hv : (name, v) ∈ pairs) : pairs.reverse.lookup name = some v := by
  induction pairs with
  | nil => cases hv
  | cons e pairs ih =>
    rw [List.map_cons, List.nodup_cons] at hdistinct
    rw [List.reverse_cons, List.lookup_append]
    rcases List.mem_cons.mp hv with rfl | hv
    · rw [lookup_of_not_mem hdistinct.1]
      exact List.lookup_cons_self
    · rw [ih hdistinct.2 hv]
      rfl

/-- What an array with given elements has as its own. -/
theorem hasOwn_of_isArrayOf {o : ObjectId} {x : Object} {vs : List Value} (ho : h.objects[o]? = some x)
    (hx : x.IsArrayOf vs) (hshort : vs.length < 2 ^ 32) :
    (h.object o).kind = .array ∧ h.HasOwn o .length (.ofNat vs.length) ∧
      ∀ i v, vs[i]? = some v → h.HasOwn o (.ofNat i) v := by
  have hobject := object_of_getElem? ho
  have hkind : (h.object o).kind = .array := by rw [hobject, hx.kind]
  have hget (k : Key) : h.getOwn? o k = x.properties.get? k := by
    rw [IsPlain.getOwn? (.inl hkind)]
    unfold stored?
    rw [hobject]
  refine ⟨hkind, ⟨_, _, _, (hget _).trans hx.length⟩, fun i v hv => ?_⟩
  have hlt := (List.getElem?_eq_some_iff.mp hv).1
  have hstored : x.properties.get? (.ofNat i) = some (.plain v) := by
    rw [hx.get? i (Nat.lt_trans hlt hshort), hv]
    rfl
  exact ⟨_, _, _, (hget _).trans hstored⟩

/-- A member of a record is an own property. -/
theorem getOwn?_of_isRecord {o : ObjectId} {x : Object} {pairs : List (Text × Value)} {name : Text} {v : Value}
    (ho : h.objects[o]? = some x) (hx : x.IsRecord pairs) (hv : pairs.reverse.lookup name = some v) :
    h.IsPlain o ∧ h.getOwn? o (.ofText name) = some (.plain v) := by
  have hobject := object_of_getElem? ho
  have hplain : h.IsPlain o := .inr (by rw [hobject, hx.kind])
  refine ⟨hplain, ?_⟩
  rw [hplain.getOwn?]
  unfold stored?
  rw [hobject, hx.get?, hv]
  rfl

/-- What a record has as its own, if its members are in the order of some table. -/
theorem hasOwn_of_isRecord {o : ObjectId} {x : Object} {pairs : List (Text × Value)}
    (ho : h.objects[o]? = some x) (hx : x.IsRecord pairs) {t : PropertyTable}
    (ht : t.keys = (pairs.map (·.1)).map .ofText) :
    (h.object o).kind = .ordinary ∧ h.ownKeys o = (pairs.map (·.1)).map .ofText ∧
      h.ownEnumerableKeys o = h.ownKeys o ∧ ∀ name v, (name, v) ∈ pairs → h.HasOwn o (.ofText name) v := by
  have hobject := object_of_getElem? ho
  have hkind : (h.object o).kind = .ordinary := by rw [hobject, hx.kind]
  have hdistinct : (pairs.map (·.1)).Nodup := (ht ▸ t.nodup_keys).of_map _
  have hget {name : Text} {v : Value} (hv : (name, v) ∈ pairs) :
      h.getOwn? o (.ofText name) = some (.plain v) :=
    (getOwn?_of_isRecord ho hx (lookup_of_nodup hdistinct hv)).2
  have hkeys : h.ownKeys o = (pairs.map (·.1)).map .ofText := by
    rw [ownKeys_of_ordinary hkind, hobject, hx.keys_eq ht, ht]
  refine ⟨hkind, hkeys, ?_, fun name v hv => ⟨_, _, _, hget hv⟩⟩
  unfold ownEnumerableKeys
  rw [List.filter_eq_self, hkeys]
  intro k hk
  obtain ⟨name, hname, rfl⟩ := List.mem_map.mp hk
  obtain ⟨pair, hpair, rfl⟩ := List.mem_map.mp hname
  rw [hget hpair]
  rfl

mutual

/-- **A value that stands for data shows them**, if their members are in the order of keys. -/
theorem Holds.shows : ∀ (j : Json) {a b : Nat} {v : Value}, h.Holds j a b v → j.IsOrdered → h.Shows j v
  | .null, a, b, v, hj, _ | .boolean _, a, b, v, hj, _ | .number _, a, b, v, hj, _
  | .string _, a, b, v, hj, _ => by
    rw [Holds] at hj
    rw [Shows]
    exact hj.2
  | .array items, a, b, v, hj, hordered => by
    rw [Holds] at hj
    rw [Json.IsOrdered] at hordered
    obtain ⟨o, x, rfl, _, _, ho, hitems⟩ := hj
    obtain ⟨vs, hx, hvs⟩ := hitems hordered.1
    rw [← hvs.length] at hordered
    obtain ⟨hkind, hlength, hown⟩ := hasOwn_of_isArrayOf ho hx hordered.1
    rw [Shows, ← hvs.length]
    refine ⟨o, rfl, hkind, hordered.1, hlength, HoldsItems.shows items hvs hordered.2 fun i v hv => ?_⟩
    rw [Nat.zero_add]
    exact hown i v hv
  | .object members, a, b, v, hj, hordered => by
    rw [Holds] at hj
    rw [Json.IsOrdered] at hordered
    obtain ⟨x, pairs, rfl, ha, hx, hmembers⟩ := hj
    obtain ⟨⟨t, ht⟩, hinner⟩ := hordered
    have hdistinct : (members.map (·.1)).Nodup := (ht ▸ t.nodup_keys).of_map _
    rw [← names_of_holdsMembers hmembers] at ht
    obtain ⟨hkind, hkeys, hvisited, hown⟩ := hasOwn_of_isRecord ha hx ht
    rw [names_of_holdsMembers hmembers] at hkeys
    rw [Shows]
    exact ⟨a, rfl, hkind, hkeys, hvisited, HoldsMembers.shows members hmembers hdistinct hinner hown⟩
  | .broken _, a, b, v, hj, _ => by
    rw [Holds] at hj
    exact hj.elim

theorem HoldsItems.shows : ∀ (js : List Json) {a b : Nat} {vs : List Value} {o : ObjectId} {n : Nat},
    h.HoldsItems js a b vs → Json.AreOrdered js → (∀ i v, vs[i]? = some v → h.HasOwn o (.ofNat (n + i)) v) →
    h.ShowsItems o js n
  | [], a, b, vs, o, n, _, _, _ => by
    rw [ShowsItems]
    trivial
  | j :: js, a, b, vs, o, n, hj, hordered, hown => by
    rw [HoldsItems] at hj
    rw [Json.AreOrdered] at hordered
    obtain ⟨c, v, more, rfl, hv, hmore⟩ := hj
    rw [ShowsItems]
    refine ⟨v, hown 0 v rfl, Holds.shows j hv hordered.1, ?_⟩
    refine HoldsItems.shows js hmore hordered.2 fun i u hu => ?_
    rw [Nat.add_assoc, Nat.add_comm 1 i]
    exact hown (i + 1) u hu

theorem HoldsMembers.shows : ∀ (js : List (Text × Json)) {a b : Nat} {pairs : List (Text × Value)}
    {o : ObjectId}, h.HoldsMembers js a b pairs → (js.map (·.1)).Nodup → Json.MembersOrdered js →
    (∀ name v, (name, v) ∈ pairs → h.HasOwn o (.ofText name) v) → h.ShowsMembers o js
  | [], a, b, pairs, o, _, _, _, _ => by
    rw [ShowsMembers]
    trivial
  | (name, j) :: js, a, b, pairs, o, hj, hdistinct, hordered, hown => by
    rw [HoldsMembers] at hj
    rw [Json.MembersOrdered] at hordered
    rw [List.map_cons, List.nodup_cons] at hdistinct
    obtain ⟨c, v, more, rfl, _, hv, hmore⟩ := hj
    rw [ShowsMembers]
    refine ⟨v, hown name v List.mem_cons_self, Holds.shows j (hv hdistinct.1) hordered.1, ?_⟩
    refine HoldsMembers.shows js hmore hdistinct.2 hordered.2 fun name' u hu => ?_
    exact hown name' u (List.mem_cons_of_mem _ hu)

end

end Heap

end Ecma51
