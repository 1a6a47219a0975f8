import Mathlib.Data.List.FinRange
import Ecma51.Proofs.Frozen
import Ecma51.Proofs.Links

/-!
# Own keys and enumeration

The list of own keys and the question for a single own property look at an object in different ways: one
goes through what is stored and adds the units of a string, the other looks a key up and falls back on the
kind. They agree, and the list has an order of its own.

Enumeration goes along the prototypes and visits each key at the first object that owns it. That object alone
decides: if the property there cannot be enumerated, nothing with its key is visited further on.

* `Object.TextFits`: every unit of a string object has an array index.
* `Heap.ownNames`: the names among the own keys.
* **`Heap.ownKeys_eq`**: ascending indices of what is there, and then the names as they are stored.
* `Heap.mem_ownKeys`, `Heap.nodup_ownKeys`: each own key is there once, and nothing else.
* `Heap.owner?`: the first object that owns a key.
* `Heap.VisitedBefore`: the order of keys by their owners, and then by the keys of the owner.
* **`Heap.visibleKeys_eq`**: the keys that are visited, object by object.
* **`forInKeys_exact`**: which keys are visited, how often and in which order.
-/

namespace Ecma51

/-! ## 1. Indices -/

/-- If the object is a string object, every unit of its text has an array index. -/
def Object.TextFits (x : Object) : Prop := ∀ t, x.kind = .string t → t.length ≤ indexLimit

/-- Numbers below the limit are the array indices, in order. -/
theorem Key.map_ofNat_range {n : Nat} (hn : n ≤ indexLimit) :
    (List.range n).map Key.ofNat = ((List.finRange n).map (Fin.castLE hn)).map .index := by
  rw [← List.map_coe_finRange_eq_range, List.map_map, List.map_map]
  exact List.map_congr_left fun i _ => Key.ofNat_val (i.castLE hn)

namespace PropertyTable

theorem mem_nameKeys {s : PropertyTable} {t : Text} : t ∈ s.nameKeys ↔ (s.get? (.name t)).isSome := by
  constructor
  · intro ht
    obtain ⟨⟨u, p⟩, hentry, rfl⟩ := List.mem_map.mp ht
    exact Option.isSome_of_eq_some ((lookupName_eq_some s.distinct).mpr hentry)
  · intro ht
    obtain ⟨p, hp⟩ := Option.isSome_iff_exists.mp ht
    exact mem_nameKeys_of_get? hp

end PropertyTable

namespace Heap

variable {h : Heap} {o : ObjectId}

/-! ## 2. Keys and properties -/

/-- What a parameter shows is a property as well. -/
theorem isSome_getOwn? (h : Heap) (o : ObjectId) (k : Key) :
    (h.getOwn? o k).isSome = ((h.object o).own? k).isSome := by
  rw [getOwn?_eq, Option.isSome_map]

/-- The names of the own properties, in the order in which they are stored. -/
def ownNames (h : Heap) (o : ObjectId) : List Text := (h.object o).properties.nameKeys

theorem mem_ownNames {t : Text} : t ∈ h.ownNames o ↔ (h.getOwn? o (.name t)).isSome := by
  unfold ownNames
  rw [isSome_getOwn?, Object.own?_name, PropertyTable.mem_nameKeys]

theorem nodup_ownNames (h : Heap) (o : ObjectId) : (h.ownNames o).Nodup := (h.object o).properties.distinct

/-- The indices below the length of a text, and the stored ones from there on. -/
theorem exists_indices_of_string {t : Text} (hkind : (h.object o).kind = .string t) (ht : t.length ≤ indexLimit) :
    ∃ indices : List ArrayIndex, indices.Pairwise (· < ·) ∧
      (∀ i, i ∈ indices ↔ ((h.object o).own? (.index i)).isSome) ∧
      h.ownKeys o = indices.map .index ++ (h.ownNames o).map .name := by
  have hbeyond {i : ArrayIndex} :
      i ∈ (h.object o).properties.indexKeys.filter (fun i => t.length ≤ i.val) ↔
        t.length ≤ i.val ∧ ((h.object o).own? (.index i)).isSome := by
    rw [List.mem_filter, decide_eq_true_iff, and_comm]
    refine and_congr_right fun hi => ?_
    rw [own?_beyond hkind hi, PropertyTable.mem_indexKeys]
  have hunits {i : ArrayIndex} :
      i ∈ (List.finRange t.length).map (Fin.castLE ht) ↔ i.val < t.length := by
    rw [List.mem_map]
    constructor
    · rintro ⟨j, _, rfl⟩
      exact j.isLt
    · exact fun hi => ⟨⟨i.val, hi⟩, List.mem_finRange _, rfl⟩
  refine ⟨(List.finRange t.length).map (Fin.castLE ht) ++
    (h.object o).properties.indexKeys.filter fun i => t.length ≤ i.val, ?_, fun i => ?_, ?_⟩
  · refine List.pairwise_append.mpr ⟨?_, ((h.object o).properties.pairwise_indexKeys).filter _, ?_⟩
    · exact List.pairwise_map.mpr (List.pairwise_lt_finRange _)
    · exact fun i hi j hj => Nat.lt_of_lt_of_le (hunits.mp hi) (hbeyond.mp hj).1
  · rw [List.mem_append, hunits, hbeyond]
    by_cases hi : i.val < t.length
    · have hown : ((h.object o).own? (.index i)).isSome = true := by
        unfold Object.own?
        rw [hkind]
        dsimp only
        rw [Option.isSome_or, isSome_unitProperty?.mpr hi, Bool.or_true]
      exact iff_of_true (.inl hi) hown
    · have hle := Nat.le_of_not_lt hi
      exact ⟨fun hor => (hor.resolve_left hi).2, fun hown => .inr ⟨hle, hown⟩⟩
  · rw [ownKeys_of_string hkind, Key.map_ofNat_range ht, List.map_append]
    rfl

/-- **The own keys are the indices of own properties in ascending order, and then the names of own properties
in the order in which they are stored.** -/
theorem ownKeys_eq (hfits : (h.object o).TextFits) :
    ∃ indices : List ArrayIndex, indices.Pairwise (· < ·) ∧
      (∀ i, i ∈ indices ↔ (h.getOwn? o (.index i)).isSome) ∧
      h.ownKeys o = indices.map .index ++ (h.ownNames o).map .name := by
  simp only [isSome_getOwn?]
  by_cases hstring : ∃ t, (h.object o).kind = .string t
  · obtain ⟨t, ht⟩ := hstring
    exact exists_indices_of_string ht (hfits t ht)
  · have hkind (t : Text) : (h.object o).kind ≠ .string t := fun ht => hstring ⟨t, ht⟩
    refine ⟨(h.object o).properties.indexKeys, (h.object o).properties.pairwise_indexKeys, fun i => ?_,
      ownKeys_of_stored hkind⟩
    rw [own?_of_stored hkind, PropertyTable.mem_indexKeys]

/-- **A key is listed exactly if there is an own property with it.** -/
theorem mem_ownKeys (hfits : (h.object o).TextFits) {k : Key} : k ∈ h.ownKeys o ↔ (h.getOwn? o k).isSome := by
  obtain ⟨indices, _, hindices, heq⟩ := ownKeys_eq hfits
  rw [heq, List.mem_append]
  cases k with
  | index i => simp [hindices]
  | name t => simp [mem_ownNames]

/-- **No key is listed twice.** -/
theorem nodup_ownKeys (hfits : (h.object o).TextFits) : (h.ownKeys o).Nodup := by
  obtain ⟨indices, hascending, _, heq⟩ := ownKeys_eq hfits
  rw [heq]
  have hindices : indices.Nodup := hascending.imp Fin.ne_of_lt
  refine List.Nodup.append (hindices.map fun _ _ => Key.index.inj)
    ((h.nodup_ownNames o).map fun _ _ => Key.name.inj) fun k hi hn => ?_
  obtain ⟨i, _, rfl⟩ := List.mem_map.mp hi
  obtain ⟨t, _, ht⟩ := List.mem_map.mp hn
  cases ht

end Heap

/-! ## 3. Owners -/

namespace Heap

variable {h : Heap} {l : List ObjectId} {o p : ObjectId} {k : Key}

/-- The first of some objects that has an own property with the key. -/
def owner? (h : Heap) (l : List ObjectId) (k : Key) : Option ObjectId := l.find? fun p => (h.getOwn? p k).isSome

/-- The object has an own property with the key, and enumeration visits it. -/
def enumerates (h : Heap) (p : ObjectId) (k : Key) : Bool := (h.getOwn? p k).any (·.enumerable)

/-- The keys that are visited at one of some objects: its own, enumerable, and owned by none before it. -/
def keysShownBy (h : Heap) (l : List ObjectId) (p : ObjectId) : List Key :=
  (h.ownKeys p).filter fun k => h.owner? l k == some p && h.enumerates p k

/-- One key comes before another: its owner is nearer, or they have the same owner, and it comes first there. -/
def VisitedBefore (h : Heap) (l : List ObjectId) (j k : Key) : Prop :=
  ∃ p q, h.owner? l j = some p ∧ h.owner? l k = some q ∧
    (l.idxOf p < l.idxOf q ∨ p = q ∧ (h.ownKeys p).idxOf j < (h.ownKeys p).idxOf k)

theorem isSome_of_enumerates (hk : h.enumerates p k = true) : (h.getOwn? p k).isSome := by
  unfold enumerates at hk
  cases hp : h.getOwn? p k with
  | none =>
    rw [hp] at hk
    cases hk
  | some q => rfl

theorem owner?_cons_of_own (hk : (h.getOwn? o k).isSome) : h.owner? (o :: l) k = some o :=
  List.find?_cons_of_pos hk

theorem owner?_cons_of_not_own (hk : ¬ (h.getOwn? o k).isSome) : h.owner? (o :: l) k = h.owner? l k :=
  List.find?_cons_of_neg hk

theorem mem_of_owner? (hk : h.owner? l k = some p) : p ∈ l := List.mem_of_find?_eq_some hk

theorem VisitedBefore.irrefl (k : Key) : ¬ h.VisitedBefore l k k := by
  intro ⟨p, q, hp, hq, hlt⟩
  cases hp.symm.trans hq
  rcases hlt with hlt | ⟨_, hlt⟩
  · exact Nat.lt_irrefl _ hlt
  · exact Nat.lt_irrefl _ hlt

/-! ## 4. Object by object -/

/-- What is visited at a later object, with the keys that were seen before it. -/
theorem filter_seen (hfits : (h.object o).TextFits) (seen : List Key) (ho : p ≠ o) :
    (h.ownKeys p).filter (fun k =>
        !(seen ++ (h.ownKeys o).filter fun k => !seen.contains k).contains k &&
          (h.owner? l k == some p && h.enumerates p k)) =
      (h.ownKeys p).filter fun k => !seen.contains k && (h.owner? (o :: l) k == some p && h.enumerates p k) := by
  refine List.filter_congr fun k _ => ?_
  by_cases hseen : k ∈ seen
  · have hlater : k ∈ seen ++ (h.ownKeys o).filter fun k => !seen.contains k := List.mem_append_left _ hseen
    rw [List.contains_iff_mem.mpr hseen, List.contains_iff_mem.mpr hlater]
    rfl
  · have hnot : seen.contains k = false := by simpa using hseen
    -- a key of the nearer object is seen there, and that object is its owner: both sides leave it out
    by_cases hown : (h.getOwn? o k).isSome
    · have hfresh : k ∈ seen ++ (h.ownKeys o).filter fun k => !seen.contains k := by
        refine List.mem_append_right _ (List.mem_filter.mpr ⟨(mem_ownKeys hfits).mpr hown, ?_⟩)
        rw [hnot]
        rfl
      have hother : (some o == some p) = false := by simpa using ho.symm
      rw [List.contains_iff_mem.mpr hfresh, owner?_cons_of_own hown, hother, Bool.false_and, Bool.and_false]
      rfl
    · have hkey : k ∉ h.ownKeys o := fun hk => hown ((mem_ownKeys hfits).mp hk)
      have hlater : (seen ++ (h.ownKeys o).filter fun k => !seen.contains k).contains k = false := by
        simp [hseen, hkey]
      rw [hnot, hlater, owner?_cons_of_not_own hown]

/-- **The visited keys are those that each object shows in turn**, without those that were seen before. -/
theorem visibleKeys_eq (hnodup : l.Nodup) (hfits : ∀ p ∈ l, (h.object p).TextFits) (seen : List Key) :
    h.visibleKeys l seen = l.flatMap fun p =>
      (h.ownKeys p).filter fun k => !seen.contains k && (h.owner? l k == some p && h.enumerates p k) := by
  -- the keys of each object are added to those that were seen, so the claim is about all of these
  induction l generalizing seen with
  | nil => rfl
  | cons o l ih =>
    obtain ⟨ho, hnodup⟩ := List.nodup_cons.mp hnodup
    have hfirst : ((h.ownKeys o).filter fun k => !seen.contains k).filter (h.enumerates o ·) =
        (h.ownKeys o).filter fun k => !seen.contains k && (h.owner? (o :: l) k == some o && h.enumerates o k) := by
      rw [List.filter_filter]
      refine List.filter_congr fun k hk => ?_
      have hown := (mem_ownKeys (hfits o List.mem_cons_self)).mp hk
      rw [owner?_cons_of_own hown, beq_self_eq_true, Bool.true_and, Bool.and_comm]
    unfold visibleKeys
    dsimp only
    rw [List.flatMap_cons, ← hfirst, ih hnodup fun p hp => hfits p (List.mem_cons_of_mem _ hp)]
    refine congrArg _ (List.flatMap_congr fun p hp => ?_)
    exact filter_seen (hfits o List.mem_cons_self) seen fun heq => ho (heq ▸ hp)

/-- The loop along prototypes goes to the end of a chain. -/
theorem chain_of_walk (hw : Walk h.prototypeOf (some o) l) : h.chain o = l :=
  chainUpTo_of_walk hw (length_prototypes_of_nodup hw hw.distinct)

theorem forInKeys_eq (hw : Walk h.prototypeOf (some o) l) (hfits : ∀ p ∈ l, (h.object p).TextFits) :
    h.forInKeys o = l.flatMap (h.keysShownBy l) := by
  unfold forInKeys
  rw [chain_of_walk hw, visibleKeys_eq hw.distinct hfits]
  rfl

/-! ## 5. Order -/

theorem mem_keysShownBy (hfits : (h.object p).TextFits) :
    k ∈ h.keysShownBy l p ↔ h.owner? l k = some p ∧ h.enumerates p k = true := by
  unfold keysShownBy
  rw [List.mem_filter, Bool.and_eq_true, beq_iff_eq]
  exact ⟨fun hk => hk.2, fun hk => ⟨(mem_ownKeys hfits).mpr (isSome_of_enumerates hk.2), hk⟩⟩

/-- The elements of a list without repetition are in the order of their positions. -/
theorem pairwise_idxOf {α : Type} [DecidableEq α] {l : List α} (hnodup : l.Nodup) :
    l.Pairwise fun x y => l.idxOf x < l.idxOf y := by
  refine List.pairwise_iff_getElem.mpr fun i j hi hj hij => ?_
  rw [hnodup.idxOf_getElem, hnodup.idxOf_getElem]
  exact hij

/-- **What the objects show in turn is in the order of the owners**, and in that of their keys. -/
theorem pairwise_keysShownBy (hnodup : l.Nodup) (hfits : ∀ p ∈ l, (h.object p).TextFits) :
    (l.flatMap (h.keysShownBy l)).Pairwise (h.VisitedBefore l) := by
  refine List.pairwise_flatMap.mpr ⟨fun p hp => ?_, ?_⟩
  · have hkeys := pairwise_idxOf (nodup_ownKeys (hfits p hp))
    refine (hkeys.sublist List.filter_sublist).imp_of_mem fun {j k} hj hk hlt => ?_
    have hj := (mem_keysShownBy (hfits p hp)).mp hj
    have hk := (mem_keysShownBy (hfits p hp)).mp hk
    exact ⟨p, p, hj.1, hk.1, .inr ⟨rfl, hlt⟩⟩
  · refine (pairwise_idxOf hnodup).imp_of_mem fun {p q} hp hq hlt j hj k hk => ?_
    have hj := (mem_keysShownBy (hfits p hp)).mp hj
    have hk := (mem_keysShownBy (hfits q hq)).mp hk
    exact ⟨p, q, hj.1, hk.1, .inl hlt⟩

end Heap

/-! ## 6. Enumeration -/

/-- **Enumeration of an object with a finite chain of prototypes** visits no key twice, visits a key exactly if
the first object on the chain that owns it has it enumerable, and visits the keys in the order of those objects on
the chain, and of their own keys. -/
theorem forInKeys_exact {h : Heap} {o : ObjectId} {l : List ObjectId} (hw : Walk h.prototypeOf (some o) l)
    (hfits : ∀ p ∈ l, (h.object p).TextFits) :
    (h.forInKeys o).Nodup ∧
    (∀ k, k ∈ h.forInKeys o ↔ ∃ p, h.owner? l k = some p ∧ (h.getOwn? p k).any (·.enumerable) = true) ∧
    (h.forInKeys o).Pairwise (h.VisitedBefore l) := by
  rw [Heap.forInKeys_eq hw hfits]
  have hordered := Heap.pairwise_keysShownBy hw.distinct hfits
  refine ⟨hordered.imp fun {j k} hjk heq => ?_, fun k => ?_, hordered⟩
  · rw [heq] at hjk
    exact Heap.VisitedBefore.irrefl k hjk
  · rw [List.mem_flatMap]
    constructor
    · intro ⟨p, hp, hk⟩
      exact ⟨p, (Heap.mem_keysShownBy (hfits p hp)).mp hk⟩
    · intro ⟨p, howner, henumerates⟩
      have hp := Heap.mem_of_owner? howner
      exact ⟨p, hp, (Heap.mem_keysShownBy (hfits p hp)).mpr ⟨howner, henumerates⟩⟩

/-- A record with two names; an object below it that hides one of them; and a string object below both. -/
def hidingHeap : Heap :=
  let named (s : String) (e : Bool) (x : Object) : Object :=
    x.withProperty (.name (Text.ofString s)) (.data .null true e true)
  let record := named "hidden" true (named "shown" true (.ordinary none))
  let below := named "hidden" false (.ordinary (some 0))
  let top := Object.ofKind "String" (some 1) (.string (Text.ofString "xy"))
  (((Heap.empty.add record).1.add below).1.add top).1

theorem walk_hidingHeap : Walk hidingHeap.prototypeOf (some 2) [2, 1, 0] := by
  refine .step ?_
  rw [show hidingHeap.prototypeOf 2 = some 1 by decide +kernel]
  refine .step ?_
  rw [show hidingHeap.prototypeOf 1 = some 0 by decide +kernel]
  refine .step ?_
  rw [show hidingHeap.prototypeOf 0 = none by decide +kernel]
  exact .done

theorem textFits_hidingHeap (o : ObjectId) (ho : o ∈ [2, 1, 0]) : (hidingHeap.object o).TextFits := by
  intro t ht
  simp only [List.mem_cons, List.not_mem_nil, or_false] at ho
  obtain rfl | rfl | rfl := ho
  · cases ht
    decide +kernel
  · cases ht
  · cases ht

/-- The units come first, then what is not hidden; what is hidden nearer by is not visited at all. -/
theorem forInKeys_exact_hiding :
    (hidingHeap.forInKeys 2).Nodup ∧ .index ⟨1, by decide⟩ ∈ hidingHeap.forInKeys 2 ∧
    .name (Text.ofString "shown") ∈ hidingHeap.forInKeys 2 ∧
    .name (Text.ofString "hidden") ∉ hidingHeap.forInKeys 2 := by
  obtain ⟨hnodup, hmem, _⟩ := forInKeys_exact walk_hidingHeap textFits_hidingHeap
  refine ⟨hnodup, (hmem _).mpr ⟨2, ?_, ?_⟩, (hmem _).mpr ⟨0, ?_, ?_⟩, fun hhidden => ?_⟩
  · decide +kernel
  · decide +kernel
  · decide +kernel
  · decide +kernel
  · obtain ⟨p, howner, henumerable⟩ := (hmem _).mp hhidden
    have hnearer : hidingHeap.owner? [2, 1, 0] (.name (Text.ofString "hidden")) = some 1 := by decide +kernel
    cases hnearer.symm.trans howner
    revert henumerable
    decide +kernel

end Ecma51
