import Std.Data.TreeMap
import Ecma51.Property.Descriptor
import Ecma51.Property.Key

/-!
# Property tables

The own properties of an object: those with index keys by number, the others in the order in which
they were first added. Replacing a property keeps its place; deleting one and adding it again puts it
last.

* `PropertyTable.get?`, `PropertyTable.insert`, `PropertyTable.erase`: the operations.
* `PropertyTable.keys`: the index keys ascending, then the names in order of insertion.
-/

namespace Ecma51

/-! ## 1. Named properties -/

namespace PropertyTable

/-- The property with the given name in a list. -/
def lookupName (t : Text) : List (Text × Property) → Option Property
  | [] => none
  | (u, p) :: rest => if u = t then some p else lookupName t rest

/-- The list with the property of a name replaced in place, or added at the end. -/
def insertName (t : Text) (p : Property) : List (Text × Property) → List (Text × Property)
  | [] => [(t, p)]
  | (u, q) :: rest => if u = t then (u, p) :: rest else (u, q) :: insertName t p rest

/-- The list without the property of a name. -/
def eraseName (t : Text) : List (Text × Property) → List (Text × Property)
  | [] => []
  | (u, q) :: rest => if u = t then rest else (u, q) :: eraseName t rest

/-- No name occurs twice. -/
def Distinct (l : List (Text × Property)) : Prop := (l.map (·.1)).Nodup

theorem fst_of_mem_insertName {t : Text} {p : Property} {l : List (Text × Property)}
    {e : Text × Property} (h : e ∈ insertName t p l) : e.1 = t ∨ e.1 ∈ l.map (·.1) := by
  induction l with
  | nil => simp_all [insertName]
  | cons f l ih =>
    unfold insertName at h
    split at h
    · rcases List.mem_cons.mp h with rfl | h
      · exact .inr (by simp)
      · exact .inr (List.mem_cons_of_mem _ (List.mem_map_of_mem h))
    · rcases List.mem_cons.mp h with rfl | h
      · exact .inr (by simp)
      · exact (ih h).imp_right (List.mem_cons_of_mem _)

theorem distinct_insertName {t : Text} (p : Property) {l : List (Text × Property)}
    (h : Distinct l) : Distinct (insertName t p l) := by
  induction l with
  | nil => simp [insertName, Distinct]
  | cons e l ih =>
    have h' := List.nodup_cons.mp h
    unfold insertName
    split
    · exact h
    · rename_i hne
      refine List.nodup_cons.mpr ⟨fun hm => ?_, ih h'.2⟩
      obtain ⟨f, hf, hfe⟩ := List.mem_map.mp hm
      rcases fst_of_mem_insertName hf with he | he
      · exact hne (hfe.symm.trans he)
      · exact h'.1 (hfe ▸ he)

theorem eraseName_sublist (t : Text) (l : List (Text × Property)) :
    (eraseName t l).Sublist l := by
  induction l with
  | nil => exact .slnil
  | cons e l ih =>
    unfold eraseName
    split
    · exact List.sublist_cons_self _ _
    · exact ih.cons_cons _

theorem distinct_eraseName (t : Text) {l : List (Text × Property)} (h : Distinct l) :
    Distinct (eraseName t l) :=
  h.sublist ((eraseName_sublist t l).map _)

end PropertyTable

/-! ## 2. Tables -/

/-- The own properties of an object. -/
structure PropertyTable where
  indices : Std.TreeMap ArrayIndex Property
  names : List (Text × Property)
  distinct : PropertyTable.Distinct names

namespace PropertyTable

/-- The table without properties. -/
def empty : PropertyTable := ⟨∅, [], .nil⟩

instance : Inhabited PropertyTable := ⟨empty⟩

/-- The property with the given key. -/
def get? (s : PropertyTable) : Key → Option Property
  | .index i => s.indices[i]?
  | .name t => lookupName t s.names

/-- Adds a property, or replaces it in its place. -/
def insert (s : PropertyTable) (k : Key) (p : Property) : PropertyTable :=
  match k with
  | .index i => { s with indices := s.indices.insert i p }
  | .name t => ⟨s.indices, insertName t p s.names, distinct_insertName p s.distinct⟩

/-- Removes a property. -/
def erase (s : PropertyTable) : Key → PropertyTable
  | .index i => { s with indices := s.indices.erase i }
  | .name t => ⟨s.indices, eraseName t s.names, distinct_eraseName t s.distinct⟩

/-- The index keys, ascending. -/
def indexKeys (s : PropertyTable) : List ArrayIndex := s.indices.keys

/-- The names, in order of insertion. -/
def nameKeys (s : PropertyTable) : List Text := s.names.map (·.1)

/-- All keys: indices ascending, then names in order of insertion. -/
def keys (s : PropertyTable) : List Key := s.indexKeys.map .index ++ s.nameKeys.map .name

/-- All stored properties. -/
def properties (s : PropertyTable) : List Property :=
  s.indices.toList.map (·.2) ++ s.names.map (·.2)

/-- The values that the properties hold. -/
def values (s : PropertyTable) : List Value := s.properties.flatMap Property.values

/-- The table of a list of properties. -/
def ofList (entries : List (Key × Property)) : PropertyTable :=
  entries.foldl (fun s (k, p) => s.insert k p) empty

end PropertyTable

end Ecma51
