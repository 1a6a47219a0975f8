import Mathlib.Logic.Relation
import Ecma51.Json.Writer
import Ecma51.Proofs.JsonRoundTrip
import Ecma51.Proofs.Links

/-!
# Graphs of arrays and objects, and their trees

Arrays and objects form a graph, in which parts can be shared, and in which there can be cycles. Without a cycle the
graph can be unfolded to a tree, in which a shared part stands wherever it is referred to. What has no text leaves
null among the elements of an array, and leaves no trace among the members of an object.

* `ObjectGraph`, `ObjectGraph.IsCyclic`: graphs, and values from which a cycle can be reached.
* `ObjectGraph.Unfolds`: a tree that a value unfolds to.
* **`ObjectGraph.Unfolds.not_isCyclic`**: nothing that unfolds reaches a cycle.
* `Json.print`: the text of a tree, with a gap.
* `Heap.Draws`: the objects of a heap form a graph.
-/

namespace Ecma51

open Relation (ReflTransGen TransGen)

/-! ## 1. Graphs -/

/-- What an object holds: an array its elements in order, another object the members that are visited. -/
inductive Contents where
  | array (items : List Value)
  | object (members : List (Key × Value))

/-- The values that an object holds. -/
def Contents.values : Contents → List Value
  | .array items => items
  | .object members => members.map (·.2)

/-- What each object holds. -/
abbrev ObjectGraph := ObjectId → Contents

/-- The value has no text. -/
def Value.isSilent : Value → Bool
  | .undefined | .nothing => true
  | _ => false

namespace ObjectGraph

variable (G : ObjectGraph)

/-- One object holds another. -/
def Edge (o p : ObjectId) : Prop := Value.object p ∈ (G o).values

/-- From the value an object can be reached that can be reached from itself. -/
def IsCyclic (v : Value) : Prop := ∃ o p, v = .object o ∧ ReflTransGen G.Edge o p ∧ TransGen G.Edge p p

/-- A cycle that can be reached from an object that another holds can be reached from that one. -/
theorem IsCyclic.held {v : Value} {o : ObjectId} (hv : v ∈ (G o).values) (hcyclic : G.IsCyclic v) :
    G.IsCyclic (.object o) := by
  obtain ⟨p, q, rfl, hreach, hcycle⟩ := hcyclic
  exact ⟨o, q, rfl, .head hv hreach, hcycle⟩

/-! ## 2. Trees -/

mutual

/-- The value is unfolded to the tree: numbers that are not finite become null. -/
def Unfolds : Json → Value → Prop
  | .null, v => v = .null ∨ ∃ x, v = .number x ∧ x.isFinite = false
  | .boolean b, v => v = .boolean b
  | .number x, v => v = .number x ∧ x.isFinite = true
  | .string t, v => v = .string t
  | .array js, v => ∃ o items, v = .object o ∧ G o = .array items ∧ UnfoldsItems js items
  | .object js, v => ∃ o members, v = .object o ∧ G o = .object members ∧
      UnfoldsMembers js (members.filter fun e => !e.2.isSilent)
  | .broken _, _ => False

/-- Elements are unfolded one by one, and null stands for those without a text. -/
def UnfoldsItems : List Json → List Value → Prop
  | [], vs => vs = []
  | j :: js, vs => ∃ v rest, vs = v :: rest ∧ (Unfolds j v ∨ j = .null ∧ v.isSilent = true) ∧ UnfoldsItems js rest

/-- Members are unfolded one by one. -/
def UnfoldsMembers : List (Text × Json) → List (Key × Value) → Prop
  | [], es => es = []
  | (name, j) :: js, es => ∃ k v rest, es = (k, v) :: rest ∧ name = k.toText ∧ Unfolds j v ∧ UnfoldsMembers js rest

end

variable {G}

/-- What an item holds is unfolded to a smaller tree. -/
theorem UnfoldsItems.exists_of_mem {js : List Json} {vs : List Value} {p : ObjectId} (hjs : G.UnfoldsItems js vs)
    (hp : Value.object p ∈ vs) : ∃ j, G.Unfolds j (.object p) ∧ j.nesting ≤ Json.nestingOfItems js := by
  induction js generalizing vs with
  | nil =>
    rw [UnfoldsItems] at hjs
    rw [hjs] at hp
    cases hp
  | cons j js ih =>
    rw [UnfoldsItems] at hjs
    obtain ⟨v, rest, rfl, hv, hrest⟩ := hjs
    rw [Json.nestingOfItems]
    rcases List.mem_cons.mp hp with rfl | hp
    · rcases hv with hv | ⟨_, hsilent⟩
      · exact ⟨j, hv, Nat.le_max_left _ _⟩
      · cases hsilent
    · obtain ⟨j', hj', hle⟩ := ih hrest hp
      exact ⟨j', hj', hle.trans (Nat.le_max_right _ _)⟩

theorem UnfoldsMembers.exists_of_mem {js : List (Text × Json)} {es : List (Key × Value)} {e : Key × Value}
    (hjs : G.UnfoldsMembers js es) (he : e ∈ es) : ∃ j, G.Unfolds j e.2 ∧ j.nesting ≤ Json.nestingOfMembers js := by
  induction js generalizing es with
  | nil =>
    rw [UnfoldsMembers] at hjs
    rw [hjs] at he
    cases he
  | cons m js ih =>
    obtain ⟨name, j⟩ := m
    rw [UnfoldsMembers] at hjs
    obtain ⟨k, v, rest, rfl, _, hv, hrest⟩ := hjs
    rw [Json.nestingOfMembers]
    rcases List.mem_cons.mp he with rfl | he
    · exact ⟨j, hv, Nat.le_max_left _ _⟩
    · obtain ⟨j', hj', hle⟩ := ih hrest he
      exact ⟨j', hj', hle.trans (Nat.le_max_right _ _)⟩

/-- What is unfolded has a text. -/
theorem Unfolds.isSilent {j : Json} {v : Value} (hj : G.Unfolds j v) : v.isSilent = false := by
  cases j with
  | null =>
    rw [Unfolds] at hj
    rcases hj with rfl | ⟨x, rfl, _⟩ <;> rfl
  | number x =>
    rw [Unfolds] at hj
    rw [hj.1]
    rfl
  | boolean b | string t =>
    rw [Unfolds] at hj
    rw [hj]
    rfl
  | array js | object js =>
    rw [Unfolds] at hj
    obtain ⟨o, _, rfl, _⟩ := hj
    rfl
  | broken f =>
    rw [Unfolds] at hj
    exact hj.elim

/-- **An object that is held is unfolded to a smaller tree.** -/
theorem Unfolds.exists_of_edge {j : Json} {o p : ObjectId} (hj : G.Unfolds j (.object o)) (hedge : G.Edge o p) :
    ∃ j', G.Unfolds j' (.object p) ∧ j'.nesting < j.nesting := by
  unfold Edge at hedge
  cases j with
  | array js =>
    rw [Unfolds] at hj
    obtain ⟨o', items, ho, hnode, hitems⟩ := hj
    obtain rfl := Value.object.inj ho
    rw [hnode] at hedge
    obtain ⟨j', hj', hle⟩ := hitems.exists_of_mem hedge
    refine ⟨j', hj', ?_⟩
    rw [Json.nesting]
    omega
  | object js =>
    rw [Unfolds] at hj
    obtain ⟨o', members, ho, hnode, hmembers⟩ := hj
    obtain rfl := Value.object.inj ho
    rw [hnode] at hedge
    obtain ⟨e, he, hvalue⟩ := List.mem_map.mp hedge
    have hloud : (!e.2.isSilent) = true := by
      rw [hvalue]
      rfl
    obtain ⟨j', hj', hle⟩ := hmembers.exists_of_mem (List.mem_filter.mpr ⟨he, hloud⟩)
    refine ⟨j', hvalue ▸ hj', ?_⟩
    rw [Json.nesting]
    omega
  | null =>
    rw [Unfolds] at hj
    rcases hj with h | ⟨x, h, _⟩ <;> cases h
  | number x =>
    rw [Unfolds] at hj
    cases hj.1
  | boolean b | string t | broken f =>
    rw [Unfolds] at hj
    cases hj

/-- From an object that is unfolded every path comes to an end. The induction is on the nesting of the tree. -/
theorem Unfolds.acc {n : Nat} {j : Json} {o : ObjectId} (hn : j.nesting < n) (hj : G.Unfolds j (.object o)) :
    Acc (fun p o => G.Edge o p) o := by
  induction n generalizing j o with
  | zero => exact absurd hn (Nat.not_lt_zero _)
  | succ n ih =>
    refine ⟨o, fun p hedge => ?_⟩
    obtain ⟨j', hj', hlt⟩ := hj.exists_of_edge hedge
    exact ih (Nat.lt_of_lt_of_le hlt (Nat.le_of_lt_succ hn)) hj'

/-- **Nothing that is unfolded reaches a cycle.** -/
theorem Unfolds.not_isCyclic {j : Json} {v : Value} (hj : G.Unfolds j v) : ¬ G.IsCyclic v := by
  rintro ⟨o, p, rfl, hreach, hcycle⟩
  have hacc : Acc (fun p o => G.Edge o p) o := hj.acc (Nat.lt_succ_self _)
  clear hj
  induction hacc with
  | intro o _ ih =>
    rcases hreach.cases_head with rfl | ⟨q, hedge, hrest⟩
    · obtain ⟨q, hedge, hback⟩ := TransGen.head'_iff.mp hcycle
      exact ih q hedge hback
    · exact ih q hedge hrest

end ObjectGraph

/-! ## 3. Texts -/

namespace Json

mutual

/-- The text of a tree at an indentation. -/
def print (gap : Text) : Text → Json → Written
  | _, .null => ["null"]
  | _, .boolean b => [if b then "true" else "false"]
  | _, .number x => [x.toText]
  | _, .string t => [quote t]
  | indent, .array items => layOut "[" "]" gap (indent ++ gap) indent (printItems gap (indent ++ gap) items)
  | indent, .object members =>
    layOut "\x7b" "\x7d" gap (indent ++ gap) indent (printMembers gap (indent ++ gap) members)
  | _, .broken _ => []

/-- The texts of items. -/
def printItems (gap : Text) : Text → List Json → List Written
  | _, [] => []
  | indent, j :: js => print gap indent j :: printItems gap indent js

/-- The texts of members, with their names. -/
def printMembers (gap : Text) : Text → List (Text × Json) → List Written
  | _, [] => []
  | indent, (name, j) :: js => member gap name (print gap indent j) :: printMembers gap indent js

end

end Json

/-- What is written for a value: nothing if it has no text, and otherwise the text of a tree that it unfolds to. -/
def ObjectGraph.Texts (G : ObjectGraph) (gap indent : Text) (v : Value) (t : Option Json.Written) : Prop :=
  t = none ∧ v.isSilent = true ∨ ∃ j, t = some (Json.print gap indent j) ∧ G.Unfolds j v

/-- A value with a text, or with none, reaches no cycle. -/
theorem ObjectGraph.Texts.not_isCyclic {G : ObjectGraph} {gap indent : Text} {v : Value} {t : Option Json.Written}
    (ht : G.Texts gap indent v t) : ¬ G.IsCyclic v := by
  rcases ht with ⟨_, hsilent⟩ | ⟨j, _, hj⟩
  · rintro ⟨o, p, rfl, _⟩
    cases hsilent
  · exact hj.not_isCyclic

/-! ## 4. Lookups -/

namespace Heap

section Lookups

variable {h h' : Heap} {k : Key} {o : ObjectId} {q : Property}

/-- The link that a lookup follows: from an object without the property to its prototype. -/
def searchedNext (h : Heap) (k : Key) (o : ObjectId) : Option ObjectId :=
  match h.getOwn? o k with
  | some _ => none
  | none => h.prototypeOf o

/-- The objects that a lookup passes make up a walk. -/
theorem Finds.exists_walk (hq : h.Finds k o q) :
    ∃ l, Walk (h.searchedNext k) (some o) l ∧ ∀ n, l.length ≤ n → h.findUpTo k n (some o) = some q := by
  induction hq with
  | @own o q hown =>
    refine ⟨[o], .step ?_, fun n hn => ?_⟩
    · unfold searchedNext
      rw [hown]
      exact .done
    · obtain ⟨n, rfl⟩ := Nat.exists_eq_add_of_le' hn
      show (h.getOwn? o k).or _ = _
      rw [hown, Option.some_or]
  | @inherited o p q hown hprototype _ ih =>
    obtain ⟨l, hwalk, hfound⟩ := ih
    refine ⟨o :: l, .step ?_, fun n hn => ?_⟩
    · unfold searchedNext
      rw [hown]
      show Walk _ (h.object o).prototype l
      rw [hprototype]
      exact hwalk
    · obtain ⟨n, rfl⟩ := Nat.exists_eq_add_of_le' (Nat.one_le_of_lt hn)
      show (h.getOwn? o k).or (h.findUpTo k n (h.object o).prototype) = _
      rw [hown, Option.none_or, hprototype]
      exact hfound n (Nat.le_of_succ_le_succ hn)

/-- **A lookup goes far enough to find what there is**, since no object is passed twice. -/
theorem getProperty?_eq_some_iff : h.getProperty? o k = some q ↔ h.Finds k o q := by
  refine ⟨finds_of_getProperty?, fun hq => ?_⟩
  obtain ⟨l, hwalk, hfound⟩ := hq.exists_walk
  have hplaces (r p : ObjectId) (hp : LinksTo (h.searchedNext k) r p) : r ∈ h.objects.keys := by
    by_contra hr
    unfold LinksTo searchedNext at hp
    cases hown : h.getOwn? r k with
    | some _ =>
      rw [hown] at hp
      cases hp
    | none =>
      rw [hown] at hp
      dsimp only at hp
      unfold prototypeOf at hp
      rw [object_of_not_mem_keys h hr] at hp
      cases hp
  have hle := hwalk.length_le hwalk.distinct hplaces
  rw [Std.TreeMap.length_keys] at hle
  exact hfound _ hle

/-- The same is found where own properties and prototypes are the same. -/
theorem Finds.transfer {P : ObjectId → Prop} (hown : ∀ o, P o → h'.getOwn? o k = h.getOwn? o k)
    (hprototype : ∀ o, P o → h'.prototypeOf o = h.prototypeOf o)
    (hP : ∀ o p, P o → h.prototypeOf o = some p → P p) (hq : h.Finds k o q) (ho : P o) : h'.Finds k o q := by
  induction hq with
  | own hget => exact .own ((hown _ ho).trans hget)
  | inherited hget hp _ ih =>
    exact .inherited ((hown _ ho).trans hget) ((hprototype _ ho).trans hp) (ih (hP _ _ ho hp))

end Lookups

/-! ## 5. Heaps -/

/-- What reading a property gives without anything being run; undefined if it is not found. -/
def Reads (h : Heap) (o : ObjectId) (k : Key) (v : Value) : Prop :=
  match h.getProperty? o k with
  | some (.data u _ _ _) => u = v
  | some (.accessor ..) => False
  | none => v = .undefined

/-- The objects of a list are arrays and ordinary objects without a function `toJSON`, whose contents are as in a graph,
and refer only to objects of the list. -/
structure Draws (h : Heap) (os : List ObjectId) (G : ObjectGraph) : Prop where
  array : ∀ o ∈ os, ∀ items, G o = .array items → (h.object o).kind = .array ∧ items.length < 2 ^ 32 ∧
    h.HasOwn o .length (.ofNat items.length) ∧ ∀ i v, items[i]? = some v → h.Reads o (.ofNat i) v
  object : ∀ o ∈ os, ∀ members, G o = .object members → (h.object o).kind = .ordinary ∧
    h.ownEnumerableKeys o = members.map (·.1) ∧ ∀ e ∈ members, h.Reads o e.1 e.2
  lacksToJson : ∀ o ∈ os, ∃ f, h.Reads o (.ofString "toJSON") f ∧ h.isCallable f = false
  closed : ∀ o ∈ os, ∀ p, G.Edge o p → p ∈ os

namespace Draws

variable {h : Heap} {os : List ObjectId} {G : ObjectGraph} {o : ObjectId}

theorem isPlain (hd : h.Draws os G) (ho : o ∈ os) : h.IsPlain o := by
  cases hnode : G o with
  | array items => exact .inl (hd.array o ho items hnode).1
  | object members => exact .inr (hd.object o ho members hnode).1

end Draws

end Heap

end Ecma51
