import Ecma51.Proofs.JsonReviving
import Ecma51.Proofs.Sorting

/-!
# Texts that are revived

The value of a text is a tree, nested no deeper than calls may be. A function that grafts nothing revives it on no
more levels than that. One that grafts can keep the walk going for ever.

* `Heap.Holds.isTree`: a value that stands for data is a tree.
* **`reviveText_run`**: the value of a text is revived.
* **`revive_exact`**: what holds of every walk, of walks over trees, and of texts.
* **`revive_endless`**: a walk that does not end.
-/

namespace Ecma51

/-! ## 1. Trees of texts -/

namespace Json

mutual

/-- Arrays have fewer than 2³² items. -/
def IsShort : Json → Prop
  | .array items => items.length < 2 ^ 32 ∧ AreShort items
  | .object members => MembersShort members
  | _ => True

def AreShort : List Json → Prop
  | [] => True
  | j :: js => j.IsShort ∧ AreShort js

def MembersShort : List (Text × Json) → Prop
  | [] => True
  | (_, j) :: js => j.IsShort ∧ MembersShort js

end

end Json

namespace Heap

variable {h : Heap}

/-- Two ranges of objects, one after the other, and whose they are. -/
theorem IsTree.first {n n' : Nat} {a b c : ObjectId} {v : Value} (ht : h.IsTree n (fun p => a ≤ p ∧ p < c) v)
    (hn : n ≤ n') (hcb : c ≤ b) (k : Key) (owner : ObjectId → Key) :
    h.IsTree n' (fun p => (a ≤ p ∧ p < b) ∧ (if p < c then k else owner p) = k) v :=
  ht.mono hn fun _ hp => ⟨⟨hp.1, Nat.lt_of_lt_of_le hp.2 hcb⟩, if_pos hp.2⟩

theorem IsTree.later {n n' : Nat} {a b c : ObjectId} {k k' : Key} {v : Value} {owner : ObjectId → Key}
    (ht : h.IsTree n (fun p => (c ≤ p ∧ p < b) ∧ owner p = k') v) (hn : n ≤ n') (hac : a ≤ c) :
    h.IsTree n' (fun p => (a ≤ p ∧ p < b) ∧ (if p < c then k else owner p) = k') v :=
  ht.mono hn fun _ hp => ⟨⟨Nat.le_trans hac hp.1.1, hp.1.2⟩, (if_neg (Nat.not_lt.mpr hp.1.1)).trans hp.2⟩

/-- An array whose items are trees is one. -/
theorem isTree_array (owner : ObjectId → Key) {o : ObjectId} {x : Object} {vs : List Value} {n : Nat}
    {Q : ObjectId → Prop} (ho : h.objects[o]? = some x) (hx : x.IsArrayOf vs) (hshort : vs.length < 2 ^ 32) (hQ : Q o)
    (hvs : ∀ i v, vs[i]? = some v → h.IsTree n (fun p => Q p ∧ p ≠ o ∧ owner p = .ofNat i) v) :
    h.IsTree (n + 1) Q (.object o) := by
  rintro _ ⟨⟩
  obtain ⟨hkind, hlength, _⟩ := hasOwn_of_isArrayOf ho hx hshort
  refine ⟨hQ, (List.range vs.length).map .ofNat, owner, .inl ⟨hkind, _, hshort, hlength, rfl⟩, fun k hk => ?_⟩
  obtain ⟨i, hi, rfl⟩ := List.mem_map.mp hk
  have hlt := List.mem_range.mp hi
  have hget := List.getElem?_eq_getElem hlt
  refine ⟨vs[i], ?_, hvs i _ hget⟩
  unfold stored?
  rw [object_of_getElem? ho, hx.get? i (Nat.lt_trans hlt hshort), hget]
  rfl

/-- A record whose members are trees is one. -/
theorem isTree_record (owner : ObjectId → Key) {o : ObjectId} {x : Object} {pairs : List (Text × Value)} {n : Nat}
    {Q : ObjectId → Prop} (ho : h.objects[o]? = some x) (hx : x.IsRecord pairs) (hQ : Q o)
    (hpairs : ∀ name v, pairs.reverse.lookup name = some v →
      h.IsTree n (fun p => Q p ∧ p ≠ o ∧ owner p = .ofText name) v) :
    h.IsTree (n + 1) Q (.object o) := by
  rintro _ ⟨⟩
  have hobject := object_of_getElem? ho
  have hkind : (h.object o).kind = .ordinary := by rw [hobject, hx.kind]
  refine ⟨hQ, _, owner, .inr ⟨hkind, rfl⟩, fun k hk => ?_⟩
  have hstored : h.stored? o k = x.properties.get? k := by
    unfold stored?
    rw [hobject]
  have hsome : (x.properties.get? k).isSome := by
    have hown := Option.isSome_of_any (List.mem_filter.mp hk).2
    rwa [IsPlain.getOwn? (.inr hkind), hstored] at hown
  obtain ⟨pair, _, rfl⟩ := hx.only k hsome
  rw [hx.get?] at hstored hsome
  obtain ⟨u, hu⟩ := Option.isSome_iff_exists.mp (Option.isSome_map.symm.trans hsome)
  rw [hu] at hstored
  exact ⟨u, hstored, hpairs _ u hu⟩

mutual

/-- **A value that stands for data is a tree** with as many levels as they are nested. -/
theorem Holds.isTree : ∀ (j : Json) {a b : Nat} {v : Value}, h.Holds j a b v → j.IsShort →
    h.IsTree j.nesting (fun p => a ≤ p ∧ p < b) v
  | .null, a, b, v, hv, _ | .boolean _, a, b, v, hv, _ | .number _, a, b, v, hv, _ | .string _, a, b, v, hv, _ => by
    rw [Holds] at hv
    rw [hv.2]
    exact isTree_of_not_object rfl
  | .array items, a, b, v, hv, hshort => by
    rw [Holds] at hv
    rw [Json.IsShort] at hshort
    obtain ⟨o, x, rfl, hao, rfl, ho, hitems⟩ := hv
    obtain ⟨vs, hx, hvs⟩ := hitems hshort.1
    obtain ⟨owner, htrees⟩ := HoldsItems.trees items 0 hvs hshort.2
    rw [Json.nesting, Nat.add_comm]
    refine isTree_array owner ho hx (hvs.length ▸ hshort.1) ⟨hao, Nat.lt_succ_self o⟩ fun i v hv => ?_
    have htree := htrees i v hv
    rw [Nat.zero_add] at htree
    refine htree.mono (Nat.le_refl _) fun p hp => ?_
    exact ⟨⟨hp.1.1, Nat.lt_succ_of_lt hp.1.2⟩, Nat.ne_of_lt hp.1.2, hp.2⟩
  | .object members, a, b, v, hv, hshort => by
    rw [Holds] at hv
    rw [Json.IsShort] at hshort
    obtain ⟨x, pairs, rfl, ha, hx, hmembers⟩ := hv
    obtain ⟨owner, htrees⟩ := HoldsMembers.trees members hmembers hshort
    rw [Json.nesting, Nat.add_comm]
    refine isTree_record owner ha hx ⟨Nat.le_refl a, HoldsMembers.le members hmembers⟩ fun name v hv => ?_
    refine (htrees name v hv).mono (Nat.le_refl _) fun p hp => ?_
    exact ⟨⟨Nat.le_of_succ_le hp.1.1, hp.1.2⟩, Nat.ne_of_gt hp.1.1, hp.2⟩
  | .broken _, a, b, v, hv, _ => by
    rw [Holds] at hv
    exact hv.elim

theorem HoldsItems.trees : ∀ (js : List Json) (n : Nat) {a b : Nat} {vs : List Value}, h.HoldsItems js a b vs →
    Json.AreShort js → ∃ owner : ObjectId → Key, ∀ i v, vs[i]? = some v →
      h.IsTree (Json.nestingOfItems js) (fun p => (a ≤ p ∧ p < b) ∧ owner p = .ofNat (n + i)) v
  | [], n, a, b, vs, hvs, _ => by
    rw [HoldsItems] at hvs
    rw [hvs.2]
    exact ⟨fun _ => .length, fun i v hv => by rw [List.getElem?_nil] at hv; cases hv⟩
  | j :: js, n, a, b, vs, hvs, hshort => by
    rw [HoldsItems] at hvs
    rw [Json.AreShort] at hshort
    obtain ⟨c, v, more, rfl, hv, hmore⟩ := hvs
    obtain ⟨owner, htrees⟩ := HoldsItems.trees js (n + 1) hmore hshort.2
    rw [Json.nestingOfItems]
    refine ⟨fun p => if p < c then .ofNat n else owner p, fun i u hu => ?_⟩
    cases i with
    | zero =>
      cases hu
      exact (Holds.isTree j hv hshort.1).first (Nat.le_max_left _ _) hmore.le _ owner
    | succ i =>
      have htree := htrees i u hu
      rw [Nat.add_assoc, Nat.add_comm 1 i] at htree
      exact htree.later (Nat.le_max_right _ _) (Holds.le j hv)

theorem HoldsMembers.trees : ∀ (js : List (Text × Json)) {a b : Nat} {pairs : List (Text × Value)},
    h.HoldsMembers js a b pairs → Json.MembersShort js → ∃ owner : ObjectId → Key, ∀ name v,
      pairs.reverse.lookup name = some v →
      h.IsTree (Json.nestingOfMembers js) (fun p => (a ≤ p ∧ p < b) ∧ owner p = .ofText name) v
  | [], a, b, pairs, hp, _ => by
    rw [HoldsMembers] at hp
    rw [hp.2]
    exact ⟨fun _ => .length, fun name v hv => by rw [List.reverse_nil, List.lookup_nil] at hv; cases hv⟩
  | (name, j) :: js, a, b, pairs, hp, hshort => by
    rw [HoldsMembers] at hp
    rw [Json.MembersShort] at hshort
    obtain ⟨c, v, more, rfl, hac, hv, hmore⟩ := hp
    obtain ⟨owner, htrees⟩ := HoldsMembers.trees js hmore hshort.2
    have hcb := HoldsMembers.le js hmore
    rw [Json.nestingOfMembers]
    refine ⟨fun p => if p < c then .ofText name else owner p, fun name' u hu => ?_⟩
    rw [List.reverse_cons, List.lookup_append] at hu
    cases hlater : more.reverse.lookup name' with
    | some u' =>
      rw [hlater] at hu
      cases hu
      exact (htrees name' u hlater).later (Nat.le_max_right _ _) hac
    | none =>
      rw [hlater, Option.none_or, List.lookup_cons] at hu
      cases heq : name' == name with
      | false =>
        rw [heq] at hu
        cases hu
      | true =>
        rw [heq] at hu
        cases hu
        obtain rfl := eq_of_beq heq
        have hlast : name' ∉ js.map (·.1) := fun hmem => by
          rw [← names_of_holdsMembers hmore] at hmem
          obtain ⟨pair, hpair, rfl⟩ := List.mem_map.mp hmem
          exact bne_iff_ne.mp (List.lookup_eq_none_iff.mp hlater pair (List.mem_reverse.mpr hpair)) rfl
        exact (Holds.isTree j (hv hlast) hshort.1).first (Nat.le_max_left _ _) hcb _ owner

end

end Heap

/-! ## 2. Texts -/

/-- Nothing has changed but that there are new objects, and more may be kept. -/
structure Machine.Enlarges (m m' : Machine) : Prop where
  rest : m.Rests m'
  held : m.held ⊆ m'.held
  next : m.heap.nextObject < m'.heap.nextObject
  object {o : ObjectId} : .object o ∈ m.held → o < m.heap.nextObject → m'.heap.objects[o]? = m.heap.objects[o]?

section Texts

variable (bodies : Bodies) {m : Machine}

theorem rootFor_run (hlimit : m.heapLimit = none) {j : Json} {a : Nat} {v : Value}
    (hv : m.heap.Holds j a m.heap.nextObject v) :
    ∃ m₁, rootFor v bodies m = .ok m.heap.nextObject m₁ ∧ m.Enlarges m₁ ∧
      m₁.heap.IsPlain m.heap.nextObject ∧ m₁.heap.HasOwn m.heap.nextObject (.name .empty) v ∧
      m₁.heap.Holds j a m.heap.nextObject v := by
  let kept : Machine := { m with held := v :: m.held }
  obtain ⟨m₁, hrun, hrest, hgrows, _, hnext, hobject⟩ :=
    newObjectOf_run bodies (m := kept) hlimit (.ordinary (some Intrinsic.objectPrototype.id))
  obtain ⟨h', x, hcreate, hnext', _, hx, hrecord, hother⟩ := createData_run bodies hobject .nil .empty v
  obtain ⟨hplain, hown⟩ := h'.getOwn?_of_isRecord hx hrecord (List.lookup_cons_self : _ = some v)
  refine ⟨{ m₁ with heap := h' }, ?_,
    ⟨?_, fun w hw => hgrows.held (List.mem_cons_of_mem v hw), ?_, fun {o} ho hlt => ?_⟩, hplain,
    ⟨_, _, _, hown⟩, ?_⟩
  · exact (bind_run_ok (show hold v bodies m = .ok ⟨⟩ kept from rfl) _).trans
      ((bind_run_ok hrun _).trans ((bind_run_ok hcreate _).trans rfl))
  · unfold Machine.Rests at hrest ⊢
    rw [hrest]
  · exact Nat.lt_of_lt_of_eq (Nat.lt_succ_self _) (hnext'.trans hnext).symm
  · exact (hother o (Nat.ne_of_lt hlt)).trans (hgrows.object (List.mem_cons_of_mem v ho) hlt)
  · exact (hgrows.holds List.mem_cons_self (Nat.le_refl _) hv).of_same fun o _ hlt => hother o (Nat.ne_of_lt hlt)

/-- **The value of a text is revived** by a function that grafts nothing, on no more levels below the first than calls
may be nested. -/
theorem reviveText_run (hlimit : m.heapLimit = none) {t : Text} {j : Json} (htext : Json.IsText t.toList j)
    (hshort : j.IsShort) (hdeep : j.nesting ≤ m.depthLeft) (f : Value) :
    ∃ root m₁, (do let v ← parseJson t; rootFor v : Run ObjectId) bodies m = .ok root m₁ ∧ m.Enlarges m₁ ∧
      ∀ I : Machine → Prop, I m₁ → GraftsNothing bodies f (fun o => m.heap.nextObject ≤ o ∧ o < root) I →
        ∀ n, m.depthLeft < n → ∃ w m', reviveText n t f bodies m = .ok w m' := by
  obtain ⟨v, m₀, hparse, hrest, hgrows, hv⟩ := parseJson_makes bodies hlimit htext hdeep
  obtain ⟨m₁, hroot, hlarger, hplain, hown, hv₁⟩ := rootFor_run bodies (hrest.heapLimit.trans hlimit) hv
  refine ⟨_, m₁, (bind_run_ok hparse _).trans hroot,
    ⟨hrest.trans hlarger.rest, List.Subset.trans hgrows.held hlarger.held,
      Nat.lt_of_le_of_lt hgrows.next hlarger.next, fun ho hlt => ?_⟩, fun I hI hf n hn => ?_⟩
  · exact (hlarger.object (hgrows.held ho) (Nat.lt_of_lt_of_le hlt hgrows.next)).trans (hgrows.object ho hlt)
  · unfold reviveText
    rw [bind_run_ok hparse, getHeap_bind_run]
    by_cases hcallable : m₀.heap.isCallable f = true
    · rw [if_neg (by rw [hcallable]; exact Bool.false_ne_true), bind_run_ok hroot]
      obtain ⟨w, m', hrun, _⟩ := revive_tree hf (Nat.lt_of_le_of_lt hdeep hn) (fun _ hp => hp) hI hplain hown
        (hv₁.isTree j hshort)
      exact ⟨w, m', hrun⟩
    · rw [if_pos (by rw [Bool.eq_false_iff.mpr hcallable]; rfl)]
      exact ⟨v, m₀, rfl⟩

end Texts

/-! ## 3. Every walk -/

/-- **What holds of every walk, of walks over trees, and of texts.** For every function and every machine:

* The walk counts none of its levels. As many calls are under way after it as before, and it fails only where one
  of its parts does on such a machine, or out of levels.
* A text that is revived at all within so many levels is revived in the same way with more.
* The walk over a tree ends, on one level more than the tree has, if the function grafts nothing. How many calls
  may still be nested is of no account.
* So the value of every text is revived by such a function, on no more levels below the first than calls may be
  nested. -/
theorem revive_exact {bodies : Bodies} (hbodies : bodies.KeepDepth) (f : Value) (m : Machine) :
    (∀ n holder k, m.SameDepth (endOf (revive f n holder k bodies m)) ∧
      ∀ e m', revive f n holder k bodies m = .error e m' → e = .exhausted ∨ PartFails bodies f m e) ∧
    (∀ t n n', n ≤ n' → (∃ m', reviveText n t f bodies m = .error .exhausted m') ∨
      reviveText n' t f bodies m = reviveText n t f bodies m) ∧
    (∀ n level holder k v Q I, n < level → I m → GraftsNothing bodies f Q I → m.heap.IsPlain holder →
      m.heap.HasOwn holder k v → m.heap.IsTree n Q v → ∃ w m', revive f level holder k bodies m = .ok w m') ∧
    ∀ t j, m.heapLimit = none → Json.IsText t.toList j → j.IsShort → j.nesting ≤ m.depthLeft →
      ∃ root m₁, (do let v ← parseJson t; rootFor v : Run ObjectId) bodies m = .ok root m₁ ∧ m.Enlarges m₁ ∧
        ∀ I : Machine → Prop, I m₁ → GraftsNothing bodies f (fun o => m.heap.nextObject ≤ o ∧ o < root) I →
          ∀ n, m.depthLeft < n → ∃ w m', reviveText n t f bodies m = .ok w m' := by
  refine ⟨fun n holder k => ?_, fun t n n' hle => reviveText_outlasts bodies t f hle m,
    fun n level holder k v Q I hn hI hf hholder hv htree => ?_, fun t j hlimit htext hshort hdeep => ?_⟩
  · obtain ⟨hend, hfails⟩ := revive_staysAtDepth hbodies f m n holder k m (.refl m)
    exact ⟨hend, hfails⟩
  · obtain ⟨w, m', hrun, _⟩ := revive_tree hf hn (fun _ hp => hp) hI hholder hv htree
    exact ⟨w, m', hrun⟩
  · exact reviveText_run bodies hlimit htext hshort hdeep f

/-- Every built-in function gives back the value that it is given second. -/
def echoingBodies : Bodies where
  native _ _ args m := .ok (argumentAt args 1) m
  compiled _ _ m := .ok false m

/-- A machine with a built-in function as its only object, which it holds. -/
def reviverMachine : Machine := { functionMachine with held := [.object Heap.empty.nextObject] }

/-- Calls are possible, and the function is there. -/
def CanEcho (m : Machine) : Prop :=
  m.callDepth < m.maxCallDepth ∧
    m.heap.object Heap.empty.nextObject = functionMachine.heap.object Heap.empty.nextObject

theorem graftsNothing_echoing {S : ObjectId → Prop} (hS : ∀ o, S o → o ≠ Heap.empty.nextObject) :
    GraftsNothing echoingBodies (.object Heap.empty.nextObject) S CanEcho where
  returns {m} holder k v hI _ _ := by
    have hkind : (m.heap.object Heap.empty.nextObject).kind =
        .function ⟨.native (.number .call) none, false, .empty⟩ := hI.2 ▸ kind_functionMachine
    refine ⟨v, m, ?_, hI, fun _ _ => rfl⟩
    rw [callValue_native hkind]
    exact nestedCall_run hI.1 (holding_run rfl)
  holds _ hI := hI
  releases _ hI' := hI'
  writes ho hI _ hput := ⟨hI.1, (hput.object _ (hS _ ho).symm).trans hI.2⟩

/-- What is read is given back. -/
theorem revive_exact_echoing : echoingBodies.KeepDepth ∧ ∃ w m',
    parseAndRevive "[[]]" (.object Heap.empty.nextObject) echoingBodies reviverMachine = .ok w m' := by
  have hkeep : echoingBodies.KeepDepth := ⟨fun _ _ _ _ => ⟨rfl, rfl⟩, fun _ _ _ => ⟨rfl, rfl⟩⟩
  refine ⟨hkeep, ?_⟩
  have hunits : (Text.ofString "[[]]").toList = [0x5B, 0x5B, 0x5D, 0x5D] := by decide
  have htext : Json.IsText (Text.ofString "[[]]").toList (.array [.array []]) := by
    rw [hunits]
    refine ⟨[0x5B, 0x5B, 0x5D, 0x5D], [], .none, ?_, .none⟩
    rw [Json.Spells]
    refine ⟨[0x5B, 0x5D, 0x5D], rfl, ?_⟩
    rw [Json.SpellsItems]
    refine ⟨[0x5D], ⟨_, [0x5D], .none, ?_, .none⟩, by rw [Json.SpellsMoreItems]⟩
    rw [Json.Spells]
    refine ⟨[0x5D, 0x5D], rfl, ?_⟩
    rw [Json.SpellsItems]
    exact .none
  obtain ⟨root, m₁, _, hlarger, hends⟩ := (revive_exact hkeep (.object Heap.empty.nextObject) reviverMachine).2.2.2
    "[[]]" (.array [.array []]) rfl htext (by simp [Json.IsShort, Json.AreShort]) (by decide)
  rw [parseAndRevive_eq]
  refine hends CanEcho ⟨?_, ?_⟩ (graftsNothing_echoing fun o ho => ?_) reviveBound (by decide)
  · rw [hlarger.rest]
    show reviverMachine.callDepth < reviverMachine.maxCallDepth
    decide
  · have hobject := hlarger.object (o := Heap.empty.nextObject) List.mem_cons_self (by decide)
    exact Heap.object_of_same hobject
  · exact Nat.ne_of_gt ho.1

/-! ## 4. A walk without end -/

/-- Two members without a value. -/
def nullPair : List (Text × Value) := [("a", .null), ("b", .null)]

/-- An object with them. -/
def pairObject : Object :=
  ((Object.ordinary (some Intrinsic.objectPrototype.id)).withProperty (.ofText "a") (.plain .null)).withProperty
    (.ofText "b") (.plain .null)

theorem isRecord_pairObject : pairObject.IsRecord nullPair :=
  (Object.IsRecord.nil.insert "a" .null).insert "b" .null

/-- Puts a new pair under the second name of an object. -/
def graftPair : Value → Run Value
  | .object o => do
    let inner ← newObjectOf pairObject
    let _ ← createData o (.ofText "b") (.object inner)
    return .null
  | _ => return .null

/-- Every built-in function grafts a pair onto `this`. -/
def graftingBodies : Bodies where
  native _ this _ m := graftPair this echoingBodies m
  compiled _ _ m := .ok false m

/-- A function can be called, which the machine holds. -/
structure CanGraft (f : ObjectId) (m : Machine) : Prop where
  limit : m.heapLimit = none
  room : m.callDepth < m.maxCallDepth
  kind : (m.heap.object f).kind = .function ⟨.native (.number .call) none, false, .empty⟩
  held : .object f ∈ m.held
  made : f < m.heap.nextObject

variable {f o : ObjectId} {m m' : Machine} {x : Object} {pairs : List (Text × Value)}

/-- The pair is there, and the object has it under the second name. -/
structure Grafted (o : ObjectId) (pairs : List (Text × Value)) (m m' : Machine) : Prop where
  rest : m.Rests m'
  held : m'.held = m.held
  next : m'.heap.nextObject = m.heap.nextObject + 1
  outer : ∃ x, m'.heap.objects[o]? = some x ∧ x.IsRecord (pairs ++ [(Text.ofString "b", .object m.heap.nextObject)])
  inner : m'.heap.objects[m.heap.nextObject]? = some pairObject
  other (p : ObjectId) : .object p ∈ m.held → p < m.heap.nextObject → p ≠ o →
    m'.heap.objects[p]? = m.heap.objects[p]?

theorem graftPair_run (bodies : Bodies) (hlimit : m.heapLimit = none) (hheld : .object o ∈ m.held)
    (hlt : o < m.heap.nextObject) (ho : m.heap.objects[o]? = some x) (hx : x.IsRecord pairs) :
    ∃ m', graftPair (.object o) bodies m = .ok .null m' ∧ Grafted o pairs m m' := by
  obtain ⟨m₁, hnew, hrest, hgrows, hheld₁, hnext, hinner⟩ := newObjectOf_run bodies hlimit pairObject
  obtain ⟨h', x', hcreate, hnext', _, hx', hrecord, hother⟩ :=
    createData_run bodies ((hgrows.object hheld hlt).trans ho) hx "b" (.object m.heap.nextObject)
  refine ⟨{ m₁ with heap := h' }, (bind_run_ok hnew _).trans ((bind_run_ok hcreate _).trans rfl), ?_, hheld₁,
    hnext'.trans hnext, ⟨x', hx', hrecord⟩, (hother _ (Nat.ne_of_gt hlt)).trans hinner,
    fun p hp hmade hne => (hother p hne).trans (hgrows.object hp hmade)⟩
  unfold Machine.Rests at hrest ⊢
  rw [hrest]

theorem callValue_graft (hm : CanGraft f m) (hheld : .object o ∈ m.held) (hlt : o < m.heap.nextObject)
    (ho : m.heap.objects[o]? = some x) (hx : x.IsRecord pairs) (args : List Value) :
    ∃ m', callValue (.object f) (.object o) args graftingBodies m = .ok .null m' ∧ Grafted o pairs m m' := by
  -- the function, `this` and the arguments are held during the call
  let vs := .object f :: .object o :: args
  let called : Machine := { m with callDepth := m.callDepth + 1, held := vs ++ m.held }
  obtain ⟨m₁, hrun, hend⟩ :=
    graftPair_run (m := called) echoingBodies hm.limit (List.mem_append_right _ hheld) hlt ho hx
  have hbody : (do (← read).native (.number .call) (.object o) args : Run Value) graftingBodies called =
      .ok .null m₁ := hrun
  refine ⟨{ m₁ with held := m.held, callDepth := m₁.callDepth - 1 }, ?_, ?_, rfl, hend.next, hend.outer, hend.inner,
    fun p hp => hend.other p (List.mem_append_right _ hp)⟩
  · rw [callValue_native hm.kind]
    unfold callNative nestedCall
    exact (bind_run_ok (enterCall_free (Nat.not_le.mpr hm.room)) _).trans (leaving_ok (holding_ok hbody))
  · have hrest := hend.rest
    unfold Machine.Rests at hrest ⊢
    rw [hrest]
    rfl

theorem CanGraft.after (hm : CanGraft f m) (hend : Grafted o pairs m m') (hne : f ≠ o) : CanGraft f m' where
  limit := hend.rest.heapLimit.trans hm.limit
  room := by
    rw [hend.rest]
    exact hm.room
  kind := by
    rw [Heap.object_of_same (hend.other f hm.held hm.made hne)]
    exact hm.kind
  held := hend.held ▸ hm.held
  made := hend.next ▸ Nat.lt_succ_of_lt hm.made

/-- What is held in between is let go. -/
theorem Grafted.released {vs : List Value} (hend : Grafted o pairs { m with held := vs ++ m.held } m') :
    Grafted o pairs m { m' with held := m.held } where
  rest := by
    have hrest := hend.rest
    unfold Machine.Rests at hrest ⊢
    rw [hrest]
  held := rfl
  next := hend.next
  outer := hend.outer
  inner := hend.inner
  other p hp := hend.other p (List.mem_append_right _ hp)

/-- **The visit of the first member grafts a pair onto the second.** -/
theorem revive_first (n : Nat) (hm : CanGraft f m) (ho : m.heap.objects[o]? = some x)
    (hx : x.IsRecord nullPair) (hlt : o < m.heap.nextObject) :
    ∃ m', revive (.object f) (n + 1) o (.ofText "a") graftingBodies m = .ok .null m' ∧
      Grafted o nullPair m m' := by
  obtain ⟨hplain, hown⟩ := m.heap.getOwn?_of_isRecord ho hx (rfl : List.lookup (Text.ofString "a") _ = _)
  let visited : Machine := { m with held := [.object o, .null] ++ m.held }
  have hvisited : CanGraft f visited := ⟨hm.limit, hm.room, hm.kind, List.mem_append_right _ hm.held, hm.made⟩
  obtain ⟨m', hrun, hend⟩ := callValue_graft hvisited (List.mem_append_left _ List.mem_cons_self) hlt ho
    hx [.string (Key.ofText "a").toText, .null]
  refine ⟨{ m' with held := m.held }, ?_, hend.released⟩
  rw [revive_succ, bind_run_ok (getFrom_own hplain ⟨_, _, _, hown⟩)]
  exact holding_ok hrun

/-- **Below a pair the walk comes to another one.** -/
theorem revive_pair (n : Nat) {holder : ObjectId} {k : Key} (hm : CanGraft f m) (hholder : m.heap.IsPlain holder)
    (hv : m.heap.HasOwn holder k (.object o)) (ho : m.heap.objects[o]? = some x) (hx : x.IsRecord nullPair)
    (hlt : o < m.heap.nextObject) (hne : f ≠ o) :
    ∃ m', revive (.object f) n holder k graftingBodies m = .error .exhausted m' := by
  induction n generalizing m holder k o x with
  | zero => exact ⟨m, rfl⟩
  | succ n ih =>
    let m₁ : Machine := { m with held := [.object holder, .object o] ++ m.held }
    have hm₁ : CanGraft f m₁ := ⟨hm.limit, hm.room, hm.kind, List.mem_append_right _ hm.held, hm.made⟩
    suffices hinside : ∃ m', forKeys (reviveProperty (.object f) n o) [.ofText "a", .ofText "b"] graftingBodies m₁ =
        .error .exhausted m' by
      obtain ⟨m', hrun⟩ := hinside
      obtain ⟨hkind, hkeys, hvisited, _⟩ := m.heap.hasOwn_of_isRecord ho hx (t := pairObject.properties) rfl
      have hw : m₁.heap.WalkedKeys o [.ofText "a", .ofText "b"] := .inr ⟨hkind, (hvisited.trans hkeys).symm⟩
      refine ⟨{ m' with held := m.held }, ?_⟩
      rw [revive_succ, bind_run_ok (getFrom_own hholder hv)]
      exact holding_error (bind_run_error ((reviveInside_run hw n).trans hrun) _)
    cases n with
    | zero => exact ⟨m₁, rfl⟩
    | succ n =>
      obtain ⟨m₂, hfirst, hend⟩ := revive_first n hm₁ ho hx hlt
      obtain ⟨y, hy, hrecord⟩ := hend.outer
      have hmade : m₂.heap.nextObject = m.heap.nextObject + 1 := hend.next
      have hinner : o ≠ m.heap.nextObject := Nat.ne_of_lt hlt
      obtain ⟨h', x', hput, hnext, _, hx', hrecord', hother⟩ := createData_run graftingBodies hy hrecord "a" .null
      obtain ⟨hplain, hown⟩ := h'.getOwn?_of_isRecord hx' hrecord' (rfl : List.lookup (Text.ofString "b") _ = _)
      have hm₂ := hm₁.after hend hne
      let m₃ : Machine := { m₂ with heap := h' }
      have hm₃ : CanGraft f m₃ := by
        refine ⟨hm₂.limit, hm₂.room, ?_, hm₂.held, hnext ▸ hm₂.made⟩
        rw [Heap.object_of_same (hother f hne)]
        exact hm₂.kind
      obtain ⟨m₄, hsecond⟩ := ih (m := m₃) hm₃ hplain ⟨_, _, _, hown⟩ ((hother _ hinner.symm).trans hend.inner)
        isRecord_pairObject
        (by rw [hnext, hmade]; exact Nat.lt_succ_self _) (Nat.ne_of_lt hm.made)
      refine ⟨m₄, ?_⟩
      have hvisit : reviveProperty (.object f) (n + 1) o (.ofText "a") graftingBodies m₁ = .ok () m₃ :=
        (bind_run_ok hfirst _).trans ((bind_run_ok hput _).trans rfl)
      exact (bind_run_ok hvisit _).trans (bind_run_error (bind_run_error hsecond _) _)

/-- The text of the members. -/
def pairText : Text := "\x7b\"a\":null,\"b\":null\x7d"

theorem isText_pairText : Json.IsText pairText.toList (.object [("a", .null), ("b", .null)]) := by
  have hname {name : Text} {u : CodeUnit} {rest : List CodeUnit} (hunits : name.toList = [u]) (hplain : ¬ u < 0x20)
      (hquote : u ≠ 0x22) (hescape : u ≠ 0x5C) : Json.SpellsName name (0x22 :: u :: 0x22 :: 0x3A :: rest) rest := by
    refine ⟨_, _, .none, ⟨_, rfl, ?_⟩, .none⟩
    rw [hunits]
    exact ⟨_, .plain hplain hquote hescape, rfl⟩
  have hnull {rest : List CodeUnit} :
      Json.Around (Json.Spells .null) (0x6E :: 0x75 :: 0x6C :: 0x6C :: rest) rest := by
    refine ⟨_, _, .none, ?_, .none⟩
    rw [Json.Spells]
    rfl
  have hunits : pairText.toList = [0x7B, 0x22, 0x61, 0x22, 0x3A, 0x6E, 0x75, 0x6C, 0x6C, 0x2C, 0x22, 0x62, 0x22,
      0x3A, 0x6E, 0x75, 0x6C, 0x6C, 0x7D] := by decide
  rw [hunits]
  refine ⟨_, [], .none, ?_, .none⟩
  rw [Json.Spells]
  refine ⟨_, rfl, ?_⟩
  rw [Json.SpellsMembers]
  refine ⟨_, _, hname rfl (by decide) (by decide) (by decide), hnull, ?_⟩
  rw [Json.SpellsMoreMembers]
  exact ⟨_, _, _, rfl, hname rfl (by decide) (by decide) (by decide), hnull, by rw [Json.SpellsMoreMembers]⟩

theorem reviveText_grafting (n : Nat) (hm : CanGraft f m) :
    ∃ m', reviveText n pairText (.object f) graftingBodies m = .error .exhausted m' := by
  obtain ⟨v, m₀, hparse, hrest, hgrows, hv⟩ :=
    parseJson_makes graftingBodies hm.limit isText_pairText (Nat.sub_pos_of_lt hm.room)
  obtain ⟨m₁, hroot, hlarger, hplain, hown, hv₁⟩ := rootFor_run graftingBodies (hrest.heapLimit.trans hm.limit) hv
  have hcallable : m₀.heap.isCallable (.object f) = true := by
    show (m₀.heap.object f).isCallable = true
    unfold Object.isCallable
    rw [Heap.object_of_same (hgrows.object hm.held hm.made), hm.kind]
  have hm₁ : CanGraft f m₁ := by
    have hrest₁ := hrest.trans hlarger.rest
    have hmade := Nat.lt_of_lt_of_le hm.made hgrows.next
    refine ⟨hrest₁.heapLimit.trans hm.limit, by rw [hrest₁]; exact hm.room, ?_, hlarger.held (hgrows.held hm.held),
      Nat.lt_trans hmade hlarger.next⟩
    rw [Heap.object_of_same ((hlarger.object (hgrows.held hm.held) hmade).trans (hgrows.object hm.held hm.made))]
    exact hm.kind
  rw [Heap.Holds] at hv₁
  obtain ⟨x, pairs, rfl, hx, hrecord, hmembers⟩ := hv₁
  have hmade := Nat.lt_trans (Heap.HoldsMembers.le _ hmembers) hlarger.next
  simp only [Heap.HoldsMembers, Heap.Holds] at hmembers
  obtain ⟨_, _, _, rfl, _, ha, _, _, _, rfl, _, hb, _, rfl⟩ := hmembers
  obtain rfl := (ha (by decide)).2
  obtain rfl := (hb (by decide)).2
  obtain ⟨m', hrun⟩ := revive_pair n hm₁ hplain hown hx hrecord hmade (Nat.ne_of_lt hm.made)
  refine ⟨m', ?_⟩
  unfold reviveText
  rw [bind_run_ok hparse, getHeap_bind_run, if_neg (by rw [hcallable]; exact Bool.false_ne_true), bind_run_ok hroot]
  exact hrun

/-- **The walk need not end**: where every visit grafts a pair onto the next member, no number of levels is enough,
though each call of the function returns. -/
theorem revive_endless : ∀ n, ∃ m',
    reviveText n pairText (.object Heap.empty.nextObject) graftingBodies reviverMachine = .error .exhausted m' := by
  exact fun n => reviveText_grafting n ⟨rfl, by decide, kind_functionMachine, List.mem_cons_self, by decide⟩

end Ecma51
