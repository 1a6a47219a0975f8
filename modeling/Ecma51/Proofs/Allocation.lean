import Mathlib.Data.Set.Card
import Ecma51.Proofs.Collection
import Ecma51.Proofs.Relates

/-!
# Room for objects

A heap with a limit is searched before it refuses an object, so garbage never uses up the limit: what counts
is what is in use. The threshold at which a heap is searched anyway has no part in the answer.

* `Heap.objectsInUse`: the objects that a collection leaves.
* `Heap.Frugal`: heaps that grow only by objects for which room was granted.
* **`allocate_exact`**: an object is refused exactly if those in use fill the limit; nothing in use
  changes; and a heap that asks for room for each object stays within its limit.
-/

namespace Ecma51

namespace Heap

variable (h : Heap) (outside borrowed : List Nat)

/-! ## 1. Objects in use -/

/-- The objects that can be reached from an outside reference or from a borrowed node. -/
def objectsInUse : Set ObjectId := {o | o ∈ h.objects ∧ h.InUse outside borrowed (objectNode o)}

theorem mem_objects_collect {o : ObjectId} :
    o ∈ (h.collect outside borrowed).objects ↔ o ∈ h.objectsInUse outside borrowed := by
  obtain ⟨hkept, hdropped⟩ := h.collect_objects outside borrowed o
  show _ ↔ o ∈ h.objects ∧ h.InUse outside borrowed (objectNode o)
  rw [Std.TreeMap.mem_iff_isSome_getElem?, Std.TreeMap.mem_iff_isSome_getElem?]
  by_cases hu : h.InUse outside borrowed (objectNode o)
  · rw [hkept hu]
    exact ⟨fun ho => ⟨ho, hu⟩, fun ho => ho.1⟩
  · rw [hdropped hu]
    exact ⟨fun ho => absurd ho Bool.false_ne_true, fun ho => absurd ho.2 hu⟩

/-- A collection leaves as many objects as are in use. -/
theorem size_collect_eq :
    (h.collect outside borrowed).size = (h.objectsInUse outside borrowed).ncard := by
  have hset : h.objectsInUse outside borrowed =
      ((h.collect outside borrowed).objects.keys.toFinset : Set ObjectId) := by
    ext o
    rw [← mem_objects_collect, SetLike.mem_coe, List.mem_toFinset, Std.TreeMap.mem_keys]
  have hdistinct : (h.collect outside borrowed).objects.keys.Nodup := Std.TreeMap.nodup_keys
  rw [hset, Set.ncard_coe_finset, List.toFinset_card_of_nodup hdistinct, Std.TreeMap.length_keys]
  rfl

/-- A collection adds no object. -/
theorem size_collect_le : (h.collect outside borrowed).size ≤ h.size := by
  rw [← h.size_collect outside borrowed]
  exact Nat.le_add_right _ _

/-! ## 2. Asking for room -/

variable (limit : Option Nat) (nextCollection : Nat)

theorem isFull_iff : h.isFull limit = true ↔ ∃ n, limit = some n ∧ n ≤ h.size := by
  unfold isFull
  rw [Option.any_eq_true]
  exact exists_congr fun n => and_congr_right fun _ => decide_eq_true_iff

/-- **All that asking for room can do**: the heap is below its limit and stays as it is, or it is
collected and then tested. -/
theorem reserve_cases :
    (h.reserve limit nextCollection outside borrowed = ⟨h, nextCollection, true⟩ ∧
      h.isFull limit = false) ∨
    ∃ next, h.reserve limit nextCollection outside borrowed =
      ⟨h.collect outside borrowed, next, !(h.collect outside borrowed).isFull limit⟩ := by
  unfold reserve
  by_cases hdue : (decide (nextCollection ≤ h.size) || h.isFull limit) = true
  · rw [if_pos hdue]
    exact .inr ⟨_, rfl⟩
  · rw [if_neg hdue]
    exact .inl ⟨rfl, (Bool.or_eq_false_iff.mp (Bool.eq_false_iff.mpr hdue)).2⟩

/-- What is full after a collection was full before. -/
theorem isFull_of_isFull_collect (hfull : (h.collect outside borrowed).isFull limit = true) :
    h.isFull limit = true := by
  obtain ⟨n, hn, hle⟩ := ((h.collect outside borrowed).isFull_iff limit).mp hfull
  exact (h.isFull_iff limit).mpr ⟨n, hn, Nat.le_trans hle (h.size_collect_le outside borrowed)⟩

/-- **Room is refused exactly if a collection leaves a full heap**, whether or not one was due. -/
theorem fits_reserve : (h.reserve limit nextCollection outside borrowed).fits =
    !(h.collect outside borrowed).isFull limit := by
  rcases h.reserve_cases outside borrowed limit nextCollection with ⟨hr, hfree⟩ | ⟨next, hr⟩
  · have hcollected : (h.collect outside borrowed).isFull limit = false := by
      refine Bool.eq_false_iff.mpr fun hfull => ?_
      rw [h.isFull_of_isFull_collect outside borrowed limit hfull] at hfree
      cases hfree
    rw [hr, hcollected]
    rfl
  · rw [hr]

theorem refused_iff : (h.reserve limit nextCollection outside borrowed).fits = false ↔
    ∃ n, limit = some n ∧ n ≤ (h.objectsInUse outside borrowed).ncard := by
  rw [fits_reserve, Bool.not_eq_false', isFull_iff, size_collect_eq]

/-- What was granted room is below the limit. -/
theorem size_lt_of_fits {n : Nat} (hlimit : limit = some n)
    (hfits : (h.reserve limit nextCollection outside borrowed).fits = true) :
    (h.reserve limit nextCollection outside borrowed).heap.size < n := by
  have hbelow {h' : Heap} (hfree : h'.isFull limit = false) : h'.size < n := by
    refine Nat.lt_of_not_le fun hle => ?_
    rw [(h'.isFull_iff limit).mpr ⟨n, hlimit, hle⟩] at hfree
    cases hfree
  rcases h.reserve_cases outside borrowed limit nextCollection with ⟨hr, hfree⟩ | ⟨next, hr⟩
  · rw [hr]
    exact hbelow hfree
  · rw [hr] at hfits ⊢
    exact hbelow (by simpa using hfits)

/-- Nothing in use is changed by asking for room. -/
theorem inUse_reserve :
    (∀ o, h.InUse outside borrowed (objectNode o) →
      (h.reserve limit nextCollection outside borrowed).heap.objects[o]? = h.objects[o]?) ∧
    ∀ e, h.InUse outside borrowed (environmentNode e) →
      (h.reserve limit nextCollection outside borrowed).heap.environments[e]? =
        h.environments[e]? := by
  rcases h.reserve_cases outside borrowed limit nextCollection with ⟨hr, _⟩ | ⟨next, hr⟩
  · rw [hr]
    exact ⟨fun _ _ => rfl, fun _ _ => rfl⟩
  · rw [hr]
    exact ⟨fun o => (h.collect_objects outside borrowed o).1,
      fun e => (h.collect_environments outside borrowed e).1⟩

/-! ## 3. Frugal heaps -/

/-- Heaps that arise from one within the limit if every new object has room of its own: room is asked for
and granted after the object before it was made. Whatever else happens may change references and drop
objects, but makes none. The flag tells whether there is room that was granted and not yet used. -/
inductive Frugal (n : Nat) : Bool → Heap → Prop where
  | start {h : Heap} : h.size ≤ n → Frugal n false h
  | change {granted : Bool} {h h' : Heap} : Frugal n granted h →
      (∀ o ∈ h'.objects, o ∈ h.objects) → Frugal n granted h'
  | grant {granted : Bool} {h : Heap} (nextCollection : Nat) (outside borrowed : List Nat) :
      Frugal n granted h → (h.reserve (some n) nextCollection outside borrowed).fits = true →
      Frugal n true (h.reserve (some n) nextCollection outside borrowed).heap
  | add {h : Heap} (x : Object) : Frugal n true h → Frugal n false (h.add x).1

theorem size_le_of_subset {h h' : Heap} (hsub : ∀ o ∈ h'.objects, o ∈ h.objects) :
    h'.size ≤ h.size := by
  have hdistinct : h'.objects.keys.Nodup := Std.TreeMap.nodup_keys
  have hkeys : h'.objects.keys ⊆ h.objects.keys := fun o ho =>
    Std.TreeMap.mem_keys.mpr (hsub o (Std.TreeMap.mem_keys.mp ho))
  have hle := (List.subperm_of_subset hdistinct hkeys).length_le
  rwa [Std.TreeMap.length_keys, Std.TreeMap.length_keys] at hle

theorem size_add_le (x : Object) : (h.add x).1.size ≤ h.size + 1 := Std.TreeMap.size_insert_le

/-- **A frugal heap stays within its limit**, and below it while granted room is not yet used. -/
theorem Frugal.size_le {n : Nat} {granted : Bool} {h : Heap} (hf : Frugal n granted h) :
    h.size ≤ n ∧ (granted = true → h.size < n) := by
  induction hf with
  | start hle => exact ⟨hle, fun hg => by cases hg⟩
  | change _ hsub ih =>
    have hle := size_le_of_subset hsub
    exact ⟨Nat.le_trans hle ih.1, fun hg => Nat.lt_of_le_of_lt hle (ih.2 hg)⟩
  | @grant _ h nextCollection outside borrowed _ hfits _ =>
    have hlt := h.size_lt_of_fits outside borrowed (some n) nextCollection rfl hfits
    exact ⟨Nat.le_of_lt hlt, fun _ => hlt⟩
  | @add h x _ ih =>
    refine ⟨?_, fun hg => by cases hg⟩
    calc (h.add x).1.size ≤ h.size + 1 := h.size_add_le x
      _ ≤ n := ih.2 rfl

end Heap

/-! ## 4. Machines -/

/-- What the machine does when it asks for room is what its heap does. -/
theorem allocate_run_reserve (bodies : Bodies) (m : Machine) :
    let room := m.heap.reserve m.heapLimit m.nextCollection m.roots []
    let after := { m with heap := room.heap, nextCollection := room.nextCollection }
    allocate bodies m =
      if room.fits then .ok ⟨⟩ after else .error (.fault .outOfMemory) after :=
  allocate_run bodies m

/-- A new object is an addition for which room was granted. -/
theorem frugal_newObjectOf {bodies : Bodies} {m m' : Machine} {x : Object} {o : ObjectId} {n : Nat}
    {granted : Bool} (hlimit : m.heapLimit = some n) (hf : Heap.Frugal n granted m.heap)
    (hnew : newObjectOf x bodies m = .ok o m') : Heap.Frugal n false m'.heap := by
  unfold newObjectOf at hnew
  cases hfits : (m.heap.reserve m.heapLimit m.nextCollection m.roots []).fits with
  | true =>
    rw [bind_run_ok ((allocate_run_reserve bodies m).trans (if_pos hfits))] at hnew
    cases hnew
    rw [hlimit] at hfits
    have hgranted := hf.grant m.nextCollection m.roots [] hfits
    rw [← hlimit] at hgranted
    exact hgranted.add x
  | false =>
    rw [bind_run_error ((allocate_run_reserve bodies m).trans
      (if_neg (Bool.eq_false_iff.mp hfits)))] at hnew
    cases hnew

/-- **Room is refused exactly if the objects in use fill the limit.** For every graph of references, limit
and threshold: garbage is never the reason; what is in use stays as it is; and where room is granted the heap
is below its limit. A machine that asks for room reports a refusal as a lack of memory. So a heap within its
limit stays so as long as each new object has been granted room of its own, as those of a machine are. -/
theorem allocate_exact :
    (∀ (h : Heap) (limit : Option Nat) (nextCollection : Nat) (outside borrowed : List Nat),
      let room := h.reserve limit nextCollection outside borrowed
      (room.fits = false ↔ ∃ n, limit = some n ∧ n ≤ (h.objectsInUse outside borrowed).ncard) ∧
      (∀ o, h.InUse outside borrowed (Heap.objectNode o) → room.heap.objects[o]? = h.objects[o]?) ∧
      (∀ e, h.InUse outside borrowed (Heap.environmentNode e) →
        room.heap.environments[e]? = h.environments[e]?) ∧
      ∀ n, limit = some n → room.fits = true → room.heap.size < n) ∧
    (∀ (bodies : Bodies) (m : Machine),
      let room := m.heap.reserve m.heapLimit m.nextCollection m.roots []
      let after := { m with heap := room.heap, nextCollection := room.nextCollection }
      allocate bodies m = if room.fits then .ok ⟨⟩ after else .error (.fault .outOfMemory) after) ∧
    Fault.outOfMemory.kind = .rangeError ∧
    (∀ (n : Nat) (granted : Bool) (h : Heap), Heap.Frugal n granted h → h.size ≤ n) ∧
    ∀ (bodies : Bodies) (m m' : Machine) (x : Object) (o : ObjectId) (n : Nat) (granted : Bool),
      m.heapLimit = some n → Heap.Frugal n granted m.heap → newObjectOf x bodies m = .ok o m' →
      Heap.Frugal n false m'.heap := by
  refine ⟨fun h limit nextCollection outside borrowed => ?_, allocate_run_reserve, rfl,
    fun n granted h hf => hf.size_le.1, fun _ _ _ _ _ _ _ => frugal_newObjectOf⟩
  obtain ⟨hobjects, henvironments⟩ := h.inUse_reserve outside borrowed limit nextCollection
  exact ⟨h.refused_iff outside borrowed limit nextCollection, hobjects, henvironments,
    fun n hlimit hfits => h.size_lt_of_fits outside borrowed limit nextCollection hlimit hfits⟩

end Ecma51
