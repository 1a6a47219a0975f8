import Mathlib.Data.Nat.Log
import Ecma51.Proofs.Relates
import Ecma51.Sorting.HeapSort

/-!
# What heap sort does, whatever the comparison answers

The comparison may have effects, may contradict itself and may fail. Heap sort does nothing but compare elements and
exchange them: it ends after a bounded number of comparisons with a rearrangement of the elements, or with the first
comparison that fails. If the answers do not contradict an order, the result is in that order.

* `OrderedExcept`: a tree in which the elements below one node may be greater than it.
* `Comparison.Performs`: an operation that does nothing but compare.
* **`siftDown_performs`**: one element sinks, and the tree is in order again.
* **`heapSort_performs`**: the whole sort.
-/

namespace Ecma51

-- powers mean the same whether or not there are other instances in scope
attribute [local instance (high)] instPowNat

/-! ## 1. Nodes -/

/-- The second position is that of a child of the first. -/
def IsChild (p c : Nat) : Prop := c = 2 * p + 1 ∨ c = 2 * p + 2

theorem IsChild.lt {p c : Nat} (h : IsChild p c) : p < c := by
  unfold IsChild at h
  omega

theorem IsChild.unique {p p' c : Nat} (h : IsChild p c) (h' : IsChild p' c) : p = p' := by
  unfold IsChild at h h'
  omega

/-- Every node but the root has a parent. -/
theorem exists_isChild {c : Nat} (hc : 0 < c) : ∃ p, IsChild p c := by
  refine ⟨(c - 1) / 2, ?_⟩
  unfold IsChild
  omega

/-- A child roots a tree that is less than half as large, as far as the number of levels is concerned. -/
theorem IsChild.log_lt {p c stop : Nat} (h : IsChild p c) (hstop : 2 * p + 1 < stop) :
    Nat.log 2 (stop / (c + 1)) + 1 ≤ Nat.log 2 (stop / (p + 1)) := by
  have htwo : 2 ≤ stop / (p + 1) := (Nat.le_div_iff_mul_le (Nat.succ_pos p)).mpr (by omega)
  have hhalf : stop / (c + 1) ≤ stop / (p + 1) / 2 := by
    rw [Nat.div_div_eq_div_mul]
    refine Nat.div_le_div_left ?_ (by omega)
    unfold IsChild at h
    omega
  calc Nat.log 2 (stop / (c + 1)) + 1 ≤ Nat.log 2 (stop / (p + 1) / 2) + 1 :=
        Nat.add_le_add_right (Nat.log_mono_right hhalf) 1
    _ = Nat.log 2 (stop / (p + 1)) - 1 + 1 := by rw [Nat.log_div_base]
    _ = Nat.log 2 (stop / (p + 1)) := Nat.sub_add_cancel (Nat.log_pos Nat.one_lt_two htwo)

variable {α : Type} {n : Nat}

/-! ## 2. Rearrangements -/

/-- The elements below `stop` are the same in some order, and those from there on are where they were. -/
structure ShuffledBelow (stop : Nat) (v w : Vector α n) : Prop where
  perm : w.Perm v
  below : ∀ (i : Nat) (hi : i < n), i < stop → ∃ (j : Nat) (hj : j < n), j < stop ∧ w[i] = v[j]
  same : ∀ (i : Nat) (hi : i < n), stop ≤ i → w[i] = v[i]

namespace ShuffledBelow

variable {stop : Nat} {v w x : Vector α n}

theorem refl (stop : Nat) (v : Vector α n) : ShuffledBelow stop v v :=
  ⟨.refl v, fun i hi hlt => ⟨i, hi, hlt, rfl⟩, fun _ _ _ => rfl⟩

theorem trans (h : ShuffledBelow stop v w) (h' : ShuffledBelow stop w x) : ShuffledBelow stop v x := by
  refine ⟨h'.perm.trans h.perm, fun i hi hlt => ?_, fun i hi hle => (h'.same i hi hle).trans (h.same i hi hle)⟩
  obtain ⟨j, hj, hjlt, heq⟩ := h'.below i hi hlt
  obtain ⟨k, hk, hklt, heq'⟩ := h.below j hj hjlt
  exact ⟨k, hk, hklt, heq.trans heq'⟩

theorem swap (v : Vector α n) {i j : Nat} (hi : i < n) (hj : j < n) (histop : i < stop) (hjstop : j < stop) :
    ShuffledBelow stop v (v.swap i j) := by
  refine ⟨Vector.swap_perm hi hj, fun k hk hlt => ?_, fun k hk hle => ?_⟩
  · rw [Vector.getElem_swap hi hj hk]
    split
    · exact ⟨j, hj, hjstop, rfl⟩
    split
    · exact ⟨i, hi, histop, rfl⟩
    · exact ⟨k, hk, hlt, rfl⟩
  · rw [Vector.getElem_swap hi hj hk, if_neg (by omega), if_neg (by omega)]

end ShuffledBelow

/-! ## 3. Trees in order -/

variable {le : α → α → Prop} {lo stop root child : Nat} {v w : Vector α n}

/-- From one node on, no node below `stop` is greater than its parent. -/
def OrderedFrom (le : α → α → Prop) (lo stop : Nat) (v : Vector α n) : Prop :=
  ∀ (p c : Nat) (hp : p < n) (hc : c < n), lo ≤ p → IsChild p c → c < stop → le v[c] v[p]

/-- The same, but the children of one node may be greater than it. They are not greater than its parent. -/
structure OrderedExcept (le : α → α → Prop) (lo stop hole : Nat) (v : Vector α n) : Prop where
  order : ∀ (p c : Nat) (hp : p < n) (hc : c < n), lo ≤ p → p ≠ hole → IsChild p c → c < stop → le v[c] v[p]
  across : ∀ (p c : Nat) (hp : p < n) (hc : c < n), lo ≤ p → IsChild p hole → IsChild hole c → c < stop →
    le v[c] v[p]

/-- No two elements are in the wrong order of which the second is at `stop` or behind it. -/
def SortedFrom (le : α → α → Prop) (stop : Nat) (v : Vector α n) : Prop :=
  ∀ (i j : Nat) (hi : i < n) (hj : j < n), i < j → stop ≤ j → le v[i] v[j]

/-- If the children of the exceptional node are not greater than it, it is no exception. -/
theorem OrderedExcept.close (ho : OrderedExcept le lo stop root v) (hr : root < n)
    (hchildren : ∀ (c : Nat) (hc : c < n), IsChild root c → c < stop → le v[c] v[root]) :
    OrderedFrom le lo stop v := by
  intro p c hp hc hlo hchild hstop
  by_cases heq : p = root
  · subst heq
    exact hchildren c hc hchild hstop
  · exact ho.order p c hp hc hlo heq hchild hstop

/-- **A step down**: the exceptional node is exchanged with a greatest one among its children, which is then the
exceptional one. -/
theorem OrderedExcept.sink (ho : OrderedExcept le lo stop root v) (hlo : lo ≤ root) (hr : root < n) (hc : child < n)
    (hchild : IsChild root child) (hin : child < stop) (hgreater : le v[root] v[child])
    (hgreatest : ∀ (s : Nat) (hs : s < n), IsChild root s → s < stop → s ≠ child → le v[s] v[child]) :
    OrderedExcept le lo stop child (v.swap root child) := by
  have hdown := hchild.lt
  refine ⟨fun p c hp hcn hplo hne hpc hstop => ?_, fun p c hp hcn hplo hpc hcc hstop => ?_⟩
  · by_cases hroot : p = root
    · -- the parent is where the child has gone
      subst hroot
      rw [Vector.getElem_swap hr hc hp, if_pos rfl, Vector.getElem_swap hr hc hcn, if_neg (by have := hpc.lt; omega)]
      split
      · exact hgreater
      · rename_i hother
        exact hgreatest c hcn hpc hstop hother
    · have hpe : (v.swap root child)[p] = v[p] := by
        rw [Vector.getElem_swap hr hc hp, if_neg hroot, if_neg hne]
      have hcne : c ≠ child := fun heq => hroot (hpc.unique (heq ▸ hchild))
      rw [hpe, Vector.getElem_swap hr hc hcn]
      split
      · -- what has come up from below the hole is not greater than the parent of the hole
        rename_i heq
        subst heq
        exact ho.across p child hp hc hplo hpc hchild hin
      · exact ho.order p c hp hcn hplo hroot hpc hstop
  · obtain rfl := hpc.unique hchild
    have hcgt := hcc.lt
    rw [Vector.getElem_swap hr hc hp, if_pos rfl, Vector.getElem_swap hr hc hcn, if_neg (by omega), if_neg (by omega)]
    exact ho.order child c hc hcn (by omega) (by omega) hcc hstop

/-- The root of a tree in order is a greatest element. -/
theorem OrderedFrom.le_root (ho : OrderedFrom le 0 stop v) (htrans : ∀ x y z, le x y → le y z → le x z) (hn : 0 < n) :
    ∀ (i : Nat) (hi : i < n), 0 < i → i < stop → le v[i] v[0] := by
  intro i
  induction i using Nat.strong_induction_on with
  | _ i ih =>
    intro hi hpos hstop
    obtain ⟨p, hp⟩ := exists_isChild hpos
    have hlt := hp.lt
    have hstep : le v[i] v[p] := ho p i (by omega) hi (Nat.zero_le p) hp hstop
    by_cases hzero : p = 0
    · subst hzero
      exact hstep
    · exact htrans _ _ _ hstep (ih p hlt (by omega) (by omega) (by omega))

/-- With one more node at its top, a tree is in order but for that node. -/
theorem OrderedFrom.extend (ho : OrderedFrom le (root + 1) stop v) : OrderedExcept le root stop root v := by
  refine ⟨fun p c hp hc hlo hne hchild hstop => ho p c hp hc (by omega) hchild hstop,
    fun p c hp hc hlo hchild => ?_⟩
  have := hchild.lt
  omega

/-- A tree of leaves is in order. -/
theorem orderedFrom_half (le : α → α → Prop) (v : Vector α n) : OrderedFrom le (n / 2) n v := by
  intro p c _ _ hlo hchild hstop
  unfold IsChild at hchild
  omega

section Extract

variable {last : Nat} (hlast : last < n)

include hlast

/-- Below the last position, no exchange of it with the root brings the root back. -/
theorem getElem_swap_root (v : Vector α n) {i : Nat} (hi : i < last) :
    ∃ (k : Nat) (_ : k < n), 0 < k ∧ k ≤ last ∧ (v.swap 0 last)[i] = v[k] := by
  have hin : i < n := by omega
  by_cases hzero : i = 0
  · subst hzero
    exact ⟨last, hlast, hi, Nat.le_refl _, by rw [Vector.getElem_swap _ _ hin, if_pos rfl]⟩
  · exact ⟨i, hin, by omega, by omega, by
      rw [Vector.getElem_swap _ _ hin, if_neg hzero, if_neg (Nat.ne_of_lt hi)]⟩

/-- Without its last node, a tree whose root was exchanged with that node is in order but for the root. -/
theorem OrderedFrom.swap_root (ho : OrderedFrom le 0 (last + 1) v) : OrderedExcept le 0 last 0 (v.swap 0 last) := by
  refine ⟨fun p c hp hc hlo hne hchild hstop => ?_, fun p c hp hc hlo hchild => ?_⟩
  · have hlt := hchild.lt
    rw [Vector.getElem_swap _ _ hp, if_neg hne, if_neg (by omega), Vector.getElem_swap _ _ hc, if_neg (by omega),
      if_neg (by omega)]
    exact ho p c hp hc hlo hchild (by omega)
  · exact absurd hchild.lt (Nat.not_lt_zero p)

/-- **A step of the second phase**: the root is a greatest element of the tree, and goes before those that are in place
already. -/
theorem SortedFrom.extract (hs : SortedFrom le (last + 1) v) (ho : OrderedFrom le 0 (last + 1) v)
    (htrans : ∀ x y z, le x y → le y z → le x z) (hw : ShuffledBelow last (v.swap 0 last) w) :
    SortedFrom le last w := by
  have hn : 0 < n := by omega
  have hfront (i : Nat) (hi : i < n) (hlt : i < last) : ∃ (k : Nat) (_ : k < n), 0 < k ∧ k ≤ last ∧ w[i] = v[k] := by
    obtain ⟨j, hj, hjlt, heq⟩ := hw.below i hi hlt
    obtain ⟨k, hk, hpos, hle, heq'⟩ := getElem_swap_root hlast v hjlt
    exact ⟨k, hk, hpos, hle, heq.trans heq'⟩
  have hroot : w[last] = v[0] := by
    rw [hw.same last hlast (Nat.le_refl _), Vector.getElem_swap _ _ hlast]
    split
    · rename_i hzero
      subst hzero
      rfl
    · rw [if_pos rfl]
  have hback (j : Nat) (hj : j < n) (hlt : last < j) : w[j] = v[j] := by
    rw [hw.same j hj (Nat.le_of_lt hlt), Vector.getElem_swap _ _ hj, if_neg (by omega), if_neg (by omega)]
  intro i j hi hj hij hle
  rcases Nat.eq_or_lt_of_le hle with rfl | hlt
  · obtain ⟨k, hk, hpos, hkle, heq⟩ := hfront i hi hij
    rw [hroot, heq]
    exact ho.le_root htrans hn k hk hpos (by omega)
  · rw [hback j hj hlt]
    rcases Nat.lt_trichotomy i last with hbelow | rfl | habove
    · obtain ⟨k, hk, _, hkle, heq⟩ := hfront i hi hbelow
      rw [heq]
      exact hs k j hk hj (by omega) hlt
    · rw [hroot]
      exact hs 0 j hn hj (by omega) hlt
    · rw [hback i hi habove]
      exact hs i j hi hj hij hlt

end Extract

/-! ## 4. Operations that only compare -/

/-- A comparison, the elements that may be compared, and where comparing begins. -/
structure Comparison (α : Type) where
  compare : α → α → Run Ordering
  bodies : Bodies
  items : List α
  start : Machine

namespace Comparison

variable (C : Comparison α) {β γ : Type}

/-- The machine after a number of comparisons, with nothing else in between. -/
inductive Reaches : Nat → Machine → Prop where
  | start : Reaches 0 C.start
  | compared {k : Nat} {m m' : Machine} {x y : α} {r : Ordering} (before : Reaches k m) (hx : x ∈ C.items)
      (hy : y ∈ C.items) (answer : C.compare x y C.bodies m = .ok r m') : Reaches (k + 1) m'

/-- How an operation ends that only compares, at most a number of times: with a result of which something holds, or
with the failure of a comparison, which is the last thing that it does. -/
inductive Ends (limit : Nat) (post : β → Prop) : EStateM.Result Failure Machine β → Prop where
  | finished {k : Nat} {m : Machine} {b : β} (before : C.Reaches k m) (few : k ≤ limit) (result : post b) :
      Ends limit post (.ok b m)
  | failed {k : Nat} {m m' : Machine} {x y : α} {e : Failure} (before : C.Reaches k m) (few : k < limit)
      (hx : x ∈ C.items) (hy : y ∈ C.items) (failure : C.compare x y C.bodies m = .error e m') :
      Ends limit post (.error e m')

/-- Wherever comparisons may have led, the operation does nothing but compare, at most so many times. -/
def Performs (cost : Nat) (post : β → Prop) (x : Run β) : Prop :=
  ∀ k m, C.Reaches k m → C.Ends (k + cost) post (x C.bodies m)

/-- An answer that is given to two elements after some number of comparisons. -/
def Answers (x y : α) (r : Ordering) : Prop :=
  x ∈ C.items ∧ y ∈ C.items ∧ ∃ k m m', C.Reaches k m ∧ C.compare x y C.bodies m = .ok r m'

/-- The answers do not contradict an order. -/
structure Respects (le : α → α → Prop) : Prop where
  trans : ∀ x y z, le x y → le y z → le x z
  of_lt : ∀ x y, C.Answers x y .lt → le x y
  of_not_lt : ∀ x y r, C.Answers x y r → r ≠ .lt → le y x

variable {C} {c c' limit limit' : Nat} {post : β → Prop} {post' : γ → Prop}

theorem Ends.mono {post' : β → Prop} {r : EStateM.Result Failure Machine β} (h : C.Ends limit post r)
    (hlimit : limit ≤ limit') (hpost : ∀ b, post b → post' b) : C.Ends limit' post' r := by
  cases h with
  | finished before few result => exact .finished before (Nat.le_trans few hlimit) (hpost _ result)
  | failed before few hx hy failure => exact .failed before (Nat.lt_of_lt_of_le few hlimit) hx hy failure

namespace Performs

theorem mono {post' : β → Prop} {x : Run β} (h : C.Performs c post x) (hc : c ≤ c') (hpost : ∀ b, post b → post' b) :
    C.Performs c' post' x :=
  fun k m hm => (h k m hm).mono (Nat.add_le_add_left hc k) hpost

theorem pure {b : β} (hb : post b) : C.Performs c post (pure b) :=
  fun _ _ hm => .finished hm (Nat.le_add_right _ _) hb

/-- What follows an operation has the comparisons that the operation leaves. -/
theorem bind {x : Run β} {f : β → Run γ} (hx : C.Performs c post x) (hc : c ≤ c')
    (hf : ∀ b, post b → C.Performs (c' - c) post' (f b)) : C.Performs c' post' (x >>= f) := by
  intro k m hm
  have hend := hx k m hm
  cases hr : x C.bodies m with
  | ok b m' =>
    rw [bind_run_ok hr]
    cases hr ▸ hend with
    | finished before few result => exact (hf b result _ m' before).mono (by omega) fun _ h => h
  | error e m' =>
    rw [bind_run_error hr]
    cases hr ▸ hend with
    | failed before few hx hy failure => exact .failed before (by omega) hx hy failure

/-- One comparison. -/
theorem compare {x y : α} (hx : x ∈ C.items) (hy : y ∈ C.items) : C.Performs 1 (C.Answers x y) (C.compare x y) := by
  intro k m hm
  cases hr : C.compare x y C.bodies m with
  | ok r m' => exact .finished (.compared hm hx hy hr) (Nat.le_refl _) ⟨hx, hy, k, m, m', hm, hr⟩
  | error e m' => exact .failed hm (Nat.lt_succ_self k) hx hy hr

end Performs

end Comparison

/-! ## 5. The sort -/

section Sorting

variable {C : Comparison α}

/-- The child that is found is not less than the other one. -/
theorem largerChild_performs (hmem : ∀ x ∈ v, x ∈ C.items) (h : stop ≤ n) (hl : 2 * root + 1 < stop) :
    C.Performs 1 (fun c => IsChild root c.val ∧ ∀ le, C.Respects le →
        ∀ (s : Nat) (hs : s < n) (hc : c.val < n), IsChild root s → s < stop → s ≠ c.val → le v[s] v[c.val])
      (largerChild C.compare v root stop h hl) := by
  have hleft : 2 * root + 1 < n := by omega
  unfold largerChild
  split
  · rename_i hr
    have hright : 2 * root + 2 < n := by omega
    have hasked := Comparison.Performs.compare (hmem _ (Vector.getElem_mem hleft)) (hmem _ (Vector.getElem_mem hright))
    refine hasked.bind (Nat.le_refl 1) fun r hanswer => .pure ?_
    split
    · rename_i hlt
      obtain rfl : r = .lt := beq_iff_eq.mp hlt
      refine ⟨.inr rfl, fun le hrespects s hs _ hchild _ hne => ?_⟩
      obtain rfl : s = 2 * root + 1 := hchild.resolve_right hne
      exact hrespects.of_lt _ _ hanswer
    · rename_i hnot
      refine ⟨.inl rfl, fun le hrespects s hs _ hchild _ hne => ?_⟩
      obtain rfl : s = 2 * root + 2 := hchild.resolve_left hne
      exact hrespects.of_not_lt _ _ r hanswer fun hlt => hnot (beq_iff_eq.mpr hlt)
  · refine .pure ⟨.inl rfl, fun le _ s hs _ hchild hin hne => ?_⟩
    obtain rfl : s = 2 * root + 2 := hchild.resolve_left hne
    omega

/-- **An element sinks**: below `stop` the elements are rearranged, and the tree is in order afterwards if it was, that
element apart. This takes two comparisons for each level. -/
theorem siftDown_performs (hmem : ∀ x ∈ v, x ∈ C.items) (root : Nat) (h : stop ≤ n) :
    C.Performs (2 * Nat.log 2 (stop / (root + 1))) (fun w => ShuffledBelow stop v w ∧
        ∀ le lo, C.Respects le → lo ≤ root → OrderedExcept le lo stop root v → OrderedFrom le lo stop w)
      (siftDown C.compare v root stop h) := by
  induction v, root using siftDown.induct stop h with
  | case1 v root hl ih =>
    rw [siftDown, dif_pos hl]
    have hroot : root < n := by omega
    have hlevel : Nat.log 2 (stop / (2 * root + 1 + 1)) + 1 ≤ Nat.log 2 (stop / (root + 1)) :=
      IsChild.log_lt (.inl rfl) hl
    refine (largerChild_performs hmem h hl).bind (by omega) ?_
    rintro ⟨child, hdown, hin⟩ ⟨hchild, hgreatest⟩
    have hc : child < n := by omega
    have hasked := Comparison.Performs.compare (hmem _ (Vector.getElem_mem hroot)) (hmem _ (Vector.getElem_mem hc))
    refine hasked.bind (by omega) fun r hanswer => ?_
    split
    · rename_i hlt
      obtain rfl : r = .lt := beq_iff_eq.mp hlt
      have hswap : ShuffledBelow stop v (v.swap root child) := .swap v hroot hc (by omega) hin
      have hmem' : ∀ x ∈ v.swap root child, x ∈ C.items := fun x hx => hmem x (hswap.perm.mem_iff.mp hx)
      have hfewer : Nat.log 2 (stop / (child + 1)) + 1 ≤ Nat.log 2 (stop / (root + 1)) := hchild.log_lt hl
      refine (ih child ⟨hdown, hin⟩ hmem').mono (by omega) ?_
      rintro w ⟨hshuffled, hordered⟩
      refine ⟨hswap.trans hshuffled, fun le lo hrespects hlo ho => hordered le lo hrespects (by omega) ?_⟩
      exact ho.sink hlo hroot hc hchild hin (hrespects.of_lt _ _ hanswer) fun s hs => hgreatest le hrespects s hs hc
    · rename_i hnot
      refine .pure ⟨.refl stop v, fun le lo hrespects _ ho => ho.close hroot fun s hs hsibling hsin => ?_⟩
      have hle : le v[child] v[root] := hrespects.of_not_lt _ _ r hanswer fun hlt => hnot (beq_iff_eq.mpr hlt)
      by_cases heq : s = child
      · subst heq
        exact hle
      · exact hrespects.trans _ _ _ (hgreatest le hrespects s hs hc hsibling hsin heq) hle
  | case2 v root hl =>
    rw [siftDown, dif_neg hl]
    refine .pure ⟨.refl stop v, fun le lo _ _ ho p c hp hc hlo hchild hin => ?_⟩
    refine ho.order p c hp hc hlo (fun heq => ?_) hchild hin
    unfold IsChild at hchild
    omega

/-- The first phase puts the tree in order, from the last inner node to the root. -/
theorem heapify_performs (hmem : ∀ x ∈ v, x ∈ C.items) (count : Nat) :
    C.Performs (2 * count * Nat.log 2 n) (fun w => w.Perm v ∧
        ∀ le, C.Respects le → OrderedFrom le count n v → OrderedFrom le 0 n w)
      (heapify C.compare v count) := by
  induction count generalizing v with
  | zero => exact .pure ⟨.refl v, fun _ _ ho => ho⟩
  | succ count ih =>
    have hlevels : Nat.log 2 (n / (count + 1)) ≤ Nat.log 2 n := Nat.log_mono_right (Nat.div_le_self n _)
    have hcost : 2 * (count + 1) * Nat.log 2 n = 2 * count * Nat.log 2 n + 2 * Nat.log 2 n :=
      Nat.add_mul (2 * count) 2 _
    refine (siftDown_performs hmem count (Nat.le_refl n)).bind (by omega) ?_
    rintro w ⟨hshuffled, hordered⟩
    refine (ih fun x hx => hmem x (hshuffled.perm.mem_iff.mp hx)).mono (by omega) ?_
    rintro x ⟨hperm, hrest⟩
    exact ⟨hperm.trans hshuffled.perm, fun le hrespects ho =>
      hrest le hrespects (hordered le count hrespects (Nat.le_refl _) ho.extend)⟩

/-- The second phase puts the greatest element of the tree behind it, until the tree has only its root. -/
theorem extractAll_performs (hmem : ∀ x ∈ v, x ∈ C.items) (h : stop < n) :
    C.Performs (2 * stop * Nat.log 2 n) (fun w => w.Perm v ∧ ∀ le, C.Respects le →
        OrderedFrom le 0 (stop + 1) v → SortedFrom le (stop + 1) v → SortedFrom le 0 w)
      (extractAll C.compare v stop h) := by
  induction stop generalizing v with
  | zero =>
    refine .pure ⟨.refl v, fun le _ _ hs i j hi hj hij _ => hs i j hi hj hij ?_⟩
    omega
  | succ stop ih =>
    have hlevels : Nat.log 2 ((stop + 1) / (0 + 1)) ≤ Nat.log 2 n :=
      Nat.log_mono_right (Nat.le_trans (Nat.div_le_self _ _) (Nat.le_of_lt h))
    have hcost : 2 * (stop + 1) * Nat.log 2 n = 2 * stop * Nat.log 2 n + 2 * Nat.log 2 n :=
      Nat.add_mul (2 * stop) 2 _
    have hswap : (v.swap 0 (stop + 1)).Perm v := Vector.swap_perm _ _
    have hmem' : ∀ x ∈ v.swap 0 (stop + 1), x ∈ C.items := fun x hx => hmem x (hswap.mem_iff.mp hx)
    refine (siftDown_performs hmem' 0 (Nat.le_of_lt h)).bind (by omega) ?_
    rintro w ⟨hshuffled, hordered⟩
    refine (ih (fun x hx => hmem' x (hshuffled.perm.mem_iff.mp hx)) _).mono (by omega) ?_
    rintro x ⟨hperm, hrest⟩
    refine ⟨hperm.trans (hshuffled.perm.trans hswap), fun le hrespects ho hs => ?_⟩
    have hbelow : OrderedFrom le 0 (stop + 1) w := hordered le 0 hrespects (Nat.le_refl 0) (ho.swap_root h)
    exact hrest le hrespects hbelow (hs.extract h ho hrespects.trans hshuffled)

/-- **Heap sort** makes at most `3 * n * log n` comparisons, and ends with the failure of one of them or with a
rearrangement of the elements. If the answers do not contradict an order, no two elements are in the wrong order. -/
theorem heapSort_performs (hmem : ∀ x ∈ v, x ∈ C.items) :
    C.Performs (3 * n * Nat.log 2 n) (fun w => w.Perm v ∧ ∀ le, C.Respects le → SortedFrom le 0 w)
      (heapSort C.compare v) := by
  have hcost : 2 * (n / 2) * Nat.log 2 n + 2 * (n - 1) * Nat.log 2 n ≤ 3 * n * Nat.log 2 n := by
    rw [← Nat.add_mul]
    exact Nat.mul_le_mul_right _ (by omega)
  refine (heapify_performs hmem (n / 2)).bind (by omega) ?_
  rintro w ⟨hperm, hordered⟩
  split
  · rename_i hn
    refine (extractAll_performs (fun x hx => hmem x (hperm.mem_iff.mp hx)) _).mono (by omega) ?_
    rintro x ⟨hperm', hsorted⟩
    refine ⟨hperm'.trans hperm, fun le hrespects => hsorted le hrespects ?_ ?_⟩
    · rw [Nat.sub_add_cancel hn]
      exact hordered le hrespects (orderedFrom_half le v)
    · intro i j hi hj hij hle
      omega
  · refine .pure ⟨hperm, fun le _ i j hi hj _ _ => ?_⟩
    omega

/-- The whole sort, from the beginning. -/
theorem heapSort_ends (C : Comparison α) (hmem : ∀ x ∈ v, x ∈ C.items) :
    C.Ends (3 * n * Nat.log 2 n) (fun w => w.Perm v ∧ ∀ le, C.Respects le → SortedFrom le 0 w)
      (heapSort C.compare v C.bodies C.start) := by
  have hend := heapSort_performs hmem 0 C.start .start
  rw [Nat.zero_add] at hend
  exact hend

end Sorting

end Ecma51
