import Mathlib.Algebra.Order.BigOperators.Group.List
import Mathlib.Algebra.Order.Ring.Nat
import Ecma51.Heap.Graph

/-!
# Reachability in reference graphs

Marking visits pending nodes one after the other and stops when a number of steps is used up. The
number is large enough: a node is visited once, and only then are its references pending.

* `Graph.Reaches`: the nodes that can be reached from a list of nodes.
* `Graph.debt`: the steps that marking may still need.
* `Graph.Closed`: everything that a marked node refers to is marked or pending.
* **`Graph.mem_mark`**: what is marked is exactly what can be reached.
-/

namespace Ecma51

namespace Graph

/-! ## 1. Counting references -/

theorem getD_foldl_count (refs : List Nat) (m : Std.TreeMap Nat Nat) (n : Nat) :
    (refs.foldl (fun m n => m.insert n (m.getD n 0 + 1)) m).getD n 0 = m.getD n 0 + refs.count n := by
  induction refs generalizing m with
  | nil => rfl
  | cons r refs ih =>
    rw [List.foldl_cons, ih, List.count_cons, Std.TreeMap.getD_insert]
    by_cases hr : r = n
    · subst hr
      rw [if_pos (Nat.compare_eq_eq.mpr rfl), if_pos BEq.rfl]
      omega
    · have hc : compare r n ≠ .eq := fun h => hr (Nat.compare_eq_eq.mp h)
      simp [hc, hr]

@[simp] theorem getD_countReferences (refs : List Nat) (n : Nat) :
    (countReferences refs).getD n 0 = refs.count n := by
  unfold countReferences
  rw [getD_foldl_count, Std.TreeMap.getD_emptyc, Nat.zero_add]

/-! ## 2. Reachable nodes -/

/-- The node can be reached from one of the sources; every node on the way is one of the graph. -/
inductive Reaches (g : Graph) (sources : List Nat) : Nat → Prop where
  | source {n : Nat} : n ∈ sources → n ∈ g.edges → Reaches g sources n
  | step {n k : Nat} : Reaches g sources n → k ∈ g.targets n → k ∈ g.edges → Reaches g sources k

/-! ## 3. Steps -/

variable (g : Graph)

/-- The steps that a list of nodes may still cause: one for each node that is not marked, and one for
each of its references. -/
def owed (seen : Std.TreeSet Nat) (nodes : List Nat) : Nat :=
  ((nodes.filter fun n => !seen.contains n).map fun n => (g.targets n).length + 1).sum

/-- The steps that marking may still need. -/
def debt (pending : List Nat) (seen : Std.TreeSet Nat) : Nat := pending.length + g.owed seen g.nodes

theorem owed_insert_le (seen : Std.TreeSet Nat) (n : Nat) (nodes : List Nat) :
    g.owed (seen.insert n) nodes ≤ g.owed seen nodes := by
  refine List.Sublist.sum_le_sum (List.Sublist.map _ (List.monotone_filter_right _ ?_)) ?_
  · intro k hk
    simp only [Std.TreeSet.contains_insert, Bool.not_or, Bool.and_eq_true] at hk
    exact hk.2
  · exact fun _ _ => Nat.zero_le _

theorem owed_insert (seen : Std.TreeSet Nat) {n : Nat} {nodes : List Nat} (hn : n ∈ nodes)
    (hs : seen.contains n = false) :
    g.owed (seen.insert n) nodes + ((g.targets n).length + 1) ≤ g.owed seen nodes := by
  induction nodes with
  | nil => exact absurd hn List.not_mem_nil
  | cons k nodes ih =>
    by_cases hk : k = n
    · subst hk
      have hrest := g.owed_insert_le seen k nodes
      unfold owed at hrest ⊢
      rw [List.filter_cons_of_neg (by simp), List.filter_cons_of_pos (by simp [hs])]
      rw [List.map_cons, List.sum_cons]
      omega
    · have hrest := ih ((List.mem_cons.mp hn).resolve_left fun h => hk h.symm)
      have hsame : (seen.insert n).contains k = seen.contains k := by
        have hc : compare n k ≠ .eq := fun h => hk (Nat.compare_eq_eq.mp h).symm
        rw [Std.TreeSet.contains_insert, beq_eq_false_iff_ne.mpr hc, Bool.false_or]
      unfold owed at hrest ⊢
      by_cases hseen : seen.contains k
      · rw [List.filter_cons_of_neg (by simp [hsame, hseen]),
          List.filter_cons_of_neg (by simp [hseen])]
        exact hrest
      · rw [List.filter_cons_of_pos (by simp [hsame, hseen]),
          List.filter_cons_of_pos (by simp [hseen])]
        rw [List.map_cons, List.sum_cons, List.map_cons, List.sum_cons]
        omega

theorem markBound_eq : g.markBound = g.owed ∅ g.nodes + 1 := by
  unfold markBound owed
  have hfold (l : List Nat) (acc : Nat) :
      l.foldl (fun acc n => acc + (g.targets n).length + 1) acc =
        acc + (l.map fun n => (g.targets n).length + 1).sum := by
    induction l generalizing acc with
    | nil => rfl
    | cons n l ih =>
      rw [List.foldl_cons, ih, List.map_cons, List.sum_cons]
      omega
  have hall : g.nodes.filter (fun n => !(∅ : Std.TreeSet Nat).contains n) = g.nodes :=
    List.filter_eq_self.mpr fun _ _ => rfl
  rw [hfold, hall, Nat.add_comm]

/-! ## 4. Marking -/

/-- Everything that a marked node refers to is marked or pending. -/
def Closed (pending : List Nat) (seen : Std.TreeSet Nat) : Prop :=
  ∀ n ∈ seen, ∀ k ∈ g.targets n, k ∈ g.edges → k ∈ seen ∨ k ∈ pending

variable {g}

theorem Closed.skip {n : Nat} {pending : List Nat} {seen : Std.TreeSet Nat}
    (h : g.Closed (n :: pending) seen) (hn : n ∈ g.edges → n ∈ seen) : g.Closed pending seen := by
  intro m hm k hk hke
  rcases h m hm k hk hke with hs | hp
  · exact .inl hs
  · rcases List.mem_cons.mp hp with rfl | hp
    · exact .inl (hn hke)
    · exact .inr hp

theorem Closed.visit {n : Nat} {pending : List Nat} {seen : Std.TreeSet Nat}
    (h : g.Closed (n :: pending) seen) : g.Closed (g.targets n ++ pending) (seen.insert n) := by
  intro m hm k hk hke
  rcases Std.TreeSet.mem_insert.mp hm with heq | hm
  · obtain rfl : n = m := Nat.compare_eq_eq.mp heq
    exact .inr (List.mem_append_left _ hk)
  · rcases h m hm k hk hke with hs | hp
    · exact .inl (Std.TreeSet.mem_insert.mpr (.inr hs))
    · rcases List.mem_cons.mp hp with rfl | hp
      · exact .inl Std.TreeSet.mem_insert_self
      · exact .inr (List.mem_append_right _ hp)

/-- Marking with enough steps ends with nothing pending: what was marked or pending is marked, and so
is everything that a marked node refers to. -/
theorem markUpTo_complete {fuel : Nat} {pending : List Nat} {seen : Std.TreeSet Nat}
    (hfuel : g.debt pending seen ≤ fuel) (hclosed : g.Closed pending seen) :
    (∀ n ∈ seen, n ∈ g.markUpTo fuel pending seen) ∧
      (∀ n ∈ pending, n ∈ g.edges → n ∈ g.markUpTo fuel pending seen) ∧
      g.Closed [] (g.markUpTo fuel pending seen) := by
  induction fuel generalizing pending seen with
  | zero =>
    have hnil : pending = [] := by
      unfold debt at hfuel
      exact List.eq_nil_of_length_eq_zero (by omega)
    subst hnil
    exact ⟨fun _ h => h, fun _ h => absurd h List.not_mem_nil, hclosed⟩
  | succ fuel ih =>
    cases pending with
    | nil => exact ⟨fun _ h => h, fun _ h => absurd h List.not_mem_nil, hclosed⟩
    | cons n rest =>
      unfold markUpTo
      split
      · rename_i hskip
        have hn : n ∈ g.edges → n ∈ seen := by
          intro he
          rcases Bool.or_eq_true_iff.mp hskip with hs | hs
          · exact hs
          · rw [Std.TreeMap.mem_iff_contains.mp he] at hs
            cases hs
        have hdebt : g.debt rest seen ≤ fuel := by
          unfold debt at hfuel ⊢
          rw [List.length_cons] at hfuel
          omega
        obtain ⟨hseen, hpending, hdone⟩ := ih hdebt (hclosed.skip hn)
        refine ⟨hseen, fun k hk he => ?_, hdone⟩
        rcases List.mem_cons.mp hk with rfl | hk
        · exact hseen _ (hn he)
        · exact hpending _ hk he
      · rename_i hvisit
        have hs : seen.contains n = false := by
          cases hc : seen.contains n
          · rfl
          · exact absurd (by rw [hc]; rfl) hvisit
        have he : n ∈ g.nodes := by
          refine Std.TreeMap.mem_keys.mpr (Std.TreeMap.mem_iff_contains.mpr ?_)
          rw [hs, Bool.false_or] at hvisit
          simpa using hvisit
        have hdebt : g.debt (g.targets n ++ rest) (seen.insert n) ≤ fuel := by
          have hdrop := g.owed_insert seen he hs
          unfold debt at hfuel ⊢
          rw [List.length_cons] at hfuel
          rw [List.length_append]
          omega
        obtain ⟨hseen, hpending, hdone⟩ := ih hdebt hclosed.visit
        refine ⟨fun k hk => hseen k (Std.TreeSet.mem_insert.mpr (.inr hk)), fun k hk he => ?_, hdone⟩
        rcases List.mem_cons.mp hk with rfl | hk
        · exact hseen _ Std.TreeSet.mem_insert_self
        · exact hpending _ (List.mem_append_right _ hk) he

theorem markUpTo_sound {sources : List Nat} {fuel : Nat} {pending : List Nat}
    {seen : Std.TreeSet Nat} (hseen : ∀ n ∈ seen, g.Reaches sources n)
    (hpending : ∀ n ∈ pending, n ∈ g.edges → g.Reaches sources n) {n : Nat}
    (hn : n ∈ g.markUpTo fuel pending seen) : g.Reaches sources n := by
  induction fuel generalizing pending seen with
  | zero => exact hseen n hn
  | succ fuel ih =>
    cases pending with
    | nil => exact hseen n hn
    | cons k rest =>
      unfold markUpTo at hn
      split at hn
      · exact ih hseen (fun j hj => hpending j (List.mem_cons_of_mem _ hj)) hn
      · rename_i hvisit
        have hk : g.Reaches sources k := by
          refine hpending k List.mem_cons_self (Std.TreeMap.mem_iff_contains.mpr ?_)
          cases hc : g.edges.contains k
          · exact absurd (by rw [hc, Bool.not_false, Bool.or_true]) hvisit
          · rfl
        refine ih (fun j hj => ?_) (fun j hj he => ?_) hn
        · rcases Std.TreeSet.mem_insert.mp hj with heq | hj
          · exact Nat.compare_eq_eq.mp heq ▸ hk
          · exact hseen j hj
        · rcases List.mem_append.mp hj with hj | hj
          · exact .step hk hj he
          · exact hpending j (List.mem_cons_of_mem _ hj) he

/-- **What is marked is exactly what can be reached.** -/
theorem mem_mark {sources : List Nat} {n : Nat} : n ∈ g.mark sources ↔ g.Reaches sources n := by
  have hempty (k : Nat) : k ∉ (∅ : Std.TreeSet Nat) := Std.TreeSet.not_mem_emptyc
  constructor
  · exact markUpTo_sound (fun k hk => absurd hk (hempty k)) fun k hk he => .source hk he
  · have hfuel : g.debt sources ∅ ≤ g.markBound + sources.length := by
      rw [markBound_eq]
      unfold debt
      omega
    obtain ⟨-, hsources, hclosed⟩ :=
      markUpTo_complete hfuel fun k hk => absurd hk (hempty k)
    intro h
    induction h with
    | source hn he => exact hsources _ hn he
    | step _ hk he ih => exact (hclosed _ ih _ hk he).resolve_right List.not_mem_nil

end Graph

end Ecma51
