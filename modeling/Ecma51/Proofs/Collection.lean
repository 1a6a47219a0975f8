import Ecma51.Heap.Basic
import Ecma51.Proofs.PropertyTable
import Ecma51.Proofs.Reachability

/-!
# Collection keeps what is in use

A collection counts the references that it can see and takes every node with more references than that
for one that is used from outside. A borrowed node shows none of its references, so its targets have
references left over and are kept as well.

* `Heap.Refers`: one node refers to another through a prototype, a property, a kind or an environment.
* `Heap.InUse`: what can be reached from outside references and borrowed nodes.
* **`Heap.collect_exact`**: a collection drops exactly what is not in use, and changes nothing else.
-/

namespace Ecma51

namespace Heap

/-! ## 1. Nodes -/

theorem objectNode_injective : Function.Injective objectNode := by
  intro o p h
  exact Nat.eq_of_mul_eq_mul_left Nat.two_pos h

theorem environmentNode_injective : Function.Injective environmentNode := by
  intro e f h
  exact Nat.eq_of_mul_eq_mul_left Nat.two_pos (Nat.succ.inj h)

theorem objectNode_ne_environmentNode (o : ObjectId) (e : EnvironmentId) :
    objectNode o ≠ environmentNode e := by
  unfold objectNode environmentNode
  omega

theorem node_cases (n : Nat) : (∃ o, n = objectNode o) ∨ ∃ e, n = environmentNode e := by
  rcases Nat.even_or_odd' n with ⟨k, h | h⟩
  · exact .inl ⟨k, h⟩
  · exact .inr ⟨k, h⟩

theorem objectNode_mem_nodesOf {o : ObjectId} {vs : List Value} {es : List EnvironmentId} :
    objectNode o ∈ nodesOf vs es ↔ .object o ∈ vs := by
  unfold nodesOf
  rw [List.mem_append, List.mem_filterMap, List.mem_map]
  constructor
  · rintro (⟨v, hv, h⟩ | ⟨e, -, h⟩)
    · cases v with
      | object p => exact objectNode_injective (Option.some.inj h) ▸ hv
      | _ => cases h
    · exact absurd h.symm (objectNode_ne_environmentNode o e)
  · exact fun h => .inl ⟨_, h, rfl⟩

theorem environmentNode_mem_nodesOf {e : EnvironmentId} {vs : List Value}
    {es : List EnvironmentId} : environmentNode e ∈ nodesOf vs es ↔ e ∈ es := by
  unfold nodesOf
  rw [List.mem_append, List.mem_filterMap, List.mem_map]
  constructor
  · rintro (⟨v, -, h⟩ | ⟨f, hf, h⟩)
    · cases v with
      | object p => exact absurd (Option.some.inj h) (objectNode_ne_environmentNode p e)
      | _ => cases h
    · exact environmentNode_injective h ▸ hf
  · exact fun h => .inr ⟨_, h, rfl⟩

/-! ## 2. References -/

/-- One node refers to another. -/
inductive Refers (h : Heap) : Nat → Nat → Prop where
  | prototype {o p : ObjectId} {x : Object} : h.objects[o]? = some x → x.prototype = some p →
      Refers h (objectNode o) (objectNode p)
  | property {o p : ObjectId} {x : Object} {k : Key} {q : Property} : h.objects[o]? = some x →
      x.properties.get? k = some q → .object p ∈ q.values → Refers h (objectNode o) (objectNode p)
  /-- The target, `this` or an argument of a bound function. -/
  | kind {o p : ObjectId} {x : Object} : h.objects[o]? = some x → .object p ∈ x.kindValues.1 →
      Refers h (objectNode o) (objectNode p)
  /-- The scope of a function, or the activation of an arguments object. -/
  | scope {o : ObjectId} {e : EnvironmentId} {x : Object} : h.objects[o]? = some x →
      e ∈ x.kindValues.2 → Refers h (objectNode o) (environmentNode e)
  /-- The value of a binding, or the object whose properties are in scope. -/
  | binding {e : EnvironmentId} {p : ObjectId} {x : Environment} : h.environments[e]? = some x →
      .object p ∈ x.references.1 → Refers h (environmentNode e) (objectNode p)
  | outer {e f : EnvironmentId} {x : Environment} : h.environments[e]? = some x →
      x.outer = some f → Refers h (environmentNode e) (environmentNode f)

/-- The node can be reached from an outside reference or from a borrowed node. -/
inductive InUse (h : Heap) (outside borrowed : List Nat) : Nat → Prop where
  | outside {n : Nat} : n ∈ outside → InUse h outside borrowed n
  | borrowed {n : Nat} : n ∈ borrowed → InUse h outside borrowed n
  | refers {n k : Nat} : InUse h outside borrowed n → h.Refers n k → InUse h outside borrowed k

theorem mem_objectReferences {x : Object} {n : Nat} : n ∈ objectReferences x ↔
    (∃ p, x.prototype = some p ∧ n = objectNode p) ∨
      n ∈ nodesOf (x.properties.values ++ x.kindValues.1) x.kindValues.2 := by
  unfold objectReferences
  rw [List.mem_append, List.mem_map]
  refine or_congr_left ⟨?_, ?_⟩
  · rintro ⟨p, hp, rfl⟩
    exact ⟨p, Option.mem_toList.mp hp, rfl⟩
  · rintro ⟨p, hp, rfl⟩
    exact ⟨p, Option.mem_toList.mpr hp, rfl⟩

theorem refers_object {h : Heap} {o : ObjectId} {x : Object} (hx : h.objects[o]? = some x)
    {n : Nat} : h.Refers (objectNode o) n ↔ n ∈ objectReferences x := by
  rw [mem_objectReferences]
  constructor
  · generalize hm : objectNode o = m
    intro hr
    cases hr with
    | prototype hy hp =>
      obtain rfl := objectNode_injective hm
      obtain rfl := Option.some.inj (hx.symm.trans hy)
      exact .inl ⟨_, hp, rfl⟩
    | property hy hk hv =>
      obtain rfl := objectNode_injective hm
      obtain rfl := Option.some.inj (hx.symm.trans hy)
      refine .inr (objectNode_mem_nodesOf.mpr (List.mem_append_left _ ?_))
      exact PropertyTable.mem_values.mpr ⟨_, _, hk, hv⟩
    | kind hy hv =>
      obtain rfl := objectNode_injective hm
      obtain rfl := Option.some.inj (hx.symm.trans hy)
      exact .inr (objectNode_mem_nodesOf.mpr (List.mem_append_right _ hv))
    | scope hy he =>
      obtain rfl := objectNode_injective hm
      obtain rfl := Option.some.inj (hx.symm.trans hy)
      exact .inr (environmentNode_mem_nodesOf.mpr he)
    | binding _ _ => exact absurd hm (objectNode_ne_environmentNode _ _)
    | outer _ _ => exact absurd hm (objectNode_ne_environmentNode _ _)
  · rintro (⟨p, hp, rfl⟩ | hn)
    · exact .prototype hx hp
    · rcases node_cases n with ⟨p, rfl⟩ | ⟨e, rfl⟩
      · rcases List.mem_append.mp (objectNode_mem_nodesOf.mp hn) with hv | hv
        · obtain ⟨k, q, hk, hq⟩ := PropertyTable.mem_values.mp hv
          exact .property hx hk hq
        · exact .kind hx hv
      · exact .scope hx (environmentNode_mem_nodesOf.mp hn)

theorem refers_environment {h : Heap} {e : EnvironmentId} {x : Environment}
    (hx : h.environments[e]? = some x) {n : Nat} :
    h.Refers (environmentNode e) n ↔ n ∈ environmentReferences x := by
  unfold environmentReferences
  constructor
  · generalize hm : environmentNode e = m
    intro hr
    cases hr with
    | binding hy hv =>
      obtain rfl := environmentNode_injective hm
      obtain rfl := Option.some.inj (hx.symm.trans hy)
      exact objectNode_mem_nodesOf.mpr hv
    | outer hy he =>
      obtain rfl := environmentNode_injective hm
      obtain rfl := Option.some.inj (hx.symm.trans hy)
      exact environmentNode_mem_nodesOf.mpr (Option.mem_toList.mpr he)
    | _ => exact absurd hm.symm (objectNode_ne_environmentNode _ _)
  · intro hn
    rcases node_cases n with ⟨p, rfl⟩ | ⟨f, rfl⟩
    · exact .binding hx (objectNode_mem_nodesOf.mp hn)
    · exact .outer hx (Option.mem_toList.mp (environmentNode_mem_nodesOf.mp hn))

/-! ## 3. The table of references -/

section Table

variable {β γ : Type} {f : Nat → Nat} (g : β → γ)

theorem getElem?_foldl_insert_absent (l : List (Nat × β)) (m : Std.TreeMap Nat γ) {n : Nat}
    (hn : ∀ p ∈ l, f p.1 ≠ n) : (l.foldl (fun m p => m.insert (f p.1) (g p.2)) m)[n]? = m[n]? := by
  induction l generalizing m with
  | nil => rfl
  | cons p l ih =>
    rw [List.foldl_cons, ih _ fun q hq => hn q (List.mem_cons_of_mem _ hq),
      Std.TreeMap.getElem?_insert]
    exact if_neg fun h => hn p List.mem_cons_self (Nat.compare_eq_eq.mp h)

theorem getElem?_foldl_insert_present (hf : Function.Injective f) {l : List (Nat × β)}
    (hl : l.Pairwise fun a b => ¬ compare a.1 b.1 = .eq) (m : Std.TreeMap Nat γ) {k : Nat} {x : β}
    (hk : (k, x) ∈ l) : (l.foldl (fun m p => m.insert (f p.1) (g p.2)) m)[f k]? = some (g x) := by
  induction l generalizing m with
  | nil => exact absurd hk List.not_mem_nil
  | cons p l ih =>
    obtain ⟨hne, hl⟩ := List.pairwise_cons.mp hl
    rw [List.foldl_cons]
    rcases List.mem_cons.mp hk with rfl | hk
    · rw [getElem?_foldl_insert_absent, Std.TreeMap.getElem?_insert_self]
      exact fun q hq h => hne q hq (Nat.compare_eq_eq.mpr (hf h).symm)
    · exact ih hl _ hk

/-- Adding the entries of one table to another, under new numbers. -/
theorem getElem?_foldl_insert (hf : Function.Injective f) (t : Std.TreeMap Nat β)
    (m : Std.TreeMap Nat γ) (k : Nat) :
    (t.foldl (fun m o x => m.insert (f o) (g x)) m)[f k]? = (t[k]?.map g).or m[f k]? := by
  rw [Std.TreeMap.foldl_eq_foldl_toList]
  cases hk : t[k]? with
  | some x =>
    exact getElem?_foldl_insert_present g hf t.distinct_keys_toList m
      (Std.TreeMap.mem_toList_iff_getElem?_eq_some.mpr hk)
  | none =>
    refine getElem?_foldl_insert_absent g _ m fun p hp h => ?_
    have hp := Std.TreeMap.mem_toList_iff_getElem?_eq_some.mp hp
    rw [hf h, hk] at hp
    cases hp

theorem getElem?_foldl_insert_of_ne (t : Std.TreeMap Nat β) (m : Std.TreeMap Nat γ) {n : Nat}
    (hn : ∀ k, f k ≠ n) : (t.foldl (fun m o x => m.insert (f o) (g x)) m)[n]? = m[n]? := by
  rw [Std.TreeMap.foldl_eq_foldl_toList]
  exact getElem?_foldl_insert_absent g _ m fun p _ => hn p.1

end Table

theorem references_objectNode (h : Heap) (o : ObjectId) :
    h.references[objectNode o]? = h.objects[o]?.map objectReferences := by
  unfold references
  rw [getElem?_foldl_insert_of_ne _ _ _ fun e he => objectNode_ne_environmentNode o e he.symm,
    getElem?_foldl_insert _ objectNode_injective, Std.TreeMap.getElem?_emptyc, Option.or_none]

theorem references_environmentNode (h : Heap) (e : EnvironmentId) :
    h.references[environmentNode e]? = h.environments[e]?.map environmentReferences := by
  unfold references
  rw [getElem?_foldl_insert _ environmentNode_injective,
    getElem?_foldl_insert_of_ne _ _ _ fun o ho => objectNode_ne_environmentNode o e ho,
    Std.TreeMap.getElem?_emptyc, Option.or_none]

theorem refers_iff {h : Heap} {n k : Nat} :
    h.Refers n k ↔ ∃ targets, h.references[n]? = some targets ∧ k ∈ targets := by
  rcases node_cases n with ⟨o, rfl⟩ | ⟨e, rfl⟩
  · rw [references_objectNode]
    cases hx : h.objects[o]? with
    | some x =>
      rw [refers_object hx]
      exact ⟨fun hk => ⟨_, rfl, hk⟩, fun ⟨_, ht, hk⟩ => Option.some.inj ht ▸ hk⟩
    | none =>
      refine ⟨fun hr => ?_, fun ⟨_, ht, _⟩ => by cases ht⟩
      generalize hm : objectNode o = m at hr
      cases hr with
      | binding _ _ => exact absurd hm (objectNode_ne_environmentNode _ _)
      | outer _ _ => exact absurd hm (objectNode_ne_environmentNode _ _)
      | prototype hy _ | property hy _ _ | kind hy _ | scope hy _ =>
        rw [← objectNode_injective hm, hx] at hy
        cases hy
  · rw [references_environmentNode]
    cases hx : h.environments[e]? with
    | some x =>
      rw [refers_environment hx]
      exact ⟨fun hk => ⟨_, rfl, hk⟩, fun ⟨_, ht, hk⟩ => Option.some.inj ht ▸ hk⟩
    | none =>
      refine ⟨fun hr => ?_, fun ⟨_, ht, _⟩ => by cases ht⟩
      generalize hm : environmentNode e = m at hr
      cases hr with
      | binding hy _ | outer hy _ =>
        rw [← environmentNode_injective hm, hx] at hy
        cases hy
      | _ => exact absurd hm.symm (objectNode_ne_environmentNode _ _)

/-! ## 4. References from outside -/

theorem count_flatMap_hidden {α : Type} (hidden : α → Bool) (refs : α → List Nat) (l : List α)
    (n : Nat) :
    (l.flatMap fun a => if hidden a then [] else refs a).count n +
      ((l.filter hidden).flatMap refs).count n = (l.flatMap refs).count n := by
  induction l with
  | nil => rfl
  | cons a l ih =>
    rw [List.flatMap_cons, List.flatMap_cons, List.count_append, List.count_append]
    by_cases ha : hidden a
    · rw [if_pos ha, List.filter_cons_of_pos ha, List.flatMap_cons, List.count_append,
        List.count_nil]
      omega
    · rw [if_neg ha, List.filter_cons_of_neg ha]
      omega

variable (h : Heap) (outside borrowed : List Nat)

theorem graph_targets (n : Nat) : (h.graph outside borrowed).targets n =
    if borrowed.contains n then [] else h.references.getD n [] := by
  unfold Graph.targets graph
  rw [Std.TreeMap.getD_eq_getD_getElem?, Std.TreeMap.getElem?_map, Std.TreeMap.getD_eq_getD_getElem?]
  cases h.references[n]? with
  | some targets => rfl
  | none =>
    show [] = if borrowed.contains n then [] else []
    split <;> rfl

theorem mem_graph_edges {n : Nat} : n ∈ (h.graph outside borrowed).edges ↔ n ∈ h.references :=
  Std.TreeMap.mem_map

theorem graph_internal (n : Nat) : (h.graph outside borrowed).internal.getD n 0 =
    (h.references.toList.flatMap fun p => if borrowed.contains p.1 then [] else p.2).count n := by
  unfold Graph.internal Graph.nodes
  have hkeys : (h.graph outside borrowed).edges.keys = h.references.toList.map (·.1) := by
    rw [Std.TreeMap.map_fst_toList_eq_keys]
    exact Std.TreeMap.keys_map
  rw [Graph.getD_countReferences, hkeys, List.flatMap_map]
  congr 1
  refine List.flatMap_congr fun p hp => ?_
  have hp := Std.TreeMap.mem_toList_iff_getElem?_eq_some.mp hp
  rw [graph_targets, Std.TreeMap.getD_eq_getD_getElem?, hp]
  rfl

/-- A node has more references than are seen if one comes from outside or is held by a borrowed
node. -/
theorem graph_external_pos {n : Nat} :
    (h.graph outside borrowed).internal.getD n 0 < (h.graph outside borrowed).strong.getD n 0 ↔
      n ∈ outside ∨ ∃ b ∈ borrowed, h.Refers b n := by
  have hstrong : (h.graph outside borrowed).strong.getD n 0 =
      outside.count n + (h.references.toList.flatMap (·.2)).count n := by
    unfold graph
    rw [Graph.getD_countReferences, List.count_append]
  have hsplit := count_flatMap_hidden (fun p => borrowed.contains p.1) (·.2) h.references.toList n
  have hheld : 0 < ((h.references.toList.filter fun p => borrowed.contains p.1).flatMap (·.2)).count n
      ↔ ∃ b ∈ borrowed, h.Refers b n := by
    rw [List.count_pos_iff, List.mem_flatMap]
    constructor
    · rintro ⟨p, hp, hn⟩
      obtain ⟨hp, hb⟩ := List.mem_filter.mp hp
      exact ⟨p.1, List.contains_iff_mem.mp hb,
        refers_iff.mpr ⟨p.2, Std.TreeMap.mem_toList_iff_getElem?_eq_some.mp hp, hn⟩⟩
    · rintro ⟨b, hb, hr⟩
      obtain ⟨targets, ht, hn⟩ := refers_iff.mp hr
      exact ⟨(b, targets), List.mem_filter.mpr
        ⟨Std.TreeMap.mem_toList_iff_getElem?_eq_some.mpr ht, List.contains_iff_mem.mpr hb⟩, hn⟩
  rw [graph_internal, hstrong, ← hheld, ← List.count_pos_iff]
  omega

theorem mem_graph_roots {n : Nat} : n ∈ (h.graph outside borrowed).roots ↔
    n ∈ h.references ∧ (n ∈ outside ∨ (∃ b ∈ borrowed, h.Refers b n) ∨ n ∈ borrowed) := by
  unfold Graph.roots Graph.nodes
  rw [List.mem_filter, Std.TreeMap.mem_keys, mem_graph_edges, Bool.or_eq_true_iff,
    decide_eq_true_iff, graph_external_pos, or_assoc, List.contains_iff_mem]
  rfl

/-! ## 5. What survives -/

theorem graph_edge {n k : Nat} : k ∈ (h.graph outside borrowed).targets n ↔
    n ∉ borrowed ∧ h.Refers n k := by
  rw [graph_targets, refers_iff, Std.TreeMap.getD_eq_getD_getElem?]
  by_cases hb : n ∈ borrowed
  · rw [if_pos (List.contains_iff_mem.mpr hb)]
    exact ⟨fun hk => absurd hk List.not_mem_nil, fun hk => absurd hb hk.1⟩
  · rw [if_neg fun hc => hb (List.contains_iff_mem.mp hc)]
    cases h.references[n]? with
    | some targets => exact ⟨fun hk => ⟨hb, _, rfl, hk⟩, fun ⟨_, _, ht, hk⟩ => Option.some.inj ht ▸ hk⟩
    | none => exact ⟨fun hk => absurd hk List.not_mem_nil, fun ⟨_, _, ht, _⟩ => by cases ht⟩

/-- Nothing is in use beyond a bound on the nodes that are referred to. -/
theorem lt_of_inUse {h : Heap} {outside : List Nat} {bound n : Nat} (houtside : ∀ n ∈ outside, n < bound)
    (hrefers : ∀ e ∈ h.references.toList, ∀ n ∈ e.2, n < bound) (hn : h.InUse outside [] n) : n < bound := by
  cases hn with
  | outside hmem => exact houtside n hmem
  | borrowed hmem => cases hmem
  | refers _ hr =>
    obtain ⟨targets, htargets, hmem⟩ := refers_iff.mp hr
    exact hrefers _ (Std.TreeMap.mem_toList_iff_getElem?_eq_some.mpr htargets) n hmem

/-- **What survives is what is in use.** -/
theorem mem_survivors {n : Nat} (hn : n ∈ h.references) :
    n ∈ (h.graph outside borrowed).survivors ↔ h.InUse outside borrowed n := by
  unfold Graph.survivors
  rw [Graph.mem_mark]
  constructor
  · intro hr
    clear hn
    induction hr with
    | source hs _ =>
      rcases ((h.mem_graph_roots outside borrowed).mp hs).2 with ho | ⟨b, hb, hr⟩ | hb
      · exact .outside ho
      · exact .refers (.borrowed hb) hr
      · exact .borrowed hb
    | step _ hk _ ih => exact .refers ih ((h.graph_edge outside borrowed).mp hk).2
  · intro hu
    have root {k : Nat} (hk : k ∈ h.references)
        (hs : k ∈ outside ∨ (∃ b ∈ borrowed, h.Refers b k) ∨ k ∈ borrowed) :
        (h.graph outside borrowed).Reaches (h.graph outside borrowed).roots k :=
      .source ((h.mem_graph_roots outside borrowed).mpr ⟨hk, hs⟩)
        ((h.mem_graph_edges outside borrowed).mpr hk)
    induction hu with
    | outside ho => exact root hn (.inl ho)
    | borrowed hb => exact root hn (.inr (.inr hb))
    | @refers m k hm hr ih =>
      by_cases hb : m ∈ borrowed
      · exact root hn (.inr (.inl ⟨m, hb, hr⟩))
      · obtain ⟨targets, ht, -⟩ := refers_iff.mp hr
        have hm : m ∈ h.references := Std.TreeMap.mem_iff_isSome_getElem?.mpr (by rw [ht]; rfl)
        exact .step (ih hm) ((h.graph_edge outside borrowed).mpr ⟨hb, hr⟩)
          ((h.mem_graph_edges outside borrowed).mpr hn)

/-! ## 6. The collection -/

/-- The objects of a heap that another one no longer has. -/
def missingFrom (h' : Heap) : List ObjectId := h.objects.keys.filter fun o => !h'.objects.contains o

variable {h outside borrowed}

theorem getElem?_filter_live {β : Type} {t : Std.TreeMap Nat β} {node : Nat → Nat}
    (hnode : ∀ k ∈ t, node k ∈ h.references) (k : Nat) :
    (h.InUse outside borrowed (node k) →
      (t.filter fun k _ => (h.graph outside borrowed).survivors.contains (node k))[k]? = t[k]?) ∧
    (¬ h.InUse outside borrowed (node k) →
      (t.filter fun k _ => (h.graph outside borrowed).survivors.contains (node k))[k]? = none) := by
  rw [Std.TreeMap.getElem?_filter']
  cases hk : t[k]? with
  | none => exact ⟨fun _ => rfl, fun _ => rfl⟩
  | some x =>
    have hmem : k ∈ t := Std.TreeMap.mem_iff_isSome_getElem?.mpr (by rw [hk]; rfl)
    have hlive := h.mem_survivors outside borrowed (hnode k hmem)
    refine ⟨fun hu => ?_, fun hu => ?_⟩
    · exact Option.filter_some_pos (hlive.mpr hu)
    · exact Option.filter_some_neg (Bool.eq_false_iff.mpr fun hc => hu (hlive.mp hc))

theorem objectNode_mem_references (o : ObjectId) (ho : o ∈ h.objects) :
    objectNode o ∈ h.references := by
  rw [Std.TreeMap.mem_iff_isSome_getElem?, references_objectNode, Option.isSome_map]
  exact Std.TreeMap.mem_iff_isSome_getElem?.mp ho

theorem environmentNode_mem_references (e : EnvironmentId) (he : e ∈ h.environments) :
    environmentNode e ∈ h.references := by
  rw [Std.TreeMap.mem_iff_isSome_getElem?, references_environmentNode, Option.isSome_map]
  exact Std.TreeMap.mem_iff_isSome_getElem?.mp he

theorem collect_objects (h : Heap) (outside borrowed : List Nat) (o : ObjectId) :
    (h.InUse outside borrowed (objectNode o) →
      (h.collect outside borrowed).objects[o]? = h.objects[o]?) ∧
    (¬ h.InUse outside borrowed (objectNode o) →
      (h.collect outside borrowed).objects[o]? = none) :=
  getElem?_filter_live objectNode_mem_references o

theorem collect_environments (h : Heap) (outside borrowed : List Nat) (e : EnvironmentId) :
    (h.InUse outside borrowed (environmentNode e) →
      (h.collect outside borrowed).environments[e]? = h.environments[e]?) ∧
    (¬ h.InUse outside borrowed (environmentNode e) →
      (h.collect outside borrowed).environments[e]? = none) :=
  getElem?_filter_live environmentNode_mem_references e

theorem mem_missingFrom_collect {o : ObjectId} :
    o ∈ h.missingFrom (h.collect outside borrowed) ↔
      o ∈ h.objects ∧ ¬ h.InUse outside borrowed (objectNode o) := by
  unfold missingFrom
  rw [List.mem_filter, Std.TreeMap.mem_keys]
  refine and_congr_right fun ho => ?_
  obtain ⟨hkept, hdropped⟩ := h.collect_objects outside borrowed o
  rw [Std.TreeMap.contains_eq_isSome_getElem?]
  by_cases hu : h.InUse outside borrowed (objectNode o)
  · rw [hkept hu, Std.TreeMap.mem_iff_isSome_getElem?.mp ho]
    refine ⟨fun hc => ?_, fun hc => absurd hu hc⟩
    cases hc
  · rw [hdropped hu]
    exact ⟨fun _ => hu, fun _ => rfl⟩

theorem size_collect (h : Heap) (outside borrowed : List Nat) :
    (h.collect outside borrowed).size + (h.missingFrom (h.collect outside borrowed)).length =
      h.size := by
  have hkeys : (h.collect outside borrowed).objects.keys =
      h.objects.keys.filter (h.collect outside borrowed).objects.contains := by
    refine Std.TreeMap.keys_filter_key.trans (List.filter_congr fun o ho => ?_)
    have ho := Std.TreeMap.mem_iff_isSome_getElem?.mp (Std.TreeMap.mem_keys.mp ho)
    rw [Std.TreeMap.contains_eq_isSome_getElem?]
    unfold collect
    rw [Std.TreeMap.getElem?_filter']
    obtain ⟨x, hx⟩ := Option.isSome_iff_exists.mp ho
    rw [hx]
    cases (h.graph outside borrowed).survivors.contains (objectNode o) with
    | true => rfl
    | false => rfl
  unfold size missingFrom
  rw [← Std.TreeMap.length_keys, ← Std.TreeMap.length_keys, hkeys]
  exact (List.length_eq_length_filter_add _).symm

/-- **A collection drops exactly what is not in use.** What can be reached from an outside reference or
from a borrowed node stays as it is; nothing else stays; and the number of objects falls by that of the
objects dropped. -/
theorem collect_exact (h : Heap) (outside borrowed : List Nat) :
    (∀ o, (h.InUse outside borrowed (objectNode o) →
        (h.collect outside borrowed).objects[o]? = h.objects[o]?) ∧
      (¬ h.InUse outside borrowed (objectNode o) →
        (h.collect outside borrowed).objects[o]? = none)) ∧
    (∀ e, (h.InUse outside borrowed (environmentNode e) →
        (h.collect outside borrowed).environments[e]? = h.environments[e]?) ∧
      (¬ h.InUse outside borrowed (environmentNode e) →
        (h.collect outside borrowed).environments[e]? = none)) ∧
    (∀ o, o ∈ h.missingFrom (h.collect outside borrowed) ↔
      o ∈ h.objects ∧ ¬ h.InUse outside borrowed (objectNode o)) ∧
    (h.collect outside borrowed).size + (h.missingFrom (h.collect outside borrowed)).length =
      h.size :=
  ⟨h.collect_objects outside borrowed, h.collect_environments outside borrowed,
    fun _ => mem_missingFrom_collect, h.size_collect outside borrowed⟩

end Heap

end Ecma51
