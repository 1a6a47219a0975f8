import Ecma51.Proofs.CallDepth
import Ecma51.Proofs.JsonGraphs
import Ecma51.Proofs.JsonRoundTrip
import Ecma51.Proofs.Restating

/-!
# Writing graphs

While a graph of arrays and objects is written, nothing of the program is run, and the machine stays as it is. The
objects around the one that is written are those on the way to it. So it is among them exactly if the way has come back
to it; and since they are all different, there are never more of them than objects in the graph, which bounds how deep
calls are nested.

* `Walks`: what an operation gives, unless a cycle stops it.
* **`serialize_walks`**: what is written for a property.
* `Machine.Intact.draws`: making an object leaves a graph as it is.
* **`stringifyJson_graph`**: what is written for a value.
-/

namespace Ecma51

open Relation (ReflTransGen TransGen)

/-! ## 1. Operations that leave the machine as it is -/

/-- The operation gives a result with a property, or reports a cycle under a condition. Either way the machine is as
before. -/
def Walks {α : Type} (bodies : Bodies) (m : Machine) (x : Run α) (P : α → Prop) (C : Prop) : Prop :=
  (∃ a, x bodies m = .ok a m ∧ P a) ∨ x bodies m = .error (.fault .jsonCyclic) m ∧ C

namespace Walks

variable {α β : Type} {bodies : Bodies} {m : Machine} {x : Run α} {f : α → Run β} {P Q : α → Prop} {R : β → Prop}
  {C D : Prop}

theorem of_run {a : α} (hx : x bodies m = .ok a m) (ha : P a) : Walks bodies m x P C := .inl ⟨a, hx, ha⟩

theorem mono (hx : Walks bodies m x P C) (hP : ∀ a, P a → Q a) (hC : C → D) : Walks bodies m x Q D :=
  hx.imp (fun ⟨a, hrun, ha⟩ => ⟨a, hrun, hP a ha⟩) fun ⟨hrun, hc⟩ => ⟨hrun, hC hc⟩

theorem bind (hx : Walks bodies m x Q C) (hf : ∀ a, Q a → Walks bodies m (f a) R C) : Walks bodies m (x >>= f) R C := by
  rcases hx with ⟨a, hrun, ha⟩ | ⟨hrun, hc⟩
  · unfold Walks
    rw [bind_run_ok hrun]
    exact hf a ha
  · exact .inr ⟨bind_run_error hrun f, hc⟩

/-- What follows an operation that gives one result. -/
theorem after {a : α} (hx : x bodies m = .ok a m) (hf : Walks bodies m (f a) R C) : Walks bodies m (x >>= f) R C := by
  unfold Walks
  rw [bind_run_ok hx]
  exact hf

theorem holding {vs : List Value} (hx : Walks bodies { m with held := vs ++ m.held } x P C) :
    Walks bodies m (holding vs x) P C := by
  rcases hx with ⟨a, hrun, ha⟩ | ⟨hrun, hc⟩
  · exact .inl ⟨a, holding_run hrun, ha⟩
  · exact .inr ⟨(holding_error hrun).trans rfl, hc⟩

theorem nestedCall (hfree : m.callDepth < m.maxCallDepth)
    (hx : Walks bodies { m with callDepth := m.callDepth + 1 } x P C) : Walks bodies m (nestedCall x) P C := by
  rcases hx with ⟨a, hrun, ha⟩ | ⟨hrun, hc⟩
  · exact .inl ⟨a, nestedCall_run hfree hrun, ha⟩
  · refine .inr ⟨?_, hc⟩
    unfold Ecma51.nestedCall
    exact (bind_run_ok (enterCall_free (Nat.not_le.mpr hfree)) _).trans ((leaving_error hrun).trans rfl)

end Walks

/-! ## 2. Values -/

section Values

variable {bodies : Bodies} {m : Machine} {s : Serializer} {o : ObjectId} {k : Key} {v : Value} {os : List ObjectId}
  {G : ObjectGraph}

theorem getFrom_reads (ho : m.heap.IsPlain o) (hv : m.heap.Reads o k v) : getFrom o k bodies m = .ok v m := by
  unfold Heap.Reads at hv
  cases hfound : m.heap.getProperty? o k with
  | none =>
    rw [hfound] at hv
    obtain rfl : v = .undefined := hv
    exact getFrom_plain ho (getFor_absent hfound _)
  | some p =>
    rw [hfound] at hv
    cases p with
    | data u w e c =>
      obtain rfl : u = v := hv
      exact getFrom_data ho hfound
    | accessor g t e c => exact hv.elim

/-- The value of a property is written as it is. -/
theorem writtenValue_reads (hreplacer : s.replacer = none) (hd : m.heap.Draws os G) (ho : m.heap.IsPlain o)
    (hv : m.heap.Reads o k v) (hos : ∀ p, v = .object p → p ∈ os) : writtenValue s o k bodies m = .ok v m := by
  unfold writtenValue
  rw [bind_run_ok (getFrom_reads ho hv), hreplacer]
  cases v with
  | object p =>
    refine (bind_run_ok (holding_run ?_) _).trans rfl
    obtain ⟨f, hf, hquiet⟩ := hd.lacksToJson p (hos p rfl)
    have hget : getNamed p "toJSON" bodies { m with held := [.object p] ++ m.held } =
        .ok f { m with held := [.object p] ++ m.held } := getFrom_reads (hd.isPlain (hos p rfl)) hf
    rw [bind_run_ok hget, getHeap_bind_run, hquiet]
    rfl
  | _ => rfl

/-- A value without inner structure is written as its tree. -/
theorem texts_scalar (gap indent : Text) (hv : ∀ o, v ≠ .object o) : G.Texts gap indent v (scalarText? v) := by
  cases v with
  | object o => exact absurd rfl (hv o)
  | undefined => exact .inl ⟨rfl, rfl⟩
  | nothing => exact .inl ⟨rfl, rfl⟩
  | null =>
    refine .inr ⟨.null, by rw [Json.print]; rfl, ?_⟩
    rw [ObjectGraph.Unfolds]
    exact .inl rfl
  | boolean b =>
    refine .inr ⟨.boolean b, by rw [Json.print]; rfl, ?_⟩
    rw [ObjectGraph.Unfolds]
  | string t =>
    refine .inr ⟨.string t, by rw [Json.print]; rfl, ?_⟩
    rw [ObjectGraph.Unfolds]
  | number x =>
    unfold scalarText?
    dsimp only
    cases hx : x.isFinite with
    | true =>
      refine .inr ⟨.number x, by rw [Json.print, if_pos rfl], ?_⟩
      rw [ObjectGraph.Unfolds]
      exact ⟨rfl, hx⟩
    | false =>
      refine .inr ⟨.null, by rw [Json.print, if_neg Bool.false_ne_true], ?_⟩
      rw [ObjectGraph.Unfolds]
      exact .inr ⟨x, rfl, hx⟩

end Values

/-! ## 3. Items and members -/

section Parts

variable {bodies : Bodies} {m : Machine} {G : ObjectGraph} {gap indent : Text} {C : Prop}
  {text : Key → Run (Option Json.Written)}

theorem itemTexts_walks (items : List Value) {i : Nat} (acc : List Json.Written)
    (htext : ∀ j v, items[j]? = some v → Walks bodies m (text (.ofNat (i + j))) (G.Texts gap indent v) C) :
    Walks bodies m (itemTexts text items.length i acc)
      (fun ws => ∃ js, ws = acc.reverse ++ Json.printItems gap indent js ∧ G.UnfoldsItems js items) C := by
  induction items generalizing i acc with
  | nil =>
    refine .of_run rfl ⟨[], ?_, ?_⟩
    · rw [Json.printItems, List.append_nil]
    · rw [ObjectGraph.UnfoldsItems]
  | cons v items ih =>
    have hrest (j : Nat) (u : Value) (hu : items[j]? = some u) :
        Walks bodies m (text (.ofNat (i + 1 + j))) (G.Texts gap indent u) C := by
      have hnext := htext (j + 1) u hu
      rwa [show i + (j + 1) = i + 1 + j by omega] at hnext
    refine (htext 0 v rfl).bind fun t ht => (ih (t.getD ["null"] :: acc) hrest).mono ?_ id
    rintro ws ⟨js, rfl, hjs⟩
    rw [List.reverse_cons, List.append_assoc]
    rcases ht with ⟨rfl, hsilent⟩ | ⟨j, rfl, hj⟩
    · refine ⟨.null :: js, ?_, ?_⟩
      · rw [Json.printItems, Json.print]
        rfl
      · rw [ObjectGraph.UnfoldsItems]
        exact ⟨v, items, rfl, .inr ⟨rfl, hsilent⟩, hjs⟩
    · refine ⟨j :: js, ?_, ?_⟩
      · rw [Json.printItems]
        rfl
      · rw [ObjectGraph.UnfoldsItems]
        exact ⟨v, items, rfl, .inl hj, hjs⟩

theorem memberTexts_walks (members : List (Key × Value))
    (htext : ∀ e ∈ members, Walks bodies m (text e.1) (G.Texts gap indent e.2) C) :
    Walks bodies m (memberTexts gap text (members.map (·.1)))
      (fun ws => ∃ js, ws = Json.printMembers gap indent js ∧
        G.UnfoldsMembers js (members.filter fun e => !e.2.isSilent)) C := by
  induction members with
  | nil =>
    refine .of_run rfl ⟨[], ?_, ?_⟩
    · rw [Json.printMembers]
    · rw [ObjectGraph.UnfoldsMembers]
      rfl
  | cons e members ih =>
    obtain ⟨hfirst, hrest⟩ := List.forall_mem_cons.mp htext
    refine hfirst.bind fun t ht => ?_
    rcases ht with ⟨rfl, hsilent⟩ | ⟨j, rfl, hj⟩
    · rw [List.filter_cons, hsilent]
      exact ih hrest
    · rw [List.filter_cons, hj.isSilent]
      refine (ih hrest).bind fun ws hws => .of_run rfl ?_
      obtain ⟨js, rfl, hjs⟩ := hws
      refine ⟨(e.1.toText, j) :: js, ?_, ?_⟩
      · rw [Json.printMembers]
      · rw [ObjectGraph.UnfoldsMembers]
        exact ⟨e.1, e.2, _, rfl, rfl, hj, hjs⟩

end Parts

/-! ## 4. Properties -/

section Serialize

variable {bodies : Bodies} {s : Serializer} {os : List ObjectId} {G : ObjectGraph}

/-- What is written for an array or an object that is not inside of itself, once it has been entered. -/
theorem serializeInside_walks (hnames : s.names = none) {m : Machine} {o : ObjectId} {n : Nat}
    {around : List ObjectId} {indent : Text} (hd : m.heap.Draws os G) (ho : o ∈ os)
    (hheld : ∀ k v, v ∈ (G o).values → m.heap.Reads o k v →
      Walks bodies m (serialize s n (o :: around) (indent ++ s.gap) o k) (G.Texts s.gap (indent ++ s.gap) v)
        (G.IsCyclic v)) :
    Walks bodies m
      (serializeInside s n around indent o (m.heap.object o) (s.names.getD (m.heap.ownEnumerableKeys o)))
      (G.Texts s.gap indent (.object o)) (G.IsCyclic (.object o)) := by
  have hheld' (k : Key) (v : Value) (hv : v ∈ (G o).values) (hread : m.heap.Reads o k v) :
      Walks bodies m (serialize s n (o :: around) (indent ++ s.gap) o k) (G.Texts s.gap (indent ++ s.gap) v)
        (G.IsCyclic (.object o)) := (hheld k v hv hread).mono (fun _ ht => ht) (ObjectGraph.IsCyclic.held G hv)
  cases hnode : G o with
  | array items =>
    obtain ⟨hkind, hshort, hlength, hreads⟩ := hd.array o ho items hnode
    have hisArray : (m.heap.object o).isArray = true := by
      unfold Object.isArray
      rw [hkind]
    have hitems := itemTexts_walks items (i := 0) [] fun j v hv => by
      rw [Nat.zero_add]
      refine hheld' _ v ?_ (hreads j v hv)
      rw [hnode]
      exact List.mem_of_getElem? hv
    unfold serializeInside
    rw [if_pos hisArray]
    refine .after (lengthOfArrayLike_run hshort (.inl hkind) hlength) (hitems.bind ?_)
    rintro ws ⟨js, rfl, hjs⟩
    refine .of_run rfl (.inr ⟨.array js, ?_, ?_⟩)
    · rw [Json.print]
      rfl
    · rw [ObjectGraph.Unfolds]
      exact ⟨o, items, rfl, hnode, hjs⟩
  | object members =>
    obtain ⟨hkind, hkeys, hreads⟩ := hd.object o ho members hnode
    have hisArray : (m.heap.object o).isArray ≠ true := by
      unfold Object.isArray
      rw [hkind]
      exact Bool.false_ne_true
    have hmembers := memberTexts_walks members fun e he => by
      refine hheld' _ e.2 ?_ (hreads e he)
      rw [hnode]
      exact List.mem_map_of_mem he
    unfold serializeInside
    rw [if_neg hisArray, hnames, Option.getD_none, hkeys]
    refine hmembers.bind ?_
    rintro ws ⟨js, rfl, hjs⟩
    refine .of_run rfl (.inr ⟨.object js, ?_, ?_⟩)
    · rw [Json.print]
    · rw [ObjectGraph.Unfolds]
      exact ⟨o, members, rfl, hnode, hjs⟩

/-- **A property is written as the text of a tree that its value unfolds to, or a cycle is reported that can be reached
from the value.** The objects around are on a way to the value, and they are all different. The induction is on the
bound, which is enough because each object around is another one of the graph. -/
theorem serialize_walks (hreplacer : s.replacer = none) (hnames : s.names = none) (n : Nat) {m : Machine}
    {around : List ObjectId} {indent : Text} {holder : ObjectId} {k : Key} {v : Value} (hd : m.heap.Draws os G)
    (hholder : m.heap.IsPlain holder) (hread : m.heap.Reads holder k v)
    (hv : ∀ o, v = .object o → o ∈ os ∧ ∀ p ∈ around, TransGen G.Edge p o)
    (hdifferent : around.Nodup) (haround : around ⊆ os) (hbound : os.length ≤ n + around.length)
    (hfree : os.length ≤ m.depthLeft + around.length) :
    Walks bodies m (serialize s (n + 1) around indent holder k) (G.Texts s.gap indent v) (G.IsCyclic v) := by
  induction n using Nat.strong_induction_on generalizing m around indent holder k v with
  | _ n ih =>
    have hplain (o : ObjectId) (ho : v = .object o) : m.heap.IsPlain o := hd.isPlain (hv o ho).1
    have hwritten : writtenValue s holder k bodies m = .ok v m :=
      writtenValue_reads hreplacer hd hholder hread fun o ho => (hv o ho).1
    cases v with
    | object o =>
      obtain ⟨ho, hway⟩ := hv o rfl
      have hcallable : (m.heap.object o).isCallable = false := by
        unfold Object.isCallable
        rcases hplain o rfl with hkind | hkind <;> rw [hkind]
      rw [serialize]
      refine .after hwritten (.holding (.after (unwrapValue_run hplain) ?_))
      refine .after (a := m.heap) rfl ?_
      dsimp only
      rw [hcallable, if_neg Bool.false_ne_true]
      by_cases hmem : o ∈ around
      · have hcontains : around.contains o = true := List.contains_iff_mem.mpr hmem
        rw [if_pos hcontains]
        exact .inr ⟨rfl, o, o, rfl, .refl, hway o hmem⟩
      · have hcontains : around.contains o ≠ true := fun h => hmem (List.contains_iff_mem.mp h)
        rw [if_neg hcontains]
        -- there is one more object around than before, and no more than in the graph
        have hdifferent' : (o :: around).Nodup := List.nodup_cons.mpr ⟨hmem, hdifferent⟩
        have haround' : o :: around ⊆ os := List.cons_subset.mpr ⟨ho, haround⟩
        have hfew : around.length + 1 ≤ os.length := (hdifferent'.subperm haround').length_le
        obtain ⟨n, rfl⟩ : ∃ n', n = n' + 1 := ⟨n - 1, by omega⟩
        have hroom : m.callDepth < m.maxCallDepth := by
          unfold Machine.depthLeft at hfree
          omega
        refine .nestedCall hroom (serializeInside_walks hnames hd ho fun k v hv hread => ?_)
        refine ih n (Nat.lt_succ_self n) hd (hplain o rfl) hread (fun p hp => ?_) hdifferent' haround' ?_ ?_
        · subst hp
          refine ⟨hd.closed o ho p hv, List.forall_mem_cons.mpr ⟨.single hv, fun q hq => (hway q hq).tail hv⟩⟩
        · rw [List.length_cons]
          omega
        · rw [List.length_cons]
          unfold Machine.depthLeft at hfree ⊢
          dsimp only
          omega
    | _ =>
      refine .of_run (serialize_scalar hwritten fun o ho => ?_) (texts_scalar _ _ fun o ho => ?_)
      · cases ho
      · cases ho

end Serialize

/-! ## 5. Graphs while something is made -/

namespace Machine.Intact

variable {m : Machine} {h : Heap} {o : ObjectId} {k : Key} {v : Value} {os : List ObjectId} {G : ObjectGraph}

/-- From an object in use the same is found. -/
theorem getProperty? (hi : m.Intact h) (ho : m.heap.InUse m.roots [] (Heap.objectNode o)) (k : Key) :
    h.getProperty? o k = m.heap.getProperty? o k := by
  have hprototype (p : ObjectId) (hp : m.heap.InUse m.roots [] (Heap.objectNode p)) :
      h.prototypeOf p = m.heap.prototypeOf p := congrArg Object.prototype (hi.object p hp)
  have hspreads (p r : ObjectId) (hp : m.heap.InUse m.roots [] (Heap.objectNode p))
      (hr : m.heap.prototypeOf p = some r) : m.heap.InUse m.roots [] (Heap.objectNode r) := by
    obtain ⟨x, hx, hr⟩ := Heap.exists_of_prototype hr
    exact hp.refers (.prototype hx hr)
  refine Option.ext fun q => ?_
  rw [Heap.getProperty?_eq_some_iff, Heap.getProperty?_eq_some_iff]
  constructor
  · intro hq
    exact hq.transfer (fun p hp => (hi.property p hp k).symm) (fun p hp => (hprototype p hp).symm)
      (fun p r hp hr => hspreads p r hp ((hprototype p hp).symm.trans hr)) ho
  · intro hq
    exact hq.transfer (fun p hp => hi.property p hp k) hprototype hspreads ho

theorem reads (hi : m.Intact h) (ho : m.heap.InUse m.roots [] (Heap.objectNode o)) (hv : m.heap.Reads o k v) :
    h.Reads o k v := by
  unfold Heap.Reads at hv ⊢
  rwa [hi.getProperty? ho]

/-- A value that is found for a name can still not be called. -/
theorem isCallable_eq_false (hi : m.Intact h) (ho : m.heap.InUse m.roots [] (Heap.objectNode o)) {t : Text}
    (hv : m.heap.Reads o (.name t) v) (hquiet : m.heap.isCallable v = false) : h.isCallable v = false := by
  cases v with
  | object p =>
    unfold Heap.Reads at hv
    cases hfound : m.heap.getProperty? o (.name t) with
    | none =>
      rw [hfound] at hv
      cases hv
    | some q =>
      rw [hfound] at hv
      cases q with
      | data u w e c =>
        obtain rfl : u = .object p := hv
        obtain ⟨_, r, hr, hstored⟩ :=
          Heap.Finds.of_same (fun _ _ => rfl) (Heap.getProperty?_eq_some_iff.mp hfound) ho
        obtain ⟨x, hx, hk⟩ := Heap.exists_of_stored? hstored
        show (h.object p).isCallable = false
        rw [hi.object p (hr.refers (.property hx hk List.mem_cons_self))]
        exact hquiet
      | accessor g s e c => exact hv.elim
  | _ => rfl

/-- **A graph in use stays as it is.** -/
theorem draws (hi : m.Intact h) (hd : m.heap.Draws os G)
    (hos : ∀ o ∈ os, m.heap.InUse m.roots [] (Heap.objectNode o)) : h.Draws os G where
  array o ho items hnode := by
    obtain ⟨hkind, hshort, ⟨w, e, c, hlength⟩, hreads⟩ := hd.array o ho items hnode
    refine ⟨?_, hshort, ⟨w, e, c, (hi.property o (hos o ho) _).trans hlength⟩,
      fun i v hv => hi.reads (hos o ho) (hreads i v hv)⟩
    rw [hi.object o (hos o ho)]
    exact hkind
  object o ho members hnode := by
    obtain ⟨hkind, hkeys, hreads⟩ := hd.object o ho members hnode
    refine ⟨?_, ?_, fun e he => hi.reads (hos o ho) (hreads e he)⟩
    · rw [hi.object o (hos o ho)]
      exact hkind
    · unfold Heap.ownEnumerableKeys at hkeys ⊢
      rw [hi.keys o (hos o ho), ← hkeys]
      exact List.filter_congr fun k _ => by rw [hi.property o (hos o ho)]
  lacksToJson o ho := by
    obtain ⟨f, hf, hquiet⟩ := hd.lacksToJson o ho
    exact ⟨f, hi.reads (hos o ho) hf, hi.isCallable_eq_false (t := Text.ofString "toJSON") (hos o ho) hf hquiet⟩
  closed := hd.closed

end Machine.Intact

/-! ## 6. Values -/

section Stringify

variable {bodies : Bodies} {m : Machine} {s : Serializer} {v : Value} {os : List ObjectId} {G : ObjectGraph}

/-- An object around a value is made, which holds it under the empty name. -/
theorem wrapping_run (hfree : ¬ m.Crowded)
    (hnew : ¬ m.heap.InUse m.roots [] (Heap.objectNode m.heap.nextObject)) (v : Value) (bodies : Bodies) :
    ∃ h m₁, newObject bodies m = .ok m.heap.nextObject m₁ ∧
      createData m.heap.nextObject (.name .empty) v bodies m₁ = .ok true { m.reserve.1 with heap := h } ∧
      m.Intact h ∧ h.IsPlain m.heap.nextObject ∧ h.Reads m.heap.nextObject (.name .empty) v := by
  have hnext := nextObject_reserve m
  have hobject : (m.reserve.1.heap.add (.ordinary (some Intrinsic.objectPrototype.id))).1.objects[m.heap.nextObject]? =
      some (.ordinary (some Intrinsic.objectPrototype.id)) := by
    rw [← hnext]
    exact Std.TreeMap.getElem?_insert_self
  have hadded : m.Intact (m.reserve.1.heap.add (.ordinary (some Intrinsic.objectPrototype.id))).1 :=
    m.intact_reserve.add (by rwa [hnext]) _
  obtain ⟨h, x, hcreate, _, henvironments, hobject', hx, hothers⟩ := createData_run bodies
    (m := { m.reserve.1 with heap := (m.reserve.1.heap.add (.ordinary (some Intrinsic.objectPrototype.id))).1 })
    hobject .nil .empty v
  have hwrapper := Heap.object_of_getElem? hobject'
  have hplain : h.IsPlain m.heap.nextObject := .inr (by rw [hwrapper, hx.kind])
  refine ⟨h, _, newObjectOf_free hfree _, hcreate, ?_, hplain, ?_⟩
  · refine Machine.intact_of_content (fun o ho => ?_) fun e he => ?_
    · have hne : o ≠ m.heap.nextObject := by
        rintro rfl
        exact hnew ho
      rw [← hadded.object o ho]
      unfold Heap.object
      rw [Std.TreeMap.getD_eq_getD_getElem?, Std.TreeMap.getD_eq_getD_getElem?, hothers o hne]
    · rw [← hadded.environment e he]
      unfold Heap.environment
      rw [henvironments]
  · have hown : h.getOwn? m.heap.nextObject (.name .empty) = some (.plain v) := by
      rw [hplain.getOwn?]
      unfold Heap.stored?
      rw [hwrapper]
      exact hx.get? .empty
    unfold Heap.Reads
    rw [Heap.getProperty?_eq_some_iff.mpr (.own hown)]
    rfl

/-- **Stringifying a graph reports a cycle exactly if one can be reached from the value**, and otherwise gives the
text of a tree that the value unfolds to. As many calls as there are objects must be left; the objects are in use, and
the number of the next object is not. There is one other failure: if the objects in use fill the limit, a lack of
memory is reported. Whatever happens, all that is in use is as before. -/
theorem stringifyJson_graph (hreplacer : s.replacer = none) (hnames : s.names = none) (hd : m.heap.Draws os G)
    (hos : ∀ o ∈ os, m.heap.InUse m.roots [] (Heap.objectNode o)) (hv : ∀ o, v = .object o → o ∈ os)
    (hnew : ¬ m.heap.InUse m.roots [] (Heap.objectNode m.heap.nextObject)) (hdeep : os.length ≤ m.depthLeft)
    (bodies : Bodies) :
    ∃ m', m.Intact m'.heap ∧ m' = { m with heap := m'.heap, nextCollection := m'.nextCollection } ∧
      (m.Crowded → stringifyJson s v bodies m = .error (.fault .outOfMemory) m') ∧
      (¬ m.Crowded → G.IsCyclic v → stringifyJson s v bodies m = .error (.fault .jsonCyclic) m') ∧
      (¬ m.Crowded → ¬ G.IsCyclic v →
        ∃ t, G.Texts s.gap .empty v t ∧ stringifyJson s v bodies m = .ok (t.map .concat) m') := by
  by_cases hm : m.Crowded
  · refine ⟨m.reserve.1, m.intact_reserve, rfl, fun _ => ?_, fun hnot => absurd hm hnot, fun hnot => absurd hm hnot⟩
    exact bind_run_error (newObjectOf_crowded hm _) _
  · obtain ⟨h, m₁, hmake, hcreate, hintact, hplain, hread⟩ := wrapping_run hm hnew v bodies
    let m₂ : Machine := { m.reserve.1 with heap := h, held := [.object m.heap.nextObject] ++ m.held }
    have hwalks : Walks bodies m₂ (serialize s (m.depthLeft + 1) [] .empty m.heap.nextObject (.name .empty))
        (G.Texts s.gap .empty v) (G.IsCyclic v) :=
      serialize_walks hreplacer hnames m.depthLeft (hintact.draws hd hos) hplain hread
        (fun o ho => ⟨hv o ho, List.forall_mem_nil _⟩) .nil (List.nil_subset _) hdeep hdeep
    refine ⟨{ m.reserve.1 with heap := h }, hintact, rfl, fun hcrowded => absurd hcrowded hm, fun _ hcyclic => ?_,
      fun _ hnot => ?_⟩
    · obtain ⟨w, _, hw⟩ | ⟨hrun, _⟩ := hwalks
      · exact absurd hcyclic hw.not_isCyclic
      · refine (bind_run_ok hmake _).trans ((bind_run_ok hcreate _).trans ?_)
        rw [get_bind_run]
        exact bind_run_error (holding_error (m := { m.reserve.1 with heap := h }) hrun) _
    · obtain ⟨w, hrun, hw⟩ | ⟨_, hcyclic⟩ := hwalks
      · refine ⟨w, hw, (bind_run_ok hmake _).trans ((bind_run_ok hcreate _).trans ?_)⟩
        rw [get_bind_run]
        exact bind_run_ok (holding_ok (m := { m.reserve.1 with heap := h }) hrun) _
      · exact absurd hcyclic hnot

end Stringify

end Ecma51
