import Ecma51.Proofs.JsonCycles

/-!
# The path of a writer

A writer can keep the path from the whole value to the part that is being written beside the machine, and change it in
place: it goes into an array or an object and comes back out of it, also if something fails on the way. Failures leave
the path as it is where they happen, so coming back has to be part of how each of them is passed on.

* `Json.Path`, `Tracked`: a path beside the machine.
* `Tracked.Restores`: the path is as before, and all else is as with the path as an argument.
* `Tracked.inside`: goes into an object and comes back out of it, however that ends.
* **`Tracked.property_restores`**: after a property has been written, or has failed to be, the path is as before.
* **`stringify_exact`**: what is written for a graph, and what is left behind.
-/

namespace Ecma51

/-! ## 1. Paths -/

/-- The way to what is being written: the objects around it, innermost first, and the indentation. -/
structure Json.Path where
  around : List ObjectId
  indent : Text

/-- The way to a whole. -/
def Json.Path.start : Json.Path := ⟨[], .empty⟩

/-- Operations beside which a path is kept. A failure leaves it as it is. -/
abbrev Tracked := ReaderT Bodies (EStateM Failure (Machine × Json.Path))

/-- An outcome with a path beside it. -/
def withPath {α : Type} (p : Json.Path) :
    EStateM.Result Failure Machine α → EStateM.Result Failure (Machine × Json.Path) α
  | .ok a m => .ok a (m, p)
  | .error e m => .error e (m, p)

namespace Tracked

variable {α β : Type}

/-- An operation that does not know of the path. -/
def lift (x : Run α) : Tracked α := fun bodies s => withPath s.2 (x bodies s.1)

/-- Keeps values reachable during an operation. -/
def holding (vs : List Value) (x : Tracked α) : Tracked α := fun bodies s =>
  match x bodies ({ s.1 with held := vs ++ s.1.held }, s.2) with
  | .ok a s' => .ok a ({ s'.1 with held := s.1.held }, s'.2)
  | .error e s' => .error e ({ s'.1 with held := s.1.held }, s'.2)

/-- Goes into an object as one more nested call, unless that is around already. The indentation before is given. -/
def enter (s : Serializer) (o : ObjectId) : Tracked Text := do
  let outer := (← get).2
  if outer.around.contains o then throw (.fault .jsonCyclic)
  lift enterCall
  modify fun (m, p) => (m, ⟨o :: p.around, p.indent ++ s.gap⟩)
  return outer.indent

/-- Comes back out of an object, to an indentation. -/
def leave (outer : Text) : Tracked Unit := do
  lift leaveCall
  modify fun (m, p) => (m, ⟨p.around.tail, outer⟩)

/-- Lays out the parts of an object between brackets. The object is left however writing them ends. -/
def inside (s : Serializer) (o : ObjectId) (left right : String) (parts : Tracked (List Json.Written)) :
    Tracked (Option Json.Written) := do
  let outer ← enter s o
  try
    let texts ← parts
    let inner := (← get).2.indent
    leave outer
    pure (some (Json.layOut left right s.gap inner outer texts))
  catch e =>
    leave outer
    throw e

/-- The texts of the members of an object with the given keys; those without a text are left out. -/
def memberTexts (gap : Text) (text : Key → Tracked (Option Json.Written)) : List Key → Tracked (List Json.Written)
  | [] => return []
  | k :: rest => do
    match ← text k with
    | some t => return Json.member gap k.toText t :: (← memberTexts gap text rest)
    | none => memberTexts gap text rest

/-- The texts of the elements of an array from `i` on, `n` of them; null for those without a text. -/
def itemTexts (text : Key → Tracked (Option Json.Written)) :
    (n i : Nat) → List Json.Written → Tracked (List Json.Written)
  | 0, _, acc => return acc.reverse
  | n + 1, i, acc => do
    let t ← text (.ofNat i)
    itemTexts text n (i + 1) (t.getD ["null"] :: acc)

/-- The text of a property, none if it has none. -/
def property (s : Serializer) : Nat → (holder : ObjectId) → Key → Tracked (Option Json.Written)
  | 0, _, _ => lift (throw .exhausted)
  | n + 1, holder, k => do
    let v ← lift (writtenValue s holder k)
    holding [v] do
      match ← lift (unwrapValue v) with
      | .null => return some ["null"]
      | .boolean b => return some [if b then "true" else "false"]
      | .string t => return some [Json.quote t]
      | .number x => return some [if x.isFinite then x.toText else "null"]
      | .object o =>
        let h ← lift getHeap
        if (h.object o).isCallable then return none
        if (h.object o).isArray then
          inside s o "[" "]" do itemTexts (property s n o) (← lift (lengthOfArrayLike o)) 0 []
        else
          inside s o "\x7b" "\x7d" (memberTexts s.gap (property s n o) (s.names.getD (h.ownEnumerableKeys o)))
      | _ => return none

/-- The text of a value, none if it has none. -/
def stringify (s : Serializer) (v : Value) : Tracked (Option Text) := do
  let wrapper ← lift newObject
  let _ ← lift (createData wrapper (.name .empty) v)
  let m ← lift get
  let written ← holding [.object wrapper] (property s (m.maxCallDepth - m.callDepth + 1) wrapper (.name .empty))
  return written.map .concat

end Tracked

/-! ## 2. Operations one after the other -/

namespace Tracked

section Outcomes

variable {α β : Type} {x : Tracked α} {bodies : Bodies} {s s' : Machine × Json.Path} {a : α} {e : Failure}

theorem bind_ok (hx : x bodies s = .ok a s') (f : α → Tracked β) : (x >>= f) bodies s = f a bodies s' := by
  show EStateM.bind (x bodies) (fun a => f a bodies) s = _
  unfold EStateM.bind
  rw [hx]

theorem bind_error (hx : x bodies s = .error e s') (f : α → Tracked β) : (x >>= f) bodies s = .error e s' := by
  show EStateM.bind (x bodies) (fun a => f a bodies) s = _
  unfold EStateM.bind
  rw [hx]

theorem tryCatch_ok (hx : x bodies s = .ok a s') (f : Failure → Tracked α) : tryCatch x f bodies s = .ok a s' := by
  show EStateM.tryCatch (x bodies) (fun e => f e bodies) s = _
  unfold EStateM.tryCatch
  rw [hx]

theorem tryCatch_error (hx : x bodies s = .error e s') (f : Failure → Tracked α) :
    tryCatch x f bodies s = f e bodies s' := by
  show EStateM.tryCatch (x bodies) (fun e => f e bodies) s = _
  unfold EStateM.tryCatch
  rw [hx]
  rfl

end Outcomes

section Entering

variable {bodies : Bodies} {m : Machine} {p : Json.Path} {s : Serializer} {o : ObjectId}

theorem enter_around (h : p.around.contains o = true) :
    enter s o bodies (m, p) = .error (.fault .jsonCyclic) (m, p) := by
  show (if p.around.contains o = true then _ else _ : Tracked Text) bodies (m, p) = _
  rw [if_pos h]
  rfl

theorem enter_outside (h : p.around.contains o ≠ true) :
    enter s o bodies (m, p) = (do
      lift enterCall
      modify fun (m, p) => (m, ⟨o :: p.around, p.indent ++ s.gap⟩)
      return p.indent : Tracked Text) bodies (m, p) := by
  show (if p.around.contains o = true then _ else _ : Tracked Text) bodies (m, p) = _
  rw [if_neg h]

end Entering

end Tracked

/-! ## 3. Restored paths -/

/-- Whatever the operation does and however it ends, the path is as before; all else is as with the path as an
argument. -/
def Tracked.Restores {α : Type} (x : Tracked α) (y : Json.Path → Run α) : Prop :=
  ∀ bodies m p, x bodies (m, p) = withPath p (y p bodies m)

namespace Tracked.Restores

variable {α β : Type} {x : Tracked α} {y : Json.Path → Run α} {f : α → Tracked β} {g : Json.Path → α → Run β}
  {bodies : Bodies} {m m' : Machine} {p : Json.Path} {a : α} {e : Failure}

theorem ok (hx : Restores x y) (hrun : y p bodies m = .ok a m') : x bodies (m, p) = .ok a (m', p) :=
  (hx bodies m p).trans (congrArg (withPath p) hrun)

theorem error (hx : Restores x y) (hrun : y p bodies m = .error e m') : x bodies (m, p) = .error e (m', p) :=
  (hx bodies m p).trans (congrArg (withPath p) hrun)

theorem lift (x : Run α) : Restores (Tracked.lift x) fun _ => x := fun _ _ _ => rfl

theorem pure (a : α) : Restores (pure a) fun _ => Pure.pure a := fun _ _ _ => rfl

theorem bind (hx : Restores x y) (hf : ∀ a, Restores (f a) fun p => g p a) :
    Restores (x >>= f) fun p => y p >>= g p := by
  intro bodies m p
  cases hrun : y p bodies m with
  | ok a m' =>
    calc (x >>= f) bodies (m, p) = f a bodies (m', p) := bind_ok (hx.ok hrun) f
      _ = withPath p (g p a bodies m') := hf a bodies m' p
      _ = withPath p ((y p >>= g p) bodies m) := congrArg (withPath p) (bind_run_ok hrun _).symm
  | error e m' =>
    calc (x >>= f) bodies (m, p) = .error e (m', p) := bind_error (hx.error hrun) f
      _ = withPath p ((y p >>= g p) bodies m) := congrArg (withPath p) (bind_run_error hrun _).symm

theorem holding (hx : Restores x y) (vs : List Value) :
    Restores (Tracked.holding vs x) fun p => Ecma51.holding vs (y p) := by
  intro bodies m p
  unfold Tracked.holding
  cases hrun : y p bodies { m with held := vs ++ m.held } with
  | ok a m' =>
    refine Eq.trans ?_ (congrArg (withPath p) (holding_ok hrun)).symm
    dsimp only
    rw [hx.ok hrun]
    rfl
  | error e m' =>
    refine Eq.trans ?_ (congrArg (withPath p) (holding_error hrun)).symm
    dsimp only
    rw [hx.error hrun]
    rfl

theorem itemTexts {text : Key → Tracked (Option Json.Written)} {text' : Json.Path → Key → Run (Option Json.Written)}
    (htext : ∀ k, Restores (text k) fun p => text' p k) (n i : Nat) (acc : List Json.Written) :
    Restores (Tracked.itemTexts text n i acc) fun p => Ecma51.itemTexts (text' p) n i acc := by
  induction n generalizing i acc with
  | zero => exact .pure _
  | succ n ih => exact (htext _).bind fun t => ih (i + 1) _

theorem memberTexts (gap : Text) {text : Key → Tracked (Option Json.Written)}
    {text' : Json.Path → Key → Run (Option Json.Written)} (htext : ∀ k, Restores (text k) fun p => text' p k)
    (ks : List Key) : Restores (Tracked.memberTexts gap text ks) fun p => Ecma51.memberTexts gap (text' p) ks := by
  induction ks with
  | nil => exact .pure _
  | cons k ks ih =>
    refine (htext k).bind fun t => ?_
    cases t with
    | none => exact ih
    | some t => exact ih.bind fun ts => .pure _

/-- **An object is left however writing its parts ends.** -/
theorem inside {parts : Tracked (List Json.Written)} {y : Json.Path → Run (List Json.Written)}
    (hparts : Restores parts y) (s : Serializer) (o : ObjectId) (left right : String) :
    Restores (Tracked.inside s o left right parts) (fun p => do
      if p.around.contains o then raise .jsonCyclic
      nestedCall do
        let texts ← y ⟨o :: p.around, p.indent ++ s.gap⟩
        return some (Json.layOut left right s.gap (p.indent ++ s.gap) p.indent texts)) := by
  intro bodies m p
  unfold Tracked.inside
  by_cases hmem : p.around.contains o = true
  · rw [bind_error (enter_around hmem)]
    simp only [if_pos hmem]
    rfl
  simp only [if_neg hmem]
  by_cases hfull : m.maxCallDepth ≤ m.callDepth
  · have henter : enter s o bodies (m, p) = .error (.fault .stackOverflow) (m, p) :=
      (enter_outside hmem).trans (bind_error ((Restores.lift _).error (enterCall_full hfull)) _)
    rw [bind_error henter]
    exact congrArg (withPath p) (bind_run_error (enterCall_full hfull) _).symm
  have hentered : enterCall bodies m = _ := enterCall_free hfull
  have henter : enter s o bodies (m, p) =
      .ok p.indent ({ m with callDepth := m.callDepth + 1 }, ⟨o :: p.around, p.indent ++ s.gap⟩) :=
    (enter_outside hmem).trans (bind_ok ((Restores.lift _).ok hentered) _)
  rw [bind_ok henter]
  cases hrun : y ⟨o :: p.around, p.indent ++ s.gap⟩ bodies { m with callDepth := m.callDepth + 1 } with
  | ok texts m' =>
    refine Eq.trans ?_
      (congrArg (withPath p) ((bind_run_ok hentered _).trans (leaving_ok (bind_run_ok hrun _)))).symm
    exact tryCatch_ok (bind_ok (hparts.ok hrun) _) _
  | error e m' =>
    refine Eq.trans ?_
      (congrArg (withPath p) ((bind_run_ok hentered _).trans (leaving_error (bind_run_error hrun _)))).symm
    exact tryCatch_error (bind_error (hparts.error hrun) _) _

end Tracked.Restores

theorem Tracked.property_restores (s : Serializer) (n : Nat) (holder : ObjectId) (k : Key) :
    Restores (property s n holder k) fun p => serialize s n p.around p.indent holder k := by
  induction n generalizing holder k with
  | zero => exact .lift _
  | succ n ih =>
    simp only [serialize, property]
    refine (Restores.lift _).bind fun v => (Restores.bind (.lift _) fun u => ?_).holding [v]
    cases u with
    | object o =>
      dsimp only
      refine (Restores.lift _).bind fun h => ?_
      by_cases hcallable : (h.object o).isCallable = true
      · simp only [if_pos hcallable]
        exact .pure _
      · simp only [if_neg hcallable]
        by_cases harray : (h.object o).isArray = true
        · simp only [if_pos harray]
          have hitems := (Restores.lift (lengthOfArrayLike o)).bind fun length => .itemTexts (ih o) length 0 []
          have hinside := hitems.inside s o "[" "]"
          simp only [bind_assoc] at hinside
          exact hinside
        · simp only [if_neg harray]
          exact (Restores.memberTexts s.gap (ih o) _).inside s o "\x7b" "\x7d"
    | _ => exact .pure _

theorem Tracked.stringify_restores (s : Serializer) (v : Value) (bodies : Bodies) (m : Machine) :
    stringify s v bodies (m, .start) = withPath .start (stringifyJson s v bodies m) := by
  have hrestores : Restores (stringify s v) fun p => do
      let wrapper ← newObject
      let _ ← createData wrapper (.name .empty) v
      let m ← get
      let written ← Ecma51.holding [.object wrapper]
        (serialize s (m.maxCallDepth - m.callDepth + 1) p.around p.indent wrapper (.name .empty))
      return written.map .concat := by
    refine (Restores.lift _).bind fun wrapper => (Restores.lift _).bind fun _ => (Restores.lift _).bind fun m => ?_
    exact ((property_restores s _ wrapper _).holding _).bind fun written => .pure _
  exact hrestores bodies m .start

/-! ## 4. Graphs -/

/-- **A cycle is reported, as a wrong type, exactly if one can be reached from the value**; otherwise what is shared
is written wherever it stands, as in a tree that the value unfolds to. There must be as many calls left as there are
objects. The one other failure is a lack of memory, if the objects in use fill the limit. Whatever happens, the path
and the calls under way are as before, and so is all that is in use. The writer that changes its path in place writes
what the one does that is given the path, and leaves every path as it was, with any functions and whatever they do. -/
theorem stringify_exact {m : Machine} {s : Serializer} {v : Value} {os : List ObjectId} {G : ObjectGraph}
    (hreplacer : s.replacer = none) (hnames : s.names = none) (hd : m.heap.Draws os G)
    (hos : ∀ o ∈ os, m.heap.InUse m.roots [] (Heap.objectNode o)) (hv : ∀ o, v = .object o → o ∈ os)
    (hnew : ¬ m.heap.InUse m.roots [] (Heap.objectNode m.heap.nextObject)) (hdeep : os.length ≤ m.depthLeft)
    (bodies : Bodies) :
    Fault.jsonCyclic.kind = .typeError ∧
    (∃ m', m.Intact m'.heap ∧ m' = { m with heap := m'.heap, nextCollection := m'.nextCollection } ∧
      (m.Crowded → Tracked.stringify s v bodies (m, .start) = .error (.fault .outOfMemory) (m', .start)) ∧
      (¬ m.Crowded → G.IsCyclic v →
        Tracked.stringify s v bodies (m, .start) = .error (.fault .jsonCyclic) (m', .start)) ∧
      (¬ m.Crowded → ¬ G.IsCyclic v → ∃ t, G.Texts s.gap .empty v t ∧
        Tracked.stringify s v bodies (m, .start) = .ok (t.map .concat) (m', .start))) ∧
    Tracked.stringify s v bodies (m, .start) = withPath .start (stringifyJson s v bodies m) ∧
    ∀ n holder k m p, Tracked.property s n holder k bodies (m, p) =
      withPath p (serialize s n p.around p.indent holder k bodies m) := by
  have hrestores := Tracked.stringify_restores s v bodies m
  obtain ⟨m', hintact, hrest, hcrowded, hcyclic, htext⟩ :=
    stringifyJson_graph hreplacer hnames hd hos hv hnew hdeep bodies
  refine ⟨rfl, ⟨m', hintact, hrest, fun hm => ?_, fun hm hc => ?_, fun hm hc => ?_⟩, hrestores,
    fun n holder k => Tracked.property_restores s n holder k bodies⟩
  · rw [hrestores, hcrowded hm]
    rfl
  · rw [hrestores, hcyclic hm hc]
    rfl
  · obtain ⟨t, ht, hrun⟩ := htext hm hc
    refine ⟨t, ht, ?_⟩
    rw [hrestores, hrun]
    rfl

namespace Sharing

/-- An object that stands twice in an array, which stands in an object that also holds itself. -/
def heap : Heap :=
  let part := (Object.ordinary (some Intrinsic.objectPrototype.id)).withProperty (.ofString "x") (.plain (.ofNat 1))
  let parts := arrayOf [.object 17, .object 17]
  let whole := ((Object.ordinary (some Intrinsic.objectPrototype.id)).withProperty (.ofString "parts")
    (.plain (.object 18))).withProperty (.ofString "whole") (.plain (.object 19))
  (((Heap.skeleton.add part).1.add parts).1.add whole).1

/-- What these objects hold. -/
def graph : ObjectGraph
  | 17 => .object [(.ofString "x", .ofNat 1)]
  | 18 => .array [.object 17, .object 17]
  | 19 => .object [(.ofString "parts", .object 18), (.ofString "whole", .object 19)]
  | _ => .array []

/-- A machine that works with the objects. -/
def machine : Machine := { Machine.start {} with heap, held := [.object 17, .object 18, .object 19] }

/-- What the array unfolds to. -/
def tree : Json := .array [.object [("x", .number (.ofNat 1))], .object [("x", .number (.ofNat 1))]]

theorem draws_graph : heap.Draws [17, 18, 19] graph where
  array o ho items hnode := by
    simp only [List.mem_cons, List.not_mem_nil, or_false] at ho
    rcases ho with rfl | rfl | rfl
    · cases hnode
    · obtain rfl := Contents.array.inj hnode
      refine ⟨rfl, by decide, ⟨true, false, false, rfl⟩, fun i v hv => ?_⟩
      have hlt : i < 2 := (List.getElem?_eq_some_iff.mp hv).1
      have hreads : ∀ i < 2, heap.getProperty? 18 (.ofNat i) = some (.plain (.object 17)) := by decide +kernel
      have hitems : ∀ i < 2, [Value.object 17, .object 17][i]? = some (.object 17) := by decide
      obtain rfl := Option.some.inj ((hitems i hlt).symm.trans hv)
      unfold Heap.Reads
      rw [hreads i hlt]
      rfl
    · cases hnode
  object o ho members hnode := by
    simp only [List.mem_cons, List.not_mem_nil, or_false] at ho
    rcases ho with rfl | rfl | rfl
    · obtain rfl := Contents.object.inj hnode
      refine ⟨rfl, by decide +kernel, List.forall_mem_singleton.mpr ?_⟩
      rfl
    · cases hnode
    · obtain rfl := Contents.object.inj hnode
      refine ⟨rfl, by decide +kernel, List.forall_mem_cons.mpr ⟨?_, List.forall_mem_singleton.mpr ?_⟩⟩
      · rfl
      · rfl
  lacksToJson o ho := by
    have hlacks : ∀ o ∈ [17, 18, 19], heap.getProperty? o (.ofString "toJSON") = none := by decide +kernel
    refine ⟨.undefined, ?_, rfl⟩
    unfold Heap.Reads
    rw [hlacks o ho]
  closed o ho p hedge := by
    have hheld : ∀ o ∈ [17, 18, 19], ∀ v ∈ (graph o).values, v ∈ [.ofNat 1, .object 17, .object 18, .object 19] := by
      decide
    have hp := hheld o ho _ hedge
    simpa [Value.ofNat] using hp

theorem isCyclic_whole : graph.IsCyclic (.object 19) := by
  refine ⟨19, 19, rfl, .refl, .single ?_⟩
  show Value.object 19 ∈ [Value.object 18, Value.object 19]
  exact .tail _ (.head _)

/-- The object stands in the tree wherever the array holds it. -/
theorem unfolds_parts : graph.Unfolds tree (.object 18) := by
  have hpart : graph.Unfolds (.object [("x", .number (.ofNat 1))]) (.object 17) := by
    simp only [ObjectGraph.Unfolds, ObjectGraph.UnfoldsMembers]
    exact ⟨17, _, rfl, rfl, _, _, _, rfl, rfl, ⟨rfl, by decide⟩, rfl⟩
  unfold tree
  rw [ObjectGraph.Unfolds]
  refine ⟨18, _, rfl, rfl, ?_⟩
  simp only [ObjectGraph.UnfoldsItems]
  exact ⟨_, _, rfl, .inl hpart, _, _, rfl, .inl hpart, rfl⟩

theorem inUse_machine : ∀ o ∈ [17, 18, 19], machine.heap.InUse machine.roots [] (Heap.objectNode o) := by
  intro o ho
  refine .outside (Machine.mem_roots_of_held ?_)
  exact List.mem_map_of_mem ho

theorem lt_of_inUse {n : Nat} (hn : machine.heap.InUse machine.roots [] n) : n < 40 := by
  have houtside : ∀ n ∈ machine.roots, n < 40 := by decide
  have hrefers : ∀ e ∈ machine.heap.references.toList, ∀ n ∈ e.2, n < 40 := by decide
  exact Heap.lt_of_inUse houtside hrefers hn

/-- The machine with no room for another object. -/
def fullMachine : Machine := { machine with heapLimit := some 20 }

end Sharing

/-- The array is written, with the object once for each of its elements; the object that holds itself is not. -/
theorem stringify_exact_sharing :
    Sharing.machine.heap.Draws [17, 18, 19] Sharing.graph ∧
      (∃ t m', Sharing.graph.Texts "  " .empty (.object 18) t ∧
        Tracked.stringify ⟨none, none, "  "⟩ (.object 18) (bodiesAt 0) (Sharing.machine, .start) =
          .ok (t.map .concat) (m', .start)) ∧
      ∃ m', Tracked.stringify ⟨none, none, "  "⟩ (.object 19) (bodiesAt 0) (Sharing.machine, .start) =
        .error (.fault .jsonCyclic) (m', .start) := by
  have hnew : ¬ Sharing.machine.heap.InUse Sharing.machine.roots []
      (Heap.objectNode Sharing.machine.heap.nextObject) := fun hn => Nat.lt_irrefl 40 (Sharing.lt_of_inUse hn)
  have hexact {o : ObjectId} (ho : o ∈ [17, 18, 19]) :=
    stringify_exact (s := ⟨none, none, "  "⟩) (v := .object o) rfl rfl Sharing.draws_graph Sharing.inUse_machine
      (fun p hp => Value.object.inj hp ▸ ho) hnew (by decide) (bodiesAt 0)
  have hroom := Machine.not_crowded_of_unlimited (m := Sharing.machine) rfl
  obtain ⟨_, ⟨m₁, _, _, _, _, htext⟩, _⟩ := hexact (o := 18) (by decide)
  obtain ⟨_, ⟨m₂, _, _, _, hcyclic, _⟩, _⟩ := hexact (o := 19) (by decide)
  obtain ⟨t, ht, hrun⟩ := htext hroom Sharing.unfolds_parts.not_isCyclic
  exact ⟨Sharing.draws_graph, ⟨t, m₁, ht, hrun⟩, m₂, hcyclic hroom Sharing.isCyclic_whole⟩

/-- Without room for another object a lack of memory is reported, not the cycle. -/
theorem stringify_fails :
    Sharing.fullMachine.heap.Draws [17, 18, 19] Sharing.graph ∧ Sharing.graph.IsCyclic (.object 19) ∧
      3 < Sharing.fullMachine.depthLeft ∧
      faultOf? (stringifyJson ⟨none, none, .empty⟩ (.object 19) (bodiesAt 0) Sharing.fullMachine) =
        some .outOfMemory :=
  ⟨Sharing.draws_graph, Sharing.isCyclic_whole, by decide, by decide +kernel⟩

end Ecma51
