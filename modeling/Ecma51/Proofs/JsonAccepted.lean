import Ecma51.Proofs.CallDepth
import Ecma51.Proofs.JsonRoundTrip

/-!
# Whatever is written can be read

While a value is written, functions of the program run between the pieces of the text: accessors, functions `toJSON`
and the function that replaces values. They can change anything, and give anything. All that they cannot change is how
many calls are under way once they have ended. So whatever values they give, and whichever members they hide, the
pieces fit together, and arrays and objects are nested only as deep as calls may be nested when the writing begins. As
deep as that, a text can be read.

* `Yields`: what an operation gives if it ends well.
* `Json.SpelledWithin`: pieces that spell data, nested so deep at most.
* **`serialize_yields`**: what is written for a property.
* **`stringified_isAccepted`**: every text that is written can be read at the same depth.
-/

namespace Ecma51

/-! ## 1. Operations that end well -/

/-- Wherever as many calls are under way as in a machine, the operation gives only results with a property, and as many
are under way after it. Nothing is said of failures. -/
def Yields {α : Type} (bodies : Bodies) (m : Machine) (x : Run α) (P : α → Prop) : Prop :=
  ∀ m₁ a m₂, m.SameDepth m₁ → x bodies m₁ = .ok a m₂ → P a ∧ m.SameDepth m₂

namespace Yields

variable {α β : Type} {bodies : Bodies} {m : Machine} {x : Run α} {f : α → Run β} {P Q : α → Prop} {R : β → Prop}

theorem pure {a : α} (ha : P a) : Yields bodies m (pure a) P := by
  intro m₁ b m₂ hm hrun
  cases hrun
  exact ⟨ha, hm⟩

theorem throw (e : Failure) : Yields bodies m (throw e : Run α) P := fun _ _ _ _ hrun => nomatch hrun

theorem of_keepsDepth (hx : Relates Machine.SameDepth bodies x) : Yields bodies m x fun _ => True := by
  intro m₁ a m₂ hm hrun
  have hends := hx m₁
  rw [hrun] at hends
  exact ⟨trivial, hm.trans hends⟩

theorem bind (hx : Yields bodies m x Q) (hf : ∀ a, Q a → Yields bodies m (f a) R) : Yields bodies m (x >>= f) R := by
  intro m₁ b m₂ hm hrun
  cases hx₁ : x bodies m₁ with
  | ok a m₃ =>
    rw [bind_run_ok hx₁] at hrun
    obtain ⟨ha, hm₃⟩ := hx m₁ a m₃ hm hx₁
    exact hf a ha m₃ b m₂ hm₃ hrun
  | error e m₃ =>
    rw [bind_run_error hx₁] at hrun
    cases hrun

/-- What follows an operation of which nothing is known but that as many calls are under way. -/
theorem after (hx : Relates Machine.SameDepth bodies x) (hf : ∀ a, Yields bodies m (f a) R) :
    Yields bodies m (x >>= f) R := (of_keepsDepth hx).bind fun a _ => hf a

theorem holding (hx : Yields bodies m x P) (vs : List Value) : Yields bodies m (holding vs x) P := by
  intro m₁ a m₂ hm hrun
  cases hx₁ : x bodies { m₁ with held := vs ++ m₁.held } with
  | ok b m₃ =>
    rw [holding_ok hx₁] at hrun
    cases hrun
    have hkept : m.SameDepth { m₁ with held := vs ++ m₁.held } := ⟨hm.callDepth, hm.maxCallDepth⟩
    obtain ⟨ha, hm₃⟩ := hx _ a m₃ hkept hx₁
    exact ⟨ha, hm₃.callDepth, hm₃.maxCallDepth⟩
  | error e m₃ =>
    rw [holding_error hx₁] at hrun
    cases hrun

/-- A nested call runs with one more call under way, and only if there may be one. -/
theorem nestedCall
    (hx : m.callDepth < m.maxCallDepth → Yields bodies { m with callDepth := m.callDepth + 1 } x P) :
    Yields bodies m (nestedCall x) P := by
  intro m₁ a m₂ hm hrun
  unfold Ecma51.nestedCall at hrun
  by_cases hfull : m₁.maxCallDepth ≤ m₁.callDepth
  · rw [bind_run_error (enterCall_full hfull)] at hrun
    cases hrun
  · rw [bind_run_ok (enterCall_free hfull)] at hrun
    rw [hm.callDepth, hm.maxCallDepth] at hfull
    have hdeeper : Machine.SameDepth { m with callDepth := m.callDepth + 1 }
        { m₁ with callDepth := m₁.callDepth + 1 } := ⟨congrArg (· + 1) hm.callDepth, hm.maxCallDepth⟩
    cases hx₁ : x bodies { m₁ with callDepth := m₁.callDepth + 1 } with
    | ok b m₃ =>
      rw [leaving_ok hx₁] at hrun
      cases hrun
      obtain ⟨ha, hm₃⟩ := hx (Nat.lt_of_not_le hfull) _ a m₃ hdeeper hx₁
      exact ⟨ha, congrArg (· - 1) hm₃.callDepth, hm₃.maxCallDepth⟩
    | error e m₃ =>
      rw [leaving_error hx₁] at hrun
      cases hrun

end Yields

/-! ## 2. Pieces -/

namespace Json

/-- The pieces spell data in which arrays and objects are nested so deep at most. -/
def SpelledWithin (d : Nat) (w : Written) : Prop := ∃ j, Writes w j ∧ j.nesting ≤ d

variable {d : Nat} {indent outer : Text}

theorem exists_items {ws : List Written} (hws : ∀ w ∈ ws, SpelledWithin d w) :
    ∃ js, List.Forall₂ Writes ws js ∧ nestingOfItems js ≤ d := by
  induction ws with
  | nil => exact ⟨[], .nil, Nat.zero_le _⟩
  | cons w ws ih =>
    obtain ⟨⟨j, hw, hj⟩, hrest⟩ := List.forall_mem_cons.mp hws
    obtain ⟨js, hws, hjs⟩ := ih hrest
    refine ⟨j :: js, .cons hw hws, ?_⟩
    rw [nestingOfItems]
    exact Nat.max_le.mpr ⟨hj, hjs⟩

theorem spelledWithin_array (gap : Text) (hindent : AreBlank indent.toList) (houter : AreBlank outer.toList)
    {ws : List Written} (hws : ∀ w ∈ ws, SpelledWithin d w) :
    SpelledWithin (d + 1) (layOut "[" "]" gap indent outer ws) := by
  obtain ⟨js, hws, hjs⟩ := exists_items hws
  refine ⟨.array js, writes_array gap hindent houter hws, ?_⟩
  rw [nesting]
  omega

/-- A member is laid out of a name and such pieces. -/
def MemberWithin (gap : Text) (d : Nat) (w : Written) : Prop := ∃ name u, w = member gap name u ∧ SpelledWithin d u

theorem exists_members {gap : Text} {ws : List Written} (hws : ∀ w ∈ ws, MemberWithin gap d w) :
    ∃ (es : List (Text × Written)) (js : List (Text × Json)), ws = es.map (fun e => member gap e.1 e.2) ∧
      List.Forall₂ WritesMember es js ∧ nestingOfMembers js ≤ d := by
  induction ws with
  | nil => exact ⟨[], [], rfl, .nil, Nat.zero_le _⟩
  | cons w ws ih =>
    obtain ⟨⟨name, u, rfl, j, hu, hj⟩, hrest⟩ := List.forall_mem_cons.mp hws
    obtain ⟨es, js, rfl, hes, hjs⟩ := ih hrest
    refine ⟨(name, u) :: es, (name, j) :: js, rfl, .cons ⟨rfl, hu⟩ hes, ?_⟩
    rw [nestingOfMembers]
    exact Nat.max_le.mpr ⟨hj, hjs⟩

theorem spelledWithin_object (gap : Text) (hindent : AreBlank indent.toList) (houter : AreBlank outer.toList)
    {ws : List Written} (hws : ∀ w ∈ ws, MemberWithin gap d w) :
    SpelledWithin (d + 1) (layOut "\x7b" "\x7d" gap indent outer ws) := by
  obtain ⟨es, js, rfl, hes, hjs⟩ := exists_members hws
  refine ⟨.object js, writes_object gap hindent houter hes, ?_⟩
  rw [nesting]
  omega

end Json

/-! ## 3. What is written -/

section Written

variable {bodies : Bodies} {m : Machine} {d : Nat} {text : Key → Run (Option Json.Written)}

/-- The elements of an array; null stands for those without a text. -/
theorem itemTexts_yields (htext : ∀ k, Yields bodies m (text k) fun t => ∀ w ∈ t, Json.SpelledWithin d w)
    (n i : Nat) {acc : List Json.Written} (hacc : ∀ w ∈ acc, Json.SpelledWithin d w) :
    Yields bodies m (itemTexts text n i acc) fun ws => ∀ w ∈ ws, Json.SpelledWithin d w := by
  induction n generalizing i acc with
  | zero => exact .pure fun w hw => hacc w (List.mem_reverse.mp hw)
  | succ n ih =>
    refine (htext (.ofNat i)).bind fun t ht => ih (i + 1) (List.forall_mem_cons.mpr ⟨?_, hacc⟩)
    cases t with
    | none => exact ⟨.null, Json.writes_null, Nat.zero_le _⟩
    | some w => exact ht w rfl

/-- The members of an object; those without a text are left out. -/
theorem memberTexts_yields (gap : Text)
    (htext : ∀ k, Yields bodies m (text k) fun t => ∀ w ∈ t, Json.SpelledWithin d w) (keys : List Key) :
    Yields bodies m (memberTexts gap text keys) fun ws => ∀ w ∈ ws, Json.MemberWithin gap d w := by
  induction keys with
  | nil => exact .pure nofun
  | cons k keys ih =>
    refine (htext k).bind fun t ht => ?_
    cases t with
    | none => exact ih
    | some w =>
      exact ih.bind fun ws hws => .pure (List.forall_mem_cons.mpr ⟨⟨k.toText, w, rfl, ht w rfl⟩, hws⟩)

variable (hb : bodies.KeepDepth)

include hb

/-- **What is written for a property spells data**, nested as deep as calls may still be nested, whatever functions are
run for it. The induction is on the bound, and the depth left is smaller inside of an array or object. -/
theorem serialize_yields {s : Serializer} (hgap : Json.AreBlank s.gap.toList) (n : Nat) {m : Machine}
    (around : List ObjectId) {indent : Text} (hindent : Json.AreBlank indent.toList) (holder : ObjectId) (k : Key) :
    Yields bodies m (serialize s n around indent holder k) fun t => ∀ w ∈ t, Json.SpelledWithin m.depthLeft w := by
  induction n generalizing m around indent holder k with
  | zero => exact .throw _
  | succ n ih =>
    have hscalar {w : Json.Written} {j : Json} (hw : Json.Writes w j) (hj : j.nesting = 0) :
        Yields bodies m (pure (some w)) fun t => ∀ w ∈ t, Json.SpelledWithin m.depthLeft w :=
      .pure fun u hu => ⟨j, Option.mem_some_iff.mp hu ▸ hw, hj ▸ Nat.zero_le _⟩
    have hnone : Yields bodies m (pure none) fun t => ∀ w ∈ t, Json.SpelledWithin m.depthLeft w := .pure nofun
    rw [serialize]
    refine .after ((built_writtenValue s holder k).keepsDepth hb) fun v => .holding ?_ _
    refine .after ((built_unwrapValue v).keepsDepth hb) fun u => ?_
    cases u with
    | null => exact hscalar Json.writes_null rfl
    | boolean b => exact hscalar (Json.writes_boolean b) rfl
    | string t => exact hscalar (Json.writes_string t) rfl
    | number x =>
      dsimp only
      split
      · rename_i hx
        exact hscalar (Json.writes_number hx) rfl
      · exact hscalar Json.writes_null rfl
    | object o =>
      refine .after keepsDepth_getHeap fun h => ?_
      have hinside : Yields bodies m
          (nestedCall (serializeInside s n around indent o (h.object o) (s.names.getD (h.ownEnumerableKeys o))))
          fun t => ∀ w ∈ t, Json.SpelledWithin m.depthLeft w := by
        refine .nestedCall fun hfree => ?_
        have hdepth : m.depthLeft = Machine.depthLeft { m with callDepth := m.callDepth + 1 } + 1 := by
          unfold Machine.depthLeft
          dsimp only
          omega
        have hblank := Json.areBlank_append hindent hgap
        have htext := ih (m := { m with callDepth := m.callDepth + 1 }) (o :: around) hblank o
        rw [hdepth]
        unfold serializeInside
        dsimp only
        split
        · refine .after ((built_lengthOfArrayLike o).keepsDepth hb) fun length => ?_
          refine (itemTexts_yields htext length 0 (List.forall_mem_nil _)).bind fun ws hws => .pure fun w hw => ?_
          exact Option.mem_some_iff.mp hw ▸ Json.spelledWithin_array s.gap hblank hindent hws
        · refine (memberTexts_yields s.gap htext _).bind fun ws hws => .pure fun w hw => ?_
          exact Option.mem_some_iff.mp hw ▸ Json.spelledWithin_object s.gap hblank hindent hws
      dsimp only
      by_cases hcallable : (h.object o).isCallable = true
      · rw [if_pos hcallable]
        exact hnone
      · rw [if_neg hcallable]
        by_cases hcyclic : around.contains o = true
        · rw [if_pos hcyclic]
          exact .bind (Q := fun _ => True) (.throw _) fun _ _ => hinside
        · rw [if_neg hcyclic]
          exact hinside
    | undefined | nothing => exact hnone

/-- What is written for a value spells data, nested as deep as calls may be nested when the writing begins. -/
theorem stringifyJson_yields {s : Serializer} (hgap : Json.AreBlank s.gap.toList) (m : Machine) (v : Value) :
    Yields bodies m (stringifyJson s v) fun t => ∀ u ∈ t, ∃ j, Json.IsText u.toList j ∧ j.nesting ≤ m.depthLeft := by
  refine .after (built_newObject.keepsDepth hb) fun wrapper => ?_
  refine .after ((built_createData wrapper _ v).keepsDepth hb) fun _ => .after .get fun m₁ => ?_
  have hindent : Json.AreBlank Text.empty.toList := List.forall_mem_nil _
  refine ((serialize_yields hb hgap _ [] hindent wrapper _).holding _).bind fun t ht => .pure ?_
  intro u hu
  obtain ⟨w, hw, rfl⟩ := Option.map_eq_some_iff.mp hu
  obtain ⟨j, hw, hj⟩ := ht w hw
  exact ⟨j, hw.isText, hj⟩

end Written

/-- **Every text that is written can be read.** This holds of every value, whatever replaces values, whichever names are
asked for, and for every gap of blanks; and whatever accessors, functions `toJSON` and the function that replaces values
do, as long as writing ends well. The text can be read with no limit on the heap, if as many calls may be nested as when
it was written. -/
theorem stringified_isAccepted {s : Serializer} (hgap : Json.AreBlank s.gap.toList) {level : Nat} {m m' : Machine}
    {v : Value} {t : Text} (hwritten : stringifyJson s v (bodiesAt level) m = .ok (some t) m') (bodies : Bodies)
    {m₁ : Machine} (hlimit : m₁.heapLimit = none) (hdepth : m.depthLeft ≤ m₁.depthLeft) :
    ∃ u m₂, parseJson t bodies m₁ = .ok u m₂ := by
  obtain ⟨hspelled, _⟩ := stringifyJson_yields (bodiesAt_keepDepth level) hgap m v m (some t) m' (.refl m) hwritten
  obtain ⟨j, htext, hj⟩ := hspelled t rfl
  obtain ⟨u, m₂, hrun, _⟩ := parseJson_of_isText bodies hlimit htext (hj.trans hdepth)
  exact ⟨u, m₂, hrun⟩

/-- A machine with an array of one element, whose function `toJSON` gives a copy of it. -/
def copyingMachine : Machine :=
  let heap := (Heap.skeleton.add (nativeFunction "slice" (.array .slice) none 2)).1
  let array := (arrayOf [.ofNat 1]).withProperty (.ofString "toJSON") (.plain (.object 17))
  { Machine.start {} with heap := (heap.add array).1, held := [.object 18] }

/-- The text that an operation gives, if it gives one. -/
def textOf? : EStateM.Result Failure Machine (Option Text) → Option Text
  | .ok t _ => t
  | .error _ _ => none

/-- The text of that array, with a gap of two spaces, can be read. -/
theorem stringified_isAccepted_copying :
    ∃ t m', stringifyJson ⟨none, none, "  "⟩ (.object 18) (bodiesAt 1) copyingMachine = .ok (some t) m' ∧
      ∃ u m₂, parseJson t (bodiesAt 0) (Machine.start {}) = .ok u m₂ := by
  have hblank : Json.AreBlank (Text.ofString "  ").toList :=
    List.forall_mem_cons.mpr ⟨rfl, List.forall_mem_singleton.mpr rfl⟩
  have htext : textOf? (stringifyJson ⟨none, none, "  "⟩ (.object 18) (bodiesAt 1) copyingMachine) =
      some "[\n  1\n]" := by decide +kernel
  cases hrun : stringifyJson ⟨none, none, "  "⟩ (.object 18) (bodiesAt 1) copyingMachine with
  | ok t m' =>
    rw [hrun] at htext
    obtain rfl : t = some (Text.ofString "[\n  1\n]") := htext
    exact ⟨_, m', rfl, stringified_isAccepted hblank hrun (bodiesAt 0) rfl (by decide)⟩
  | error e m' =>
    rw [hrun] at htext
    cases htext

end Ecma51
