import Ecma51.Proofs.JsonShown
import Ecma51.Proofs.JsonValues
import Ecma51.Proofs.JsonWriting

/-!
# Writing values and reading them again

A value that shows JSON data is written as a text that spells them, and the value of that text shows them
again. Writing runs no code of the program if no object of the tree has a function `toJSON`.

* `Heap.Finds`: the property that an object has or inherits.
* `Heap.LacksToJson`: no object of a tree has a function `toJSON`.
* **`serialize_run`**: what is written for a property.
* **`json_roundTrip`**: parsing undoes stringifying.
-/

namespace Ecma51

/-! ## 1. Objects without `toJSON` -/

namespace Heap

/-- The property that an object has, or that the nearest of its prototypes has. -/
inductive Finds (h : Heap) (k : Key) : ObjectId → Property → Prop where
  | own {o : ObjectId} {q : Property} : h.getOwn? o k = some q → Finds h k o q
  | inherited {o p : ObjectId} {q : Property} : h.getOwn? o k = none → (h.object o).prototype = some p →
      Finds h k p q → Finds h k o q

theorem finds_of_getProperty? {h : Heap} {o : ObjectId} {k : Key} {q : Property}
    (hq : h.getProperty? o k = some q) : h.Finds k o q := by
  have hfound (n : Nat) {o : ObjectId} (hq : h.findUpTo k n (some o) = some q) : h.Finds k o q := by
    induction n generalizing o with
    | zero => cases hq
    | succ n ih =>
      unfold findUpTo at hq
      cases hown : h.getOwn? o k with
      | some q' =>
        rw [hown, Option.some_or] at hq
        cases hq
        exact .own hown
      | none =>
        rw [hown, Option.none_or] at hq
        cases hprototype : (h.object o).prototype with
        | some p =>
          rw [hprototype] at hq
          exact .inherited hown hprototype (ih hq)
        | none =>
          rw [hprototype] at hq
          cases n <;> cases hq
  exact hfound _ hq

/-- The objects of a value: itself, and those of the values of its properties. -/
inductive Within (h : Heap) : Value → ObjectId → Prop where
  | self (o : ObjectId) : Within h (.object o) o
  | inner {o p : ObjectId} {k : Key} {v : Value} {w e c : Bool} : h.stored? o k = some (.data v w e c) →
      Within h v p → Within h (.object o) p

/-- No object of a value has a function `toJSON`, of its own or from a prototype. -/
def LacksToJson (h : Heap) (v : Value) : Prop :=
  ∀ o q, h.Within v o → h.Finds (.ofString "toJSON") o q →
    ∃ f w e c, q = .data f w e c ∧ h.isCallable f = false

theorem LacksToJson.inner {h : Heap} {o : ObjectId} {k : Key} {v : Value} (ho : h.LacksToJson (.object o))
    (hplain : h.IsPlain o) (hv : h.HasOwn o k v) : h.LacksToJson v := by
  obtain ⟨w, e, c, hget⟩ := hv
  rw [hplain.getOwn?] at hget
  exact fun p q hp => ho p q (.inner hget hp)

section Keep

variable {h h' : Heap} {outside borrowed : List Nat}

theorem getOwn?_name (h : Heap) (o : ObjectId) (t : Text) :
    h.getOwn? o (.name t) = h.stored? o (.name t) := by
  have hmapped (a : ArgumentsData) (p : Property) : showing p (h.mappedValue? a (.name t)) = p := by
    cases p <;> rfl
  unfold getOwn? stored?
  dsimp only
  cases (h.object o).kind with
  | string u => exact Option.or_none
  | arguments a => simp only [hmapped, Option.map_id']
  | _ => rfl

theorem exists_of_prototype {o p : ObjectId} (hp : (h.object o).prototype = some p) :
    ∃ x, h.objects[o]? = some x ∧ x.prototype = some p := by
  rcases h.object_cases o with hx | hnone
  · exact ⟨_, hx, hp⟩
  · rw [hnone] at hp
    cases hp

variable (hsame : ∀ o, h.InUse outside borrowed (objectNode o) → h'.object o = h.object o)

include hsame

theorem Within.of_same {v : Value} {o : ObjectId} (ho : h'.Within v o)
    (hroot : ∀ p, v = .object p → h.InUse outside borrowed (objectNode p)) :
    h.Within v o ∧ h.InUse outside borrowed (objectNode o) := by
  induction ho with
  | self o => exact ⟨.self o, hroot o rfl⟩
  | @inner o p k v w e c hstored _ ih =>
    have huse := hroot o rfl
    unfold stored? at hstored
    rw [hsame o huse] at hstored
    obtain ⟨x, hx, hk⟩ := exists_of_stored? hstored
    obtain ⟨hwithin, hp⟩ := ih fun r hr => huse.refers (.property hx hk (hr ▸ List.mem_cons_self))
    exact ⟨.inner hstored hwithin, hp⟩

/-- What is found for a name is stored in an object in use. -/
theorem Finds.of_same {t : Text} {o : ObjectId} {q : Property} (hq : h'.Finds (.name t) o q)
    (ho : h.InUse outside borrowed (objectNode o)) :
    h.Finds (.name t) o q ∧
      ∃ p, h.InUse outside borrowed (objectNode p) ∧ h.stored? p (.name t) = some q := by
  have hown {o : ObjectId} (ho : h.InUse outside borrowed (objectNode o)) :
      h'.getOwn? o (.name t) = h.getOwn? o (.name t) := by
    rw [getOwn?_name, getOwn?_name]
    unfold stored?
    rw [hsame o ho]
  induction hq with
  | own hget =>
    rw [hown ho] at hget
    exact ⟨.own hget, _, ho, (getOwn?_name h _ t).symm.trans hget⟩
  | inherited hget hprototype _ ih =>
    rw [hown ho] at hget
    rw [hsame _ ho] at hprototype
    obtain ⟨x, hx, hp⟩ := exists_of_prototype hprototype
    obtain ⟨hfinds, hstored⟩ := ih (ho.refers (.prototype hx hp))
    exact ⟨.inherited hget hprototype hfinds, hstored⟩

/-- **A value still lacks `toJSON` if the objects in use are as before.** -/
theorem LacksToJson.keep {v : Value} (hv : h.LacksToJson v)
    (hroot : ∀ o, v = .object o → h.InUse outside borrowed (objectNode o)) : h'.LacksToJson v := by
  intro o q hwithin hfinds
  obtain ⟨hwithin, ho⟩ := hwithin.of_same hsame hroot
  obtain ⟨hfinds, p, hp, hstored⟩ := Finds.of_same (t := Text.ofString "toJSON") hsame hfinds ho
  obtain ⟨f, w, e, c, rfl, hf⟩ := hv o q hwithin hfinds
  refine ⟨f, w, e, c, rfl, ?_⟩
  obtain ⟨x, hx, hk⟩ := exists_of_stored? hstored
  cases f with
  | object r =>
    have hr := hsame r (hp.refers (.property hx hk List.mem_cons_self))
    show (h'.object r).isCallable = false
    rw [hr]
    exact hf
  | _ => rfl

end Keep

end Heap

/-! ## 2. Single operations -/

section Writing

variable {bodies : Bodies} {m : Machine}

theorem getFor_data {o : ObjectId} {k : Key} {v : Value} {w e c : Bool}
    (hproperty : m.heap.getProperty? o k = some (.data v w e c)) (receiver : Value) :
    getFor o k receiver bodies m = .ok v m := by
  unfold getFor
  rw [getHeap_bind_run, hproperty]
  rfl

theorem getFor_absent {o : ObjectId} {k : Key} (hnone : m.heap.getProperty? o k = none) (receiver : Value) :
    getFor o k receiver bodies m = .ok .undefined m := by
  unfold getFor
  rw [getHeap_bind_run, hnone]
  rfl

/-- What is read is what is shown, unless it is the caller of a function. -/
theorem getFrom_shown {o : ObjectId} {k : Key} {v : Value}
    (hshown : (hidesCaller (m.heap.object o) && k.isNamed "caller") = false)
    (hv : getFor o k (.object o) bodies m = .ok v m) : getFrom o k bodies m = .ok v m := by
  unfold getFrom
  rw [bind_run_ok hv, getHeap_bind_run, hshown]
  rfl

theorem getFrom_plain {o : ObjectId} {k : Key} {v : Value} (ho : m.heap.IsPlain o)
    (hv : getFor o k (.object o) bodies m = .ok v m) : getFrom o k bodies m = .ok v m := by
  have hshown : hidesCaller (m.heap.object o) = false := by
    unfold hidesCaller
    rcases ho with ho | ho <;> rw [ho]
  exact getFrom_shown (by rw [hshown, Bool.false_and]) hv

theorem getFrom_data {o : ObjectId} {k : Key} {v : Value} {w e c : Bool} (ho : m.heap.IsPlain o)
    (hproperty : m.heap.getProperty? o k = some (.data v w e c)) : getFrom o k bodies m = .ok v m :=
  getFrom_plain ho (getFor_data hproperty _)

theorem getFrom_own {o : ObjectId} {k : Key} {v : Value} (ho : m.heap.IsPlain o) (hv : m.heap.HasOwn o k v) :
    getFrom o k bodies m = .ok v m := by
  obtain ⟨w, e, c, hget⟩ := hv
  exact getFrom_data ho (Heap.getProperty?_of_own hget)

variable (bodies) in
theorem getNamed_toJson {o : ObjectId} (ho : m.heap.IsPlain o) (hlacks : m.heap.LacksToJson (.object o)) :
    ∃ f, getNamed o "toJSON" bodies m = .ok f m ∧ m.heap.isCallable f = false := by
  cases hproperty : m.heap.getProperty? o (.ofString "toJSON") with
  | none => exact ⟨.undefined, getFrom_plain ho (getFor_absent hproperty _), rfl⟩
  | some q =>
    obtain ⟨f, w, e, c, rfl, hf⟩ := hlacks o q (.self o) (Heap.finds_of_getProperty? hproperty)
    exact ⟨f, getFrom_data ho hproperty, hf⟩

theorem holding_run {α : Type} {vs : List Value} {x : Run α} {a : α}
    (hx : x bodies { m with held := vs ++ m.held } = .ok a { m with held := vs ++ m.held }) :
    holding vs x bodies m = .ok a m :=
  (holding_ok hx).trans rfl

theorem nestedCall_run {α : Type} {x : Run α} {a : α} (hfree : m.callDepth < m.maxCallDepth)
    (hx : x bodies { m with callDepth := m.callDepth + 1 } = .ok a { m with callDepth := m.callDepth + 1 }) :
    nestedCall x bodies m = .ok a m := by
  unfold nestedCall
  exact (bind_run_ok (enterCall_free (Nat.not_le.mpr hfree)) _).trans ((leaving_ok hx).trans rfl)

theorem lengthOfArrayLike_run {o : ObjectId} {n : Nat} (hn : n < 2 ^ 32) (ho : m.heap.IsPlain o)
    (hlength : m.heap.HasOwn o .length (.ofNat n)) : lengthOfArrayLike o bodies m = .ok n m := by
  have hvalue : (Double.ofNat n).toUint32 = n := by
    unfold Double.toUint32 Double.modulo
    rw [Double.truncInt_ofNat (by omega)]
    omega
  have hget : getNamed o "length" bodies m = .ok (.ofNat n) m := getFrom_own ho hlength
  unfold lengthOfArrayLike
  rw [bind_run_ok hget]
  show EStateM.Result.ok (Double.ofNat n).toUint32 m = _
  rw [hvalue]

/-! ## 3. Written values -/

variable {s : Serializer}

theorem Heap.Shows.isPlain {h : Heap} {j : Json} {v : Value} (hj : h.Shows j v) (o : ObjectId)
    (hv : v = .object o) : h.IsPlain o := by
  subst hv
  rcases hj.of_object with ⟨_, _, hkind⟩ | ⟨_, _, hkind⟩
  · exact .inl hkind
  · exact .inr hkind

/-- The value of a property is written as it is. -/
theorem writtenValue_run (hs : s.replacer = none) {holder : ObjectId} {k : Key} {v : Value}
    (hholder : m.heap.IsPlain holder) (hown : m.heap.HasOwn holder k v)
    (hv : ∀ o, v = .object o → m.heap.IsPlain o) (hlacks : m.heap.LacksToJson v) :
    writtenValue s holder k bodies m = .ok v m := by
  unfold writtenValue
  rw [bind_run_ok (getFrom_own hholder hown), hs]
  cases v with
  | object o =>
    refine (bind_run_ok (holding_run ?_) _).trans rfl
    obtain ⟨f, hrun, hf⟩ :=
      getNamed_toJson bodies (m := { m with held := [.object o] ++ m.held }) (hv o rfl) hlacks
    rw [bind_run_ok hrun, getHeap_bind_run, hf]
    rfl
  | _ => rfl

theorem unwrapValue_run {v : Value} (hv : ∀ o, v = .object o → m.heap.IsPlain o) :
    unwrapValue v bodies m = .ok v m := by
  unfold unwrapValue
  cases v with
  | object o =>
    dsimp only
    rw [getHeap_bind_run]
    rcases hv o rfl with hkind | hkind <;> rw [hkind] <;> rfl
  | _ => rfl

/-- What is written for a value without inner structure. -/
def scalarText? : Value → Option Json.Written
  | .null => some ["null"]
  | .boolean b => some [if b then "true" else "false"]
  | .string t => some [Json.quote t]
  | .number x => some [if x.isFinite then x.toText else "null"]
  | _ => none

section Property

variable {holder : ObjectId} {k : Key} {n : Nat} {around : List ObjectId} {indent : Text}

theorem serialize_scalar {v : Value} (hwritten : writtenValue s holder k bodies m = .ok v m)
    (hv : ∀ o, v ≠ .object o) :
    serialize s (n + 1) around indent holder k bodies m = .ok (scalarText? v) m := by
  rw [serialize, bind_run_ok hwritten]
  refine holding_run ?_
  rw [bind_run_ok (unwrapValue_run fun o ho => absurd ho (hv o))]
  cases v with
  | object o => exact absurd rfl (hv o)
  | _ => rfl

/-- What is written for an array or an object, as one more nested call. -/
def serializeInside (s : Serializer) (n : Nat) (around : List ObjectId) (indent : Text) (o : ObjectId)
    (x : Object) (keys : List Key) : Run (Option Json.Written) := do
  let text := serialize s n (o :: around) (indent ++ s.gap) o
  if x.isArray then
    let texts ← itemTexts text (← lengthOfArrayLike o) 0 []
    return some (Json.layOut "[" "]" s.gap (indent ++ s.gap) indent texts)
  else
    let texts ← memberTexts s.gap text keys
    return some (Json.layOut "\x7b" "\x7d" s.gap (indent ++ s.gap) indent texts)

variable {o : ObjectId}

/-- An array or object that is not inside of itself is written with one more call under way. -/
theorem serialize_object (hnames : s.names = none)
    (hwritten : writtenValue s holder k bodies m = .ok (.object o) m) (ho : m.heap.IsPlain o)
    (hnew : o ∉ around) (hfree : m.callDepth < m.maxCallDepth) {r : Option Json.Written}
    (hinside : serializeInside s n around indent o (m.heap.object o) (m.heap.ownEnumerableKeys o) bodies
        { m with held := [.object o] ++ m.held, callDepth := m.callDepth + 1 } =
      .ok r { m with held := [.object o] ++ m.held, callDepth := m.callDepth + 1 }) :
    serialize s (n + 1) around indent holder k bodies m = .ok r m := by
  have hquiet : (m.heap.object o).isCallable = false := by
    unfold Object.isCallable
    rcases ho with ho | ho <;> rw [ho]
  have houtside : around.contains o = false := by
    rw [List.contains_eq_mem, decide_eq_false_iff_not]
    exact hnew
  rw [serialize, bind_run_ok hwritten]
  refine holding_run ?_
  rw [bind_run_ok (unwrapValue_run fun p hp => Value.object.inj hp ▸ ho)]
  dsimp only
  rw [getHeap_bind_run, hnames]
  dsimp only
  rw [hquiet, houtside]
  exact nestedCall_run hfree hinside

theorem serializeInside_array {x : Object} {keys : List Key} (hx : x.kind = .array) {length : Nat}
    (hlength : lengthOfArrayLike o bodies m = .ok length m) {ws : List Json.Written}
    (hitems : itemTexts (serialize s n (o :: around) (indent ++ s.gap) o) length 0 [] bodies m = .ok ws m) :
    serializeInside s n around indent o x keys bodies m =
      .ok (some (Json.layOut "[" "]" s.gap (indent ++ s.gap) indent ws)) m := by
  have hisArray : x.isArray = true := by
    unfold Object.isArray
    rw [hx]
  unfold serializeInside
  rw [if_pos hisArray, bind_run_ok hlength, bind_run_ok hitems]
  rfl

theorem serializeInside_record {x : Object} {keys : List Key} (hx : x.kind = .ordinary)
    {ws : List Json.Written}
    (hmembers :
      memberTexts s.gap (serialize s n (o :: around) (indent ++ s.gap) o) keys bodies m = .ok ws m) :
    serializeInside s n around indent o x keys bodies m =
      .ok (some (Json.layOut "\x7b" "\x7d" s.gap (indent ++ s.gap) indent ws)) m := by
  have hisArray : x.isArray ≠ true := by
    unfold Object.isArray
    rw [hx]
    exact Bool.false_ne_true
  unfold serializeInside
  rw [if_neg hisArray, bind_run_ok hmembers]
  rfl

end Property

/-! ## 4. Texts -/

/-- The objects show data that are nested deeper. -/
def Heap.ShowDeeper (h : Heap) (depth : Nat) (around : List ObjectId) : Prop :=
  ∀ o ∈ around, ∃ j, h.Shows j (.object o) ∧ depth < j.nesting

theorem Heap.ShowDeeper.mono {h : Heap} {depth depth' : Nat} {around : List ObjectId}
    (haround : h.ShowDeeper depth around) (hle : depth' ≤ depth) : h.ShowDeeper depth' around := by
  intro o ho
  obtain ⟨j, hj, hdeep⟩ := haround o ho
  exact ⟨j, hj, Nat.lt_of_le_of_lt hle hdeep⟩

/-- A value is not among objects that show deeper data. -/
theorem Heap.ShowDeeper.not_mem {h : Heap} {around : List ObjectId} {j : Json} {o : ObjectId}
    (haround : h.ShowDeeper j.nesting around) (hj : h.Shows j (.object o)) : o ∉ around := by
  intro ho
  obtain ⟨j', hj', hdeep⟩ := haround o ho
  rw [hj.unique j hj'] at hdeep
  exact Nat.lt_irrefl _ hdeep

theorem Heap.ShowDeeper.cons {h : Heap} {around : List ObjectId} {j : Json} {o : ObjectId} {depth : Nat}
    (haround : h.ShowDeeper j.nesting around) (hj : h.Shows j (.object o)) (hdepth : depth < j.nesting) :
    h.ShowDeeper depth (o :: around) :=
  List.forall_mem_cons.mpr ⟨⟨j, hj, hdepth⟩, haround.mono (Nat.le_of_lt hdepth)⟩

/-- A serializer writes everything as it is, with blanks in between. -/
structure Serializer.IsPlain (s : Serializer) : Prop where
  replacer : s.replacer = none
  names : s.names = none
  gap : Json.AreBlank s.gap.toList

theorem Json.areBlank_append {t u : Text} (ht : AreBlank t.toList) (hu : AreBlank u.toList) :
    AreBlank (t ++ u).toList := by
  have hunits : (t ++ u).toList = t.toList ++ u.toList := Array.toList_append
  rw [hunits]
  exact ht.append hu

variable (bodies) in
mutual

/-- **The text of a property spells what its value shows**, with numbers as they are read again. -/
theorem serialize_run (hs : s.IsPlain) : ∀ (j : Json) {m : Machine} {holder : ObjectId} {k : Key} {v : Value}
    {n : Nat} {around : List ObjectId} {indent : Text}, m.heap.Shows j v → m.heap.LacksToJson v →
    writtenValue s holder k bodies m = .ok v m → (∀ x ∈ j.numbers, x.isFinite = true) →
    m.heap.ShowDeeper j.nesting around → j.nesting ≤ n → j.nesting ≤ m.maxCallDepth - m.callDepth →
    Json.AreBlank indent.toList →
    ∃ w, serialize s (n + 1) around indent holder k bodies m = .ok (some w) m ∧ Json.Writes w j.reread
  | .null, m, holder, k, v, n, around, indent, hj, _, hwritten, _, _, _, _, _ => by
    rw [Heap.Shows] at hj
    subst hj
    rw [Json.reread]
    exact ⟨_, serialize_scalar hwritten nofun, Json.writes_null⟩
  | .boolean b, m, holder, k, v, n, around, indent, hj, _, hwritten, _, _, _, _, _ => by
    rw [Heap.Shows] at hj
    subst hj
    rw [Json.reread]
    exact ⟨_, serialize_scalar hwritten nofun, Json.writes_boolean b⟩
  | .string t, m, holder, k, v, n, around, indent, hj, _, hwritten, _, _, _, _, _ => by
    rw [Heap.Shows] at hj
    subst hj
    rw [Json.reread]
    exact ⟨_, serialize_scalar hwritten nofun, Json.writes_string t⟩
  | .number x, m, holder, k, v, n, around, indent, hj, _, hwritten, hfinite, _, _, _, _ => by
    rw [Heap.Shows] at hj
    subst hj
    rw [Json.numbers] at hfinite
    have hx := hfinite x List.mem_cons_self
    rw [Json.reread]
    refine ⟨_, ?_, Json.writes_number hx⟩
    rw [serialize_scalar hwritten nofun]
    unfold scalarText?
    dsimp only
    rw [if_pos hx]
  | .array items, m, holder, k, v, n, around, indent, hj, hlacks, hwritten, hfinite, haround, hfuel, hfree,
    hindent => by
    have hshown := hj
    rw [Heap.Shows] at hj
    obtain ⟨o, rfl, hkind, hshort, hlength, hitems⟩ := hj
    -- the objects around are not this one, since what they show is nested deeper
    have hnew := haround.not_mem hshown
    have haround' : m.heap.ShowDeeper (Json.nestingOfItems items) (o :: around) :=
      haround.cons hshown (by rw [Json.nesting]; omega)
    rw [Json.nesting] at hfuel hfree
    rw [Json.numbers] at hfinite
    obtain ⟨n, rfl⟩ : ∃ n', n = n' + 1 := ⟨n - 1, by omega⟩
    have hinner := Json.areBlank_append hindent hs.gap
    obtain ⟨ws, hrun, hws⟩ := itemTexts_run hs items []
      (m := { m with held := [.object o] ++ m.held, callDepth := m.callDepth + 1 }) (n := n)
      hitems (.inl hkind) hlacks hfinite haround' (by omega) (by dsimp only; omega) hinner
    rw [Json.reread]
    refine ⟨_, serialize_object hs.names hwritten (.inl hkind) hnew (by omega) ?_,
      Json.writes_array s.gap hinner hindent hws⟩
    refine serializeInside_array hkind ?_ hrun
    exact lengthOfArrayLike_run hshort (.inl hkind) hlength
  | .object members, m, holder, k, v, n, around, indent, hj, hlacks, hwritten, hfinite, haround, hfuel, hfree,
    hindent => by
    have hshown := hj
    rw [Heap.Shows] at hj
    obtain ⟨o, rfl, hkind, hkeys, hvisited, hmembers⟩ := hj
    have hnew := haround.not_mem hshown
    have haround' : m.heap.ShowDeeper (Json.nestingOfMembers members) (o :: around) :=
      haround.cons hshown (by rw [Json.nesting]; omega)
    rw [Json.nesting] at hfuel hfree
    rw [Json.numbers] at hfinite
    obtain ⟨n, rfl⟩ : ∃ n', n = n' + 1 := ⟨n - 1, by omega⟩
    have hinner := Json.areBlank_append hindent hs.gap
    obtain ⟨es, hrun, hes⟩ := memberTexts_run hs members
      (m := { m with held := [.object o] ++ m.held, callDepth := m.callDepth + 1 }) (n := n)
      hmembers (.inr hkind) hlacks hfinite haround' (by omega) (by dsimp only; omega) hinner
    rw [Json.reread]
    refine ⟨_, serialize_object hs.names hwritten (.inr hkind) hnew (by omega) ?_,
      Json.writes_object s.gap hinner hindent hes⟩
    rw [hvisited, hkeys]
    exact serializeInside_record hkind hrun
  | .broken _, m, holder, k, v, n, around, indent, hj, _, _, _, _, _, _, _ => by
    rw [Heap.Shows] at hj
    exact hj.elim

/-- The texts of elements spell the items that they show. -/
theorem itemTexts_run (hs : s.IsPlain) : ∀ (js : List Json) (acc : List Json.Written) {m : Machine}
    {o : ObjectId} {i n : Nat} {around : List ObjectId} {indent : Text}, m.heap.ShowsItems o js i →
    m.heap.IsPlain o → m.heap.LacksToJson (.object o) → (∀ x ∈ Json.numbersOfItems js, x.isFinite = true) →
    m.heap.ShowDeeper (Json.nestingOfItems js) around → Json.nestingOfItems js ≤ n →
    Json.nestingOfItems js ≤ m.maxCallDepth - m.callDepth → Json.AreBlank indent.toList →
    ∃ ws, itemTexts (serialize s (n + 1) around indent o) js.length i acc bodies m =
        .ok (acc.reverse ++ ws) m ∧
      List.Forall₂ Json.Writes ws (Json.rereadItems js)
  | [], acc, m, o, i, n, around, indent, _, _, _, _, _, _, _, _ => by
    rw [Json.rereadItems]
    refine ⟨[], ?_, .nil⟩
    rw [List.append_nil]
    rfl
  | j :: js, acc, m, o, i, n, around, indent, hj, ho, hlacks, hfinite, haround, hfuel, hfree, hindent => by
    rw [Heap.ShowsItems] at hj
    rw [Json.numbersOfItems, List.forall_mem_append] at hfinite
    rw [Json.nestingOfItems] at haround hfuel hfree
    obtain ⟨v, hown, hv, hmore⟩ := hj
    have hlacks' := hlacks.inner ho hown
    obtain ⟨w, hrun, hw⟩ := serialize_run hs j (n := n) hv hlacks'
      (writtenValue_run hs.replacer ho hown hv.isPlain hlacks') hfinite.1
      (haround.mono (Nat.le_max_left _ _)) (by omega) (by omega) hindent
    obtain ⟨ws, hruns, hws⟩ := itemTexts_run hs js (w :: acc) (n := n) hmore ho hlacks hfinite.2
      (haround.mono (Nat.le_max_right _ _)) (by omega) (by omega) hindent
    rw [Json.rereadItems]
    refine ⟨w :: ws, ?_, .cons hw hws⟩
    rw [List.length_cons, itemTexts, bind_run_ok hrun]
    refine hruns.trans ?_
    rw [List.reverse_cons, List.append_assoc]
    rfl

/-- The texts of members spell the members that they show. -/
theorem memberTexts_run (hs : s.IsPlain) : ∀ (js : List (Text × Json)) {m : Machine} {o : ObjectId} {n : Nat}
    {around : List ObjectId} {indent : Text}, m.heap.ShowsMembers o js →
    m.heap.IsPlain o → m.heap.LacksToJson (.object o) → (∀ x ∈ Json.numbersOfMembers js, x.isFinite = true) →
    m.heap.ShowDeeper (Json.nestingOfMembers js) around → Json.nestingOfMembers js ≤ n →
    Json.nestingOfMembers js ≤ m.maxCallDepth - m.callDepth → Json.AreBlank indent.toList →
    ∃ es : List (Text × Json.Written),
      memberTexts s.gap (serialize s (n + 1) around indent o) ((js.map (·.1)).map .ofText) bodies m =
        .ok (es.map fun e => Json.member s.gap e.1 e.2) m ∧
      List.Forall₂ Json.WritesMember es (Json.rereadMembers js)
  | [], m, o, n, around, indent, _, _, _, _, _, _, _, _ => by
    rw [Json.rereadMembers]
    exact ⟨[], rfl, .nil⟩
  | (name, j) :: js, m, o, n, around, indent, hj, ho, hlacks, hfinite, haround, hfuel, hfree, hindent => by
    rw [Heap.ShowsMembers] at hj
    rw [Json.numbersOfMembers, List.forall_mem_append] at hfinite
    rw [Json.nestingOfMembers] at haround hfuel hfree
    obtain ⟨v, hown, hv, hmore⟩ := hj
    have hlacks' := hlacks.inner ho hown
    obtain ⟨w, hrun, hw⟩ := serialize_run hs j (n := n) hv hlacks'
      (writtenValue_run hs.replacer ho hown hv.isPlain hlacks') hfinite.1
      (haround.mono (Nat.le_max_left _ _)) (by omega) (by omega) hindent
    obtain ⟨es, hruns, hes⟩ := memberTexts_run hs js (n := n) hmore ho hlacks hfinite.2
      (haround.mono (Nat.le_max_right _ _)) (by omega) (by omega) hindent
    rw [Json.rereadMembers]
    refine ⟨(name, w) :: es, ?_, .cons ⟨rfl, hw⟩ hes⟩
    rw [List.map_cons, List.map_cons, memberTexts, bind_run_ok hrun]
    dsimp only
    rw [bind_run_ok hruns, Key.toText_ofText]
    rfl

end

end Writing

/-! ## 5. There and back -/

/-- **A value is written as a text that spells what it shows.** Only an object around it is made. -/
theorem stringifyJson_run (bodies : Bodies) {m : Machine} {s : Serializer} {j : Json} {v : Value}
    (hlimit : m.heapLimit = none)
    (hmade : ∀ o, m.heap.InUse m.roots [] (Heap.objectNode o) → o < m.heap.nextObject)
    (hroot : ∀ o, v = .object o → Heap.objectNode o ∈ m.roots) (hs : s.IsPlain) (hj : m.heap.Shows j v)
    (hlacks : m.heap.LacksToJson v) (hfinite : ∀ x ∈ j.numbers, x.isFinite = true)
    (hdeep : j.nesting ≤ m.maxCallDepth - m.callDepth) :
    ∃ w m', stringifyJson s v bodies m = .ok (some (Text.concat w)) m' ∧ m.Rests m' ∧
      Json.Writes w j.reread := by
  obtain ⟨m₁, hnew, hrest, _, _, hobject, hkept⟩ :=
    newObjectOf_makes bodies hlimit (.ordinary (some Intrinsic.objectPrototype.id))
  obtain ⟨h', x', hcreate, _, _, hobject', hx', hothers⟩ := createData_run bodies hobject .nil .empty v
  have hsame (o : ObjectId) (ho : m.heap.InUse m.roots [] (Heap.objectNode o)) :
      h'.object o = m.heap.object o := by
    have hne := Nat.ne_of_lt (hmade o ho)
    unfold Heap.object
    rw [Std.TreeMap.getD_eq_getD_getElem?, Std.TreeMap.getD_eq_getD_getElem?, hothers o hne, hkept o ho hne]
  have hroot' (o : ObjectId) (ho : v = .object o) : m.heap.InUse m.roots [] (Heap.objectNode o) :=
    .outside (hroot o ho)
  have hj' : h'.Shows j v := hj.keep (m.heap.spreads_inUse m.roots []) hsame j hroot'
  have hlacks' : h'.LacksToJson v := hlacks.keep hsame hroot'
  -- the object around the value has it under the empty name
  have hwrapper := Heap.object_of_getElem? hobject'
  have hplain : h'.IsPlain m.heap.nextObject := .inr (by rw [hwrapper, hx'.kind])
  have hown : h'.HasOwn m.heap.nextObject (.name .empty) v := by
    refine ⟨true, true, true, ?_⟩
    rw [hplain.getOwn?]
    unfold Heap.stored?
    rw [hwrapper]
    exact hx'.get? .empty
  have hdeep' : j.nesting ≤ m₁.maxCallDepth - m₁.callDepth := by
    rw [hrest]
    exact hdeep
  have hindent : Json.AreBlank Text.empty.toList := List.forall_mem_nil _
  obtain ⟨w, hrun, hw⟩ := serialize_run bodies hs j
    (m := { m₁ with heap := h', held := [.object m.heap.nextObject] ++ m₁.held })
    (n := m₁.maxCallDepth - m₁.callDepth) hj' hlacks'
    (writtenValue_run hs.replacer hplain hown hj'.isPlain hlacks') hfinite (List.forall_mem_nil _) hdeep'
    hdeep' hindent
  refine ⟨w, { m₁ with heap := h' }, ?_, hrest.trans rfl, hw⟩
  unfold stringifyJson
  refine (bind_run_ok hnew _).trans ((bind_run_ok hcreate _).trans ?_)
  rw [get_bind_run, bind_run_ok (holding_run hrun)]
  rfl

namespace Json

mutual

theorem isOrdered_reread : ∀ (j : Json), j.IsOrdered → j.reread.IsOrdered
  | .null, _ | .boolean _, _ | .number _, _ | .string _, _ | .broken _, _ => by
    rw [reread, IsOrdered]
    trivial
  | .array items, h => by
    rw [IsOrdered] at h
    rw [reread, IsOrdered, length_rereadItems]
    exact ⟨h.1, areOrdered_reread items h.2⟩
  | .object members, h => by
    rw [IsOrdered] at h
    rw [reread, IsOrdered, names_rereadMembers]
    exact ⟨h.1, membersOrdered_reread members h.2⟩

theorem areOrdered_reread : ∀ (js : List Json), AreOrdered js → AreOrdered (rereadItems js)
  | [], _ => by
    rw [rereadItems, AreOrdered]
    trivial
  | j :: js, h => by
    rw [AreOrdered] at h
    rw [rereadItems, AreOrdered]
    exact ⟨isOrdered_reread j h.1, areOrdered_reread js h.2⟩

theorem membersOrdered_reread : ∀ (js : List (Text × Json)), MembersOrdered js →
    MembersOrdered (rereadMembers js)
  | [], _ => by
    rw [rereadMembers, MembersOrdered]
    trivial
  | (name, j) :: js, h => by
    rw [MembersOrdered] at h
    rw [rereadMembers, MembersOrdered]
    exact ⟨isOrdered_reread j h.1, membersOrdered_reread js h.2⟩

end

theorem Writes.isText {w : Written} {j : Json} (hw : Writes w j) : IsText (Text.concat w).toList j := by
  refine ⟨_, [], .none, ?_, .none⟩
  rw [← List.append_nil (Text.concat w).toList]
  exact hw []

end Json

/-- An argument that asks for blanks between the parts of a text: a number, or a text of blanks. -/
def Value.IsBlankSpace (space : Value) : Prop :=
  (∃ x, space = .number x) ∨ ∃ t, space = .string t ∧ Json.AreBlank t.toList

theorem Serializer.ofArguments_run (bodies : Bodies) (m : Machine) {space : Value}
    (hspace : space.IsBlankSpace) :
    ∃ s : Serializer, Serializer.ofArguments .undefined space bodies m = .ok s m ∧ s.IsPlain := by
  refine ⟨⟨none, none, m.heap.gapOf space⟩, rfl, rfl, rfl, ?_⟩
  obtain ⟨x, rfl⟩ | ⟨t, rfl, ht⟩ := hspace
  · exact Json.areBlank_spaces _
  · exact Json.areBlank_take ht _

/-- **Parsing undoes stringifying.** Without a limit on the heap, for every value that shows data of any
shape, if their nesting fits the depth that is left and none of its objects has a function `toJSON`, and for
every number or blank text as the space between the parts: there is a text, and its value shows equal data,
with the members of every object in the same order. All that is assumed of the numbers is that each is equal
to what its own text is read as. The machine refers to the value, and only to objects that have been made. -/
theorem json_roundTrip (bodies : Bodies) (m : Machine) (j : Json) (v space : Value)
    (hlimit : m.heapLimit = none)
    (hmade : ∀ o, m.heap.InUse m.roots [] (Heap.objectNode o) → o < m.heap.nextObject)
    (hroot : ∀ o, v = .object o → Heap.objectNode o ∈ m.roots)
    (hshows : m.heap.Shows j v)
    (hfinite : ∀ x ∈ j.numbers, x.isFinite = true)
    (hnumbers : ∀ x ∈ j.numbers, (Double.ofText x.toText).eq x = true)
    (hlacks : m.heap.LacksToJson v)
    (hdeep : j.nesting ≤ m.maxCallDepth - m.callDepth)
    (hspace : space.IsBlankSpace) :
    ∃ t m' v' m'' j',
      jsonFunction .stringify [v, .undefined, space] bodies m = .ok (.string t) m' ∧
      parseJson t bodies m' = .ok v' m'' ∧ m''.heap.Shows j' v' ∧ j.Equals j' := by
  obtain ⟨s, hserializer, hs⟩ := Serializer.ofArguments_run bodies m hspace
  obtain ⟨w, m', hwrite, hrest, hw⟩ :=
    stringifyJson_run bodies hlimit hmade hroot hs hshows hlacks hfinite hdeep
  have hdeep' : j.reread.nesting ≤ m'.maxCallDepth - m'.callDepth := by
    rw [Json.nesting_reread, hrest]
    exact hdeep
  obtain ⟨v', m'', hparse, hholds⟩ :=
    parseJson_of_isText bodies (hrest.heapLimit.trans hlimit) hw.isText hdeep'
  have hordered := Json.isOrdered_reread j (hshows.isOrdered j)
  refine ⟨Text.concat w, m', v', m'', j.reread, ?_, hparse, hholds.shows j.reread hordered,
    Json.equals_reread j hnumbers⟩
  unfold jsonFunction
  refine (bind_run_ok hserializer _).trans ((bind_run_ok hwrite _).trans ?_)
  rfl

namespace Sample

/-- An array of a truth value and negative zero. -/
def array : Object := arrayOf [.boolean true, .number (.finite true .zero)]

/-- An object with the array at an index, and with a name. -/
def record : Object :=
  ((Object.ordinary (some Intrinsic.objectPrototype.id)).withProperty (.ofText "1")
    (.plain (.object 18))).withProperty (.ofText "b") (.plain .null)

/-- A machine that works with the object. -/
def machine : Machine :=
  { Machine.start {} with heap := ((Heap.skeleton.add record).1.add array).1, held := [.object 17] }

/-- What the object shows. -/
def data : Json := .object [("1", .array [.boolean true, .number (.finite true .zero)]), ("b", .null)]

theorem made_machine {n : Nat} (hn : machine.heap.InUse machine.roots [] n) : n < 38 := by
  have houtside : ∀ n ∈ machine.roots, n < 38 := by decide
  have hrefers : ∀ e ∈ machine.heap.references.toList, ∀ n ∈ e.2, n < 38 := by decide
  exact Heap.lt_of_inUse houtside hrefers hn

theorem shows_machine : machine.heap.Shows data (.object 17) := by
  unfold data
  simp only [Heap.Shows, Heap.ShowsMembers, Heap.ShowsItems]
  refine ⟨17, rfl, rfl, by decide, by decide, .object 18, ?_, ⟨18, rfl, rfl, by decide, ?_, ?_⟩, ?_⟩
  · exact ⟨true, true, true, rfl⟩
  · exact ⟨true, false, false, rfl⟩
  · exact ⟨_, ⟨true, true, true, rfl⟩, rfl, _, ⟨true, true, true, rfl⟩, rfl, trivial⟩
  · exact ⟨_, ⟨true, true, true, rfl⟩, rfl, trivial⟩

theorem lacksToJson_machine : machine.heap.LacksToJson (.object 17) := by
  have hlacks : ∀ e ∈ machine.heap.objects.toList, e.2.properties.get? (.name "toJSON") = none := by decide
  have hnone {o : ObjectId} {q : Property} (hq : machine.heap.Finds (.ofString "toJSON") o q) : False := by
    induction hq with
    | own hget =>
      obtain ⟨x, hx, hk⟩ := Heap.exists_of_stored? ((Heap.getOwn?_name _ _ _).symm.trans hget)
      have hempty := hlacks _ (Std.TreeMap.mem_toList_iff_getElem?_eq_some.mpr hx)
      exact absurd (hempty.symm.trans hk) nofun
    | inherited _ _ _ ih => exact ih
  exact fun o q _ hq => (hnone hq).elim

end Sample

/-- An object around an array, with an index before a name, comes back; negative zero as zero. -/
theorem json_roundTrip_sample :
    Sample.machine.heap.Shows Sample.data (.object 17) ∧
    ∃ t m' v' m'' j',
      jsonFunction .stringify [.object 17, .undefined, .number 2] (bodiesAt 0) Sample.machine =
        .ok (.string t) m' ∧
      parseJson t (bodiesAt 0) m' = .ok v' m'' ∧ m''.heap.Shows j' v' ∧ Sample.data.Equals j' := by
  have hnumbers : Sample.data.numbers = [.finite true .zero] := by
    simp [Sample.data, Json.numbers, Json.numbersOfMembers, Json.numbersOfItems]
  refine ⟨Sample.shows_machine, json_roundTrip (bodiesAt 0) Sample.machine Sample.data (.object 17) (.number 2)
    rfl ?_ ?_ Sample.shows_machine ?_ ?_ Sample.lacksToJson_machine (by decide) (.inl ⟨2, rfl⟩)⟩
  · intro o ho
    have hlt : 2 * o < 2 * 19 := Sample.made_machine ho
    exact Nat.lt_of_mul_lt_mul_left hlt
  · rintro o ⟨⟩
    exact Machine.mem_roots_of_held List.mem_cons_self
  · rw [hnumbers]
    decide
  · rw [hnumbers]
    decide

end Ecma51
