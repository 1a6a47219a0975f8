import Ecma51.Proofs.ArrayLength
import Ecma51.Proofs.Lifetime

/-!
# Arrays in all machines

In every machine that arises, every array has a length in range that cannot be enumerated or removed. The
length is above every index, too, with two exceptions: the elements have outrun a new length, because the
conversion of the value that gives it made the array longer; or the array was made with more elements
than 32 bits count. An array that is not sound has not been sound since one of these happened.

* `Heap.SoundArray`: the object is a sound array.
* `Heap.Lapse`: a change by which an array ceases to be sound.
* `Heap.Lapsed`: that happened, and the array has not been sound since.
* **`arrays_sound`**: arrays are sound unless they have lapsed, and what exactly setting a length does.
-/

namespace Ecma51

namespace Heap

variable {bound : ObjectId} {kept : List Value} {found : ObjectId → Nat × Bool} {h h' : Heap}
  {o : ObjectId}

/-! ## 1. What a change does to an array -/

/-- What a change of the heap does to an array. -/
inductive ArrayEdit (found : ObjectId → Nat × Bool) (o : ObjectId) (h : Heap) : Heap → Prop where
  /-- The array is made. -/
  | add {x : Object} : x.Made → x.kind = .array → h.nextObject = o → ArrayEdit found o h (h.add x).1
  /-- Neither length nor elements are concerned. -/
  | same {h' : Heap} : (h.object o).kind = .array → (h.object o).SameElements (h'.object o) →
      ArrayEdit found o h h'
  | define (k : Key) (d : Descriptor) : (h.object o).kind = .array →
      lengthValue? (h.object o) k d = none → ArrayEdit found o h (h.define o k d).heap
  | setLength (d : Descriptor) (newLength : Nat) : (h.object o).kind = .array → newLength < 2 ^ 32 →
      ArrayEdit found o h (h.setLength o d newLength (found o).1 (found o).2).heap
  | delete (k : Key) : (h.object o).kind = .array → ArrayEdit found o h (h.deleteOwn o k).heap

theorem Amends.array (ha : Amends o h h') (hkind : (h'.object o).kind = .array) :
    (h.object o).kind = .array := by
  have halike := ha.alike
  rw [hkind] at halike
  generalize (h.object o).kind = k at halike
  cases halike
  rfl

theorem ArrayEdit.of_eq (hsame : h'.object o = h.object o) (hkind : (h'.object o).kind = .array) :
    ArrayEdit found o h h' := by
  rw [hsame] at hkind
  refine .same hkind fun k _ => ?_
  rw [hsame]

theorem ArrayEdit.of_sameElements (hsame : (h'.object o).kind = (h.object o).kind)
    (helements : (h.object o).SameElements (h'.object o)) (hkind : (h'.object o).kind = .array) :
    ArrayEdit found o h h' := .same (hsame.symm.trans hkind) helements

/-- A change of another object. -/
theorem ArrayEdit.of_touches {o' : ObjectId} (ht : Touches o' h h') (ho : o ≠ o')
    (hkind : (h'.object o).kind = .array) : ArrayEdit found o h h' := .of_eq (ht.other o ho) hkind

/-- **Whatever the change, this is what it does to what is an array afterwards.** -/
theorem Edit.onArray (he : Edit bound kept found h h') (hkind : (h'.object o).kind = .array) :
    ArrayEdit found o h h' := by
  cases he with
  | add hx =>
    by_cases ho : h.nextObject = o
    · rw [object_add, if_pos ho] at hkind
      exact .add hx hkind ho
    · exact .of_eq ((object_add h _ o).trans (if_neg ho)) hkind
  | environments hsame => exact .of_eq (object_of_objects hsame.objects o) hkind
  | define o' k d hd =>
    by_cases ho : o = o'
    · subst ho
      exact .define k d ((amends_define h o k d).array hkind) hd
    · exact .of_touches (touches_define h o' k d) ho hkind
  | setLength o' d n hn =>
    by_cases ho : o = o'
    · subst ho
      exact .setLength d n ((amends_setLength h o d n _ _).array hkind) hn
    · exact .of_touches (amends_setLength h o' d n _ _).touches ho hkind
  | delete o' k =>
    by_cases ho : o = o'
    · subst ho
      exact .delete k (Amends.array (.single (.delete k)) hkind)
    · exact .of_touches (touches_deleteOwn h o' k) ho hkind
  | close o' =>
    by_cases ho : o = o'
    · subst ho
      have hclosed : (h.preventExtensions o).object o = { h.object o with extensible := false } :=
        object_modify_self h o _
      exact .of_sameElements (by rw [hclosed]) (fun k _ => by rw [hclosed]) hkind
    · exact .of_touches (touches_modify h o' _) ho hkind
  | setPrototype o' p hp =>
    obtain ⟨ht, hobject⟩ := touches_setPrototype hp
    by_cases ho : o = o'
    · subst ho
      rcases hobject with hsame | ⟨hset, _⟩
      · exact .of_eq hsame hkind
      · exact .of_sameElements (by rw [hset]) (fun k _ => by rw [hset]) hkind
    · exact .of_touches ht ho hkind
  | link o' i name ha _ =>
    by_cases ho : o = o'
    · subst ho
      rw [object_modify_self] at hkind
      cases hkind
    · exact .of_touches (touches_modify h o' _) ho hkind
  | setTime o' t _ =>
    by_cases ho : o = o'
    · subst ho
      rw [object_modify_self] at hkind
      cases hkind
    · exact .of_touches (touches_modify h o' _) ho hkind
  | complete o' f _ hf =>
    by_cases ho : o = o'
    · subst ho
      refine .of_sameElements ?_ ?_ hkind
      · rw [object_modify_self]
        exact hf.kind
      · rw [object_modify_self]
        exact hf.elements
    · exact .of_touches (touches_modify h o' f) ho hkind
  | collect outside _ =>
    rcases h.object_collect outside [] o with hsame | ⟨hgone, _⟩
    · exact .of_eq hsame hkind
    · rw [hgone] at hkind
      cases hkind

/-! ## 2. Every array has a length -/

theorem ArrayEdit.hasLength (he : ArrayEdit found o h h')
    (hx : (h.object o).kind = .array → (h.object o).HasLength) : (h'.object o).HasLength := by
  cases he with
  | @add x hmade hkind ho =>
    obtain ⟨n, w, hn, hlength, _⟩ := hmade.array hkind
    rw [object_add, if_pos ho]
    exact ⟨n, w, hn, hlength⟩
  | same hkind hsame => exact hsame.hasLength (hx hkind)
  | define k d hkind hd => exact hasLength_define hkind (hx hkind) hd
  | setLength d n hkind hn => exact hasLength_setLength hkind (hx hkind) d hn _ _
  | delete k hkind => exact (shrinks_deleteOwn hkind (hx hkind) k).1.hasLength (hx hkind)

theorem kind_empty (o : ObjectId) : (Heap.empty.object o).kind ≠ .array := Kind.noConfusion

theorem Evolves.hasLength (he : Evolves bound kept h h')
    (hx : (h.object o).kind = .array → (h.object o).HasLength) (hkind : (h'.object o).kind = .array) :
    (h'.object o).HasLength := by
  induction he with
  | refl => exact hx hkind
  | tail _ _ hstep ih ih' => exact (hstep.onArray hkind).hasLength (ih' (ih hx))

/-! ## 3. Sound arrays and lapses -/

/-- The object is a sound array: its length is a value in range that cannot be enumerated or removed, and
every index is below. -/
structure SoundArray (h : Heap) (o : ObjectId) : Prop where
  kind : (h.object o).kind = .array
  length : ∃ n w, n < 2 ^ 32 ∧ h.getOwn? o .length = some (.data (.ofNat n) w false false) ∧
    ∀ i : ArrayIndex, (h.getOwn? o (.index i)).isSome → i.val < n

theorem soundArray_iff (hkind : (h.object o).kind = .array) :
    h.SoundArray o ↔ (h.object o).Sound := by
  constructor
  · rintro ⟨_, n, w, hn, hlength, hbelow⟩
    rw [getOwn?_of_array hkind] at hlength
    refine ⟨n, w, hn, hlength, fun i hi => hbelow i ?_⟩
    rw [getOwn?_of_array hkind]
    exact hi
  · rintro ⟨n, w, hn, hlength, hbelow⟩
    refine ⟨hkind, n, w, hn, (getOwn?_of_array hkind _).trans hlength, fun i hi => hbelow i ?_⟩
    rw [← getOwn?_of_array hkind]
    exact hi

theorem SoundArray.sound (hs : h.SoundArray o) : (h.object o).Sound := (soundArray_iff hs.kind).mp hs

/-- A change by which an array may cease to be sound, or is not sound from the start. -/
inductive Lapse (found : ObjectId → Nat × Bool) (o : ObjectId) (h : Heap) : Heap → Prop where
  /-- A new length is outrun by the elements of a sound array. -/
  | outrun {d : Descriptor} {newLength : Nat} : h.SoundArray o → newLength < 2 ^ 32 →
      h.Outrun o d newLength (found o).1 →
      Lapse found o h (h.setLength o d newLength (found o).1 (found o).2).heap
  /-- An array is made with more elements than 32 bits count. -/
  | oversize {x : Object} : h.nextObject = o → x.kind = .array → x.Oversize →
      Lapse found o h (h.add x).1

/-- The object is an array that is not sound. -/
def Unsound (o : ObjectId) (h : Heap) : Prop := (h.object o).kind = .array ∧ ¬ h.SoundArray o

/-- On the way from the empty heap, lengths were found, the heap evolved, and there was a lapse; since
then the array has been unsound all the time. -/
def Lapsed (h : Heap) (o : ObjectId) : Prop :=
  ∃ h₀ h₁ h₂, Evolves 0 [] Heap.empty h₀ ∧ Evolves 0 [] h₀ h₁ ∧ Lapse h₀.lengthOf o h₁ h₂ ∧
    Unsound o h₂ ∧
    Relation.ReflTransGen (fun h h' => (∃ found, Edit 0 [] found h h') ∧ Unsound o h') h₂ h

theorem Lapsed.unsound (hl : h.Lapsed o) : Unsound o h := by
  obtain ⟨h₀, h₁, h₂, _, _, _, hunsound, hsince⟩ := hl
  induction hsince with
  | refl => exact hunsound
  | tail _ hstep _ => exact hstep.2

theorem Lapsed.tail (hl : h.Lapsed o) (hstep : Edit 0 [] found h h') (hunsound : Unsound o h') :
    h'.Lapsed o := by
  obtain ⟨h₀, h₁, h₂, hto, hwindow, hlapse, hstart, hsince⟩ := hl
  exact ⟨h₀, h₁, h₂, hto, hwindow, hlapse, hstart, hsince.tail ⟨⟨found, hstep⟩, hunsound⟩⟩

/-- **What was sound before a change and is not afterwards has lapsed.** -/
theorem ArrayEdit.lapse (he : ArrayEdit found o h h') (hunsound : Unsound o h') :
    Unsound o h ∨ Lapse found o h h' := by
  obtain ⟨hkind', hnot⟩ := hunsound
  rw [soundArray_iff hkind'] at hnot
  have hbefore (hkind : (h.object o).kind = .array) (hx : (h.object o).Sound → (h'.object o).Sound) :
      Unsound o h := ⟨hkind, fun hs => hnot (hx hs.sound)⟩
  cases he with
  | @add x hmade hkind ho =>
    obtain ⟨n, w, hn, hx, hbelow | hoversize⟩ := hmade.array hkind
    · refine absurd ⟨n, w, hn, ?_⟩ hnot
      rw [object_add, if_pos ho]
      exact ⟨hx, hbelow⟩
    · exact .inr (.oversize ho hkind hoversize)
  | same hkind hsame => exact .inl (hbefore hkind hsame.sound)
  | define k d hkind hd => exact .inl (hbefore hkind fun hx => sound_define hkind hx hd)
  | delete k hkind =>
    exact .inl (hbefore hkind fun hx => (shrinks_deleteOwn hkind hx.hasLength k).1.sound hx)
  | setLength d n hkind hn =>
    by_cases hs : h.SoundArray o
    · rw [sound_setLength_iff hkind hs.sound d hn] at hnot
      exact .inr (.outrun hs hn (Classical.not_not.mp hnot))
    · exact .inl ⟨hkind, hs⟩

/-- The heap has evolved from the empty one, and if the array is unsound in it, it has lapsed. -/
def Explained (o : ObjectId) (h : Heap) : Prop :=
  Evolves 0 [] Heap.empty h ∧ (Unsound o h → h.Lapsed o)

theorem Evolves.explained (he : Evolves 0 [] h h') (hx : Explained o h) : Explained o h' := by
  induction he with
  | refl => exact hx
  | tail hto hwindow hstep ih ih' =>
    obtain ⟨hempty₀, _⟩ := ih hx
    obtain ⟨_, hlapsed₁⟩ := ih' (ih hx)
    refine ⟨.tail hempty₀ hwindow hstep, fun hunsound => ?_⟩
    rcases (hstep.onArray hunsound.1).lapse hunsound with hbefore | hlapse
    · exact (hlapsed₁ hbefore).tail hstep hunsound
    · exact ⟨_, _, _, hempty₀, hwindow, hlapse, hunsound, .refl⟩

theorem soundArray_iff_not_lapsed (he : Evolves 0 [] Heap.empty h)
    (hkind : (h.object o).kind = .array) : h.SoundArray o ↔ ¬ h.Lapsed o := by
  have hempty : Explained o Heap.empty := ⟨.refl, fun hunsound => absurd hunsound.1 (kind_empty o)⟩
  constructor
  · exact fun hs hl => hl.unsound.2 hs
  · exact fun hnot => Classical.byContradiction fun hs => hnot ((he.explained hempty).2 ⟨hkind, hs⟩)

end Heap

/-! ## 4. Setting a length in a machine -/

theorem heap_holding {α : Type} (vs : List Value) (x : Run α) (bodies : Bodies) (m : Machine) :
    (endOf (holding vs x bodies m)).heap = (endOf (x bodies { m with held := vs ++ m.held })).heap := by
  unfold holding
  cases x bodies { m with held := vs ++ m.held } <;> rfl

/-- The length is set in the heap that the conversion leaves, given the length from before. -/
theorem heap_defineOwn_length {m m' : Machine} {o : ObjectId} (hkind : (m.heap.object o).kind = .array)
    {bodies : Bodies} {d : Descriptor} {v : Value} {n : Nat} (throws : Bool) (hv : d.value = some v)
    (hn : toLength v bodies { m with held := [.object o, v] ++ m.held } = .ok n m') :
    (endOf (defineOwn o .length d throws bodies m)).heap =
      (m'.heap.setLength o d n (m.heap.lengthOf o).1 (m.heap.lengthOf o).2).heap := by
  have hlength : lengthValue? (m.heap.object o) .length d = some v := by
    unfold lengthValue? Object.isArray
    rw [hkind]
    exact hv
  unfold defineOwn
  rw [getHeap_bind_run, hlength]
  dsimp only
  rw [heap_holding]
  unfold defineLength
  rw [getHeap_bind_run]
  dsimp only
  rw [bind_run_ok hn, getHeap_bind_run, endOf_settle]

/-- **Arrays are sound unless they have lapsed.** In every machine that arises, an array has a length in
range that cannot be enumerated or removed; it is sound if and only if it has not lapsed; and if it is
sound when a value has been converted to its new length, it is so afterwards if and only if the length is
not outrun, for which the conversion must have made it longer. -/
theorem arrays_sound {m : Machine} (hm : m.Reachable) {o : ObjectId}
    (ho : (m.heap.object o).kind = .array) :
    (∃ n w, n < 2 ^ 32 ∧ m.heap.getOwn? o .length = some (.data (.ofNat n) w false false)) ∧
    (m.heap.SoundArray o ↔ ¬ m.heap.Lapsed o) ∧
    ∀ (bodies : Bodies) (d : Descriptor) (v : Value) (n : Nat) (throws : Bool) (m' : Machine),
      d.value = some v →
      toLength v bodies { m with held := [.object o, v] ++ m.held } = .ok n m' →
      m'.heap.SoundArray o →
      ((endOf (defineOwn o .length d throws bodies m)).heap.SoundArray o ↔
        ¬ m'.heap.Outrun o d n (m.heap.lengthOf o).1) ∧
      (m'.heap.Outrun o d n (m.heap.lengthOf o).1 →
        (m.heap.lengthOf o).1 < (m'.heap.lengthOf o).1) := by
  refine ⟨?_, Heap.soundArray_iff_not_lapsed hm.evolves ho, ?_⟩
  · obtain ⟨n, w, hn, hlength⟩ := hm.evolves.hasLength (fun hkind => absurd hkind (Heap.kind_empty o)) ho
    exact ⟨n, w, hn, (Heap.getOwn?_of_array ho _).trans hlength⟩
  · intro bodies d v n throws m' hv hn hs
    refine ⟨?_, Heap.Outrun.longer hs.kind hs.sound⟩
    rw [heap_defineOwn_length ho throws hv hn, ← Heap.sound_setLength_iff hs.kind hs.sound d
      (toLength_lt hn) (m.heap.lengthOf o).1 (m.heap.lengthOf o).2]
    refine Heap.soundArray_iff ?_
    exact ((Heap.amends_setLength m'.heap o d n _ _).alike.eq
      (by rw [hs.kind]; exact fun _ => Kind.noConfusion)).trans hs.kind

/-- Assigns to the length of an empty array an object whose conversion to 2 puts an element at 5. -/
def outrunningProgram : Tree :=
  let array : Tree := .apply (.getName (.ofString "a")) []
  let number (n : Nat) : Tree := .literal (.ofNat n)
  let longer : Tree := .apply .setElement [array, number 5, number 1]
  let conversion : Tree := .function ⟨[], false, false⟩ [longer, .leave (number 2)]
  .sequence [
    .declareAs (.ofString "a") (.apply .array []),
    .apply (.setMember (.ofString "length"))
      [array, .object [.literal (.string (.ofString "valueOf")), conversion]]]

/-- The machine after that program. -/
def outrunMachine : Machine :=
  endOf ((Action.runGlobal (.ofTree outrunningProgram false)).run.perform (.start {}))

/-- The array, which is the first new object, has lapsed. -/
theorem arrays_sound_outrun :
    outrunMachine.Reachable ∧ outrunMachine.heap.Lapsed Heap.skeleton.nextObject := by
  have hm : outrunMachine.Reachable := .act _ (.start {})
  have hkind : (outrunMachine.heap.object Heap.skeleton.nextObject).isArray = true := by
    decide +kernel
  have hlength : outrunMachine.heap.getOwn? Heap.skeleton.nextObject .length =
      some (.data (.ofNat 2) true false false) := by decide +kernel
  have helement : (outrunMachine.heap.getOwn? Heap.skeleton.nextObject
      (.index ⟨5, by decide⟩)).isSome = true := by decide +kernel
  refine ⟨hm, Classical.byContradiction fun hnot => ?_⟩
  obtain ⟨_, n, w, hn, hlength', hbelow⟩ :=
    (arrays_sound hm (Object.kind_of_isArray hkind)).2.1.mpr hnot
  have hsame := (Property.data.inj (Option.some.inj (hlength'.symm.trans hlength))).1
  have hlt : 5 < n := hbelow ⟨5, by decide⟩ helement
  rw [Value.eq_of_ofNat_eq hn (by decide) hsame] at hlt
  exact absurd hlt (by decide)

end Ecma51
