import Mathlib.Data.List.Dedup
import Ecma51.Proofs.Activation
import Ecma51.Proofs.Enumeration
import Ecma51.Proofs.Settling

/-!
# The order of own keys

Which names an object lists first depends on its history: a name that is created comes last, and keeps its
place until it is deleted. One operation creates at most one name, so the whole order can be read off the
names that were created in the course of a history, of which each counts where it was created last.

* `Gains`, `Follows`: what one operation does to the names.
* `Writes`, `Chronicle`: definitions and assignments, and histories of them and of deletions.
* `creations`: the names that were created in the course of a history.
* **`Chronicle.ownNames_eq`**: names are in the order in which they were created last.
* **`ownKeys_exact`**: which own keys are listed, how often and in which order.
-/

namespace Ecma51

/-! ## 1. Lists of names -/

section Names

variable {t : Text} {names names' names'' : List Text}

/-- At most the one name is new, and then it comes last. -/
def Gains (t : Text) (names names' : List Text) : Prop := names' = names ∨ t ∉ names ∧ names' = names ++ [t]

namespace Gains

theorem refl (t : Text) (names : List Text) : Gains t names names := .inl rfl

/-- A name is new only once. -/
theorem trans (h : Gains t names names') (h' : Gains t names' names'') : Gains t names names'' := by
  rcases h' with rfl | ⟨hnew, rfl⟩
  · exact h
  · rcases h with rfl | ⟨_, rfl⟩
    · exact .inr ⟨hnew, rfl⟩
    · exact absurd (List.mem_append_right _ List.mem_cons_self) hnew

/-- A name that is there is not new. -/
theorem eq_of_mem (h : Gains t names names') (ht : t ∈ names) : names' = names :=
  h.resolve_right fun hnew => hnew.1 ht

theorem eq_of_not_mem (h : Gains t names names') (ht : t ∉ names) (ht' : t ∈ names') : names' = names ++ [t] := by
  rcases h with rfl | ⟨_, heq⟩
  · exact absurd ht' ht
  · exact heq

end Gains

/-- The names that are new in a list. -/
def newIn (names names' : List Text) : List Text := names'.filter (· ∉ names)

/-- What is left of the names keeps its order, and what is new comes last; at most one name is new. -/
structure Follows (names names' : List Text) : Prop where
  order : names' = names.filter (· ∈ names') ++ newIn names names'
  single : (newIn names names').length ≤ 1

theorem newIn_of_subset (hsub : ∀ u ∈ names', u ∈ names) : newIn names names' = [] := by
  refine List.filter_eq_nil_iff.mpr fun u hu => ?_
  simpa using hsub u hu

/-- Names of which some are left out follow. -/
theorem follows_filter (names : List Text) (keep : Text → Bool) : Follows names (names.filter keep) := by
  have hnone : newIn names (names.filter keep) = [] := newIn_of_subset fun u hu => (List.mem_filter.mp hu).1
  refine ⟨?_, ?_⟩
  · rw [hnone, List.append_nil]
    refine List.filter_congr fun u hu => ?_
    simp [hu]
  · rw [hnone]
    exact Nat.zero_le 1

theorem Gains.follows (h : Gains t names names') : Follows names names' := by
  rcases h with rfl | ⟨ht, rfl⟩
  · simpa using follows_filter names' fun _ => true
  · have hold : names.filter (· ∈ names ++ [t]) = names := by
      refine List.filter_eq_self.mpr fun u hu => ?_
      exact decide_eq_true (List.mem_append_left _ hu)
    have hnew : newIn names (names ++ [t]) = [t] := by
      have hnone : names.filter (· ∉ names) = [] := newIn_of_subset fun _ hu => hu
      unfold newIn
      rw [List.filter_append, hnone, List.nil_append]
      exact List.filter_eq_self.mpr (by simpa using ht)
    refine ⟨?_, ?_⟩
    · rw [hold, hnew]
    · rw [hnew]
      exact Nat.le_refl 1

/-- Names that are put at the end count there, and not where they were before. -/
theorem dedup_append_of_nodup (names : List Text) {new : List Text} (hnew : new.Nodup) :
    (names ++ new).dedup = names.dedup.filter (· ∉ new) ++ new := by
  induction names with
  | nil =>
    rw [List.nil_append, hnew.dedup, List.dedup_nil, List.filter_nil, List.nil_append]
  | cons u names ih =>
    rw [List.cons_append]
    by_cases hu : u ∈ names
    · rw [List.dedup_cons_of_mem (List.mem_append_left _ hu), List.dedup_cons_of_mem hu, ih]
    · rw [List.dedup_cons_of_notMem hu]
      by_cases hlater : u ∈ new
      · rw [List.dedup_cons_of_mem (List.mem_append_right _ hlater), ih,
          List.filter_cons_of_neg (by simpa using hlater)]
      · have hnot : u ∉ names ++ new := fun h => (List.mem_append.mp h).elim hu hlater
        rw [List.dedup_cons_of_notMem hnot, ih, List.filter_cons_of_pos (by simpa using hlater), List.cons_append]

/-- **If names are in the order in which they were created last, those that follow them are so again.** -/
theorem Follows.dedup {created : List Text} (h : Follows names names') (hnodup : names'.Nodup)
    (heq : names = created.dedup.filter (· ∈ names)) :
    names' = (created ++ newIn names names').dedup.filter (· ∈ names') := by
  have hnew : (newIn names names').Nodup := hnodup.sublist List.filter_sublist
  have hlast : (newIn names names').filter (· ∈ names') = newIn names names' := by
    refine List.filter_eq_self.mpr fun u hu => ?_
    exact decide_eq_true (List.mem_filter.mp hu).1
  have hfirst : (created.dedup.filter (· ∉ newIn names names')).filter (· ∈ names') = names.filter (· ∈ names') := by
    conv_rhs => rw [heq]
    rw [List.filter_filter, List.filter_filter]
    refine List.filter_congr fun u _ => ?_
    by_cases hu : u ∈ names'
    · have hiff : u ∉ newIn names names' ↔ u ∈ names := by
        unfold newIn
        rw [List.mem_filter, decide_eq_true_iff, not_and, not_not]
        exact ⟨fun himp => himp hu, fun hold _ => hold⟩
      simp [hu, hiff]
    · simp [hu]
  rw [dedup_append_of_nodup _ hnew, List.filter_append, hlast, hfirst]
  exact h.order

end Names

/-! ## 2. Operations on heaps -/

/-- The name that a write under a key may create: an index may give an array its length. -/
def Key.writtenName : Key → Text
  | .index _ => Text.ofString "length"
  | .name t => t

namespace Heap

variable {h h' : Heap} {o : ObjectId}

theorem ownNames_of_properties (hp : (h'.object o).properties = (h.object o).properties) :
    h'.ownNames o = h.ownNames o := by
  unfold ownNames
  rw [hp]

theorem ownNames_store_index (h : Heap) (o : ObjectId) (i : ArrayIndex) (p : Property) :
    (h.store o (.index i) p).ownNames o = h.ownNames o := by
  unfold ownNames
  rw [object_store_self]
  rfl

theorem gains_store (h : Heap) (o : ObjectId) (t : Text) (p : Property) :
    Gains t (h.ownNames o) ((h.store o (.name t) p).ownNames o) := by
  have hstored : (h.store o (.name t) p).ownNames o =
      if t ∈ h.ownNames o then h.ownNames o else h.ownNames o ++ [t] := by
    unfold ownNames
    rw [object_store_self]
    exact PropertyTable.nameKeys_insertName t p _
  rw [hstored]
  by_cases ht : t ∈ h.ownNames o
  · rw [if_pos ht]
    exact .refl t _
  · rw [if_neg ht]
    exact .inr ⟨ht, rfl⟩

theorem ownNames_defineOrdinary_index (h : Heap) (o : ObjectId) (i : ArrayIndex) (d : Descriptor) :
    (h.defineOrdinary o (.index i) d).heap.ownNames o = h.ownNames o := by
  rcases h.defineOrdinary_cases o (.index i) d with ⟨f, hr⟩ | ⟨hr, _⟩ | ⟨q, hr, _⟩ <;> rw [hr]
  · rfl
  · rfl
  · exact ownNames_store_index h o i q

theorem gains_defineOrdinary (h : Heap) (o : ObjectId) (k : Key) (d : Descriptor) :
    Gains k.writtenName (h.ownNames o) ((h.defineOrdinary o k d).heap.ownNames o) := by
  cases k with
  | index i =>
    rw [ownNames_defineOrdinary_index]
    exact .refl _ _
  | name t =>
    rcases h.defineOrdinary_cases o (.name t) d with ⟨f, hr⟩ | ⟨hr, _⟩ | ⟨q, hr, _⟩ <;> rw [hr]
    · exact .refl _ _
    · exact .refl _ _
    · exact gains_store h o t q

theorem ownNames_defineArguments (h : Heap) (o : ObjectId) (k : Key) (d : Descriptor) :
    (h.defineArguments o k d).heap.ownNames o = (h.defineOrdinary o k d).heap.ownNames o := by
  refine ownNames_of_properties ?_
  rcases (h.defineArguments_cases o k d).2 with hobject | ⟨hobject, _⟩ <;> rw [hobject]
  exact Object.properties_unmapped _ k

theorem gains_defineElement (h : Heap) (o : ObjectId) (i : ArrayIndex) (d : Descriptor) (oldLength : Nat)
    (lengthWritable : Bool) :
    Gains (Key.index i).writtenName (h.ownNames o)
      ((h.defineElement o i d oldLength lengthWritable).heap.ownNames o) := by
  have helement := gains_defineOrdinary h o (.index i) d
  have hlength (h' : Heap) : Gains (Key.index i).writtenName (h'.ownNames o)
      ((h'.defineOrdinary o .length (.ofValue (.ofNat (i + 1)))).heap.ownNames o) :=
    gains_defineOrdinary h' o .length _
  unfold defineElement
  split
  · exact .refl _ _
  · dsimp only
    split
    · exact helement
    · split
      · exact helement.trans (hlength _)
      · exact helement

/-- **A definition creates at most the name that is written**, whatever the kind of the object. -/
theorem gains_define (h : Heap) (o : ObjectId) (k : Key) (d : Descriptor) :
    Gains k.writtenName (h.ownNames o) ((h.define o k d).heap.ownNames o) := by
  unfold define
  split
  · exact gains_defineElement h o _ d _ _
  · rw [ownNames_defineArguments]
    exact gains_defineOrdinary h o _ d
  · exact gains_defineOrdinary h o _ d

/-- A deletion leaves the other names where they are. -/
theorem ownNames_deleteOwn (h : Heap) (o : ObjectId) (k : Key) :
    (h.deleteOwn o k).heap.ownNames o = h.ownNames o ∨
      ∃ t, k = .name t ∧ (h.deleteOwn o k).heap.ownNames o = (h.ownNames o).filter (· != t) := by
  rcases h.object_deleteOwn o k with hsame | ⟨p, hremoved, _⟩
  · exact .inl (ownNames_of_properties (by rw [hsame]))
  · have hnames : (h.deleteOwn o k).heap.ownNames o = ((h.object o).withoutProperty k).properties.nameKeys := by
      unfold ownNames
      rw [hremoved, Object.properties_unmapped]
    cases k with
    | index i => exact .inl hnames
    | name t =>
      refine .inr ⟨t, rfl, hnames.trans ?_⟩
      exact (PropertyTable.nameKeys_eraseName t _).trans ((h.nodup_ownNames o).erase_eq_filter t)

theorem follows_deleteOwn (h : Heap) (o : ObjectId) (k : Key) :
    Follows (h.ownNames o) ((h.deleteOwn o k).heap.ownNames o) := by
  rcases h.ownNames_deleteOwn o k with heq | ⟨t, _, heq⟩
  · rw [heq]
    exact (Gains.refl default _).follows
  · rw [heq]
    exact follows_filter _ _

theorem ownNames_deleteElements (h : Heap) (o : ObjectId) (l : List ArrayIndex) :
    (h.deleteElements o l).1.ownNames o = h.ownNames o := by
  induction l generalizing h with
  | nil => rfl
  | cons i l ih =>
    have hstep : (h.deleteOwn o (.index i)).heap.ownNames o = h.ownNames o := by
      rcases h.ownNames_deleteOwn o (.index i) with heq | ⟨t, ht, _⟩
      · exact heq
      · cases ht
    unfold deleteElements
    dsimp only
    split
    · exact (ih _).trans hstep
    · exact hstep

theorem gains_cutElements (h : Heap) (o : ObjectId) (d : Descriptor) (newLength : Nat) (freezes : Bool) :
    Gains Key.length.writtenName (h.ownNames o) ((h.cutElements o d newLength freezes).heap.ownNames o) := by
  have hcut := ownNames_deleteElements h o
    (((h.object o).properties.indexKeys.filter fun i => newLength ≤ i.val).reverse)
  unfold cutElements
  dsimp only
  split
  · rename_i h' i hdeleted
    rw [hdeleted] at hcut
    rw [← hcut]
    exact gains_defineOrdinary h' o .length _
  · rename_i h' hdeleted
    rw [hdeleted] at hcut
    rw [← hcut]
    cases freezes with
    | true => exact gains_defineOrdinary h' o .length _
    | false => exact .refl _ _

/-- **So does setting a length**, whatever length was found before. -/
theorem gains_setLength (h : Heap) (o : ObjectId) (d : Descriptor) (newLength oldLength : Nat)
    (lengthWritable : Bool) :
    Gains Key.length.writtenName (h.ownNames o)
      ((h.setLength o d newLength oldLength lengthWritable).heap.ownNames o) := by
  have hcut (d' : Descriptor) (freezes : Bool) : Gains Key.length.writtenName (h.ownNames o)
      ((if (h.defineOrdinary o .length d').succeeded then
        (h.defineOrdinary o .length d').heap.cutElements o d' newLength freezes
      else h.defineOrdinary o .length d').heap.ownNames o) := by
    split
    · exact (gains_defineOrdinary h o .length d').trans (gains_cutElements _ o d' newLength freezes)
    · exact gains_defineOrdinary h o .length d'
  unfold setLength
  dsimp only
  split
  · exact gains_defineOrdinary h o .length _
  · split
    · exact .refl _ _
    · exact hcut _ _

end Heap

/-! ## 3. Histories -/

section Histories

variable {bodies : Bodies} {o : ObjectId} {k : Key} {m m' : Machine} {ms : List Machine}

/-- A definition or an assignment under a key of an object, however it ends, that runs no function of the program;
or what is left to do when a function was run to convert the new length of an array. -/
inductive Writes (bodies : Bodies) (o : ObjectId) : Key → Machine → Machine → Prop where
  | define {m : Machine} (k : Key) (d : Descriptor) (throws : Bool) : m.heap.GivesPrimitive o k d →
      Writes bodies o k m (endOf (defineOwn o k d throws bodies m))
  | put {m : Machine} (k : Key) (v : Value) (throws : Bool) : m.heap.RunsNoSetter o k →
      m.heap.GivesPrimitive o k (.ofValue v) → Writes bodies o k m (endOf (putTo o k v throws bodies m))
  | length {m m' : Machine} (d : Descriptor) (newLength oldLength : Nat) (lengthWritable : Bool) :
      m'.heap = (m.heap.setLength o d newLength oldLength lengthWritable).heap → Writes bodies o .length m m'

/-- The machines of a history of an object, the latest first: it begins anywhere, and goes on by definitions,
assignments and deletions of own properties, and by whatever leaves the own names as they are. -/
inductive Chronicle (bodies : Bodies) (o : ObjectId) : List Machine → Prop where
  | start (m : Machine) : Chronicle bodies o [m]
  | write {k : Key} {m m' : Machine} {ms : List Machine} : Chronicle bodies o (m :: ms) →
      Writes bodies o k m m' → Chronicle bodies o (m' :: m :: ms)
  | delete {m : Machine} {ms : List Machine} (k : Key) (throws : Bool) : Chronicle bodies o (m :: ms) →
      Chronicle bodies o (endOf (deleteOwn o k throws bodies m) :: m :: ms)
  | aside {m m' : Machine} {ms : List Machine} : Chronicle bodies o (m :: ms) →
      m'.heap.ownNames o = m.heap.ownNames o → Chronicle bodies o (m' :: m :: ms)

/-- The names that an object had at the beginning of a history and those that were created since, in order. -/
def creations (o : ObjectId) : List Machine → List Text
  | [] => []
  | [m] => m.heap.ownNames o
  | m' :: m :: ms => creations o (m :: ms) ++ newIn (m.heap.ownNames o) (m'.heap.ownNames o)

theorem endOf_endedBy (r : Except Fault Heap.Outcome) (throws : Bool) (m : Machine) :
    endOf (Heap.endedBy r throws m) =
      match r with
      | .ok r => { m with heap := r.heap }
      | .error _ => m := by
  cases r with
  | error f => rfl
  | ok r =>
    obtain ⟨h, refusal⟩ := r
    cases refusal with
    | none => rfl
    | some f => cases throws <;> rfl

/-- Only the value of a description is converted. -/
theorem Heap.GivesPrimitive.of_value {h : Heap} {d d' : Descriptor} (hd : h.GivesPrimitive o k d)
    (hv : d'.value = d.value) : h.GivesPrimitive o k d' := by
  intro u hu
  refine hd u ?_
  unfold lengthValue? at hu ⊢
  rwa [← hv]

theorem gains_defineOwn {d : Descriptor} (hd : m.heap.GivesPrimitive o k d) (throws : Bool) :
    Gains k.writtenName (m.heap.ownNames o) ((endOf (defineOwn o k d throws bodies m)).heap.ownNames o) := by
  rw [defineOwn_run hd, endOf_endedBy]
  unfold Heap.defining
  cases hlength : lengthValue? (m.heap.object o) k d with
  | none => exact Heap.gains_define m.heap o k d
  | some v =>
    obtain ⟨_, rfl⟩ := Heap.array_of_lengthValue? hlength
    unfold Heap.settingLength
    dsimp only
    split
    · rename_i r heq
      split at heq
      · cases heq
        exact Heap.gains_setLength m.heap o d _ _ _
      · cases heq
    · exact .refl _ _

theorem gains_putTo {v : Value} (hplain : m.heap.RunsNoSetter o k) (hv : m.heap.GivesPrimitive o k (.ofValue v))
    (throws : Bool) :
    Gains k.writtenName (m.heap.ownNames o) ((endOf (putTo o k v throws bodies m)).heap.ownNames o) := by
  cases hcan : m.heap.canPut o k with
  | false =>
    rw [endOf_putTo_refused hcan]
    exact .refl _ _
  | true =>
    by_cases hown : ∃ u w en c, m.heap.getOwn? o k = some (.data u w en c)
    · obtain ⟨u, w, en, c, hown⟩ := hown
      rw [endOf_putTo_own hcan hown]
      exact gains_defineOwn hv throws
    · have hnew : m.heap.GivesPrimitive o k (.data v true true true) := hv.of_value rfl
      rw [endOf_putTo_new hcan (fun u w en c h => hown ⟨u, w, en, c, h⟩) (hplain hcan)]
      exact gains_defineOwn hnew throws

/-- **A write creates at most the name that is written.** -/
theorem Writes.gains (h : Writes bodies o k m m') :
    Gains k.writtenName (m.heap.ownNames o) (m'.heap.ownNames o) := by
  cases h with
  | define _ d throws hd => exact gains_defineOwn hd throws
  | put _ v throws hplain hv => exact gains_putTo hplain hv throws
  | length d n oldLength w heq =>
    rw [heq]
    exact Heap.gains_setLength m.heap o d n oldLength w

theorem heap_deleteOwn (k : Key) (throws : Bool) :
    (endOf (deleteOwn o k throws bodies m)).heap = (m.heap.deleteOwn o k).heap := by
  rw [deleteOwn_run]
  exact congrArg Machine.heap (endOf_endedBy (.ok (m.heap.deleteOwn o k)) throws m)

namespace Chronicle

/-- **One step creates at most one name**, and leaves the others in their order. -/
theorem follows (h : Chronicle bodies o (m' :: m :: ms)) : Follows (m.heap.ownNames o) (m'.heap.ownNames o) := by
  cases h with
  | write _ hw => exact hw.gains.follows
  | delete k throws _ =>
    rw [heap_deleteOwn]
    exact Heap.follows_deleteOwn m.heap o k
  | aside _ hsame =>
    rw [hsame]
    exact (Gains.refl default _).follows

/-- What goes before a step is a history as well. -/
theorem tail (h : Chronicle bodies o (m' :: m :: ms)) : Chronicle bodies o (m :: ms) := by
  cases h with
  | write h _ => exact h
  | delete _ _ h => exact h
  | aside h _ => exact h

/-- **In the course of every history, the own names are in the order in which they were created last.** -/
theorem ownNames_eq (h : Chronicle bodies o (m :: ms)) :
    m.heap.ownNames o = (creations o (m :: ms)).dedup.filter (· ∈ m.heap.ownNames o) := by
  -- on the history before the last step, to which the names that this step creates are added
  induction ms generalizing m with
  | nil =>
    have hself : (m.heap.ownNames o).filter (· ∈ m.heap.ownNames o) = m.heap.ownNames o :=
      List.filter_eq_self.mpr fun u hu => decide_eq_true hu
    rw [creations, (m.heap.nodup_ownNames o).dedup, hself]
  | cons m₀ ms ih => exact h.follows.dedup (m.heap.nodup_ownNames o) (ih h.tail)

/-- A history of the object goes on from another one, and comes to a heap. -/
def ComesTo (bodies : Bodies) (o : ObjectId) (ms : List Machine) (h : Heap) : Prop :=
  ∃ m' ms', m'.heap = h ∧ ms <:+ ms' ∧ Chronicle bodies o (m' :: ms')

theorem comesTo_write {m' : Machine} (h : Chronicle bodies o (m :: ms)) (hw : Writes bodies o k m m') :
    ComesTo bodies o (m :: ms) m'.heap := ⟨m', m :: ms, rfl, List.suffix_refl _, h.write hw⟩

theorem comesTo_aside {h' : Heap} (h : Chronicle bodies o (m :: ms))
    (hp : (h'.object o).properties = (m.heap.object o).properties) : ComesTo bodies o (m :: ms) h' :=
  ⟨{ m with heap := h' }, m :: ms, rfl, List.suffix_refl _, h.aside (Heap.ownNames_of_properties hp)⟩

theorem comesTo_elsewhere {h' : Heap} {o' : ObjectId} (h : Chronicle bodies o (m :: ms))
    (ht : Heap.Touches o' m.heap h') (hne : o ≠ o') : ComesTo bodies o (m :: ms) h' :=
  h.comesTo_aside (by rw [ht.other o hne])

/-- A change of an object continues a history, if it leaves the properties of this one alone. -/
theorem comesTo_modify (h : Chronicle bodies o (m :: ms)) (o' : ObjectId) {f : Object → Object}
    (hf : o = o' → (f (m.heap.object o)).properties = (m.heap.object o).properties) :
    ComesTo bodies o (m :: ms) (m.heap.modify o' f) := by
  by_cases hoo : o = o'
  · subst hoo
    exact h.comesTo_aside (by rw [Heap.object_modify_self, hf rfl])
  · exact h.comesTo_elsewhere (Heap.touches_modify m.heap o' f) hoo

/-- **Every change of the heap continues a history**, if it leaves the object in it. -/
theorem edit {bound : ObjectId} {kept : List Value} {found : ObjectId → Nat × Bool} {h' : Heap}
    (h : Chronicle bodies o (m :: ms)) (he : Heap.Edit bound kept found m.heap h') (ho : o < bound)
    (hbound : bound ≤ m.heap.nextObject) (hkept : .object o ∈ kept) : ComesTo bodies o (m :: ms) h' := by
  cases he with
  | add _ =>
    refine h.comesTo_aside ?_
    rw [Heap.object_add, if_neg (Nat.ne_of_gt (Nat.lt_of_lt_of_le ho hbound))]
  | environments hsame => exact h.comesTo_aside (by rw [Heap.object_of_objects hsame.objects])
  | define o' k d hlength =>
    by_cases hoo : o = o'
    · subst hoo
      have hgives : m.heap.GivesPrimitive o k d := fun v hv => by
        rw [hlength] at hv
        cases hv
      -- as a definition that reports no refusal
      have hend : (endOf (defineOwn o k d false bodies m)).heap = (m.heap.define o k d).heap := by
        rw [defineOwn_run hgives, endOf_endedBy, Heap.defining_of_lengthValue? hlength]
      rw [← hend]
      exact h.comesTo_write (.define k d false hgives)
    · exact h.comesTo_elsewhere (Heap.touches_define m.heap o' k d) hoo
  | setLength o' d n _ =>
    by_cases hoo : o = o'
    · subst hoo
      have hw : Writes bodies o .length m
          { m with heap := (m.heap.setLength o d n (found o).1 (found o).2).heap } := .length d n _ _ rfl
      exact h.comesTo_write hw
    · exact h.comesTo_elsewhere (Heap.amends_setLength m.heap o' d n _ _).touches hoo
  | delete o' k =>
    by_cases hoo : o = o'
    · subst hoo
      exact ⟨_, _, heap_deleteOwn k false, List.suffix_refl _, h.delete k false⟩
    · exact h.comesTo_elsewhere (Heap.touches_deleteOwn m.heap o' k) hoo
  | close o' => exact h.comesTo_modify o' fun _ => rfl
  | setPrototype o' p hp =>
    obtain ⟨ht, hobject⟩ := Heap.touches_setPrototype hp
    by_cases hoo : o = o'
    · subst hoo
      rcases hobject with heq | ⟨heq, _⟩
      · exact h.comesTo_aside (by rw [heq])
      · exact h.comesTo_aside (by rw [heq])
    · exact h.comesTo_elsewhere ht hoo
  | link o' i name _ _ => exact h.comesTo_modify o' fun _ => rfl
  | setTime o' t _ => exact h.comesTo_modify o' fun _ => rfl
  | complete o' f hnew _ => exact h.comesTo_modify o' fun hoo => absurd (hoo ▸ ho) (Nat.not_lt.mpr hnew)
  | collect outside hroots =>
    -- an object that is kept is a root, and roots are not removed
    rcases m.heap.object_collect outside [] o with heq | ⟨_, hgone⟩
    · exact h.comesTo_aside (by rw [heq])
    · exact absurd (hroots o hkept) hgone

theorem evolve {bound : ObjectId} {kept : List Value} {h₀ h' : Heap} (he : Heap.Evolves bound kept h₀ h')
    (ho : o < bound) (hbound : bound ≤ h₀.nextObject) (hkept : .object o ∈ kept) (hm : m.heap = h₀)
    (h : Chronicle bodies o (m :: ms)) : ComesTo bodies o (m :: ms) h' := by
  induction he generalizing m ms with
  | refl => exact h.comesTo_aside (by rw [hm])
  | tail hto hwindow hstep ih ih' =>
    have hbound₁ := Nat.le_trans hbound hto.nextObject_le
    have hbound₂ := Nat.le_trans hbound₁ hwindow.nextObject_le
    -- to where the lengths of the last change were found, from there to the change, and the change itself
    obtain ⟨m₁, ms₁, hm₁, hsuffix₁, h₁⟩ := ih hbound hm h
    obtain ⟨m₂, ms₂, hm₂, hsuffix₂, h₂⟩ := ih' hbound₁ hm₁ h₁
    subst hm₂
    obtain ⟨m₃, ms₃, hm₃, hsuffix₃, h₃⟩ := h₂.edit hstep ho hbound₂ hkept
    have hwhole : m :: ms <:+ ms₃ := hsuffix₁.trans <| (List.suffix_cons m₁ ms₁).trans <|
      hsuffix₂.trans <| (List.suffix_cons m₂ ms₂).trans hsuffix₃
    exact ⟨m₃, ms₃, hm₃, hwhole, h₃⟩

/-- **Whatever a step on an object runs**, what it does is a history of the object, as long as the object is kept. -/
theorem step (h : Chronicle bodies o (m :: ms)) (hbodies : bodies.Tame) (ho : o < m.heap.nextObject)
    (hheld : .object o ∈ m.held) (s : OwnStep) :
    ∃ between, Chronicle bodies o (endOf (s.act o bodies m) :: between ++ m :: ms) := by
  have he := ((built_ownStep s o).leads hbodies m (Nat.le_refl _)).2
  obtain ⟨m', ms', hm', ⟨between, rfl⟩, h'⟩ := evolve he ho (Nat.le_refl _) hheld rfl h
  exact ⟨m' :: between, h'.aside (by rw [hm'])⟩

end Chronicle

end Histories

/-! ## 4. Own keys -/

section OwnKeys

variable {bodies : Bodies} {o : ObjectId} {m m' m'' : Machine} {ms : List Machine} {t : Text}

/-- **A name that is there keeps its place**, however it is written; one that is not there comes last. -/
theorem Writes.ownNames (hw : Writes bodies o (.name t) m m') :
    ((m.heap.getOwn? o (.name t)).isSome → m'.heap.ownNames o = m.heap.ownNames o) ∧
    (m.heap.getOwn? o (.name t) = none → (m'.heap.getOwn? o (.name t)).isSome →
      m'.heap.ownNames o = m.heap.ownNames o ++ [t]) := by
  refine ⟨fun ht => hw.gains.eq_of_mem (Heap.mem_ownNames.mpr ht), fun hnone hsome => ?_⟩
  have ht : t ∉ m.heap.ownNames o := fun hmem => by
    have hthere := Heap.mem_ownNames.mp hmem
    rw [hnone] at hthere
    cases hthere
  exact hw.gains.eq_of_not_mem ht (Heap.mem_ownNames.mpr hsome)

/-- **A name that is deleted and added again moves to the end.** -/
theorem ownNames_readded {throws : Bool} (hm' : m' = endOf (deleteOwn o (.name t) throws bodies m))
    (hgone : m'.heap.getOwn? o (.name t) = none) (hw : Writes bodies o (.name t) m' m'')
    (hagain : (m''.heap.getOwn? o (.name t)).isSome) :
    m''.heap.ownNames o = (m.heap.ownNames o).filter (· != t) ++ [t] := by
  have hnot : t ∉ m'.heap.ownNames o := fun hmem => by
    have hthere := Heap.mem_ownNames.mp hmem
    rw [hgone] at hthere
    cases hthere
  have hleft : m'.heap.ownNames o = (m.heap.ownNames o).filter (· != t) := by
    have hheap : m'.heap = (m.heap.deleteOwn o (.name t)).heap := by
      rw [hm', heap_deleteOwn]
    rw [hheap] at hnot ⊢
    rcases m.heap.ownNames_deleteOwn o (.name t) with hsame | ⟨u, hu, hremoved⟩
    · rw [hsame] at hnot ⊢
      refine (List.filter_eq_self.mpr fun u hu => ?_).symm
      have hne : u ≠ t := by
        rintro rfl
        exact hnot hu
      simpa using hne
    · cases hu
      exact hremoved
  rw [← hleft]
  exact hw.ownNames.2 hgone hagain

end OwnKeys

/-- **In the course of every history of an object**, its own keys are those of its own properties, each listed once:
the indices in ascending order, and then the names in the order in which they were created last. No step creates more
than one name. A name that is there keeps its place, however it is written; a name that is not there comes last, also
if it was deleted just before. Every step on the object continues its history, whatever the step runs. -/
theorem ownKeys_exact {bodies : Bodies} {o : ObjectId} {m : Machine} {ms : List Machine}
    (hms : Chronicle bodies o (m :: ms)) (hfits : (m.heap.object o).TextFits) :
    (∀ k, k ∈ m.heap.ownKeys o ↔ (m.heap.getOwn? o k).isSome) ∧ (m.heap.ownKeys o).Nodup ∧
    (∃ indices : List ArrayIndex, indices.Pairwise (· < ·) ∧
      m.heap.ownKeys o = indices.map .index ++ (m.heap.ownNames o).map .name) ∧
    m.heap.ownNames o = (creations o (m :: ms)).dedup.filter (fun t => (m.heap.getOwn? o (.name t)).isSome) ∧
    (∀ m', Chronicle bodies o (m' :: m :: ms) → (newIn (m.heap.ownNames o) (m'.heap.ownNames o)).length ≤ 1) ∧
    (∀ t m', Writes bodies o (.name t) m m' →
      ((m.heap.getOwn? o (.name t)).isSome → m'.heap.ownNames o = m.heap.ownNames o) ∧
      (m.heap.getOwn? o (.name t) = none → (m'.heap.getOwn? o (.name t)).isSome →
        m'.heap.ownNames o = m.heap.ownNames o ++ [t])) ∧
    (∀ t throws m' m'', m' = endOf (deleteOwn o (.name t) throws bodies m) →
      m'.heap.getOwn? o (.name t) = none → Writes bodies o (.name t) m' m'' →
      (m''.heap.getOwn? o (.name t)).isSome →
      m''.heap.ownNames o = (m.heap.ownNames o).filter (· != t) ++ [t]) ∧
    (bodies.Tame → o < m.heap.nextObject → .object o ∈ m.held → ∀ s : OwnStep,
      ∃ between, Chronicle bodies o (endOf (s.act o bodies m) :: between ++ m :: ms)) := by
  obtain ⟨indices, hascending, _, hkeys⟩ := Heap.ownKeys_eq hfits
  refine ⟨fun k => Heap.mem_ownKeys hfits, Heap.nodup_ownKeys hfits, ⟨indices, hascending, hkeys⟩, ?_,
    fun m' h => h.follows.single, fun t m' hw => hw.ownNames,
    fun t throws m' m'' hm' hgone hw hagain => ownNames_readded hm' hgone hw hagain,
    fun hbodies ho hheld s => hms.step hbodies ho hheld s⟩
  refine hms.ownNames_eq.trans (List.filter_congr fun t _ => ?_)
  rw [Bool.eq_iff_iff, decide_eq_true_iff, Heap.mem_ownNames]

/-- A machine with one object, which has two names. -/
def pairMachine : Machine :=
  let pair := ((Object.ordinary none).withProperty (.name (Text.ofString "a")) (.data .null true true true)).withProperty
    (.name (Text.ofString "b")) (.data .null true true true)
  { Machine.start {} with heap := (Heap.empty.add pair).1 }

/-- The first name is deleted, and then defined again by an accessor. -/
def readdingHistory : List Machine :=
  let removed := endOf (deleteOwn 0 (.name (Text.ofString "a")) false (bodiesAt 0) pairMachine)
  [endOf (defineOwn 0 (.name (Text.ofString "a")) { get := some .undefined } false (bodiesAt 0) removed), removed,
    pairMachine]

theorem chronicle_readdingHistory : Chronicle (bodiesAt 0) 0 readdingHistory := by
  refine .write (.delete _ false (.start pairMachine)) (.define _ _ false fun v hv => ?_)
  have hne : Key.name (Text.ofString "a") ≠ .length := by decide +kernel
  exact absurd (Heap.array_of_lengthValue? hv).2 hne

/-- The name that was added again comes last. -/
theorem ownKeys_exact_readded :
    ∃ m ms, readdingHistory = m :: ms ∧ m.heap.ownNames 0 = [Text.ofString "b", Text.ofString "a"] := by
  refine ⟨_, _, rfl, ?_⟩
  have hexact := ownKeys_exact chronicle_readdingHistory fun t ht => by cases ht
  rw [hexact.2.2.2.1]
  decide +kernel

end Ecma51
