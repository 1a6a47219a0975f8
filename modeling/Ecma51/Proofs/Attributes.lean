import Ecma51.Proofs.Lifetime
import Ecma51.Proofs.Redefinition

/-!
# What is permanent about own properties

A property that is not configurable stays, with all that its attributes promise; an object that is not
extensible gets no further properties. The kinds with rules of their own make no exception: the units of a
string are permanent from the start, the length of an array cannot be removed, and an index of an arguments
object shares its value only as long as it is writable.

* `Object.Linked`: only writable values are shared.
* `Object.Upholds`: an object keeps its permanent properties, and stays closed.
* **`ownProperties_persist`**: so do all objects of all machines, over any number of steps.
-/

namespace Ecma51

/-! ## 1. Shared indices -/

namespace ArgumentsData

theorem lookup_of_lookup_filter {l : List (Nat × Text)} {i j : Nat} {t : Text}
    (h : (l.filter fun (k, _) => k != i).lookup j = some t) : j ≠ i ∧ l.lookup j = some t := by
  induction l with
  | nil => cases h
  | cons e l ih =>
    obtain ⟨k, u⟩ := e
    by_cases hk : k = i
    · rw [List.filter_cons_of_neg (by simp [hk])] at h
      obtain ⟨hj, hl⟩ := ih h
      refine ⟨hj, ?_⟩
      rw [List.lookup_cons, beq_false_of_ne (by rw [hk]; exact hj)]
      exact hl
    · rw [List.filter_cons_of_pos (by simp [hk]), List.lookup_cons] at h
      rw [List.lookup_cons]
      cases hjk : j == k with
      | true =>
        rw [hjk] at h
        exact ⟨by rw [beq_iff_eq.mp hjk]; exact hk, h⟩
      | false =>
        rw [hjk] at h
        exact ih h

theorem nameOf?_unmap {a : ArgumentsData} {i j : Nat} {t : Text}
    (h : (a.unmap i).nameOf? j = some t) : j ≠ i ∧ a.nameOf? j = some t :=
  lookup_of_lookup_filter h

theorem nameOf?_link {a : ArgumentsData} {i j : Nat} {name t : Text}
    (h : (a.link i name).nameOf? j = some t) : j = i ∨ a.nameOf? j = some t := by
  have h : ((i, name) :: (a.unmap i).mapped).lookup j = some t := h
  rw [List.lookup_cons] at h
  cases hji : j == i with
  | true => exact .inl (beq_iff_eq.mp hji)
  | false =>
    rw [hji] at h
    exact .inr (nameOf?_unmap h).2

end ArgumentsData

namespace Object

/-- An index that stands for a parameter holds a writable value. -/
def Linked (x : Object) : Prop :=
  ∀ a, x.kind = .arguments a → ∀ (j : ArrayIndex) (t : Text), a.nameOf? j.val = some t →
    ∃ v e c, x.properties.get? (.index j) = some (.data v true e c)

/-- Only one index is concerned, and that one stops being shared. -/
theorem Linked.unmapped {x y : Object} (hx : x.Linked) (hkind : y.kind = x.kind) {k : Key}
    (hsame : ∀ j, k ≠ .index j → y.properties.get? (.index j) = x.properties.get? (.index j)) :
    (y.unmapped k).Linked := by
  intro a ha j t ht
  rw [properties_unmapped]
  unfold Object.unmapped at ha
  split at ha
  · rename_i a' i hy hi
    cases ha
    obtain ⟨hj, ht⟩ := ArgumentsData.nameOf?_unmap ht
    rw [hsame j]
    · exact hx a' (hkind.symm.trans hy) j t ht
    · rintro rfl
      exact hj (Option.some.inj hi)
  · rename_i hnot
    rw [hsame j]
    · exact hx a (hkind.symm.trans ha) j t ht
    · rintro rfl
      exact hnot a j.val ha rfl

/-- The properties under indices that are shared stay as they are. -/
theorem Linked.of_same {x y : Object} (hx : x.Linked) (hkind : y.kind = x.kind)
    (hsame : ∀ a, x.kind = .arguments a → ∀ (j : ArrayIndex) (t : Text), a.nameOf? j.val = some t →
      y.properties.get? (.index j) = x.properties.get? (.index j)) : y.Linked := by
  intro a ha j t ht
  rw [hkind] at ha
  rw [hsame a ha j t ht]
  exact hx a ha j t ht

end Object

namespace Heap

/-- Only writable values show the value of a parameter. -/
theorem shows_shared {h : Heap} {o : ObjectId} {k : Key} {p : Property} (hl : (h.object o).Linked)
    (hp : (h.object o).own? k = some p) : p.Shows (h.shared? o k) := by
  intro hv
  obtain ⟨v, hv⟩ := Option.isSome_iff_exists.mp hv
  obtain ⟨a, ha, hv⟩ := Option.bind_eq_some_iff.mp hv
  obtain ⟨i, hi, hv⟩ := Option.bind_eq_some_iff.mp hv
  obtain ⟨t, ht, _⟩ := Option.bind_eq_some_iff.mp hv
  have hkind := kind_of_argumentsOf? ha
  cases k with
  | name u => cases hi
  | index j =>
    cases hi
    obtain ⟨v, e, c, hstored⟩ := hl a hkind j t ht
    rw [Object.own?_of_arguments hkind] at hp
    cases hstored.symm.trans hp
    rfl

end Heap

/-! ## 2. Objects -/

namespace Object

/-- The object keeps its permanent properties, and if it is not extensible, it stays so and has no
others than before. -/
structure Upholds (x y : Object) : Prop where
  permanent : ∀ k p, x.own? k = some p → p.configurable = false →
    ∃ q, y.own? k = some q ∧ p.Keeps q
  closed : x.extensible = false → y.extensible = false ∧ ∀ k, x.own? k = none → y.own? k = none

namespace Upholds

variable {x y z : Object}

theorem refl (x : Object) : x.Upholds x :=
  ⟨fun _ p hp hc => ⟨p, hp, .refl hc⟩, fun hx => ⟨hx, fun _ hk => hk⟩⟩

theorem trans (h : x.Upholds y) (h' : y.Upholds z) : x.Upholds z where
  permanent k p hp hc := by
    obtain ⟨q, hq, hpq⟩ := h.permanent k p hp hc
    obtain ⟨r, hr, hqr⟩ := h'.permanent k q hq hpq.configurable
    exact ⟨r, hr, hpq.trans hqr⟩
  closed hx := by
    obtain ⟨hy, hown⟩ := h.closed hx
    obtain ⟨hz, hown'⟩ := h'.closed hy
    exact ⟨hz, fun k hk => hown' k (hown k hk)⟩

/-- The own properties are the same. -/
theorem of_own (hown : y.own? = x.own?) (hextensible : x.extensible = false → y.extensible = false) :
    x.Upholds y where
  permanent k p hp hc := ⟨p, by rw [hown]; exact hp, .refl hc⟩
  closed hx := ⟨hextensible hx, fun k hk => by rw [hown]; exact hk⟩

end Upholds

end Object

/-! ## 3. Definitions and deletions -/

namespace Heap

variable {h h' : Heap} {o : ObjectId}

/-- **What an object admits leaves its permanent properties as they have to be.** -/
theorem Admits.upholds {k : Key} {d : Descriptor} {q : Property} (ha : h.Admits o k d q)
    (hl : (h.object o).Linked) : (h.object o).Upholds ((h.object o).withProperty k q) where
  permanent j p hp hc := by
    rw [Object.own?_withProperty]
    by_cases hk : k = j
    · subst hk
      rw [if_pos rfl]
      refine ⟨q, rfl, ?_⟩
      rcases ha with ⟨hnone, _⟩ | ⟨p', hown, hredefine⟩
      · rw [own_of_getOwn_none hnone] at hp
        cases hp
      · obtain ⟨p'', hown', rfl⟩ := exists_own_of_getOwn hown
        cases hp.symm.trans hown'
        have hkeeps := Descriptor.redefine?_keeps ((p.configurable_showing _).trans hc) hredefine
        exact hkeeps.of_showing (shows_shared hl hp)
    · rw [if_neg hk]
      exact ⟨p, hp, .refl hc⟩
  closed hx := by
    refine ⟨hx, fun j hj => ?_⟩
    rw [Object.own?_withProperty]
    by_cases hk : k = j
    · subst hk
      rcases ha with ⟨_, hextensible, _⟩ | ⟨p', hown, _⟩
      · rw [hx] at hextensible
        cases hextensible
      · obtain ⟨p'', hown, _⟩ := exists_own_of_getOwn hown
        rw [hj] at hown
        cases hown
    · rw [if_neg hk]
      exact hj

theorem upholds_defineOrdinary (hl : (h.object o).Linked) (k : Key) (d : Descriptor) :
    (h.object o).Upholds ((h.defineOrdinary o k d).heap.object o) := by
  rcases h.object_defineOrdinary o k d with hsame | ⟨q, hstored, ha⟩
  · rw [hsame]
    exact .refl _
  · rw [hstored]
    exact ha.upholds hl

/-- A definition under a key that is not shared leaves what is shared alone. -/
theorem linked_defineOrdinary (hl : (h.object o).Linked) {k : Key} (hk : ¬ h.IsShared o k)
    (d : Descriptor) : ((h.defineOrdinary o k d).heap.object o).Linked := by
  rcases h.object_defineOrdinary o k d with hsame | ⟨q, hstored, _⟩
  · rw [hsame]
    exact hl
  · rw [hstored]
    refine hl.of_same rfl fun a ha j t ht => Object.get?_withProperty_of_ne _ ?_ q
    rintro rfl
    exact hk ⟨a, j.val, ha, rfl, by rw [ht]; rfl⟩

/-- A definition after which the key is no longer shared leaves what is still shared alone. -/
theorem linked_unmapped_defineOrdinary (hl : (h.object o).Linked) (k : Key) (d : Descriptor) :
    (((h.defineOrdinary o k d).heap.object o).unmapped k).Linked := by
  rcases h.object_defineOrdinary o k d with hsame | ⟨q, hstored, _⟩
  · rw [hsame]
    exact hl.unmapped rfl fun _ _ => rfl
  · rw [hstored]
    exact hl.unmapped (y := (h.object o).withProperty k q) rfl
      fun j hj => Object.get?_withProperty_of_ne _ hj q

/-- What an object admits under a shared key is writable, if it is asked to be. -/
theorem Admits.writable {j : ArrayIndex} {d : Descriptor} {q : Property} {v : Value} {e c : Bool}
    (ha : h.Admits o (.index j) d q) (hown : (h.object o).own? (.index j) = some (.data v true e c))
    (haccessor : d.isAccessor = false) (hwritable : d.writable ≠ some false) :
    ∃ v' e' c', q = .data v' true e' c' := by
  rcases ha with ⟨hnone, _⟩ | ⟨p, hp, hredefine⟩
  · rw [own_of_getOwn_none hnone] at hown
    cases hown
  · obtain ⟨p', hp', rfl⟩ := exists_own_of_getOwn hp
    cases hown.symm.trans hp'
    cases hshared : h.shared? o (.index j) with
    | none =>
      rw [hshared] at hredefine
      exact Descriptor.redefine?_writable haccessor hwritable hredefine
    | some u =>
      rw [hshared] at hredefine
      exact Descriptor.redefine?_writable haccessor hwritable hredefine

/-- A definition under a shared key that asks for a writable value gives one. -/
theorem linked_defineOrdinary_writable (hl : (h.object o).Linked) {k : Key} {d : Descriptor}
    (hd : (h.defineOrdinary o k d).refusal = none → h.IsShared o k →
      d.isAccessor = false ∧ d.writable ≠ some false) :
    ((h.defineOrdinary o k d).heap.object o).Linked := by
  by_cases hk : h.IsShared o k
  · rcases h.defineOrdinary_cases o k d with ⟨f, hr⟩ | ⟨hr, _⟩ | ⟨q, hr, ha⟩ <;> rw [hr] at hd ⊢
    · exact hl
    · exact hl
    · obtain ⟨haccessor, hwritable⟩ := hd rfl hk
      show ((h.store o k q).object o).Linked
      rw [object_store_self]
      intro a (hkind : (h.object o).kind = .arguments a) j t ht
      obtain ⟨v, e, c, hstored⟩ := hl a hkind j t ht
      by_cases hj : k = .index j
      · subst hj
        have hown := (Object.own?_of_arguments hkind (.index j)).trans hstored
        obtain ⟨v', e', c', rfl⟩ := ha.writable hown haccessor hwritable
        exact ⟨v', e', c', Object.get?_withProperty_self _ _ _⟩
      · rw [Object.get?_withProperty_of_ne _ hj q]
        exact ⟨v, e, c, hstored⟩
  · exact linked_defineOrdinary hl hk d

/-- **Every step of a definition or deletion shares only writable values and upholds what is
permanent.** -/
theorem Amend.upholds (ha : Amend o h h') (hl : (h.object o).Linked) :
    (h'.object o).Linked ∧ (h.object o).Upholds (h'.object o) := by
  cases ha with
  | ordinary k d hk => exact ⟨linked_defineOrdinary hl hk d, upholds_defineOrdinary hl k d⟩
  | arguments k d =>
    have hupholds := upholds_defineOrdinary hl k d
    rcases (h.defineArguments_cases o k d).2 with hobject | ⟨hobject, hwritable⟩ <;> rw [hobject]
    · refine ⟨linked_unmapped_defineOrdinary hl k d, hupholds.trans ?_⟩
      exact .of_own (Object.own?_unmapped _ k) fun hx => (Object.extensible_unmapped _ k).trans hx
    · exact ⟨linked_defineOrdinary_writable hl hwritable, hupholds⟩
  | delete k =>
    rcases h.object_deleteOwn o k with hsame | ⟨p, hremoved, hown, hc⟩
    · rw [hsame]
      exact ⟨hl, .refl _⟩
    · rw [hremoved]
      obtain ⟨q, hq, rfl⟩ := exists_own_of_getOwn hown
      rw [q.configurable_showing] at hc
      refine ⟨hl.unmapped (y := (h.object o).withoutProperty k) rfl fun j hj =>
        Object.get?_withoutProperty_of_ne _ hj, ?_, fun hx => ?_⟩
      · intro j p hp hpc
        refine ⟨p, ?_, .refl hpc⟩
        rw [Object.own?_unmapped, Object.own?_withoutProperty_of_ne]
        · exact hp
        · rintro rfl
          cases hq.symm.trans hp
          rw [hc] at hpc
          cases hpc
      · rw [Object.extensible_unmapped, Object.own?_unmapped]
        refine ⟨hx, fun j hj => ?_⟩
        rw [Object.own?_withoutProperty_of_ne]
        · exact hj
        · rintro rfl
          rw [hq] at hj
          cases hj

theorem Amends.upholds (ha : Amends o h h') (hl : (h.object o).Linked) :
    (h'.object o).Linked ∧ (h.object o).Upholds (h'.object o) := by
  induction ha with
  | refl => exact ⟨hl, .refl _⟩
  | tail _ hstep ih =>
    obtain ⟨hlinked, hupholds⟩ := hstep.upholds ih.1
    exact ⟨hlinked, ih.2.trans hupholds⟩

/-! ## 4. All changes -/

variable {bound : ObjectId} {kept : List Value} {found : ObjectId → Nat × Bool}

/-- The object shares only writable values afterwards if it does before. -/
abbrev StaysLinked (x y : Object) : Prop := x.Linked → y.Linked

/-- **No change makes an object share what is not writable.** -/
theorem Edit.linked (he : Edit bound kept found h h') (hall : ∀ o, (h.object o).Linked) (o : ObjectId) :
    (h'.object o).Linked := by
  have hrefl : ∀ x, StaysLinked x x := fun _ hx => hx
  cases he with
  | add hx =>
    rw [object_add]
    split
    · intro a ha j t ht
      unfold ArgumentsData.nameOf? at ht
      rw [hx.arguments a ha] at ht
      cases ht
    · exact hall o
  | environments hsame =>
    rw [object_of_objects hsame.objects]
    exact hall o
  | define o' k d _ =>
    have ha := amends_define h o' k d
    exact ha.touches.relates hrefl (fun hl => (ha.upholds hl).1) o (hall o)
  | setLength o' d n _ =>
    have ha := amends_setLength h o' d n (found o').1 (found o').2
    exact ha.touches.relates hrefl (fun hl => (ha.upholds hl).1) o (hall o)
  | delete o' k =>
    have ha : Amends o' h (h.deleteOwn o' k).heap := .single (.delete k)
    exact ha.touches.relates hrefl (fun hl => (ha.upholds hl).1) o (hall o)
  | close o' =>
    refine (touches_modify h o' _).relates hrefl ?_ o (hall o)
    rw [object_modify_self]
    exact fun hl => hl
  | setPrototype o' p hp =>
    obtain ⟨ht, hobject⟩ := touches_setPrototype hp
    refine ht.relates hrefl ?_ o (hall o)
    rcases hobject with hsame | ⟨hset, _⟩
    · rw [hsame]
      exact fun hl => hl
    · rw [hset]
      exact fun hl => hl
  | @link o' a i name ha hwritable =>
    refine (touches_modify h o' _).relates hrefl (fun hl => ?_) o (hall o)
    rw [object_modify_self]
    intro b hb j t ht
    cases hb
    rcases ArgumentsData.nameOf?_link ht with hj | ht
    · exact hwritable j hj
    · exact hl a ha j t ht
  | setTime o' t _ =>
    refine (touches_modify h o' _).relates hrefl (fun _ => ?_) o (hall o)
    rw [object_modify_self]
    intro a ha
    cases ha
  | complete o' f _ hf =>
    refine (touches_modify h o' f).relates hrefl (fun hl => ?_) o (hall o)
    rw [object_modify_self]
    exact hl.of_same hf.kind fun _ _ j _ _ => hf.elements (.index j) rfl
  | collect outside _ =>
    rcases h.object_collect outside [] o with hsame | ⟨hgone, _⟩
    · rw [hsame]
      exact hall o
    · rw [hgone]
      intro a ha
      cases ha

theorem Evolves.linked (he : Evolves bound kept h h') (hall : ∀ o, (h.object o).Linked)
    (o : ObjectId) : (h'.object o).Linked := by
  induction he generalizing o with
  | refl => exact hall o
  | tail _ _ hstep ih ih' => exact hstep.linked (ih' (ih hall)) o

theorem own?_of_mayBeDate {x : Object} (hx : MayBeDate x) (t : Double) :
    ({ x with kind := .date t } : Object).own? = x.own? := by
  unfold Object.own?
  rcases hx with hx | ⟨t', hx⟩ <;> rw [hx]

/-- **Every change upholds what is permanent about an old object that is kept.** -/
theorem Edit.upholds (he : Edit bound kept found h h') (hl : ∀ o, (h.object o).Linked)
    (hbound : bound ≤ h.nextObject) (ho : o < bound) (hkept : .object o ∈ kept) :
    (h.object o).Upholds (h'.object o) := by
  have hrefl : ∀ x : Object, x.Upholds x := .refl
  cases he with
  | add _ =>
    rw [object_add, if_neg (Nat.ne_of_gt (Nat.lt_of_lt_of_le ho hbound))]
    exact .refl _
  | environments hsame =>
    rw [object_of_objects hsame.objects]
    exact .refl _
  | define o' k d _ =>
    have ha := amends_define h o' k d
    exact ha.touches.relates hrefl (ha.upholds (hl o')).2 o
  | setLength o' d n _ =>
    have ha := amends_setLength h o' d n (found o').1 (found o').2
    exact ha.touches.relates hrefl (ha.upholds (hl o')).2 o
  | delete o' k =>
    have ha : Amends o' h (h.deleteOwn o' k).heap := .single (.delete k)
    exact ha.touches.relates hrefl (ha.upholds (hl o')).2 o
  | close o' =>
    refine (touches_modify h o' _).relates hrefl ?_ o
    rw [object_modify_self]
    exact .of_own rfl fun _ => rfl
  | setPrototype o' p hp =>
    obtain ⟨ht, hobject⟩ := touches_setPrototype hp
    refine ht.relates hrefl ?_ o
    rcases hobject with hsame | ⟨hset, _⟩
    · rw [hsame]
      exact .refl _
    · rw [hset]
      exact .of_own rfl fun hx => hx
  | link o' i name ha _ =>
    refine (touches_modify h o' _).relates hrefl ?_ o
    rw [object_modify_self]
    refine .of_own ?_ fun hx => hx
    unfold Object.own?
    rw [ha]
  | setTime o' t hdate =>
    by_cases hoo : o = o'
    · subst hoo
      rw [object_modify_self]
      exact .of_own (own?_of_mayBeDate (hdate ho) t) fun hx => hx
    · rw [(touches_modify h o' _).other o hoo]
      exact .refl _
  | complete o' f ho' _ =>
    rw [(touches_modify h o' f).other o (Nat.ne_of_lt (Nat.lt_of_lt_of_le ho ho'))]
    exact .refl _
  | collect outside hroots =>
    rcases h.object_collect outside [] o with hsame | ⟨_, hnot⟩
    · rw [hsame]
      exact .refl _
    · exact absurd (hroots o hkept) hnot

theorem Evolves.upholds (he : Evolves bound kept h h') (hl : ∀ o, (h.object o).Linked)
    (hbound : bound ≤ h.nextObject) (ho : o < bound) (hkept : .object o ∈ kept) :
    (h.object o).Upholds (h'.object o) := by
  induction he with
  | refl => exact .refl _
  | tail hto hwindow hstep ih ih' =>
    have hl₀ := hto.linked hl
    have hbound₀ := Nat.le_trans hbound hto.nextObject_le
    have hlast := hstep.upholds (hwindow.linked hl₀)
      (Nat.le_trans hbound₀ hwindow.nextObject_le) ho hkept
    exact ((ih hl hbound).trans (ih' hl₀ hbound₀)).trans hlast

end Heap

/-! ## 5. Machines -/

/-- The machine after steps on an object, each done however the ones before it ended. -/
def Machine.afterSteps (m : Machine) (o : ObjectId) : List OwnStep → Machine
  | [] => m
  | s :: rest => (endOf ((s.run o).perform m)).afterSteps o rest

theorem Heap.Evolves.linked_of_empty {h : Heap} (he : Heap.Evolves 0 [] Heap.empty h) (o : ObjectId) :
    (h.object o).Linked := by
  refine he.linked (fun o a ha => ?_) o
  have hempty : Heap.empty.object o = default := rfl
  rw [hempty] at ha
  cases ha

theorem Machine.Reachable.linked {m : Machine} (hm : m.Reachable) (o : ObjectId) :
    (m.heap.object o).Linked := hm.evolves.linked_of_empty o

/-- One step upholds what is permanent. -/
theorem upholds_step {m : Machine} (hm : m.Reachable) {o : ObjectId} (ho : o < m.heap.nextObject)
    (s : OwnStep) :
    (m.heap.object o).Upholds ((endOf ((s.run o).perform m)).heap.object o) ∧
      o < (endOf ((s.run o).perform m)).heap.nextObject := by
  have he : Heap.Evolves m.heap.nextObject ([.object o] ++ m.held) m.heap
      (endOf ((s.run o).perform m)).heap :=
    evolves_holding ((built_ownStep s o).leads (bodiesAt_tame _)) _ (Nat.le_refl _)
  refine ⟨he.upholds hm.linked (Nat.le_refl _) ho List.mem_cons_self, ?_⟩
  exact Nat.lt_of_lt_of_le ho he.nextObject_le

/-- Any number of steps does. -/
theorem upholds_steps {m : Machine} (hm : m.Reachable) {o : ObjectId} (ho : o < m.heap.nextObject)
    (steps : List OwnStep) :
    (m.afterSteps o steps).Reachable ∧
      (m.heap.object o).Upholds ((m.afterSteps o steps).heap.object o) := by
  induction steps generalizing m with
  | nil => exact ⟨hm, .refl _⟩
  | cons s steps ih =>
    obtain ⟨hfirst, ho'⟩ := upholds_step hm ho s
    obtain ⟨hreachable, hrest⟩ := ih (.act (.own o s) hm) ho'
    exact ⟨hreachable, hfirst.trans hrest⟩

/-- **Permanent properties persist.** Whatever object of whatever kind, in whatever machine: after any
steps on it, a property that was not configurable is still there, is still not configurable and keeps
what that promises; and if the object was not extensible, it is not, and no key that was not its own has
become its own. -/
theorem ownProperties_persist {m : Machine} (hm : m.Reachable) {o : ObjectId}
    (ho : o < m.heap.nextObject) (steps : List OwnStep) :
    (∀ k p, m.heap.getOwn? o k = some p → p.configurable = false →
      ∃ q, (m.afterSteps o steps).heap.getOwn? o k = some q ∧ p.Keeps q) ∧
    ((m.heap.object o).extensible = false →
      ((m.afterSteps o steps).heap.object o).extensible = false ∧
        ∀ k, m.heap.getOwn? o k = none → (m.afterSteps o steps).heap.getOwn? o k = none) := by
  obtain ⟨hm', hupholds⟩ := upholds_steps hm ho steps
  refine ⟨fun k p hp hc => ?_, fun hx => ?_⟩
  · obtain ⟨p', hown, rfl⟩ := Heap.exists_own_of_getOwn hp
    rw [p'.configurable_showing] at hc
    obtain ⟨q, hq, hkeeps⟩ := hupholds.permanent k p' hown hc
    refine ⟨Heap.showing q ((m.afterSteps o steps).heap.shared? o k), ?_, ?_⟩
    · rw [Heap.getOwn?_eq, hq]
      rfl
    · exact hkeeps.showing (Heap.shows_shared (hm.linked o) hown)
        (Heap.shows_shared (hm'.linked o) hq)
  · obtain ⟨hx', hclosed⟩ := hupholds.closed hx
    refine ⟨hx', fun k hk => ?_⟩
    rw [Heap.getOwn?_eq, hclosed k (Heap.own_of_getOwn_none hk)]
    rfl

/-- The length of an array is fixed, and then everything is tried on it. -/
theorem ownProperties_persist_length :
    (Machine.start {}).Reachable ∧
    Intrinsic.arrayPrototype.id < (Machine.start {}).heap.nextObject ∧
    ∃ q, ((Machine.start {}).afterSteps Intrinsic.arrayPrototype.id
        [.define .length { writable := some false } true, .put .length (.ofNat 5) false,
          .delete .length true, .restrict true, .define (.ofNat 3) (.ofValue .null) true,
          .define .length (.accessor .undefined .undefined true true) false]).heap.getOwn?
        Intrinsic.arrayPrototype.id .length = some q ∧
      (Property.data (.ofNat 0) true false false).Keeps q := by
  have ho : Intrinsic.arrayPrototype.id < (Machine.start {}).heap.nextObject := by decide +kernel
  have hlength : (Machine.start {}).heap.getOwn? Intrinsic.arrayPrototype.id .length =
      some (.data (.ofNat 0) true false false) := by decide +kernel
  exact ⟨.start {}, ho, (ownProperties_persist (.start {}) ho _).1 .length _ hlength rfl⟩

end Ecma51
