import Ecma51.Proofs.Accesses
import Ecma51.Proofs.ArraySplice

/-!
# Visits of elements

A method that knows the length of an object visits elements before the end, and only these: it asks whether they are
there and reads them. Otherwise it reads nothing of the object but methods for a conversion.

* `Access.Within`: accesses after the length is known.
* `Visits`: operations with such accesses only, and the indices that they visit.
* `upward_visits`, `visitFrom_visits`, `accumulate_visits`: loops.
* `heapSort_visits`: sorting visits nothing by itself.
-/

namespace Ecma51

/-! ## 1. Visits -/

/-- An access of a method that knows the length of an object: it reads elements of the object before the end, no other
property of any object but the methods of a conversion, and assigns, deletes, adds and calls what it likes. -/
def Access.Within (o : ObjectId) (n : Nat) : Access → Prop
  | named _ name => name = "valueOf" ∨ name = "toString" ∨ name = "toLocaleString"
  | element p i | has p i => p = o ∧ i < n
  | make _ => False
  | put .. | delete .. | define .. | extent _ | call .. => True

theorem Access.Converts.within {a : Access} (ha : a.Converts) (o : ObjectId) (n : Nat) : a.Within o n := by
  cases a with
  | named p name => exact ha.imp_right .inl
  | call f this args => trivial
  | _ => exact ha.elim

/-- An index is visited: it is asked whether there is an element, or the element is read. -/
def Visited (o : ObjectId) (i : Nat) (log : List Event) : Prop :=
  ∃ e ∈ log, e.access = .has o i ∨ e.access = .element o i

/-- All indices of a kind are visited. -/
def Covers (o : ObjectId) (S : Nat → Prop) (log : List Event) : Prop := ∀ i, S i → Visited o i log

namespace Covers

variable {o : ObjectId} {S S' : Nat → Prop} {log log' : List Event}

theorem none : Covers o (fun _ => False) log := fun _ h => h.elim

theorem mono (h : Covers o S log) (hS : ∀ i, S' i → S i) : Covers o S' log := fun i hi => h i (hS i hi)

theorem left (h : Covers o S log) : Covers o S (log ++ log') := fun i hi =>
  have ⟨e, he, hvisit⟩ := h i hi
  ⟨e, List.mem_append_left _ he, hvisit⟩

theorem right (h : Covers o S log') : Covers o S (log ++ log') := fun i hi =>
  have ⟨e, he, hvisit⟩ := h i hi
  ⟨e, List.mem_append_right _ he, hvisit⟩

end Covers

/-- Every run visits within bounds, and visits certain indices if it ends well. -/
def Visits {α : Type} (bodies : Bodies) (o : ObjectId) (n : Nat) (x : Run α) (S : α → Nat → Prop) : Prop :=
  Logs bodies (Access.Within o n) x fun a log => Covers o (S a) log

namespace Visits

variable {α β : Type} {bodies : Bodies} {o : ObjectId} {n : Nat} {x : Run α} {f : α → Run β} {S S' : α → Nat → Prop}
  {T : β → Nat → Prop}

theorem mono (hx : Visits bodies o n x S) (hS : ∀ a i, S' a i → S a i) : Visits bodies o n x S' :=
  Logs.mono hx (fun _ h => h) fun a _ h => h.mono (hS a)

theorem pure {a : α} (ha : ∀ i, ¬ S a i) : Visits bodies o n (pure a) S :=
  Logs.pure fun i hi => absurd hi (ha i)

theorem throw (e : Failure) : Visits bodies o n (throw e : Run α) S := Logs.throw e

theorem holding (hx : Visits bodies o n x S) (vs : List Value) : Visits bodies o n (holding vs x) S :=
  Logs.holding hx vs

theorem asking {γ : Type} {g : Heap → γ} (hg : Aside (return g (← getHeap))) {F : Heap → Run β}
    (hsame : ∀ h h', g h = g h' → F h = F h') (hF : ∀ h, Visits bodies o n (F h) T) :
    Visits bodies o n (getHeap >>= F) T := Logs.asking hg hsame hF

/-- What is visited by the first operation, or by the second. -/
theorem bind (hx : Visits bodies o n x S)
    (hf : ∀ a, Visits bodies o n (f a) fun b i => T b i ∧ ¬ S a i) : Visits bodies o n (x >>= f) T := by
  refine Logs.bind hx fun a log hlog => Logs.mono (hf a) (fun _ h => h) fun b log' hlog' i hi => ?_
  by_cases hvisited : S a i
  · exact (Covers.left hlog) i hvisited
  · exact (Covers.right hlog') i ⟨hi, hvisited⟩

/-- What follows an operation whose visits do not matter. -/
theorem next (hx : Visits bodies o n x S) (hf : ∀ a, Visits bodies o n (f a) T) : Visits bodies o n (x >>= f) T :=
  bind hx fun a => (hf a).mono fun _ _ h => h.1

/-- What follows one of two operations whose visits do not matter. -/
theorem either {c : Prop} [Decidable c] {y : Run α} (hx : Visits bodies o n x S) (hy : Visits bodies o n y S)
    (hf : ∀ a, Visits bodies o n (f a) T) : Visits bodies o n (if c then x >>= f else y >>= f) T := by
  split
  · exact hx.next hf
  · exact hy.next hf

/-- What follows an operation that ensures something about its result. -/
theorem ensuring {F : α → Prop} (hx : Logs bodies (Access.Within o n) x fun a _ => F a)
    (hf : ∀ a, F a → Visits bodies o n (f a) T) : Visits bodies o n (x >>= f) T :=
  Logs.bind hx fun a _ ha => Logs.mono (hf a ha) (fun _ h => h) fun _ _ h => h.right

theorem of_converts (hx : Logs bodies Access.Converts x fun _ _ => True) :
    Visits bodies o n x fun _ _ => False :=
  Logs.mono hx (fun _ h => h.within o n) fun _ _ _ => .none

theorem of_aside (hx : Aside x) : Visits bodies o n x fun _ _ => False :=
  Logs.mono (Logs.aside hx) (fun _ h => h) fun _ _ _ => .none

end Visits

/-! ## 2. Elements -/

section Elements

variable {bodies : Bodies} {o : ObjectId} {n i : Nat}

theorem access_visits (a : Access) (ha : a.Within o n) : Visits bodies o n a.run fun _ _ => False :=
  Logs.mono (.access a ha) (fun _ h => h) fun _ _ _ => .none

theorem hasAt_visits (hi : i < n) : Visits bodies o n (hasAt o i) fun _ k => k = i := by
  refine Logs.mono (.access (.has o i) ⟨rfl, hi⟩) (fun _ h => h) fun _ log hlog k hk => ?_
  obtain ⟨m, rfl⟩ := hlog
  exact ⟨_, List.mem_singleton.mpr rfl, .inl (hk ▸ rfl)⟩

theorem getAt_visits (hi : i < n) : Visits bodies o n (getAt o i) fun _ k => k = i := by
  refine Logs.mono (.access (.element o i) ⟨rfl, hi⟩) (fun _ h => h) fun _ log hlog k hk => ?_
  obtain ⟨m, rfl⟩ := hlog
  exact ⟨_, List.mem_singleton.mpr rfl, .inr (hk ▸ rfl)⟩

theorem putTo_visits (p : ObjectId) (k : Key) (v : Value) : Visits bodies o n (putTo p k v true) fun _ _ => False :=
  access_visits (.put p k v) trivial

theorem deleteAt_visits (i : Nat) : Visits bodies o n (deleteAt o i) fun _ _ => False :=
  access_visits (.delete o i) trivial

theorem addAt_visits (a : ObjectId) (i : Nat) (v : Value) : Visits bodies o n (addAt a i v) fun _ _ => False :=
  access_visits (.define a i v) trivial

theorem callValue_visits (f this : Value) (args : List Value) :
    Visits bodies o n (callValue f this args) fun _ _ => False := access_visits (.call f this args) trivial

theorem aside_toObject (v : Value) : Aside (toObject v) := by
  unfold toObject
  split
  · exact .pure _
  · split
    · exact .newObjectOf _
    · exact .throw _

theorem freshArrayWith_visits (vs : List Value) : Visits bodies o n (freshArrayWith vs) fun _ _ => False :=
  (Visits.holding (.of_aside (.newObjectOf _)) vs).next fun _ =>
    (Visits.of_aside (.hold _)).next fun _ => .of_aside (.pure _)

theorem moveElement_visits {source : Nat} (hs : source < n) (target : Nat) :
    Visits bodies o n (moveElement o source target) fun _ k => k = source := by
  refine (hasAt_visits hs).bind fun present => ?_
  have hmove : Visits bodies o n
      (if present = true then getAt o source >>= fun v => holding [v] (putAt o target v) else deleteAt o target)
      fun _ _ => False := by
    split
    · exact (getAt_visits hs).next fun v => (putTo_visits o _ v).holding [v]
    · exact deleteAt_visits target
  exact hmove.mono fun _ k h => h.2 h.1

theorem copyElement_visits {source : Nat} (hs : source < n) (a : ObjectId) (target : Nat) :
    Visits bodies o n (copyElement o source a target) fun _ k => k = source := by
  refine (hasAt_visits hs).bind fun present => ?_
  have hcopy : Visits bodies o n
      (if present = true then getAt o source >>= fun v => addAt a target v else pure ()) fun _ _ => False := by
    split
    · exact (getAt_visits hs).next fun v => addAt_visits a target v
    · exact .of_aside (.pure _)
  exact hcopy.mono fun _ k h => h.2 h.1

theorem consuming_visits {σ : Type} {step : σ → Value → Run σ}
    (hstep : ∀ s v, Visits bodies o n (step s v) fun _ _ => False) (s : σ) (vs : List Value) :
    Visits bodies o n (consuming step s vs) fun _ _ => False := by
  have heach (s : σ) (vs : List Value) : Visits bodies o n (handleEach step s vs) fun _ _ => False := by
    induction vs generalizing s with
    | nil => exact .of_aside (.pure _)
    | cons v vs ih =>
      unfold handleEach
      exact ((hstep s v).holding []).next fun s => (Visits.of_aside .letGo).next fun _ => ih s
  exact (heach s vs).holding vs

theorem putAll_visits (vs : List Value) (i : Nat) : Visits bodies o n (putAll o vs i) fun _ _ => False := by
  unfold putAll
  dsimp only
  refine (consuming_visits (fun i v => ?_) i vs).next fun _ => .of_aside (.pure _)
  exact (putTo_visits o _ v).next fun _ => .of_aside (.pure _)

end Elements

/-! ## 3. Loops -/

section Loops

variable {bodies : Bodies} {o : ObjectId} {n : Nat}

theorem upward_visits {body : Nat → Run Unit} {S : Nat → Nat → Prop} {count i : Nat}
    (hbody : ∀ j, i ≤ j → j < i + count → Visits bodies o n (body j) fun _ => S j) :
    Visits bodies o n (upward body count i) fun _ k => ∃ j, i ≤ j ∧ j < i + count ∧ S j k := by
  induction count generalizing i with
  | zero => exact .pure fun k ⟨j, _, _, _⟩ => by omega
  | succ count ih =>
    refine (hbody i (Nat.le_refl i) (by omega)).bind fun _ => (ih fun j _ _ => hbody j (by omega) (by omega)).mono ?_
    rintro _ k ⟨⟨j, _, _, hj⟩, hnot⟩
    have hne : j ≠ i := by
      rintro rfl
      exact hnot hj
    exact ⟨j, by omega, by omega, hj⟩

theorem downward_visits {body : Nat → Run Unit} {S : Nat → Nat → Prop} {count i : Nat}
    (hbody : ∀ j, i ≤ j → j < i + count → Visits bodies o n (body j) fun _ => S j) :
    Visits bodies o n (downward body count i) fun _ k => ∃ j, i ≤ j ∧ j < i + count ∧ S j k := by
  induction count with
  | zero => exact .pure fun k ⟨j, _, _, _⟩ => by omega
  | succ count ih =>
    refine (hbody (i + count) (by omega) (by omega)).bind fun _ =>
      (ih fun j _ _ => hbody j (by omega) (by omega)).mono ?_
    rintro _ k ⟨⟨j, _, _, hj⟩, hnot⟩
    have hne : j ≠ i + count := by
      rintro rfl
      exact hnot hj
    exact ⟨j, by omega, by omega, hj⟩

theorem findUpward_visits {test : Nat → Run Bool} {count i : Nat}
    (htest : ∀ j, i ≤ j → j < i + count → Visits bodies o n (test j) fun _ _ => False) :
    Visits bodies o n (findUpward test count i) fun _ _ => False := by
  induction count generalizing i with
  | zero => exact .of_aside (.pure _)
  | succ count ih =>
    refine (htest i (Nat.le_refl i) (by omega)).next fun found => ?_
    split
    · exact .of_aside (.pure _)
    · exact ih fun j _ _ => htest j (by omega) (by omega)

theorem findDownward_visits {test : Nat → Run Bool} {count : Nat}
    (htest : ∀ j < count, Visits bodies o n (test j) fun _ _ => False) :
    Visits bodies o n (findDownward test count) fun _ _ => False := by
  induction count with
  | zero => exact .of_aside (.pure _)
  | succ count ih =>
    refine (htest count (Nat.lt_succ_self count)).next fun found => ?_
    split
    · exact .of_aside (.pure _)
    · exact ih fun j hj => htest j (Nat.lt_succ_of_lt hj)

theorem elementText_visits (v : Value) (isLocal : Bool) :
    Visits bodies o n (elementText v isLocal) fun _ _ => False := by
  unfold elementText
  split
  · exact .of_aside (.pure _)
  · split
    · refine (Visits.of_aside (aside_toObject v)).next fun p => .holding ?_ _
      have hinvoke : Visits bodies o n (invoke (.object p) "toLocaleString" []) fun _ _ => False := by
        refine (Visits.holding (access_visits (.named p "toLocaleString") (.inr (.inr rfl))) []).next fun f => ?_
        refine .asking (.isCallable f) (fun h h' heq => by rw [heq]) fun h => ?_
        split
        · exact callValue_visits f _ []
        · exact .throw _
      exact hinvoke.next fun u => .of_converts (toText_logs u)
    · exact .of_converts (toText_logs v)

theorem elementTexts_visits (isLocal : Bool) {count i : Nat} (hi : i + count ≤ n) (acc : List Text) :
    Visits bodies o n (elementTexts o isLocal count i acc) fun _ k => i ≤ k ∧ k < i + count := by
  induction count generalizing i acc with
  | zero => exact .pure fun k hk => by omega
  | succ count ih =>
    refine (getAt_visits (by omega)).bind fun v => .next ((elementText_visits v isLocal).holding [v]) fun t => ?_
    exact (ih (by omega) _).mono fun _ k hk => by omega

theorem joinElements_visits (separator : Text) (isLocal : Bool) :
    Visits bodies o n (joinElements o n separator isLocal) fun _ k => k < n := by
  refine (elementTexts_visits isLocal (i := 0) (by omega) []).bind fun ts => .pure fun k hk => ?_
  omega

theorem presentElements_visits {count i : Nat} (hi : i + count ≤ n) (acc : List Value) :
    Visits bodies o n (presentElements o count i acc) fun _ k => i ≤ k ∧ k < i + count := by
  induction count generalizing i acc with
  | zero => exact .pure fun k hk => by omega
  | succ count ih =>
    refine (hasAt_visits (by omega)).bind fun present => ?_
    split
    · refine (getAt_visits (by omega)).next fun v => (Visits.of_aside (.hold v)).next fun _ => ?_
      exact (ih (by omega) _).mono fun _ k hk => by omega
    · exact (ih (by omega) _).mono fun _ k hk => by omega

end Loops

/-! ## 4. Sorting -/

section Sorting

variable {bodies : Bodies} {o : ObjectId} {n : Nat}

theorem compareElements_visits (f x y : Value) : Visits bodies o n (compareElements f x y) fun _ _ => False := by
  unfold compareElements
  split
  · exact .of_aside (.pure _)
  · exact .of_aside (.pure _)
  · exact .of_aside (.pure _)
  · split
    · exact (Visits.of_converts (toText_logs x)).next fun s =>
        (Visits.of_converts (toText_logs y)).next fun t => .of_aside (.pure _)
    · exact (callValue_visits f _ _).next fun v => (Visits.of_converts (toNumber_logs v)).next fun d =>
        .of_aside (.pure _)

variable {compare : Value → Value → Run Ordering} {size : Nat}
  (hcompare : ∀ x y, Visits bodies o n (compare x y) fun _ _ => False)

include hcompare

theorem siftDown_visits (v : Vector Value size) (root stop : Nat) (h : stop ≤ size) :
    Visits bodies o n (siftDown compare v root stop h) fun _ _ => False := by
  fun_induction siftDown compare v root stop h with
  | case1 v root hl ih =>
    refine Visits.next (S := fun _ _ => False) ?_ fun child => (hcompare _ _).next fun c => ?_
    · unfold largerChild
      dsimp only
      split
      · exact (hcompare _ _).next fun c => .of_aside (.pure _)
      · exact .of_aside (.pure _)
    · split
      · exact ih child child.property
      · exact .of_aside (.pure _)
  | case2 => exact .of_aside (.pure _)

theorem heapSort_visits (v : Vector Value size) :
    Visits bodies o n (heapSort compare v) fun _ _ => False := by
  have hheapify (v : Vector Value size) (count : Nat) :
      Visits bodies o n (heapify compare v count) fun _ _ => False := by
    induction count generalizing v with
    | zero => exact .of_aside (.pure _)
    | succ count ih => exact (siftDown_visits hcompare _ _ _ _).next fun v => ih v
  have hextract (v : Vector Value size) (stop : Nat) (h : stop < size) :
      Visits bodies o n (extractAll compare v stop h) fun _ _ => False := by
    induction stop generalizing v with
    | zero => exact .of_aside (.pure _)
    | succ stop ih => exact (siftDown_visits hcompare _ _ _ _).next fun v => ih v _
  refine (hheapify v (size / 2)).next fun v => ?_
  split
  · exact hextract _ _ _
  · exact .of_aside (.pure _)

end Sorting

/-! ## 5. Functions for elements -/

section Callbacks

variable {bodies : Bodies} {o : ObjectId} {n : Nat}

theorem isElement_visits (v : Value) {i : Nat} (hi : i < n) :
    Visits bodies o n (isElement o v i) fun _ _ => False := by
  unfold isElement
  refine (hasAt_visits hi).next fun present => ?_
  split
  · exact (getAt_visits hi).next fun u => .of_aside (.pure _)
  · exact .of_aside (.pure _)

theorem requireCallback_visits (v : Value) : Visits bodies o n (requireCallback v) fun _ _ => False := by
  unfold requireCallback
  refine .asking (.isCallable v) (fun h h' heq => by rw [heq]) fun h => ?_
  split
  · exact .of_aside (.pure _)
  · exact .throw _

/-- All elements are visited if no visit ends it. -/
theorem visitFrom_visits (f thisArg : Value) {visit : Nat → Value → Value → Run Bool} {goesOn : Prop}
    (hvisit : ∀ i v u, Logs bodies (Access.Within o n) (visit i v u) fun b _ => goesOn → b = true) {count i : Nat}
    (hi : i + count ≤ n) :
    Visits bodies o n (visitFrom o f thisArg visit count i) fun _ k => goesOn ∧ i ≤ k ∧ k < i + count := by
  induction count generalizing i with
  | zero => exact .pure fun k hk => by omega
  | succ count ih =>
    have hrest (b : Bool) (hb : goesOn → b = true) :
        Visits bodies o n (if b = true then visitFrom o f thisArg visit count (i + 1) else pure ())
          fun _ k => (goesOn ∧ i ≤ k ∧ k < i + (count + 1)) ∧ ¬ k = i := by
      split
      · exact (ih (by omega)).mono fun _ k hk => ⟨hk.1.1, by omega⟩
      · next hstop => exact .pure fun k hk => hstop (hb hk.1.1)
    refine (hasAt_visits (by omega)).bind fun present => ?_
    split
    · refine (getAt_visits (by omega)).next fun v => .ensuring (.holding ?_ [v]) hrest
      exact Logs.bind (callValue_visits f _ _) fun u _ _ => .holding (hvisit i v u) [u]
    · exact .ensuring (.pure fun _ => rfl) hrest

theorem searchFrom_visits (f thisArg : Value) (goal : Bool) {count i : Nat} (hi : i + count ≤ n) :
    Visits bodies o n (searchFrom o f thisArg goal count i) fun _ _ => False := by
  induction count generalizing i with
  | zero => exact .of_aside (.pure _)
  | succ count ih =>
    have hrest (answer : Bool) : Visits bodies o n
        (if (answer == goal) = true then searchFrom o f thisArg goal count (i + 1) else pure answer)
        fun _ _ => False := by
      split
      · exact ih (by omega)
      · exact .of_aside (.pure _)
    refine (hasAt_visits (by omega)).next fun present => ?_
    split
    · refine (getAt_visits (by omega)).next fun v => .next (S := fun _ _ => False) ?_ hrest
      rw [← bind_pure_comp]
      exact ((callValue_visits f _ _).holding [v]).next fun u => .of_aside (.pure _)
    · exact (Visits.of_aside (.pure _)).next hrest

theorem firstPresent_visits {indices : List Nat} (hindices : ∀ i ∈ indices, i < n) :
    Logs bodies (Access.Within o n) (firstPresent o indices) fun found log =>
      (∀ i ∈ found.2, i < n) ∧ Covers o (fun k => k ∈ indices ∧ k ∉ found.2) log := by
  induction indices with
  | nil => exact .throw _
  | cons i indices ih =>
    obtain ⟨hi, hrest⟩ := List.forall_mem_cons.mp hindices
    unfold firstPresent
    refine Logs.bind (hasAt_visits hi) fun present log hlog => ?_
    split
    · refine Logs.bind (getAt_visits hi) fun v log' _ => .pure ⟨hrest, fun k hk => ?_⟩
      have hki : k = i := (List.mem_cons.mp hk.1).resolve_right hk.2
      exact (Covers.left hlog) k hki
    · refine (ih hrest).mono (fun _ h => h) fun found log' hfound => ⟨hfound.1, fun k hk => ?_⟩
      rcases List.mem_cons.mp hk.1 with hki | hmem
      · exact (Covers.left hlog) k hki
      · exact (Covers.right hfound.2) k ⟨hmem, hk.2⟩

theorem accumulate_visits (f : Value) {indices : List Nat} (hindices : ∀ i ∈ indices, i < n) (acc : Value) :
    Visits bodies o n (accumulate o f indices acc) fun _ k => k ∈ indices := by
  induction indices generalizing acc with
  | nil => exact .pure fun k hk => nomatch hk
  | cons i indices ih =>
    obtain ⟨hi, hrest⟩ := List.forall_mem_cons.mp hindices
    unfold accumulate
    have hfirst : Visits bodies o n (do
        if ← hasAt o i then
          let v ← getAt o i
          callValue f .undefined [acc, v, .ofNat i, .object o]
        else return acc) fun _ k => k = i := by
      refine (hasAt_visits hi).bind fun present => ?_
      split
      · exact (getAt_visits hi).next fun v => (callValue_visits f _ _).mono fun _ k hk => hk.2 hk.1
      · exact .pure fun k hk => hk.2 hk.1
    refine (hfirst.holding [acc]).bind fun acc => (ih hrest acc).mono fun _ k hk => ?_
    exact (List.mem_cons.mp hk.1).resolve_left hk.2

end Callbacks

end Ecma51
