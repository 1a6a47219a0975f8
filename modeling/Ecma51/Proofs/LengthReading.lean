import Ecma51.Proofs.Visits

/-!
# Reading a length once

The methods of arrays work with any object that has a length, which may be an accessor that answers differently each
time.

* `StartsWithReading`: a run that reads the length before anything else.
* **`length_readOnce`**: all methods but one read the length once, and only elements below that number; the other one
  reads it twice.
-/

namespace Ecma51

/-! ## 1. Readings -/

/-- A log starts with a reading of the length of an object, and with its conversion to a number. If that fails nothing
follows, and otherwise what follows is as the number says. -/
def Reading (bodies : Bodies) (o : ObjectId) (follows : Nat → List Event → Prop) (log : List Event) : Prop :=
  ∃ m conversion rest, log = ⟨m, .named o "length"⟩ :: (conversion ++ rest) ∧
    (∀ e ∈ conversion, e.access.Converts) ∧
    ((∃ e m', lengthOfArrayLike o bodies m = .error e m') ∧ rest = [] ∨
      ∃ n m', lengthOfArrayLike o bodies m = .ok n m' ∧ follows n rest)

/-- A run reads the length of the object that a value stands for, before it accesses anything else, and what follows is
as the number and the outcome say. Or it fails without any access; for an object, only for lack of memory. -/
def StartsWithReading (bodies : Bodies) (this : Value)
    (follows : ObjectId → Nat → EStateM.Result Failure Machine Value → List Event → Prop) (x : Run Value)
    (m : Machine) : Prop :=
  ∃ log, Performs bodies x m log ∧
    ((log = [] ∧ ∃ e m', x bodies m = .error e m' ∧ ∀ o, this = .object o → e = .fault .outOfMemory) ∨
      ∃ o, (∀ p, this = .object p → o = p) ∧ Reading bodies o (fun n => follows o n (x bodies m)) log)

/-- After the length has been read nothing is visited from there on, and everything before if that is asked for and the
run ends well. -/
def VisitsBelow (all : Prop) (o : ObjectId) (n : Nat) (outcome : EStateM.Result Failure Machine Value)
    (log : List Event) : Prop :=
  (∀ e ∈ log, e.access.Within o n) ∧ (all → ∀ v m, outcome = .ok v m → Covers o (· < n) log)

section Readings

variable {bodies : Bodies}

theorem lengthOfArrayLike_performs (bodies : Bodies) (o : ObjectId) (m : Machine) :
    ∃ conversion, Performs bodies (lengthOfArrayLike o) m (⟨m, .named o "length"⟩ :: conversion) ∧
      ∀ e ∈ conversion, e.access.Converts := by
  have hread : Performs bodies (getNamed o "length") m [⟨m, .named o "length"⟩] := .access (.named o "length") m
  cases hrun : getNamed o "length" bodies m with
  | error e m' => exact ⟨[], .bind_error hread hrun, List.forall_mem_nil _⟩
  | ok v m' =>
    obtain ⟨conversion, hlog, hkind, _⟩ := toUint32_logs v m'
    exact ⟨conversion, .bind_ok hread hrun hlog, hkind⟩

/-- **The length is read first, and once**; what follows is given the number. -/
theorem startsWithReading {follows : ObjectId → Nat → EStateM.Result Failure Machine Value → List Event → Prop}
    {f : ObjectId × Nat → Run Value} (waiting : List Value) (this : Value)
    (hf : ∀ o n m, ∃ log, Performs bodies (f (o, n)) m log ∧ follows o n (f (o, n) bodies m) log) (m : Machine) :
    StartsWithReading bodies this follows (thisAndLengthWith waiting this >>= f) m := by
  have hopen : thisAndLengthWith waiting this >>= f = holding waiting (toObject this) >>= fun o =>
      hold (.object o) >>= fun _ => holding waiting (lengthOfArrayLike o) >>= fun n => f (o, n) := by
    unfold thisAndLengthWith
    simp only [bind_assoc, pure_bind]
  have hreceiver : Performs bodies (holding waiting (toObject this)) m [] :=
    .holding waiting (.aside _ (aside_toObject this))
  rw [hopen]
  cases hrun : holding waiting (toObject this) bodies m with
  | error e m₁ =>
    refine ⟨[], .bind_error hreceiver hrun, .inl ⟨rfl, e, m₁, bind_run_error hrun _, ?_⟩⟩
    rintro o rfl
    cases hrun
  | ok o m₁ =>
    have hsame (p : ObjectId) (hp : this = .object p) : o = p := by
      subst hp
      cases hrun
      rfl
    have hhold : hold (.object o) bodies m₁ = .ok () { m₁ with held := .object o :: m₁.held } := rfl
    obtain ⟨conversion, hlog, hkind⟩ := lengthOfArrayLike_performs bodies o
      { m₁ with held := waiting ++ .object o :: m₁.held }
    have hreading := Performs.holding (m := { m₁ with held := .object o :: m₁.held }) waiting hlog
    cases hlength : lengthOfArrayLike o bodies { m₁ with held := waiting ++ .object o :: m₁.held } with
    | error e m₂ =>
      have hfails := holding_error (m := { m₁ with held := .object o :: m₁.held }) hlength
      refine ⟨_, .bind_ok hreceiver hrun (.bind_ok (.aside _ (.hold _)) hhold (.bind_error hreading hfails)),
        .inr ⟨o, hsame, _, conversion, [], ?_, hkind, .inl ⟨⟨e, m₂, hlength⟩, rfl⟩⟩⟩
      rw [List.append_nil]
      rfl
    | ok n m₂ =>
      have hgives := holding_ok (m := { m₁ with held := .object o :: m₁.held }) hlength
      obtain ⟨rest, hrest, hfollows⟩ := hf o n { m₂ with held := .object o :: m₁.held }
      refine ⟨_, .bind_ok hreceiver hrun (.bind_ok (.aside _ (.hold _)) hhold (.bind_ok hreading hgives hrest)),
        .inr ⟨o, hsame, _, conversion, rest, rfl, hkind, .inr ⟨n, m₂, hlength, ?_⟩⟩⟩
      rw [bind_run_ok hrun, bind_run_ok hhold, bind_run_ok hgives]
      exact hfollows

/-- What comes before the reading without an access does not matter. -/
theorem StartsWithReading.after {follows : ObjectId → Nat → EStateM.Result Failure Machine Value → List Event → Prop}
    {this : Value} {x : Run ObjectId} {f : ObjectId → Run Value} {m : Machine} (hx : Performs bodies x m [])
    (hfails : ∀ e m', x bodies m = .error e m' → e = .fault .outOfMemory)
    (hf : ∀ a m', StartsWithReading bodies this follows (f a) m') :
    StartsWithReading bodies this follows (x >>= f) m := by
  cases hrun : x bodies m with
  | error e m' =>
    exact ⟨[], .bind_error hx hrun, .inl ⟨rfl, e, m', bind_run_error hrun f, fun _ _ => hfails e m' hrun⟩⟩
  | ok a m' =>
    obtain ⟨log, hlog, hstart⟩ := hf a m'
    refine ⟨log, .bind_ok hx hrun hlog, ?_⟩
    rw [bind_run_ok hrun]
    exact hstart

theorem Visits.visitsBelow {o : ObjectId} {n : Nat} {all : Prop} {x : Run Value}
    (hx : Visits bodies o n x fun _ i => all ∧ i < n) (m : Machine) :
    ∃ log, Performs bodies x m log ∧ VisitsBelow all o n (x bodies m) log := by
  obtain ⟨log, hlog, hkind, hend⟩ := hx m
  exact ⟨log, hlog, hkind, fun hall v m' hrun i hi => hend v m' hrun i ⟨hall, hi⟩⟩

end Readings

/-! ## 2. Methods -/

section Methods

variable {bodies : Bodies} {this : Value} {args : List Value}

/-- A method that begins by reading the length and visits nothing beyond it. -/
theorem visitsBelow_of_visits {all : Prop} (waiting : List Value) (this : Value) {f : ObjectId × Nat → Run Value}
    (hf : ∀ o n, Visits bodies o n (f (o, n)) fun _ i => all ∧ i < n) (m : Machine) :
    StartsWithReading bodies this (VisitsBelow all) (thisAndLengthWith waiting this >>= f) m :=
  startsWithReading waiting this (fun o n => (hf o n).visitsBelow) m

/-- The same, if it does not matter what exactly is visited. -/
theorem visitsBelow_of_bounded (waiting : List Value) (this : Value) {f : ObjectId × Nat → Run Value}
    (hf : ∀ o n, Visits bodies o n (f (o, n)) fun _ _ => False) (m : Machine) :
    StartsWithReading bodies this (VisitsBelow False) (thisAndLengthWith waiting this >>= f) m :=
  visitsBelow_of_visits waiting this (fun o n => (hf o n).mono fun _ _ h => h.1) m

theorem join_reads (m : Machine) :
    StartsWithReading bodies this (VisitsBelow True) (arrayFunction .join this args) m := by
  refine visitsBelow_of_visits [] this (fun o n => ?_) m
  have hjoin (separator : Text) : Visits bodies o n (joinElements o n separator false) fun _ i => True ∧ i < n :=
    (joinElements_visits separator false).mono fun _ _ h => h.2
  dsimp only
  split
  · exact hjoin _
  · exact (Visits.of_converts (toText_logs _)).next hjoin

theorem toLocaleString_reads (m : Machine) :
    StartsWithReading bodies this (VisitsBelow True) (arrayFunction .toLocaleString this args) m :=
  visitsBelow_of_visits [] this (fun _ _ => (joinElements_visits "," true).mono fun _ _ h => h.2) m

theorem pop_reads (m : Machine) :
    StartsWithReading bodies this (VisitsBelow False) (arrayFunction .pop this args) m := by
  refine visitsBelow_of_bounded [] this (fun o n => ?_) m
  dsimp only
  split
  · exact (putTo_visits _ _ _).next fun _ => .of_aside (.pure _)
  · exact (getAt_visits (by omega)).next fun v => (Visits.of_aside (.hold v)).next fun _ =>
      (deleteAt_visits _).next fun _ => (putTo_visits _ _ _).next fun _ => .of_aside (.pure _)

theorem push_reads (m : Machine) :
    StartsWithReading bodies this (VisitsBelow False) (arrayFunction .push this args) m :=
  visitsBelow_of_bounded args this (fun _ _ => (putAll_visits args _).next fun _ =>
    (putTo_visits _ _ _).next fun _ => .of_aside (.pure _)) m

theorem exchange_visits {o : ObjectId} {n lower upper : Nat} (hlower : lower < n) (hupper : upper < n) :
    Visits bodies o n (exchange o lower upper) fun _ _ => False := by
  unfold exchange
  refine (getAt_visits hlower).next fun low => ((getAt_visits hupper).holding [low]).next fun high =>
    (hasAt_visits hlower).next fun hasLow => (hasAt_visits hupper).next fun hasHigh => ?_
  cases hasLow <;> cases hasHigh
  · exact .of_aside (.pure _)
  · exact ((putTo_visits o _ high).holding [low, high]).next fun _ => deleteAt_visits upper
  · exact (deleteAt_visits lower).next fun _ => (putTo_visits o _ low).holding [low, high]
  · exact ((putTo_visits o _ high).holding [low, high]).next fun _ => (putTo_visits o _ low).holding [low]

theorem reverse_reads (m : Machine) :
    StartsWithReading bodies this (VisitsBelow False) (arrayFunction .reverse this args) m := by
  refine visitsBelow_of_bounded [] this (fun o n => ?_) m
  have hexchange (j : Nat) (hj : j < 0 + n / 2) :
      Visits bodies o n (exchange o j (n - j - 1)) fun _ _ => False := exchange_visits (by omega) (by omega)
  exact (upward_visits fun j _ hj => hexchange j hj).next fun _ => .of_aside (.pure _)

theorem shift_reads (m : Machine) :
    StartsWithReading bodies this (VisitsBelow True) (arrayFunction .shift this args) m := by
  refine visitsBelow_of_visits [] this (fun o n => ?_) m
  dsimp only
  split
  · next hzero => exact (putTo_visits _ _ _).next fun _ => .pure fun i hi => by omega
  · refine (getAt_visits (by omega)).bind fun first => (Visits.of_aside (.hold first)).next fun _ => ?_
    -- the element at the start is read, and it is asked for each of the others
    refine (upward_visits (S := fun j k => k = j) fun j _ hj => moveElement_visits (by omega) (j - 1)).bind fun _ => ?_
    refine (deleteAt_visits _).next fun _ => (putTo_visits _ _ _).next fun _ => .pure fun i hi => ?_
    exact hi.2 ⟨i, by omega, by omega, rfl⟩

theorem slice_reads (m : Machine) :
    StartsWithReading bodies this (VisitsBelow False) (arrayFunction .slice this args) m := by
  refine visitsBelow_of_bounded [] this (fun o n => ?_) m
  refine (freshArrayWith_visits []).next fun a => (Visits.of_converts (toInteger_logs _)).next fun start => ?_
  have hstop : Logs bodies (Access.Within o n) (positionOr (argumentAt args 1) n n) fun stop _ => stop ≤ n := by
    unfold positionOr
    split
    · exact .pure (Nat.le_refl n)
    · exact Logs.bind (Visits.of_converts (toInteger_logs _)) fun x _ _ => .pure (relativeIndex_le x n)
  refine .ensuring hstop fun stop hle => (upward_visits fun k _ hk => copyElement_visits ?_ a k).next fun _ =>
    (putTo_visits _ _ _).next fun _ => .of_aside (.pure _)
  omega

theorem splice_reads (m : Machine) :
    StartsWithReading bodies this (VisitsBelow False) (arrayFunction .splice this args) m := by
  refine visitsBelow_of_bounded args this (fun o n => ?_) m
  dsimp only
  refine (freshArrayWith_visits args).next fun a => ?_
  have hcut {start removed : Nat} (hle : start + removed ≤ n) : Logs bodies (Access.Within o n) (do
      upward (fun k => copyElement o (start + k) a k) removed 0
      putLength a removed
      return (start, removed)) fun cut _ => cut.1 + cut.2 ≤ n :=
    Logs.bind (upward_visits fun k _ hk => copyElement_visits (by omega) a k) fun _ _ _ =>
      Logs.bind (putTo_visits _ _ _) fun _ _ _ => .pure hle
  refine .ensuring (F := fun cut => cut.1 + cut.2 ≤ n) (.holding ?_ args) fun cut hcut => ?_
  · refine Logs.bind (Visits.of_converts (toInteger_logs _)) fun x _ _ => ?_
    have hstart := relativeIndex_le x n
    split
    · exact hcut (show relativeIndex x n + 0 ≤ n by omega)
    · exact hcut (by omega)
    · next count _ =>
      refine Logs.bind (Visits.of_converts (toInteger_logs count)) fun y _ _ => hcut ?_
      have hcount := relativeIndex_le y (n - relativeIndex x n)
      split <;> omega
  · refine Visits.next (S := fun _ _ => False) (.holding ?_ _) fun _ => (putAll_visits _ _).next fun _ =>
      (putTo_visits _ _ _).next fun _ => .of_aside (.pure _)
    split
    · exact (upward_visits fun k _ hk => moveElement_visits (by omega) _).next fun _ =>
        (downward_visits fun k _ _ => deleteAt_visits k).mono fun _ _ h => h.elim
    · split
      · exact (downward_visits fun k _ hk => moveElement_visits (by omega) _).mono fun _ _ h => h.elim
      · exact .of_aside (.pure _)

theorem sort_reads (m : Machine) :
    StartsWithReading bodies this (VisitsBelow True) (arrayFunction .sort this args) m := by
  refine visitsBelow_of_visits [] this (fun o n => ?_) m
  dsimp only
  have hsort (f : Value) : Visits bodies o n (do
      let sorted ← holding [] do
        let items ← presentElements o n 0 []
        let sorted ← heapSort (compareElements f) (⟨items.toArray, rfl⟩ : Vector Value items.toArray.size)
        return sorted.toList
      putAll o sorted 0
      upward (deleteAt o) (n - sorted.length) sorted.length
      return Value.object o) fun _ i => True ∧ i < n := by
    have hitems : Visits bodies o n (presentElements o n 0 []) _ := presentElements_visits (by omega) []
    have hsorted : Visits bodies o n (do
        let items ← presentElements o n 0 []
        let sorted ← heapSort (compareElements f) (⟨items.toArray, rfl⟩ : Vector Value items.toArray.size)
        return sorted.toList) fun _ i => i < n := by
      refine hitems.bind fun items => (heapSort_visits (compareElements_visits f) _).next fun sorted => ?_
      refine .pure fun i hi => ?_
      omega
    refine (hsorted.holding []).bind fun sorted => (putAll_visits sorted 0).next fun _ => ?_
    exact (upward_visits fun j _ _ => deleteAt_visits j).next fun _ => .pure fun i hi => hi.2 hi.1.2
  refine .asking (.isCallable _) (fun h h' heq => by rw [heq]) fun h => ?_
  split
  · exact (Visits.throw _).next (S := fun _ _ => False) fun _ => hsort _
  · exact hsort _

theorem unshift_reads (m : Machine) :
    StartsWithReading bodies this (VisitsBelow True) (arrayFunction .unshift this args) m := by
  refine visitsBelow_of_visits args this (fun o n => ?_) m
  have hmoves : Visits bodies o n
      (downward (fun i => moveElement o i (i + args.length)) n 0) fun _ k => ∃ j, 0 ≤ j ∧ j < 0 + n ∧ k = j :=
    downward_visits fun j _ hj => moveElement_visits (by omega) _
  refine (hmoves.holding args).bind fun _ => (putAll_visits args 0).next fun _ => (putTo_visits _ _ _).next fun _ => ?_
  refine .pure fun i hi => ?_
  exact hi.2 ⟨i, by omega, by omega, rfl⟩

theorem indexOf_reads (m : Machine) :
    StartsWithReading bodies this (VisitsBelow False) (arrayFunction .indexOf this args) m := by
  refine visitsBelow_of_bounded [] this (fun o n => ?_) m
  have hsearch (x : Double) : Visits bodies o n
      (findUpward (isElement o (argumentAt args 0)) (n - relativeIndex x n) (relativeIndex x n)) fun _ _ => False :=
    findUpward_visits fun j _ hj => isElement_visits _ (by omega)
  dsimp only
  split
  · exact .of_aside (.pure _)
  · refine .either (.of_converts (toInteger_logs _)) (.of_aside (.pure _)) fun x => (hsearch x).next fun found => ?_
    split <;> exact .of_aside (.pure _)

theorem lastIndexOf_reads (m : Machine) :
    StartsWithReading bodies this (VisitsBelow False) (arrayFunction .lastIndexOf this args) m := by
  refine visitsBelow_of_bounded [] this (fun o n => ?_) m
  have hsearch {below : Nat} (hbelow : below ≤ n) : Visits bodies o n
      (findDownward (isElement o (argumentAt args 0)) below) fun _ _ => False :=
    findDownward_visits fun j hj => isElement_visits _ (by omega)
  dsimp only
  split
  · exact .of_aside (.pure _)
  · refine .either (.of_converts (toInteger_logs _)) (.of_aside (.pure _)) fun x => .next (hsearch ?_) fun found => ?_
    · split
      · split <;> omega
      · split <;> omega
    · split <;> exact .of_aside (.pure _)

theorem search_reads (goal : Bool) (m : Machine) :
    StartsWithReading bodies this (VisitsBelow False) (searchElements this args goal) m := by
  refine visitsBelow_of_bounded [] this (fun o n => ?_) m
  have hsearch : Visits bodies o n (searchFrom o (argumentAt args 0) (argumentAt args 1) goal n 0) fun _ _ => False :=
    searchFrom_visits _ _ goal (by omega)
  exact (requireCallback_visits _).next fun _ => hsearch.next fun _ => .of_aside (.pure _)

theorem visitElements_reads {visit : Nat → Value → Value → Run Bool} {rest : Run Value}
    (hvisit : ∀ o n i v u, Logs bodies (Access.Within o n) (visit i v u) fun b _ => b = true)
    (hrest : Aside rest) (m : Machine) :
    StartsWithReading bodies this (VisitsBelow True) (visitElements this args visit >>= fun _ => rest) m := by
  have hopen : visitElements this args visit >>= (fun _ => rest) = thisAndLengthWith [] this >>= fun r =>
      requireCallback (argumentAt args 0) >>= fun _ =>
        visitFrom r.1 (argumentAt args 0) (argumentAt args 1) visit r.2 0 >>= fun _ => rest := by
    unfold visitElements
    simp only [bind_assoc]
    rfl
  rw [hopen]
  refine visitsBelow_of_visits [] this (fun o n => (requireCallback_visits _).next fun _ => ?_) m
  have hgoesOn (i : Nat) (v u : Value) :
      Logs bodies (Access.Within o n) (visit i v u) fun b _ => True → b = true :=
    (hvisit o n i v u).mono (fun _ h => h) fun _ _ h _ => h
  have hvisits : Visits bodies o n (visitFrom o (argumentAt args 0) (argumentAt args 1) visit n 0) _ :=
    visitFrom_visits _ _ hgoesOn (by omega)
  exact hvisits.bind fun _ => (Visits.of_aside hrest).mono fun _ i hi => hi.2 ⟨trivial, by omega, by omega⟩

theorem forEach_reads (m : Machine) :
    StartsWithReading bodies this (VisitsBelow True) (arrayFunction .forEach this args) m :=
  visitElements_reads (fun _ _ _ _ _ => .pure rfl) (.pure _) m

theorem freshArray_performs (bodies : Bodies) (m : Machine) : Performs bodies freshArray m [] := by
  have hmake : Performs bodies (holding [] (newArray [])) m [] := .holding [] (.aside _ (.newObjectOf _))
  show Performs bodies (holding [] (newArray []) >>= fun a => hold (.object a) >>= fun _ => pure a) m []
  cases hrun : holding [] (newArray []) bodies m with
  | error e m' => exact .bind_error hmake hrun
  | ok a m' => exact .bind_ok hmake hrun (.bind_ok (.aside _ (.hold _)) rfl (.aside _ (.pure a)))

theorem filter_reads (m : Machine) :
    StartsWithReading bodies this (VisitsBelow True) (arrayFunction .filter this args) m := by
  refine .after (freshArray_performs bodies m) (fun e m' hrun => ?_) fun a m' => ?_
  · by_cases hm : (m.retaining []).Crowded
    · rw [show freshArray = freshArrayWith [] from rfl, freshArrayWith_crowded hm] at hrun
      cases hrun
      rfl
    · rw [show freshArray = freshArrayWith [] from rfl, freshArrayWith_free hm] at hrun
      cases hrun
  · refine visitElements_reads (fun o n i v u => ?_) (.pure _) m'
    dsimp only
    split
    · have hadd : Logs bodies (Access.Within o n) ((Access.extent a).run >>= fun length => do
          addAt a length v
          return true) fun b _ => b = true :=
        Logs.bind (.access (.extent a) trivial) fun length _ _ =>
          Logs.bind (addAt_visits a length v) fun _ _ _ => .pure rfl
      exact hadd
    · exact .pure rfl

theorem reduce_reads (fromRight : Bool) (m : Machine) :
    StartsWithReading bodies this (VisitsBelow True) (reduceElements this args fromRight) m := by
  refine visitsBelow_of_visits [] this (fun o n => (requireCallback_visits _).next fun _ => ?_) m
  obtain ⟨indices, hindices, hmem⟩ : ∃ indices,
      (if fromRight then (List.range n).reverse else List.range n) = indices ∧ ∀ i, i ∈ indices ↔ i < n := by
    refine ⟨_, rfl, fun i => ?_⟩
    split
    · rw [List.mem_reverse, List.mem_range]
    · rw [List.mem_range]
  rw [hindices]
  have hbelow (i : Nat) (hi : i ∈ indices) : i < n := (hmem i).mp hi
  dsimp only
  split
  · exact (accumulate_visits _ hbelow _).mono fun _ i hi => (hmem i).mpr hi.2
  · refine Logs.bind (firstPresent_visits hbelow) fun found log hfound => ?_
    obtain ⟨first, rest⟩ := found
    refine Logs.mono (accumulate_visits (argumentAt args 0) hfound.1 first) (fun _ h => h) fun _ log' hlog' i hi => ?_
    by_cases hrest : i ∈ rest
    · exact (Covers.right hlog') i hrest
    · exact (Covers.left hfound.2) i ⟨(hmem i).mpr hi.2, hrest⟩

/-- After a first number has been read, an array of that length is made, the length is read again, and the second number
bounds what is visited. -/
def ReadsAgain (bodies : Bodies) (o : ObjectId) (n : Nat) (outcome : EStateM.Result Failure Machine Value)
    (log : List Event) : Prop :=
  ∃ m again, log = ⟨m, .make n⟩ :: again ∧
    (again = [] ∧ (∃ m', outcome = .error (.fault .outOfMemory) m') ∨
      Reading bodies o (fun n' => VisitsBelow True o n' outcome) again)

theorem map_reads (m : Machine) :
    StartsWithReading bodies this (ReadsAgain bodies) (arrayFunction .map this args) m := by
  refine startsWithReading [] this (fun o n m => ?_) m
  dsimp only
  have hmake : Performs bodies (newObjectOf (arrayOfLength n)) m [⟨m, .make n⟩] := .access (.make n) m
  by_cases hm : m.Crowded
  · have hrun : newObjectOf (arrayOfLength n) bodies m = _ := newObjectOf_crowded hm (arrayOfLength n)
    exact ⟨_, .bind_error hmake hrun, m, [], rfl, .inl ⟨rfl, _, bind_run_error hrun _⟩⟩
  · have hrun : newObjectOf (arrayOfLength n) bodies m = _ := newObjectOf_free hm (arrayOfLength n)
    let m₁ : Machine := { m.reserve.1 with heap := (m.reserve.1.heap.add (arrayOfLength n)).1 }
    have hhold : hold (.object m.heap.nextObject) bodies m₁ =
        .ok () { m₁ with held := .object m.heap.nextObject :: m₁.held } := rfl
    have hvisits : StartsWithReading bodies (.object o) (VisitsBelow True) (do
        visitElements (.object o) args fun i _ u => do
          addAt m.heap.nextObject i u
          return true
        return .object m.heap.nextObject) { m₁ with held := .object m.heap.nextObject :: m₁.held } :=
      visitElements_reads (fun o' n' i v u => Logs.bind (addAt_visits m.heap.nextObject i u) fun _ _ _ => .pure rfl)
        (.pure _) _
    obtain ⟨log, hlog, hstart⟩ := hvisits
    refine ⟨_, .bind_ok hmake hrun (.bind_ok (.aside _ (.hold _)) hhold hlog), m, log, rfl, ?_⟩
    rw [bind_run_ok hrun, bind_run_ok hhold]
    rcases hstart with ⟨rfl, e, m', hfails, hmemory⟩ | ⟨o', hsame, hreading⟩
    · refine .inl ⟨rfl, m', ?_⟩
      rw [hfails, hmemory o rfl]
    · obtain rfl := hsame o rfl
      exact .inr hreading

end Methods

/-! ## 3. All methods -/

/-- The methods that read the length once. -/
def lengthReaders : List ArrayFunction :=
  [.join, .toLocaleString, .pop, .push, .reverse, .shift, .slice, .sort, .splice, .unshift, .indexOf, .lastIndexOf,
    .everyElement, .someElement, .forEach, .filter, .reduce, .reduceRight]

/-- The method visits every index if it ends well. -/
def ArrayFunction.VisitsAll : ArrayFunction → Prop
  | join | toLocaleString | shift | sort | unshift | forEach | filter | reduce | reduceRight => True
  | _ => False

theorem lengthReaders_read {bodies : Bodies} {this : Value} {args : List Value} {f : ArrayFunction}
    (hf : f ∈ lengthReaders) (m : Machine) :
    StartsWithReading bodies this (VisitsBelow f.VisitsAll) (arrayFunction f this args) m := by
  revert hf
  revert f
  simp only [lengthReaders, List.forall_mem_cons]
  exact ⟨join_reads m, toLocaleString_reads m, pop_reads m, push_reads m, reverse_reads m, shift_reads m, slice_reads m,
    sort_reads m, splice_reads m, unshift_reads m, indexOf_reads m, lastIndexOf_reads m, search_reads true m,
    search_reads false m, forEach_reads m, filter_reads m, reduce_reads false m, reduce_reads true m,
    List.forall_mem_nil _⟩

/-- The access reads the length of the object. -/
def Access.readsLength (o : ObjectId) : Access → Bool
  | named p name => p == o && name == "length"
  | _ => false

theorem Access.Converts.readsLength {a : Access} (ha : a.Converts) (o : ObjectId) : a.readsLength o = false := by
  cases a with
  | named p name => rcases ha with rfl | rfl <;> exact Bool.and_false _
  | _ => rfl

theorem Access.Within.readsLength {a : Access} {o : ObjectId} {n : Nat} (ha : a.Within o n) :
    a.readsLength o = false := by
  cases a with
  | named p name => rcases ha with rfl | rfl | rfl <;> exact Bool.and_false _
  | _ => rfl

/-- A reading after which there are only visits is the only one. -/
theorem Reading.countP_eq_one {bodies : Bodies} {o : ObjectId} {all : Prop}
    {outcome : EStateM.Result Failure Machine Value} {log : List Event}
    (hlog : Reading bodies o (fun n => VisitsBelow all o n outcome) log) :
    log.countP (·.access.readsLength o) = 1 := by
  obtain ⟨m, conversion, rest, rfl, hkind, hrest⟩ := hlog
  have hfirst : (Access.named o "length").readsLength o = true := by
    show (o == o && "length" == "length") = true
    rw [beq_self_eq_true, beq_self_eq_true]
    rfl
  have hconversion : conversion.countP (·.access.readsLength o) = 0 :=
    List.countP_eq_zero.mpr fun e he => Bool.eq_false_iff.mp ((hkind e he).readsLength o)
  have hvisits : rest.countP (·.access.readsLength o) = 0 := by
    rcases hrest with ⟨_, rfl⟩ | ⟨n, _, _, hbelow, _⟩
    · rfl
    · exact List.countP_eq_zero.mpr fun e he => Bool.eq_false_iff.mp (hbelow e he).readsLength
  rw [List.countP_cons, List.countP_append, hconversion, hvisits, if_pos hfirst]

/-- **A length is read once**, before anything else is accessed, and the number alone bounds what is visited: nothing at
or beyond it, and by nine of the methods everything below it, unless they fail. So it is whatever an accessor answers,
and whatever other functions do; a getter that fails, or a conversion of what it gives, ends it. Without an object, or
for lack of memory, nothing is accessed. The method `map` alone reads the length twice: the first number is the length
with which it makes the array of results, and the second one bounds what is visited. -/
theorem length_readOnce (bodies : Bodies) (this : Value) (args : List Value) (m : Machine) :
    (∀ f ∈ lengthReaders, ∃ log, Performs bodies (arrayFunction f this args) m log ∧
      ((log = [] ∧ ∃ e m', arrayFunction f this args bodies m = .error e m' ∧
          ∀ o, this = .object o → e = .fault .outOfMemory) ∨
        ∃ o, (∀ p, this = .object p → o = p) ∧ log.countP (·.access.readsLength o) = 1 ∧
          Reading bodies o (fun n => VisitsBelow f.VisitsAll o n (arrayFunction f this args bodies m)) log)) ∧
    StartsWithReading bodies this (ReadsAgain bodies) (arrayFunction .map this args) m := by
  refine ⟨fun f hf => ?_, map_reads m⟩
  have hreads : StartsWithReading bodies this (VisitsBelow f.VisitsAll) (arrayFunction f this args) m :=
    lengthReaders_read hf m
  obtain ⟨log, hlog, hstart⟩ := hreads
  exact ⟨log, hlog, hstart.imp_right fun ⟨o, hsame, hreading⟩ => ⟨o, hsame, hreading.countP_eq_one, hreading⟩⟩

namespace Counting

/-- An array-like object whose length counts how often it is read: the getter appends to an array and gives the new
length of that. -/
def heap : Heap :=
  let push := nativeFunction "push" (.array .push) none 1
  let count := arrayOf []
  let getter := Object.ofKind "Function" (some Intrinsic.functionPrototype.id)
    (.bound { target := 17, this := .object 18, arguments := [.null] })
  let receiver := ((((Object.ordinary (some Intrinsic.objectPrototype.id)).withProperty .length
    (.accessor (.object 19) .undefined true true)).withProperty (.ofNat 0) (.plain (.ofNat 5))).withProperty
    (.ofNat 1) (.plain (.ofNat 6)))
  let callback := nativeFunction "isArray" (.array .isArray) none 1
  (((((Heap.skeleton.add push).1.add count).1.add getter).1.add receiver).1.add callback).1

def machine : Machine := { Machine.start {} with heap, held := [.object 20, .object 21] }

/-- The lengths of the array of results, if there is one, and of the array that counts. -/
def lengths (f : ArrayFunction) : Option (Nat × Nat) :=
  match arrayFunction f (.object 20) [.object 21] (bodiesAt 1) machine with
  | .ok (.object a) m => some ((m.heap.lengthOf a).1, (m.heap.lengthOf 18).1)
  | .ok _ m => some (0, (m.heap.lengthOf 18).1)
  | .error _ _ => none

end Counting

/-- The object that counts is asked once by `forEach`, as by all of them, and twice by `map`. -/
theorem length_readOnce_counting :
    .forEach ∈ lengthReaders ∧
      (∃ log, Performs (bodiesAt 1) (arrayFunction .forEach (.object 20) [.object 21]) Counting.machine log ∧
        ((log = [] ∧ ∃ e m',
            arrayFunction .forEach (.object 20) [.object 21] (bodiesAt 1) Counting.machine = .error e m' ∧
              ∀ o, Value.object 20 = .object o → e = .fault .outOfMemory) ∨
          ∃ o, (∀ p, Value.object 20 = .object p → o = p) ∧ log.countP (·.access.readsLength o) = 1 ∧
            Reading (bodiesAt 1) o (fun n => VisitsBelow ArrayFunction.forEach.VisitsAll o n
              (arrayFunction .forEach (.object 20) [.object 21] (bodiesAt 1) Counting.machine)) log)) ∧
      Counting.lengths .forEach = some (0, 1) ∧ Counting.lengths .map = some (2, 2) := by
  have hmem : ArrayFunction.forEach ∈ lengthReaders := by decide
  exact ⟨hmem, (length_readOnce (bodiesAt 1) (.object 20) [.object 21] Counting.machine).1 .forEach hmem,
    by decide +kernel, by decide +kernel⟩

end Ecma51
