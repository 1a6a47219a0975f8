import Ecma51.Library.Array
import Ecma51.Proofs.Restating

/-!
# Accesses

What a method of the library does to objects, and which functions it calls, can be seen from outside: getters,
setters and the functions called may do anything. So a run has a log, of the accesses that the method itself makes, in
order, each with the machine that it finds; what a getter or a function does in turn is not in it.

* `Access`, `Event`: an access, and one that happens.
* `Aside`: operations that access nothing.
* **`Performs`**: the log of a run.
* `Logs`: every run has a log with such accesses, and one with a property if it ends well.
-/

namespace Ecma51

/-! ## 1. Accesses -/

/-- What a method does to an object or with a function. -/
inductive Access where
  | named (o : ObjectId) (name : String)
  | element (o : ObjectId) (i : Nat)
  | has (o : ObjectId) (i : Nat)
  | put (o : ObjectId) (k : Key) (v : Value)
  | delete (o : ObjectId) (i : Nat)
  /-- Makes an array with a length. -/
  | make (length : Nat)
  /-- Adds an element to an array that is being built. -/
  | define (a : ObjectId) (i : Nat) (v : Value)
  /-- Asks for the stored length of an array that is being built. -/
  | extent (a : ObjectId)
  | call (f this : Value) (args : List Value)

namespace Access

/-- What an access gives. -/
def Answer : Access → Type
  | named .. | element .. | call .. => Value
  | has .. => Bool
  | put .. | delete .. | define .. => Unit
  | make _ => ObjectId
  | extent _ => Nat

/-- An access as it is carried out. -/
def run : (a : Access) → Run a.Answer
  | named o name => getNamed o name
  | element o i => getAt o i
  | has o i => hasAt o i
  | put o k v => putTo o k v true
  | delete o i => deleteAt o i
  | make length => newObjectOf (arrayOfLength length)
  | define a i v => addAt a i v
  | extent a => return ((← getHeap).lengthOf a).1
  | call f this args => callValue f this args

end Access

/-- An access that happens, with the machine before it. -/
structure Event where
  machine : Machine
  access : Access

/-- The operation accesses nothing: at most it makes an object, keeps a value, or asks for the kind of an object. -/
inductive Aside : {α : Type} → Run α → Prop where
  | pure {α : Type} (a : α) : Aside (pure a)
  | throw {α : Type} (e : Failure) : Aside (throw e : Run α)
  | hold (v : Value) : Aside (hold v)
  | letGo : Aside letGo
  | newObjectOf (x : Object) : Aside (newObjectOf x)
  | isCallable (f : Value) : Aside (return (← getHeap).isCallable f)
  | conversionMethods (o : ObjectId) (hint : Hint) : Aside (return conversionMethods ((← getHeap).object o) hint)

/-! ## 2. Logs -/

/-- A run from a machine makes these accesses, one after the other. -/
inductive Performs (bodies : Bodies) : {α : Type} → Run α → Machine → List Event → Prop where
  | aside {α : Type} {x : Run α} (m : Machine) : Aside x → Performs bodies x m []
  | access (a : Access) (m : Machine) : Performs bodies a.run m [⟨m, a⟩]
  | bind_ok {α β : Type} {x : Run α} {f : α → Run β} {m m' : Machine} {a : α} {log log' : List Event} :
      Performs bodies x m log → x bodies m = .ok a m' → Performs bodies (f a) m' log' →
        Performs bodies (x >>= f) m (log ++ log')
  | bind_error {α β : Type} {x : Run α} {f : α → Run β} {m m' : Machine} {e : Failure} {log : List Event} :
      Performs bodies x m log → x bodies m = .error e m' → Performs bodies (x >>= f) m log
  | holding {α : Type} (vs : List Value) {x : Run α} {m : Machine} {log : List Event} :
      Performs bodies x { m with held := vs ++ m.held } log → Performs bodies (holding vs x) m log

theorem Aside.run_eq {α : Type} {x : Run α} (hx : Aside x) (bodies bodies' : Bodies) (m : Machine) :
    x bodies' m = x bodies m := by
  cases hx with
  | newObjectOf x =>
    by_cases hm : m.Crowded
    · rw [newObjectOf_crowded hm, newObjectOf_crowded hm]
    · rw [newObjectOf_free hm, newObjectOf_free hm]
  | _ => rfl

/-- **The log is complete**: where functions of the program do the same in every access of the log, the run is the same.
So what a run owes to a getter, or to any other function, it owes to an access of the log. -/
theorem Performs.run_eq {α : Type} {bodies bodies' : Bodies} {x : Run α} {m : Machine} {log : List Event}
    (hx : Performs bodies x m log) (hsame : ∀ e ∈ log, e.access.run bodies' e.machine = e.access.run bodies e.machine) :
    x bodies' m = x bodies m := by
  induction hx with
  | aside m hx => exact hx.run_eq bodies bodies' m
  | access a m => exact hsame ⟨m, a⟩ (List.mem_singleton.mpr rfl)
  | bind_ok _ hrun _ ih ih' =>
    obtain ⟨hfirst, hsecond⟩ := List.forall_mem_append.mp hsame
    rw [bind_run_ok hrun, bind_run_ok ((ih hfirst).trans hrun)]
    exact ih' hsecond
  | bind_error _ hrun ih =>
    rw [bind_run_error hrun]
    exact bind_run_error ((ih hsame).trans hrun) _
  | holding vs _ ih =>
    unfold Ecma51.holding
    rw [ih hsame]

/-- Every run makes accesses of a kind only, and if it ends well its result and its log have a property. -/
def Logs {α : Type} (bodies : Bodies) (P : Access → Prop) (x : Run α) (Q : α → List Event → Prop) : Prop :=
  ∀ m, ∃ log, Performs bodies x m log ∧ (∀ e ∈ log, P e.access) ∧ ∀ a m', x bodies m = .ok a m' → Q a log

namespace Logs

variable {α β : Type} {bodies : Bodies} {P P' : Access → Prop} {x : Run α} {f : α → Run β}
  {Q Q' : α → List Event → Prop} {R : β → List Event → Prop}

theorem mono (hx : Logs bodies P x Q) (hP : ∀ a, P a → P' a) (hQ : ∀ a log, Q a log → Q' a log) :
    Logs bodies P' x Q' := by
  intro m
  obtain ⟨log, hlog, hkind, hend⟩ := hx m
  exact ⟨log, hlog, fun e he => hP _ (hkind e he), fun a m' hrun => hQ a log (hend a m' hrun)⟩

theorem of_aside (hx : Aside x) : Logs bodies P x fun _ log => log = [] :=
  fun m => ⟨[], .aside m hx, List.forall_mem_nil _, fun _ _ _ => rfl⟩

theorem aside (hx : Aside x) : Logs bodies P x fun _ _ => True := (of_aside hx).mono (fun _ h => h) fun _ _ _ => trivial

theorem pure {a : α} (ha : Q a []) : Logs bodies P (pure a) Q := by
  intro m
  refine ⟨[], .aside m (.pure a), List.forall_mem_nil _, fun b m' hrun => ?_⟩
  cases hrun
  exact ha

theorem throw (e : Failure) : Logs bodies P (throw e : Run α) Q :=
  fun m => ⟨[], .aside m (.throw e), List.forall_mem_nil _, fun _ _ hrun => nomatch hrun⟩

theorem access (a : Access) (ha : P a) : Logs bodies P a.run fun _ log => ∃ m, log = [⟨m, a⟩] :=
  fun m => ⟨[⟨m, a⟩], .access a m, List.forall_mem_singleton.mpr ha, fun _ _ _ => ⟨m, rfl⟩⟩

theorem bind (hx : Logs bodies P x Q) (hf : ∀ a log, Q a log → Logs bodies P (f a) fun b log' => R b (log ++ log')) :
    Logs bodies P (x >>= f) R := by
  intro m
  obtain ⟨log, hlog, hkind, hend⟩ := hx m
  cases hrun : x bodies m with
  | error e m' =>
    refine ⟨log, .bind_error hlog hrun, hkind, fun b m'' hrun' => ?_⟩
    rw [bind_run_error hrun] at hrun'
    cases hrun'
  | ok a m' =>
    obtain ⟨log', hlog', hkind', hend'⟩ := hf a log (hend a m' hrun) m'
    refine ⟨log ++ log', .bind_ok hlog hrun hlog', List.forall_mem_append.mpr ⟨hkind, hkind'⟩, fun b m'' hrun' => ?_⟩
    rw [bind_run_ok hrun] at hrun'
    exact hend' b m'' hrun'

/-- What follows an operation of which nothing is asked. -/
theorem after (hx : Logs bodies P x fun _ _ => True)
    (hf : ∀ a log, Logs bodies P (f a) fun b log' => R b (log ++ log')) :
    Logs bodies P (x >>= f) R := hx.bind fun a log _ => hf a log

theorem holding (hx : Logs bodies P x Q) (vs : List Value) : Logs bodies P (holding vs x) Q := by
  intro m
  obtain ⟨log, hlog, hkind, hend⟩ := hx { m with held := vs ++ m.held }
  refine ⟨log, .holding vs hlog, hkind, fun a m' hrun => ?_⟩
  unfold Ecma51.holding at hrun
  cases hin : x bodies { m with held := vs ++ m.held } with
  | error e m₁ =>
    rw [hin] at hrun
    cases hrun
  | ok b m₁ =>
    rw [hin] at hrun
    cases hrun
    exact hend _ m₁ hin

/-- A question about the heap, on the answer to which alone it depends what follows. -/
theorem asking {γ : Type} {g : Heap → γ} (hg : Aside (return g (← getHeap))) {F : Heap → Run β}
    (hsame : ∀ h h', g h = g h' → F h = F h') (hF : ∀ h, Logs bodies P (F h) R) :
    Logs bodies P (getHeap >>= F) R := by
  classical
  let f (c : γ) : Run β := if hc : ∃ h, g h = c then F hc.choose else MonadExcept.throw .exhausted
  have hf (h : Heap) : f (g h) = F h := by
    have hc : ∃ h', g h' = g h := ⟨h, rfl⟩
    exact (dif_pos hc).trans (hsame _ _ hc.choose_spec)
  have hrun : (getHeap >>= F) = (return g (← getHeap)) >>= f := by
    show getHeap >>= F = getHeap >>= fun h => f (g h)
    rw [funext hf]
  intro m
  obtain ⟨log, hlog, hkind, hend⟩ := hF m.heap m
  refine ⟨log, ?_, hkind, hend⟩
  rw [hrun]
  rw [← hf] at hlog
  exact .bind_ok (.aside m hg) rfl hlog

end Logs

/-! ## 3. Conversions -/

/-- Accesses of a conversion to a primitive value. -/
def Access.Converts : Access → Prop
  | named _ name => name = "valueOf" ∨ name = "toString"
  | call .. => True
  | _ => False

section Conversions

variable {bodies : Bodies}

theorem firstPrimitive_logs (o : ObjectId) {names : List String}
    (hnames : ∀ name ∈ names, (Access.named o name).Converts) :
    Logs bodies Access.Converts (firstPrimitive o names) fun _ _ => True := by
  induction names with
  | nil => exact .throw _
  | cons name names ih =>
    obtain ⟨hname, hrest⟩ := List.forall_mem_cons.mp hnames
    unfold firstPrimitive
    refine .bind (.access (.named o name) hname) fun f _ _ => ?_
    refine .asking (.isCallable f) (fun h h' heq => by rw [heq]) fun h => ?_
    split
    · refine .bind (.access (.call f (.object o) []) trivial) fun v _ _ => ?_
      split
      · exact ih hrest
      · exact .pure trivial
    · exact ih hrest

theorem conversionMethods_converts (x : Object) (hint : Hint) (o : ObjectId) :
    ∀ name ∈ conversionMethods x hint, (Access.named o name).Converts := by
  obtain ⟨prefersText, hmethods⟩ : ∃ prefersText : Bool, conversionMethods x hint =
      if prefersText then ["toString", "valueOf"] else ["valueOf", "toString"] := ⟨_, rfl⟩
  rw [hmethods]
  cases prefersText with
  | true => exact List.forall_mem_cons.mpr ⟨.inr rfl, List.forall_mem_singleton.mpr (.inl rfl)⟩
  | false => exact List.forall_mem_cons.mpr ⟨.inl rfl, List.forall_mem_singleton.mpr (.inr rfl)⟩

theorem toPrimitive_logs (v : Value) (hint : Hint) :
    Logs bodies Access.Converts (toPrimitive v hint) fun _ _ => True := by
  cases v with
  | object o =>
    exact Logs.holding (.asking (.conversionMethods o hint) (fun h h' heq => by rw [heq]) fun h =>
      firstPrimitive_logs o (conversionMethods_converts _ hint o)) _
  | _ => exact .pure trivial

theorem toNumber_logs (v : Value) : Logs bodies Access.Converts (toNumber v) fun _ _ => True := by
  cases v with
  | object o => exact (toPrimitive_logs (.object o) .number).after fun _ _ => .pure trivial
  | _ => exact .pure trivial

theorem toText_logs (v : Value) : Logs bodies Access.Converts (toText v) fun _ _ => True := by
  cases v with
  | object o => exact (toPrimitive_logs (.object o) .string).after fun _ _ => .pure trivial
  | _ => exact .pure trivial

theorem toInteger_logs (v : Value) : Logs bodies Access.Converts (toInteger v) fun _ _ => True :=
  (toNumber_logs v).after fun _ _ => .pure trivial

theorem toUint32_logs (v : Value) : Logs bodies Access.Converts (toUint32 v) fun _ _ => True :=
  (toNumber_logs v).after fun _ _ => .pure trivial

end Conversions

end Ecma51
