import Ecma51.Proofs.LastIndex

/-!
# All matches of a global expression

A program can find the matches of a global regular expression one by one, and steps over an empty match itself. Two
methods find all of them on their own. The three walks find the same matches, which come to an end, lie one behind the
other, and leave the expression at the start. The empty pattern, which matches at every position of every text and takes
nothing, shows what a walk has to do about matches that are empty.

* `emptyGlobal`, **`find?_emptyGlobal`**: the empty pattern as a global expression, and what it finds.
* `emptyMachine`: a machine with the expression.
* `Pattern.InOrder`, **`inOrder_matchesUpTo`**: matches that lie one behind the other.
* `Pattern.gaps`, `weave`, **`concat_weave_gaps`**: a text taken apart at the matches, and put together.
* `FindsInTurn`, **`findsInTurn_run`**: one search after the other.
* `matchText_global`, `replaceMatches_global`: the two methods.
* **`globalMatches_exact`**: all of them together.
-/

namespace Ecma51

-- powers mean the same whether or not there are other instances in scope
attribute [local instance (high)] instPowNat

namespace Pattern

/-! ## 1. What it finds -/

/-- The states of the empty pattern: the start and the end of the match are recorded, both where it is. -/
def emptyAutomaton : Automaton := { states := #[.accept, .save 1 0, .save 0 1], start := 2 }

end Pattern

open Pattern

/-- The empty pattern as a global expression. -/
def emptyGlobal : RegExp :=
  { source := .empty
    flags := { global := true }
    pattern := { matcher := .automaton emptyAutomaton, groups := 0, slots := 2 } }

theorem read_emptyGlobal : RegExp.read .empty (.ofString "g") = .ok emptyGlobal := by with_unfolding_all rfl

section Paths

variable {a : Automaton} {subject : Subject} {seen : Std.HashSet Nat} {t : Automaton.Thread}
  {rest : List Automaton.Thread} {n slot next : Nat}

/-- A state that records the position. -/
theorem explore_save (hfresh : seen.contains (t.position * a.states.size + t.state) = false)
    (hs : a.states[t.state]? = some (.save slot next)) :
    a.explore subject (n + 1) seen (t :: rest) =
      a.explore subject n (seen.insert (t.position * a.states.size + t.state))
        ({ t with state := next, slots := t.slots.setIfInBounds slot (some t.position) } :: rest) := by
  rw [Automaton.explore, hfresh, if_neg Bool.false_ne_true, hs]
  rfl

/-- A state that accepts. -/
theorem explore_accept (hfresh : seen.contains (t.position * a.states.size + t.state) = false)
    (hs : a.states[t.state]? = some .accept) :
    a.explore subject (n + 1) seen (t :: rest) = .ok (t.position, t.slots) := by
  rw [Automaton.explore, hfresh, if_neg Bool.false_ne_true, hs]

end Paths

section Empty

variable {t : Text} {i : Nat}

theorem explore_emptyAutomaton (subject : Subject) (i n : Nat) :
    emptyAutomaton.explore subject (n + 3) ∅ [⟨2, i, #[none, none]⟩] = .ok (i, #[some i, some i]) := by
  -- no state is entered twice
  have hfirst : (∅ : Std.HashSet Nat).contains (i * 3 + 2) = false := Std.HashSet.contains_empty
  have hsecond : ((∅ : Std.HashSet Nat).insert (i * 3 + 2)).contains (i * 3 + 1) = false := by simp
  have hthird : (((∅ : Std.HashSet Nat).insert (i * 3 + 2)).insert (i * 3 + 1)).contains (i * 3 + 0) = false := by simp
  refine (explore_save (t := ⟨2, i, #[none, none]⟩) hfirst rfl).trans ((explore_save hsecond rfl).trans ?_)
  exact (explore_accept hthird rfl).trans rfl

/-- **The empty pattern is found at every position.** -/
theorem find?_emptyGlobal (hi : i ≤ t.length) :
    emptyGlobal.pattern.find? t i = some ⟨(i, i), []⟩ := by
  have hsize : i ≤ t.units.size := hi
  have hstarts : t.units.size + 1 - i = t.units.size - i + 1 := by omega
  have hfuel : emptyAutomaton.fuelFor t.units = 5 * t.units.size + 7 + 3 := by
    show 5 * (t.units.size + 2) = _
    omega
  have hpath : emptyAutomaton.explore t.units (5 * t.units.size + 7 + 3) ∅ [⟨emptyAutomaton.start, i, #[none, none]⟩] =
      .ok (i, #[some i, some i]) := explore_emptyAutomaton t.units i _
  have hsearch : emptyAutomaton.search t.units i #[none, none] = some (i, i, #[some i, some i]) := by
    unfold Automaton.search
    rw [hstarts]
    unfold Automaton.searchFrom
    rw [hfuel, hpath]
  have hslots : Matcher.search emptyGlobal.pattern.slots t.units i emptyGlobal.pattern.matcher =
      some #[some i, some i] := by
    show (emptyAutomaton.search t.units i #[none, none]).map (·.2.2) = _
    rw [hsearch]
    rfl
  unfold Pattern.find?
  dsimp only
  rw [if_neg (Nat.not_lt.mpr hsize), hslots]
  rfl

theorem find?_emptyGlobal_beyond (hi : t.length < i) : emptyGlobal.pattern.find? t i = none := by
  have hsize : t.units.size < i := hi
  unfold Pattern.find?
  dsimp only
  rw [if_pos hsize]
  rfl

theorem within_emptyGlobal (t : Text) : Finder.Within (emptyGlobal.pattern.find? t) t.length := by
  intro i x hx
  rcases Nat.lt_or_ge t.length i with hlt | hle
  · rw [find?_emptyGlobal_beyond hlt] at hx
    cases hx
  · rw [find?_emptyGlobal hle] at hx
    cases hx
    exact ⟨Nat.le_refl i, Nat.le_refl i, hle⟩

/-- It is found at every position from one on. -/
theorem matchesUpTo_emptyGlobal (n : Nat) (hi : i ≤ t.length + 1) (hn : t.length + 1 ≤ n + i) :
    matchesUpTo (emptyGlobal.pattern.find? t) t.length n i =
      (List.range' i (t.length + 1 - i)).map fun j => ⟨(j, j), []⟩ := by
  induction n generalizing i with
  | zero =>
    rw [show t.length + 1 - i = 0 by omega]
    rfl
  | succ n ih =>
    unfold matchesUpTo
    split
    · rename_i hle
      have hnext : Match.next ⟨(i, i), []⟩ = i + 1 := if_pos rfl
      rw [find?_emptyGlobal hle]
      dsimp only
      rw [hnext, ih (by omega) (by omega), show t.length + 1 - i = t.length + 1 - (i + 1) + 1 by omega, List.range'_succ,
        List.map_cons]
    · rw [show t.length + 1 - i = 0 by omega]
      rfl

/-- **All its matches**: one more than there are units. -/
theorem matchesFrom_emptyGlobal (t : Text) : matchesFrom (emptyGlobal.pattern.find? t) t.length =
    (List.range' 0 (t.length + 1)).map fun j => ⟨(j, j), []⟩ :=
  matchesUpTo_emptyGlobal (t.length + 1) (Nat.zero_le _) (Nat.le_refl _)

end Empty

/-! ## 2. A machine with the expression -/

/-- Strict code that sends an expression elsewhere, namely its `this`. -/
def sendingCode : Code :=
  { signature := ⟨[], false, true⟩
    body := [.apply (.setMember (.ofString "lastIndex")) [.apply .this [], .literal (.ofNat 7)]]
    yieldsValue := false }

/-- The expression, the function `String`, and a function that sends the expression elsewhere. -/
def emptyMachine : Machine :=
  let sending := Object.ofKind "Function" (some Intrinsic.functionPrototype.id)
    (.function ⟨.compiled sendingCode globalEnvironment 0, true, .empty⟩)
  let bound := Object.ofKind "Function" (some Intrinsic.functionPrototype.id)
    (.bound { target := 19, this := .object 17, arguments := [] })
  { Machine.start {} with
    heap := ((((Heap.skeleton.add (regExpObject emptyGlobal)).1.add
      (nativeFunction "String" (.string .call) none 1)).1.add sending).1.add bound).1
    held := [.object 17, .object 18, .object 20] }

theorem resumes_emptyMachine : emptyMachine.heap.Resumes 17 emptyGlobal (.ofNat 0) := by
  refine ⟨rfl, false, false, ?_⟩
  decide +kernel

/-! ## 3. The order of matches -/

namespace Pattern

section Order

variable {find : Finder} {t : Text} {length n start last : Nat} {x : Match} {ms : List Match}

/-- The matches lie in a text of the given length, one behind the other: each begins later than those before it and
overlaps none of them. -/
structure InOrder (length : Nat) (ms : List Match) : Prop where
  within : ∀ x ∈ ms, x.span.1 ≤ x.span.2 ∧ x.span.2 ≤ length
  apart : ms.Pairwise fun x y => x.span.2 ≤ y.span.1 ∧ x.span.1 < y.span.1

theorem inOrder_nil : InOrder length [] := ⟨fun _ hx => absurd hx List.not_mem_nil, .nil⟩

/-- One match, or none, lies in the text. -/
theorem inOrder_toList {found : Option Match}
    (hfound : ∀ x, found = some x → x.span.1 ≤ x.span.2 ∧ x.span.2 ≤ length) : InOrder length found.toList := by
  cases found with
  | none => exact inOrder_nil
  | some x => exact ⟨fun y hy => hfound y (congrArg some (List.mem_singleton.mp hy).symm), List.pairwise_singleton _ x⟩

/-- The search goes on behind the match and behind its start, but never beyond the end of the text. -/
theorem Match.next_bounds (hx : x.span.1 ≤ x.span.2) (hend : x.span.2 ≤ length) :
    x.span.2 ≤ x.next ∧ x.span.1 < x.next ∧ x.next ≤ length + 1 := by
  unfold Match.next
  split <;> omega

/-- **The matches that a walk finds lie one behind the other.** -/
theorem inOrder_matchesUpTo (hfind : find.Within length) (n start : Nat) :
    InOrder length (matchesUpTo find length n start) ∧
      ∀ x ∈ matchesUpTo find length n start, start ≤ x.span.1 := by
  induction n generalizing start with
  | zero => exact ⟨inOrder_nil, fun _ hx => absurd hx List.not_mem_nil⟩
  | succ n ih =>
    have hnone : InOrder length [] ∧ ∀ x ∈ ([] : List Match), start ≤ x.span.1 :=
      ⟨inOrder_nil, fun _ hx => absurd hx List.not_mem_nil⟩
    unfold matchesUpTo
    split
    · cases hx : find start with
      | none => exact hnone
      | some x =>
        obtain ⟨hstart, horder, hend⟩ := hfind start x hx
        obtain ⟨hnext, hlater, _⟩ := Match.next_bounds horder hend
        obtain ⟨hrest, hbound⟩ := ih x.next
        refine ⟨⟨fun y hy => ?_, .cons (fun y hy => ?_) hrest.apart⟩, fun y hy => ?_⟩
        · rcases List.mem_cons.mp hy with rfl | hy
          · exact ⟨horder, hend⟩
          · exact hrest.within y hy
        · have := hbound y hy
          omega
        · rcases List.mem_cons.mp hy with rfl | hy
          · exact hstart
          · have := hbound y hy
            omega
    · exact hnone

/-! ## 4. What lies between them -/

/-- The texts before, between and behind matches, from a position on. -/
def gaps (t : Text) : (last : Nat) → List Match → List Text
  | last, [] => [t.drop last]
  | last, x :: ms => t.slice last x.span.1 :: gaps t x.span.2 ms

end Order

end Pattern

/-- Texts from two lists in turn. -/
def weave : List Text → List Text → List Text
  | g :: gs, r :: rs => g :: r :: weave gs rs
  | gs, _ => gs

namespace Pattern

section Gaps

variable {t : Text} {last : Nat} {ms : List Match}

/-- **A text is what lies between the matches with the matches in their places.** -/
theorem concat_weave_gaps (hms : InOrder t.length ms) (hlast : ∀ x ∈ ms, last ≤ x.span.1) :
    Text.concat (weave (gaps t last ms) (ms.map (·.text t))) = t.drop last := by
  induction ms generalizing last with
  | nil =>
    show Text.concat [t.drop last] = _
    rw [Text.concat_cons]
    exact Text.append_empty _
  | cons x ms ih =>
    obtain ⟨horder, _⟩ := hms.within x List.mem_cons_self
    obtain ⟨hx, hrest⟩ := List.pairwise_cons.mp hms.apart
    have hsame := ih ⟨fun y hy => hms.within y (List.mem_cons_of_mem x hy), hrest⟩ fun y hy => (hx y hy).1
    show Text.concat (t.slice last x.span.1 :: x.text t :: weave (gaps t x.span.2 ms) (ms.map (·.text t))) = _
    rw [Text.concat_cons, Text.concat_cons, hsame]
    show t.slice last x.span.1 ++ (t.slice x.span.1 x.span.2 ++ t.drop x.span.2) = _
    rw [Text.slice_append_drop horder, Text.slice_append_drop (hlast x List.mem_cons_self)]

end Gaps

end Pattern

/-! ## 5. One search after the other -/

/-- One more than where the next search begins. -/
def raiseLastIndex (o : ObjectId) : Run Unit := do
  let x ← toNumber (← getNamed o "lastIndex")
  putNamed o "lastIndex" (.number (x + 1))

/-- A program searches until nothing is found, and steps over each empty match: the matches, and the machine at the
end. -/
inductive FindsInTurn (bodies : Bodies) (o : ObjectId) (r : RegExp) (t : Text) :
    Machine → List Pattern.Match → Machine → Prop
  /-- Nothing more is found. -/
  | done {m m' : Machine} (hsearch : execRegExp o r t bodies m = .ok none m') : FindsInTurn bodies o r t m [] m'
  /-- The next search begins behind the match. -/
  | proper {m m₁ m' : Machine} {x : Pattern.Match} {ms : List Pattern.Match}
      (hsearch : execRegExp o r t bodies m = .ok (some x) m₁) (hx : x.span.2 ≠ x.span.1)
      (hrest : FindsInTurn bodies o r t m₁ ms m') : FindsInTurn bodies o r t m (x :: ms) m'
  /-- The next search begins one unit behind an empty match. -/
  | empty {m m₁ m₂ m' : Machine} {x : Pattern.Match} {ms : List Pattern.Match}
      (hsearch : execRegExp o r t bodies m = .ok (some x) m₁) (hx : x.span.2 = x.span.1)
      (hraise : raiseLastIndex o bodies m₁ = .ok () m₂) (hrest : FindsInTurn bodies o r t m₂ ms m') :
      FindsInTurn bodies o r t m (x :: ms) m'

section Searches

variable {bodies : Bodies} {m m' m'' : Machine} {o : ObjectId} {r : RegExp} {t : Text} {v : Value} {i n : Nat}
  {ms ms' : List Pattern.Match}

theorem raiseLastIndex_number (bodies : Bodies) {x : Double} (hr : m.heap.Resumes o r (.number x)) :
    raiseLastIndex o bodies m = .ok () (m.resuming o (.number (x + 1))) := by
  have hnumber : toNumber (.number x) bodies m = .ok x m := toNumber_run rfl
  unfold raiseLastIndex
  rw [bind_run_ok (getLastIndex_run bodies hr), bind_run_ok hnumber]
  exact putLastIndex_run bodies hr rfl

theorem raiseLastIndex_run (bodies : Bodies) (hr : m.heap.Resumes o r (.ofNat i)) (hi : i < 2 ^ 53) :
    raiseLastIndex o bodies m = .ok () (m.resuming o (.ofNat (i + 1))) := by
  have hsum : Double.ofNat i + 1 = Double.ofNat (i + 1) := Double.add_ofNat hi (by decide) hi
  have hrun := raiseLastIndex_number bodies hr
  rw [hsum] at hrun
  exact hrun

/-- There is one way only in which a program finds matches. -/
theorem FindsInTurn.unique (hs : FindsInTurn bodies o r t m ms m') (hs' : FindsInTurn bodies o r t m ms' m'') :
    ms = ms' ∧ m' = m'' := by
  induction hs generalizing ms' m'' with
  | done hsearch =>
    cases hs' with
    | done hsearch' =>
      cases hsearch.symm.trans hsearch'
      exact ⟨rfl, rfl⟩
    | proper hsearch' | empty hsearch' => cases hsearch.symm.trans hsearch'
  | proper hsearch hx _ ih =>
    cases hs' with
    | done hsearch' => cases hsearch.symm.trans hsearch'
    | proper hsearch' _ hrest' =>
      cases hsearch.symm.trans hsearch'
      obtain ⟨rfl, rfl⟩ := ih hrest'
      exact ⟨rfl, rfl⟩
    | empty hsearch' hx' =>
      cases hsearch.symm.trans hsearch'
      exact absurd hx' hx
  | empty hsearch hx hraise _ ih =>
    cases hs' with
    | done hsearch' => cases hsearch.symm.trans hsearch'
    | proper hsearch' hx' =>
      cases hsearch.symm.trans hsearch'
      exact absurd hx hx'
    | empty hsearch' _ hraise' hrest' =>
      cases hsearch.symm.trans hsearch'
      cases hraise.symm.trans hraise'
      obtain ⟨rfl, rfl⟩ := ih hrest'
      exact ⟨rfl, rfl⟩

/-- Where nothing is found, the expression is at the start again. -/
theorem findsInTurn_nil (bodies : Bodies) (hr : m.heap.Resumes o r (.ofNat i)) (hglobal : r.flags.global = true)
    (ht : t.length ≤ 2 ^ 53) (hi : i ≤ 2 ^ 53) (hx : i ≤ t.length → r.pattern.find? t i = none) :
    ∃ m', FindsInTurn bodies o r t m [] m' ∧ m'.heap.Resumes o r (.ofNat 0) :=
  ⟨_, .done (execRegExp_none hr hglobal ht bodies hi hx), hr.resuming _⟩

/-- **A program that searches again and again finds what the walk finds**, and then the expression is at the start. The
positions are told apart as long as they are below the precision of the numbers. -/
theorem findsInTurn_run (bodies : Bodies) (hr : m.heap.Resumes o r (.ofNat i)) (hglobal : r.flags.global = true)
    (hfind : Pattern.Finder.Within (r.pattern.find? t) t.length) (ht : t.length < 2 ^ 53) (hi : i ≤ t.length + 1)
    (hn : t.length + 1 ≤ n + i) :
    ∃ m', FindsInTurn bodies o r t m (Pattern.matchesUpTo (r.pattern.find? t) t.length n i) m' ∧
      m'.heap.Resumes o r (.ofNat 0) := by
  have hle : t.length ≤ 2 ^ 53 := Nat.le_of_lt ht
  -- on the bound of the walk, which the rest of the text never exceeds
  induction n generalizing m i with
  | zero => exact findsInTurn_nil bodies hr hglobal hle (Nat.le_trans hi ht) fun hi' => by omega
  | succ n ih =>
    unfold Pattern.matchesUpTo
    split
    · rename_i hi'
      cases hx : r.pattern.find? t i with
      | none => exact findsInTurn_nil bodies hr hglobal hle (Nat.le_trans hi ht) fun _ => hx
      | some x =>
        dsimp only
        obtain ⟨hstart, horder, hend⟩ := hfind i x hx
        obtain ⟨_, hlater, hbound⟩ := Pattern.Match.next_bounds horder hend
        have hsearch := execRegExp_some hr hglobal hle bodies hi' hx
        have hbehind := hr.resuming (.ofNat x.span.2)
        by_cases hempty : x.span.2 = x.span.1
        · have hnext : x.next = x.span.2 + 1 := if_pos hempty
          have hraise := raiseLastIndex_run bodies hbehind (Nat.lt_of_le_of_lt hend ht)
          rw [hnext] at hlater hbound ⊢
          obtain ⟨m', hrest, hstart'⟩ := ih (hbehind.resuming (.ofNat (x.span.2 + 1))) hbound (by omega)
          exact ⟨m', .empty hsearch hempty hraise hrest, hstart'⟩
        · have hnext : x.next = x.span.2 := if_neg hempty
          rw [hnext] at hlater hbound ⊢
          obtain ⟨m', hrest, hstart'⟩ := ih hbehind hbound (by omega)
          exact ⟨m', .proper hsearch hempty hrest, hstart'⟩
    · exact findsInTurn_nil bodies hr hglobal hle (Nat.le_trans hi ht) fun hi' => by omega

end Searches

/-! ## 6. The methods -/

section Methods

variable {bodies : Bodies} {m : Machine} {o : ObjectId} {r : RegExp} {t : Text} {v : Value}

/-- The texts of all matches are found at once. -/
theorem matchText_global (bodies : Bodies) (hr : m.heap.Resumes o r v) (hglobal : r.flags.global = true) (t : Text) :
    let ms := Pattern.matchesFrom (r.pattern.find? t) t.length
    (ms = [] → matchText t (.object o) bodies m = .ok .null (m.resuming o (.ofNat 0))) ∧
      (ms ≠ [] → matchText t (.object o) bodies m =
        (do return .object (← newArray (ms.map fun x => .string (x.text t))) : Run Value) bodies
          (m.resuming o (.ofNat 0))) := by
  intro ms
  have hcoerce : coerceRegExp (.object o) bodies m = .ok (o, r) m := by
    unfold coerceRegExp
    rw [getHeap_bind_run, hr.asRegExp?]
    rfl
  have hrun : matchText t (.object o) bodies m =
      (if ms.isEmpty then return .null
        else return .object (← newArray (ms.map fun x => .string (x.text t))) : Run Value) bodies
          (m.resuming o (.ofNat 0)) := by
    unfold matchText
    rw [bind_run_ok hcoerce]
    dsimp only
    rw [hglobal, Bool.not_true, if_neg Bool.false_ne_true]
    exact bind_run_ok (setLastIndex_run bodies hr 0) _
  rw [hrun]
  exact ⟨fun hms => by rw [hms]; rfl, fun hms => by rw [if_neg (mt List.isEmpty_iff.mp hms)]⟩

/-- The matches that are replaced are found at once. -/
theorem replacedMatches_global (bodies : Bodies) (hr : m.heap.Resumes o r v) (hglobal : r.flags.global = true)
    (t : Text) : replacedMatches t (.object o) bodies m =
      .ok (Pattern.matchesFrom (r.pattern.find? t) t.length) (m.resuming o (.ofNat 0)) := by
  have hr' := hr.resuming (.ofNat 0)
  unfold replacedMatches
  rw [getHeap_bind_run, hr.asRegExp?]
  dsimp only
  rw [if_pos hglobal, bind_run_ok (setLastIndex_run bodies hr 0), bind_run_ok (setLastIndex_run bodies hr' 0),
    Machine.resuming_self hr']
  rfl

/-- The replacements come into the places of the matches. -/
theorem replaceFrom_eq (t : Text) (replacement : Pattern.Match → Run Text) (ms : List Pattern.Match) (last : Nat)
    (acc : List Text) : replaceFrom t replacement ms last acc =
      (do
        let rs ← ms.mapM replacement
        return Text.concat (acc.reverse ++ weave (Pattern.gaps t last ms) rs)) := by
  induction ms generalizing last acc with
  | nil =>
    unfold replaceFrom
    rw [List.mapM_nil, pure_bind, List.reverse_cons]
    rfl
  | cons x ms ih =>
    unfold replaceFrom
    rw [List.mapM_cons, bind_assoc]
    refine bind_congr fun r => ?_
    rw [ih, bind_assoc]
    refine bind_congr fun rs => ?_
    rw [pure_bind, List.reverse_cons, List.reverse_cons, List.append_assoc, List.append_assoc]
    rfl

/-- What lies between the matches, with the texts that a function gives in their places. -/
def replacing (t : Text) (f : Value) (ms : List Pattern.Match) : Run Value := do
  let rs ← ms.mapM (replacementBy f t)
  return .string (Text.concat (weave (Pattern.gaps t 0 ms) rs))

/-- A function is called for each match in turn. -/
theorem replaceMatches_global (bodies : Bodies) (hr : m.heap.Resumes o r v) (hglobal : r.flags.global = true)
    (t : Text) {f : Value} (hf : m.heap.isCallable f = true) : replaceMatches t (.object o) f bodies m =
      replacing t f (Pattern.matchesFrom (r.pattern.find? t) t.length) bodies (m.resuming o (.ofNat 0)) := by
  unfold replaceMatches replacing
  rw [bind_run_ok (replacedMatches_global bodies hr hglobal t), getHeap_bind_run, isCallable_resuming, if_pos hf,
    replaceFrom_eq, bind_assoc]
  rfl

/-- A new array leaves an expression in use as it is, and so does an attempt to make one. -/
theorem resumes_newArray (bodies : Bodies) (hr : m.heap.Resumes o r v) (hheld : Value.object o ∈ m.held)
    (hnew : o < m.heap.nextObject) (vs : List Value) :
    (endOf ((do return .object (← newArray vs) : Run Value) bodies m)).heap.Resumes o r v := by
  have hreserved : m.reserve.1.heap.object o = m.heap.object o :=
    m.intact_reserve.object o (.outside (Machine.mem_roots_of_held hheld))
  by_cases hm : m.Crowded
  · have hrun : newArray vs bodies m = _ := newObjectOf_crowded hm (arrayOf vs)
    rw [bind_run_error hrun]
    exact hr.of_object hreserved
  · have hrun : newArray vs bodies m = _ := newObjectOf_free hm (arrayOf vs)
    rw [bind_run_ok hrun]
    exact hr.of_object ((object_newArray m vs o).trans ((if_neg (Nat.ne_of_gt hnew)).trans hreserved))

/-- However the operation ends, a machine with the property still has it. -/
def Keeps {α : Type} (kept : Machine → Prop) (bodies : Bodies) (x : Run α) : Prop :=
  Relates (fun m m' => kept m → kept m') bodies x

instance isPreorder_keeps (kept : Machine → Prop) : IsPreorder Machine fun m m' => kept m → kept m' where
  refl _ := id
  trans _ _ _ h h' := h' ∘ h

/-- A replacement keeps what each call of the function keeps. -/
theorem keeps_replacing {kept : Machine → Prop} {f : Value} {ms : List Pattern.Match}
    (hkept : ∀ x ∈ ms, Keeps kept bodies (replacementBy f t x)) : Keeps kept bodies (replacing t f ms) := by
  refine Relates.bind ?_ fun rs => Relates.pure _
  induction ms with
  | nil => exact Relates.pure _
  | cons x ms ih =>
    rw [List.mapM_cons]
    refine Relates.bind (hkept x List.mem_cons_self) fun u => ?_
    exact Relates.bind (ih fun y hy => hkept y (List.mem_cons_of_mem x hy)) fun us => Relates.pure _

end Methods

/-! ## 7. All of them -/

/-- These are all matches of a global expression in a text, whoever looks for them: a program that searches again and
again, or one of the two methods. All of them begin at the start, where the expression is again afterwards. -/
structure FindsAll (bodies : Bodies) (m : Machine) (o : ObjectId) (r : RegExp) (t : Text) (ms : List Pattern.Match)
    (m₀ : Machine) : Prop where
  /-- The expression is sent to the start. -/
  begins : setLastIndex o 0 bodies m = .ok () m₀ ∧ m₀.heap.Resumes o r (.ofNat 0)
  /-- Searches from there find the matches, and then no more. -/
  searches : ∃ m', FindsInTurn bodies o r t m₀ ms m' ∧ m'.heap.Resumes o r (.ofNat 0)
  /-- They find nothing else. -/
  unique : ∀ ms' m', FindsInTurn bodies o r t m₀ ms' m' → ms' = ms
  inOrder : Pattern.InOrder t.length ms
  /-- Without a match there is no array. -/
  none : ms = [] → stringFunction .matchPattern (.string t) [.object o] bodies m = .ok .null m₀
  /-- The array has the texts of the matches, if an array can have so many elements. -/
  texts : ms ≠ [] → ms.length < 2 ^ 32 →
    m₀.Makes (ms.map fun x => .string (x.text t)) (stringFunction .matchPattern (.string t) [.object o] bodies m)
  matched : (endOf (stringFunction .matchPattern (.string t) [.object o] bodies m)).heap.Resumes o r (.ofNat 0)
  /-- The text is what lies between the matches with the matches in their places. -/
  whole : Text.concat (weave (Pattern.gaps t 0 ms) (ms.map (·.text t))) = t
  /-- A replacement is what lies between the matches with the texts that a function gives in their places. -/
  replaced : ∀ f, m.heap.isCallable f = true →
    stringFunction .replace (.string t) [.object o, f] bodies m = replacing t f ms bodies m₀
  /-- The expression is at the start after a replacement, too, if no call of the function changes that. -/
  settled : ∀ f, m.heap.isCallable f = true → ∀ kept : Machine → Prop, kept m₀ →
    (∀ m', kept m' → m'.heap.Resumes o r (.ofNat 0)) →
    (∀ x ∈ ms, Keeps kept bodies (replacementBy f t x)) →
    (endOf (stringFunction .replace (.string t) [.object o, f] bodies m)).heap.Resumes o r (.ofNat 0)

/-- **All matches of a global expression**: a program that searches and the two methods find the same, and the
expression is at the start afterwards. -/
theorem globalMatches_exact (bodies : Bodies) {m : Machine} {o : ObjectId} {r : RegExp} {t : Text} {v : Value}
    (hr : m.heap.Resumes o r v) (hglobal : r.flags.global = true)
    (hfind : Pattern.Finder.Within (r.pattern.find? t) t.length) (ht : t.length < 2 ^ 53)
    (hheld : Value.object o ∈ m.held) (hnew : o < m.heap.nextObject) :
    FindsAll bodies m o r t (Pattern.matchesFrom (r.pattern.find? t) t.length) (m.resuming o (.ofNat 0)) := by
  have hr₀ := hr.resuming (.ofNat 0)
  have hsearches := findsInTurn_run bodies hr₀ hglobal hfind ht (Nat.zero_le _) (n := t.length + 1) (Nat.le_refl _)
  obtain ⟨hinOrder, hstart⟩ := Pattern.inOrder_matchesUpTo hfind (t.length + 1) 0
  obtain ⟨hnone, htexts⟩ := matchText_global bodies hr hglobal t
  have hreplaced (f : Value) (hf : m.heap.isCallable f = true) :
      stringFunction .replace (.string t) [.object o, f] bodies m = _ := replaceMatches_global bodies hr hglobal t hf
  refine ⟨⟨setLastIndex_run bodies hr 0, hr₀⟩, hsearches, fun ms' m' hs => ?_, hinOrder, hnone, fun hms hlength => ?_,
    ?_, ?_, hreplaced, fun f hf kept hm hkept hcalls => ?_⟩
  · obtain ⟨m₁, hs₁, _⟩ := hsearches
    exact (hs.unique hs₁).1
  · have hrun : stringFunction .matchPattern (.string t) [.object o] bodies m = _ := htexts hms
    rw [hrun]
    exact makes_newArray bodies _ ((List.length_map _).trans_lt hlength)
  · show (endOf (matchText t (.object o) bodies m)).heap.Resumes o r (.ofNat 0)
    by_cases hms : Pattern.matchesFrom (r.pattern.find? t) t.length = []
    · rw [hnone hms]
      exact hr₀
    · have hnext : (m.resuming o (.ofNat 0)).heap.nextObject = m.heap.nextObject := by
        rw [(storedAt_resuming m o (.ofNat 0)).frame]
      rw [htexts hms]
      exact resumes_newArray bodies hr₀ hheld (hnext ▸ hnew) _
  · exact (Pattern.concat_weave_gaps hinOrder hstart).trans (Text.drop_zero t)
  · rw [hreplaced f hf]
    exact hkept _ (keeps_replacing hcalls _ hm)

/-- The empty pattern in a text of two units: it is found three times, and a function that gives back what was found
changes nothing. -/
theorem globalMatches_exact_empty :
    (∃ m', stringFunction .matchPattern (.string (.ofString "ab")) [.object 17] (bodiesAt 1) emptyMachine =
        .ok (.object 21) m' ∧ m'.heap.IsList 21 (List.replicate 3 (some (.string .empty))) true ∧
        m'.heap.Resumes 17 emptyGlobal (.ofNat 0)) ∧
      ∃ m', stringFunction .replace (.string (.ofString "ab")) [.object 17, .object 18] (bodiesAt 1) emptyMachine =
        .ok (.string (.ofString "ab")) m' ∧ m'.heap.Resumes 17 emptyGlobal (.ofNat 0) := by
  have hall := globalMatches_exact (bodiesAt 1) resumes_emptyMachine rfl (within_emptyGlobal (.ofString "ab"))
    (by decide) (by decide) (by decide)
  have hms : Pattern.matchesFrom (emptyGlobal.pattern.find? (.ofString "ab")) (Text.ofString "ab").length =
      [⟨(0, 0), []⟩, ⟨(1, 1), []⟩, ⟨(2, 2), []⟩] := matchesFrom_emptyGlobal (.ofString "ab")
  rw [hms, Machine.resuming_self resumes_emptyMachine] at hall
  have hcall (x : Pattern.Match) : replacementBy (.object 18) (.ofString "ab") x (bodiesAt 1) emptyMachine =
      .ok (x.text (.ofString "ab")) emptyMachine := rfl
  have hmatched := hall.matched
  have hreplaced := hall.replaced (.object 18) rfl
  have hsettled := hall.settled (.object 18) rfl (· = emptyMachine) rfl (fun m' hm' => hm' ▸ resumes_emptyMachine)
    fun x _ m' hm' => by
      rw [hm', hcall]
      rfl
  obtain ⟨m', hrun, hcopied⟩ := (hall.texts nofun (by decide)).2 (Machine.not_crowded_of_unlimited rfl)
  rw [hrun] at hmatched
  rw [hreplaced] at hsettled ⊢
  refine ⟨⟨m', hrun, hcopied.array, hmatched⟩, emptyMachine, ?_, resumes_emptyMachine⟩
  have htexts : [⟨(0, 0), []⟩, ⟨(1, 1), []⟩, ⟨(2, 2), []⟩].mapM (replacementBy (.object 18) (.ofString "ab"))
      (bodiesAt 1) emptyMachine = _ := mapM_run_ok fun x _ => hcall x
  unfold replacing
  rw [bind_run_ok htexts, hall.whole]
  rfl

/-- A text of so many units. -/
def longText (n : Nat) : Text := ⟨Array.replicate n 0x61⟩

theorem length_longText (n : Nat) : (longText n).length = n := Array.size_replicate

/-- **At the precision of the numbers, a search for the empty pattern does not get on**: one more is not more. -/
theorem not_findsInTurn_of_precision {bodies : Bodies} {m m' : Machine} {o : ObjectId} {t : Text}
    {ms : List Pattern.Match} {i : Nat} (ht : t.length = 2 ^ 53) (hi : i ≤ 2 ^ 53)
    (hr : m.heap.Resumes o emptyGlobal (.ofNat i)) : ¬ FindsInTurn bodies o emptyGlobal t m ms m' := by
  intro hs
  induction hs generalizing i with
  | done hsearch =>
    have hle : i ≤ t.length := ht ▸ hi
    cases (execRegExp_some hr rfl (Nat.le_of_eq ht) _ hle (find?_emptyGlobal hle)).symm.trans hsearch
  | proper hsearch hx =>
    have hle : i ≤ t.length := ht ▸ hi
    cases (execRegExp_some hr rfl (Nat.le_of_eq ht) _ hle (find?_emptyGlobal hle)).symm.trans hsearch
    exact hx rfl
  | empty hsearch _ hraise _ ih =>
    have hle : i ≤ t.length := ht ▸ hi
    cases (execRegExp_some hr rfl (Nat.le_of_eq ht) _ hle (find?_emptyGlobal hle)).symm.trans hsearch
    have hbehind := hr.resuming (.ofNat i)
    cases (raiseLastIndex_number _ hbehind).symm.trans hraise
    rcases Nat.lt_or_eq_of_le hi with hlt | rfl
    · have hsum : Double.ofNat i + 1 = Double.ofNat (i + 1) := Double.add_ofNat hlt (by decide) hlt
      rw [hsum] at ih
      exact ih hlt (hbehind.resuming (.ofNat (i + 1)))
    -- the sum is rounded down, and the next search begins where this one did
    · have hsum : Double.ofNat (2 ^ 53) + 1 = Double.ofNat (2 ^ 53) := by decide +kernel
      rw [hsum] at ih
      exact ih hi (hbehind.resuming (.ofNat (2 ^ 53)))

/-- The empty pattern gives an array of one text more than there are units. -/
theorem matchText_emptyGlobal (bodies : Bodies) {m : Machine} {o : ObjectId}
    (hr : m.heap.Resumes o emptyGlobal (.ofNat 0)) (t : Text) :
    ∃ vs : List Value, vs.length = t.length + 1 ∧ stringFunction .matchPattern (.string t) [.object o] bodies m =
      (do return .object (← newArray vs) : Run Value) bodies m := by
  obtain ⟨_, hrun⟩ := matchText_global bodies hr rfl t
  rw [matchesFrom_emptyGlobal, Machine.resuming_self hr] at hrun
  refine ⟨_, ?_, hrun (by rw [List.range'_succ]; exact List.cons_ne_nil _ _)⟩
  rw [List.length_map, List.length_map, List.length_range']

/-- A machine with the expression that has as many objects as it may have. -/
def fullEmptyMachine : Machine := { emptyMachine with heapLimit := some 21 }

/-- Where an expression goes on after an operation that did not fail. -/
def lastIndexAfter (o : ObjectId) : EStateM.Result Failure Machine Value → Option Property
  | .ok _ m => m.heap.getOwn? o lastIndexKey
  | .error _ _ => none

/-- There may be no room for the array; the function may send the expression elsewhere; an array of 2³² texts is
empty; and searches in a text as long as the precision do not come to an end. -/
theorem globalMatches_fails :
    faultOf? (stringFunction .matchPattern (.string (longText 1)) [.object 17] (bodiesAt 0) fullEmptyMachine) =
        some .outOfMemory ∧
      lastIndexAfter 17 (stringFunction .replace (.string .empty) [.object 17, .object 20] (bodiesAt 2) emptyMachine) =
        some (.data (.ofNat 7) true false false) ∧
      (∃ m', stringFunction .matchPattern (.string (longText (2 ^ 32 - 1))) [.object 17] (bodiesAt 0) emptyMachine =
          .ok (.object 21) m' ∧ m'.heap.getOwn? 21 .length = some (.data (.ofNat 0) true false false)) ∧
      ∀ ms m', ¬ FindsInTurn (bodiesAt 0) 17 emptyGlobal (longText (2 ^ 53)) emptyMachine ms m' := by
  refine ⟨?_, ?_, ?_, fun ms m' =>
    not_findsInTurn_of_precision (length_longText _) (Nat.zero_le _) resumes_emptyMachine⟩
  · have hfull : fullEmptyMachine.Crowded :=
      (fullEmptyMachine.heap.refused_iff fullEmptyMachine.roots [] (some 21) fullEmptyMachine.nextCollection).mp
        (by decide +kernel)
    obtain ⟨vs, _, hrun⟩ :=
      matchText_emptyGlobal (bodiesAt 0) (m := fullEmptyMachine) resumes_emptyMachine (longText 1)
    have hnew : newArray vs (bodiesAt 0) fullEmptyMachine = _ := newObjectOf_crowded hfull (arrayOf vs)
    rw [hrun, bind_run_error hnew]
    rfl
  · have hrun := replaceMatches_global (bodiesAt 2) resumes_emptyMachine rfl .empty (f := .object 20) rfl
    rw [matchesFrom_emptyGlobal, Machine.resuming_self resumes_emptyMachine] at hrun
    show lastIndexAfter 17 (replaceMatches .empty (.object 17) (.object 20) (bodiesAt 2) emptyMachine) = _
    rw [hrun]
    decide +kernel
  · obtain ⟨vs, hlength, hrun⟩ := matchText_emptyGlobal (bodiesAt 0) resumes_emptyMachine (longText (2 ^ 32 - 1))
    have hnew : newArray vs (bodiesAt 0) emptyMachine = _ :=
      newObjectOf_free (Machine.not_crowded_of_unlimited rfl) (arrayOf vs)
    have hwrapped : wrap32 vs.length = 0 := by
      rw [hlength, length_longText]
      rfl
    have hobject := object_newArray emptyMachine vs 21
    refine ⟨_, hrun.trans ((bind_run_ok hnew _).trans rfl), ?_⟩
    rw [Heap.getOwn?_of_array (by rw [hobject]; rfl), hobject]
    exact hwrapped ▸ lengthIs_arrayWith vs.zipIdx vs.length

end Ecma51
