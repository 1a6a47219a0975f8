import Ecma51.Proofs.ArrayCopies
import Ecma51.Proofs.TextParts

/-!
# Splitting and joining

A split takes pieces until it has found the last one or has as many as are wanted; it may stop between the groups of one
separator. All its ways out give the beginning of one and the same list, and the loop comes to an end however the
separators lie, empty ones included.

To split a text at a separator and to join the pieces with it gives the text back, unit for unit, wherever the separator
lies: at the ends, next to itself, overlapping itself, or between all units if it is empty. No piece contains a separator
that is not empty, since each search begins where the piece does.

* `Finder.Within`: what a search is expected to find.
* `Splits`: the loop, without a bound on its steps.
* **`splits_splitParts`**: it ends, and in one way.
* **`splitParts_take`**: fewer pieces are the first of more.
* `Machine.Makes`: a new array, unless there is no room for it.
* **`split_limited`**: the method with a limit and without one.
* **`Splits.joins`**: what the loop of a split finds in a text.
* `elementTexts_run`, **`join_run`**: joining an array of texts.
* **`split_join`**: the two methods one after the other.
-/

namespace Ecma51

-- powers mean the same whether or not there are other instances in scope
attribute [local instance (high)] instPowNat

namespace Pattern

/-! ## 1. The loop -/

/-- What the search finds from a position on begins there or later, and lies in a text of the given length. -/
def Finder.Within (find : Finder) (length : Nat) : Prop :=
  ∀ q m, find q = some m → q ≤ m.span.1 ∧ m.span.1 ≤ m.span.2 ∧ m.span.2 ≤ length

/-- The loop of a split: from `p` on, with the search at `q` and room for so many pieces, it finds these. -/
inductive Splits (find : Finder) (subject : Text) : (room p q : Nat) → List (Option Text) → Prop
  /-- No separator is left. -/
  | last {room p q : Nat} (hnone : separator? find subject q = none) :
      Splits find subject room p q [some (subject.drop p)]
  /-- An empty separator at the start of a piece is none. -/
  | skip {room p q : Nat} {m : Match} {ps : List (Option Text)} (hsome : separator? find subject q = some m)
      (hempty : m.span.2 = p) (hrest : Splits find subject room p (m.span.1 + 1) ps) : Splits find subject room p q ps
  /-- The room ends with a piece or a group. -/
  | full {room p q : Nat} {m : Match} (hsome : separator? find subject q = some m) (hne : m.span.2 ≠ p)
      (hfull : room ≤ (piecesAt subject p m).length) :
      Splits find subject room p q ((piecesAt subject p m).take room)
  /-- The split goes on behind the separator. -/
  | more {room p q : Nat} {m : Match} {ps : List (Option Text)} (hsome : separator? find subject q = some m)
      (hne : m.span.2 ≠ p) (hroom : (piecesAt subject p m).length < room)
      (hrest : Splits find subject (room - (piecesAt subject p m).length) m.span.2 m.span.2 ps) :
      Splits find subject room p q (piecesAt subject p m ++ ps)

section Loop

variable {find : Finder} {subject : Text} {room room' n p q : Nat} {m : Match} {xs ps ps' : List (Option Text)}
  {rest rest' : Nat → List (Option Text)}

theorem within_findText (subject needle : Text) : (findText subject needle).Within subject.length := by
  intro q m hm
  obtain ⟨i, hi, rfl⟩ := Option.map_eq_some_iff.mp hm
  obtain ⟨hle, hmatch, _⟩ := Text.indexOf?_eq_some_iff.mp hi
  exact ⟨hle, Nat.le_add_right _ _, Text.le_of_matchesAt hmatch⟩

theorem separator?_eq_some_iff : separator? find subject q = some m ↔
    q < subject.length ∧ find q = some m ∧ m.span.1 < subject.length := by
  unfold separator?
  split
  · rename_i hq
    rw [Option.filter_eq_some_iff, decide_eq_true_iff]
    exact (and_iff_right hq).symm
  · rename_i hq
    exact ⟨fun h => absurd h.symm (Option.some_ne_none m), fun h => absurd h.1 hq⟩

theorem separator?_eq_none_of_le (hq : subject.length ≤ q) : separator? find subject q = none := by
  unfold separator?
  rw [if_neg (Nat.not_lt.mpr hq)]
  rfl

/-- Pieces that fill the room are all that there is. -/
theorem fillUp_full (hroom : 0 < room) (hfull : room ≤ xs.length) : fillUp room xs rest = xs.take room := by
  induction xs generalizing room with
  | nil => exact absurd hfull (Nat.not_le.mpr hroom)
  | cons x xs ih =>
    rw [List.length_cons] at hfull
    unfold fillUp
    split
    · rename_i hone
      rw [hone, List.take_succ_cons, List.take_zero]
    · rename_i hne
      rw [ih (by omega) (by omega)]
      obtain ⟨k, rfl⟩ := Nat.exists_eq_succ_of_ne_zero (Nat.ne_of_gt hroom)
      rw [List.take_succ_cons]
      rfl

/-- Behind pieces that do not fill the room, the rest comes with the room that is left. -/
theorem fillUp_more (hroom : xs.length < room) : fillUp room xs rest = xs ++ rest (room - xs.length) := by
  induction xs generalizing room with
  | nil => rfl
  | cons x xs ih =>
    rw [List.length_cons] at hroom ⊢
    unfold fillUp
    rw [if_neg (by omega), ih (by omega), Nat.sub_sub, Nat.add_comm 1, List.cons_append]

/-- With less room the first pieces are the same. -/
theorem fillUp_take (hroom : 0 < room) (hle : room ≤ room')
    (hrest : ∀ k k', 0 < k → k ≤ k' → rest k = (rest' k').take k) :
    fillUp room xs rest = (fillUp room' xs rest').take room := by
  rcases Nat.lt_or_ge xs.length room with hlt | hge
  · rw [fillUp_more hlt, fillUp_more (Nat.lt_of_lt_of_le hlt hle), List.take_append,
      List.take_of_length_le (Nat.le_of_lt hlt), hrest _ (room' - xs.length) (by omega) (by omega)]
  · rw [fillUp_full hroom hge]
    rcases Nat.lt_or_ge xs.length room' with hlt' | hge'
    · rw [fillUp_more hlt', List.take_append_of_le_length hge]
    · rw [fillUp_full (Nat.lt_of_lt_of_le hroom hle) hge', List.take_take, Nat.min_eq_left hle]

theorem splitUpTo_take (hroom : 0 < room) (hle : room ≤ room') :
    splitUpTo find subject n room p q = (splitUpTo find subject n room' p q).take room := by
  have hlast : [some (subject.drop p)] = [some (subject.drop p)].take room := (List.take_of_length_le hroom).symm
  induction n generalizing room room' p q with
  | zero => exact hlast
  | succ n ih =>
    unfold splitUpTo
    cases separator? find subject q with
    | none => exact hlast
    | some m =>
      dsimp only
      split
      · exact ih hroom hle (List.take_of_length_le hroom).symm
      · exact fillUp_take hroom hle fun k k' hk hkk' => ih hk hkk' (List.take_of_length_le hk).symm

/-- **Fewer pieces are the first of more.** -/
theorem splitParts_take (find : Finder) (subject : Text) (hle : room ≤ room') :
    splitParts find subject room = (splitParts find subject room').take room := by
  unfold splitParts
  by_cases hroom : room = 0
  · rw [if_pos hroom, hroom, List.take_zero]
  · have hpos : 0 < room := Nat.pos_of_ne_zero hroom
    rw [if_neg hroom, if_neg (Nat.ne_of_gt (Nat.lt_of_lt_of_le hpos hle))]
    split
    · split
      · exact List.take_nil.symm
      · exact (List.take_of_length_le hpos).symm
    · exact splitUpTo_take hpos hle

theorem length_splitParts_le (find : Finder) (subject : Text) (room : Nat) :
    (splitParts find subject room).length ≤ room := by
  rw [splitParts_take find subject (Nat.le_refl room)]
  exact List.length_take_le _ _

/-- **The loop comes to an end**: each round moves `p` or `q`, and neither goes far behind the end of the text. The
bound on the number of rounds is never met. -/
theorem splits_splitUpTo (hfind : find.Within subject.length) (hroom : 0 < room) (hle : p ≤ q)
    (hn : 2 * subject.length ≤ n + p + q) : Splits find subject room p q (splitUpTo find subject n room p q) := by
  induction n generalizing room p q with
  | zero => exact .last (separator?_eq_none_of_le (by omega))
  | succ n ih =>
    unfold splitUpTo
    cases hm : separator? find subject q with
    | none => exact .last hm
    | some m =>
      obtain ⟨_, hfound, _⟩ := separator?_eq_some_iff.mp hm
      obtain ⟨hstart, horder, _⟩ := hfind q m hfound
      dsimp only
      split
      · rename_i hempty
        exact .skip hm hempty (ih hroom (by omega) (by omega))
      · rename_i hne
        rcases Nat.lt_or_ge (piecesAt subject p m).length room with hlt | hge
        · rw [fillUp_more hlt]
          exact .more hm hne hlt (ih (by omega) (Nat.le_refl _) (by omega))
        · rw [fillUp_full hroom hge]
          exact .full hm hne hge

/-- The loop comes to an end in one way only. -/
theorem Splits.unique (hs : Splits find subject room p q ps) (hs' : Splits find subject room p q ps') : ps = ps' := by
  induction hs generalizing ps' with
  | last hnone =>
    cases hs' with
    | last => rfl
    | skip hsome | full hsome | more hsome => exact absurd (hnone.symm.trans hsome).symm (Option.some_ne_none _)
  | skip hsome hempty _ ih =>
    cases hs' with
    | last hnone => exact absurd (hnone.symm.trans hsome).symm (Option.some_ne_none _)
    | skip hsome' _ hrest' =>
      cases hsome.symm.trans hsome'
      exact ih hrest'
    | full hsome' hne | more hsome' hne =>
      cases hsome.symm.trans hsome'
      exact absurd hempty hne
  | full hsome hne hfull =>
    cases hs' with
    | last hnone => exact absurd (hnone.symm.trans hsome).symm (Option.some_ne_none _)
    | skip hsome' hempty =>
      cases hsome.symm.trans hsome'
      exact absurd hempty hne
    | full hsome' =>
      cases hsome.symm.trans hsome'
      rfl
    | more hsome' _ hroom =>
      cases hsome.symm.trans hsome'
      exact absurd hfull (Nat.not_le.mpr hroom)
  | more hsome hne hroom _ ih =>
    cases hs' with
    | last hnone => exact absurd (hnone.symm.trans hsome).symm (Option.some_ne_none _)
    | skip hsome' hempty =>
      cases hsome.symm.trans hsome'
      exact absurd hempty hne
    | full hsome' _ hfull =>
      cases hsome.symm.trans hsome'
      exact absurd hfull (Nat.not_le.mpr hroom)
    | more hsome' _ _ hrest' =>
      cases hsome.symm.trans hsome'
      rw [ih hrest']

/-- **The split of a text that is not empty is what its loop finds**, which comes to an end in this way only. -/
theorem splits_splitParts (hfind : find.Within subject.length) (hsubject : subject ≠ .empty) (hroom : 0 < room) :
    Splits find subject room 0 0 (splitParts find subject room) ∧
      ∀ ps, Splits find subject room 0 0 ps → ps = splitParts find subject room := by
  have hsplits : Splits find subject room 0 0 (splitParts find subject room) := by
    have hnonempty : subject.isEmpty = false := Bool.eq_false_iff.mpr fun h => hsubject (Text.isEmpty_iff.mp h)
    unfold splitParts
    rw [if_neg (Nat.ne_of_gt hroom), hnonempty, if_neg Bool.false_ne_true]
    exact splits_splitUpTo hfind hroom (Nat.le_refl 0) (by omega)
  exact ⟨hsplits, fun ps hps => hps.unique hsplits⟩

end Loop

end Pattern

/-! ## 2. New arrays -/

/-- The outcome is a new array of values, made by the machine, unless there is no room for it. In neither case is
anything that is in use different. -/
def Machine.Makes (m : Machine) (vs : List Value) (outcome : EStateM.Result Failure Machine Value) : Prop :=
  (m.Crowded → outcome = .error (.fault .outOfMemory) m.reserve.1) ∧
  (¬ m.Crowded → ∃ m', outcome = .ok (.object m.heap.nextObject) m' ∧ m.Copied [] (vs.map some) m')

section Arrays

variable {bodies : Bodies} {m : Machine} {vs : List Value}

theorem object_newArray (m : Machine) (vs : List Value) (b : ObjectId) :
    (m.reserve.1.heap.add (arrayOf vs)).1.object b =
      if m.heap.nextObject = b then arrayOf vs else m.reserve.1.heap.object b := by
  have hnext : m.reserve.1.heap.nextObject = m.heap.nextObject := nextObject_reserve m
  exact hnext ▸ Heap.object_add m.reserve.1.heap (arrayOf vs) b

/-- **A new array shows its elements**, and nothing else is new. -/
theorem makes_newArray (bodies : Bodies) (m : Machine) (hvs : vs.length < 2 ^ 32) :
    m.Makes vs ((do return .object (← newArray vs) : Run Value) bodies m) := by
  refine ⟨fun hm => bind_run_error (newObjectOf_crowded hm (arrayOf vs)) _, fun hm => ?_⟩
  have hnew : newArray vs bodies m = _ := newObjectOf_free hm (arrayOf vs)
  have harray : ((m.reserve.1.heap.add (arrayOf vs)).1.object m.heap.nextObject).IsArrayOf vs := by
    rw [object_newArray, if_pos rfl]
    exact isArrayOf_arrayOf hvs
  refine ⟨_, (bind_run_ok hnew _).trans rfl, Heap.isList_of_isArrayOf harray hvs, fun b hb => absurd hb (by simp),
    fun b hb hne => ?_, fun e he => m.intact_reserve.environment e he, rfl⟩
  exact (object_newArray m vs b).trans ((if_neg hne.symm).trans (m.intact_reserve.object b hb))

end Arrays

/-! ## 3. The method -/

/-- What looks for a separator: a text or a regular expression. If it is undefined, there is none. -/
inductive Heap.Separates (h : Heap) (t : Text) : Value → Pattern.Finder → Prop
  | undefined : h.Separates t .undefined fun _ => none
  | text (s : Text) : h.Separates t (.string s) (Pattern.findText t s)
  | regExp {v : Value} {o : ObjectId} {r : RegExp} (hv : h.asRegExp? v = some (o, r)) :
      h.Separates t v (r.pattern.find? t)

/-- So many pieces are wanted: as many as an array can have if the limit is undefined, and otherwise its value as a
number of 32 bits. To find it out may change the machine. -/
def Wants (bodies : Bodies) (m : Machine) (limit : Value) (n : Nat) (m₁ : Machine) : Prop :=
  if limit.isUndefined then n = 2 ^ 32 - 1 ∧ m₁ = m else toUint32 limit bodies m = .ok n m₁

/-- The pieces of a text, at most so many, as values. -/
def pieces (find : Pattern.Finder) (t : Text) (limit : Nat) : List Value :=
  (Pattern.splitParts find t limit).map pieceValue

section Split

variable {bodies : Bodies} {m m₁ : Machine} {t : Text} {limit sep : Value} {n : Nat} {find : Pattern.Finder}

theorem Wants.le (hn : Wants bodies m limit n m₁) : n ≤ 2 ^ 32 - 1 := by
  unfold Wants at hn
  split at hn
  · exact Nat.le_of_eq hn.1
  · unfold toUint32 at hn
    cases hnumber : toNumber limit bodies m with
    | error e m' =>
      rw [bind_run_error hnumber] at hn
      cases hn
    | ok x m' =>
      rw [bind_run_ok hnumber] at hn
      cases hn
      exact Nat.le_sub_one_of_lt x.toUint32_lt

/-- No limit. -/
theorem wants_undefined (bodies : Bodies) (m : Machine) : Wants bodies m .undefined (2 ^ 32 - 1) m := ⟨rfl, rfl⟩

/-- A number of 32 bits as a limit. -/
theorem wants_ofNat (bodies : Bodies) (m : Machine) (hn : n < 2 ^ 32) : Wants bodies m (.ofNat n) n m := by
  show (EStateM.Result.ok (Double.ofNat n).toUint32 m : EStateM.Result Failure Machine Nat) = .ok n m
  rw [Double.toUint32_ofNat hn]

/-- Without a separator, the text is the only piece. -/
theorem pieces_none (t : Text) (hn : n ≠ 0) : pieces (fun _ => none) t n = [.string t] := by
  have hseparator (q : Nat) : Pattern.separator? (fun _ => none) t q = none := by
    unfold Pattern.separator?
    split <;> rfl
  have hloop (k : Nat) : Pattern.splitUpTo (fun _ => none) t k n 0 0 = [some t] := by
    cases k <;> (unfold Pattern.splitUpTo; rw [Text.drop_zero])
    rw [hseparator]
  unfold pieces Pattern.splitParts
  rw [if_neg hn, hloop]
  split <;> rfl

theorem length_pieces_lt (hn : n ≤ 2 ^ 32 - 1) : (pieces find t n).length < 2 ^ 32 := by
  unfold pieces
  rw [List.length_map]
  exact Nat.lt_of_le_of_lt (Pattern.length_splitParts_le find t n) (by omega)

theorem split_bind (hn : Wants bodies m limit n m₁) :
    splitText t sep limit bodies m =
      ((do
        match (← getHeap).asRegExp? sep with
        | some (_, r) => return .object (← newArray (pieces (r.pattern.find? t) t n))
        | none =>
          if sep.isUndefined then return .object (← newArray [.string t])
          let s ← toText sep
          return .object (← newArray (pieces (Pattern.findText t s) t n)) : Run Value)) bodies m₁ := by
  unfold Wants at hn
  split at hn
  · rename_i hlimit
    obtain ⟨rfl, rfl⟩ := hn
    unfold splitText
    rw [if_pos hlimit]
    rfl
  · rename_i hlimit
    unfold splitText
    rw [if_neg hlimit, bind_run_ok hn]
    rfl

/-- With a separator, the array has the pieces that are wanted. -/
theorem split_run (hn : Wants bodies m limit n m₁) (hs : m₁.heap.Separates t sep find)
    (hsep : sep.isUndefined = true → n ≠ 0) :
    splitText t sep limit bodies m = (do return .object (← newArray (pieces find t n)) : Run Value) bodies m₁ := by
  rw [split_bind hn, getHeap_bind_run]
  cases hs with
  | undefined =>
    rw [pieces_none t (hsep rfl)]
    rfl
  | text s => rfl
  | regExp hv => rw [hv]

/-- Without a separator, the array has the text, even if no piece is wanted. -/
theorem split_undefined (hn : Wants bodies m limit n m₁) :
    splitText t .undefined limit bodies m = (do return .object (← newArray [.string t]) : Run Value) bodies m₁ := by
  rw [split_bind hn, getHeap_bind_run]
  rfl

/-- **A limit is kept by all separators, and an undefined one ignores it if no piece is wanted.** The array without a
limit has all pieces. The array with one has the first of them, as many as are wanted; but the text is in it even if none
is wanted and the separator is undefined. The loop that finds the pieces comes to an end, in one way only. -/
theorem split_limited (bodies : Bodies) (t : Text) (hn : Wants bodies m limit n m₁)
    (hs : m₁.heap.Separates t sep find) :
    m₁.Makes (pieces find t (2 ^ 32 - 1)) (stringFunction .split (.string t) [sep] bodies m₁) ∧
      ((sep.isUndefined = true → n ≠ 0) →
        m₁.Makes ((pieces find t (2 ^ 32 - 1)).take n) (stringFunction .split (.string t) [sep, limit] bodies m)) ∧
      (sep.isUndefined = true →
        m₁.Makes (pieces find t (2 ^ 32 - 1)) (stringFunction .split (.string t) [sep, limit] bodies m)) ∧
      (find.Within t.length → t ≠ .empty → ∀ room, 0 < room →
        Pattern.Splits find t room 0 0 (Pattern.splitParts find t room) ∧
          ∀ ps, Pattern.Splits find t room 0 0 ps → ps = Pattern.splitParts find t room) := by
  have htake : (pieces find t (2 ^ 32 - 1)).take n = pieces find t n := by
    unfold pieces
    rw [Pattern.splitParts_take find t hn.le, List.map_take]
  refine ⟨?_, fun hsep => ?_, fun hsep => ?_, fun hfind ht room hroom => Pattern.splits_splitParts hfind ht hroom⟩
  · have hrun : stringFunction .split (.string t) [sep] bodies m₁ = _ :=
      split_run (wants_undefined bodies m₁) hs fun _ => by decide
    rw [hrun]
    exact makes_newArray bodies m₁ (length_pieces_lt (Nat.le_refl _))
  · have hrun : stringFunction .split (.string t) [sep, limit] bodies m = _ := split_run hn hs hsep
    rw [hrun, htake]
    exact makes_newArray bodies m₁ (length_pieces_lt hn.le)
  · cases hs with
    | undefined =>
      have hrun : stringFunction .split (.string t) [.undefined, limit] bodies m = _ := split_undefined hn
      rw [hrun, pieces_none t (by decide)]
      exact makes_newArray bodies m₁ (Nat.one_lt_two_pow (by decide))
    | text => cases hsep
    | regExp hv =>
      cases sep with
      | undefined => cases hv
      | _ => cases hsep

end Split

/-- Two of three pieces; and with no separator the text, though no piece is wanted. -/
theorem split_limited_twice :
    (∃ m', stringFunction .split (.string (.ofString "a,b,c")) [.string (.ofString ","), .ofNat 2] (bodiesAt 0)
        (Machine.start {}) = .ok (.object (Machine.start {}).heap.nextObject) m' ∧
      m'.heap.IsList (Machine.start {}).heap.nextObject
        [some (.string (.ofString "a")), some (.string (.ofString "b"))] true) ∧
    ∃ m', stringFunction .split (.string (.ofString "a,b,c")) [.undefined, .ofNat 0] (bodiesAt 0)
        (Machine.start {}) = .ok (.object (Machine.start {}).heap.nextObject) m' ∧
      m'.heap.IsList (Machine.start {}).heap.nextObject [some (.string (.ofString "a,b,c"))] true := by
  have hfree : ¬ (Machine.start {}).Crowded := Machine.not_crowded_of_unlimited rfl
  obtain ⟨_, hfirst, _⟩ := split_limited (bodiesAt 0) (.ofString "a,b,c")
    (wants_ofNat (bodiesAt 0) (Machine.start {}) (n := 2) (by decide)) (.text (.ofString ","))
  obtain ⟨_, _, hwhole, _⟩ := split_limited (bodiesAt 0) (.ofString "a,b,c")
    (wants_ofNat (bodiesAt 0) (Machine.start {}) (n := 0) (by decide)) .undefined
  obtain ⟨m₁, hrun₁, hcopied₁⟩ := (hfirst nofun).2 hfree
  obtain ⟨m₂, hrun₂, hcopied₂⟩ := (hwhole rfl).2 hfree
  refine ⟨⟨m₁, hrun₁, ?_⟩, m₂, hrun₂, ?_⟩
  · have hitems : (pieces (Pattern.findText (.ofString "a,b,c") (.ofString ",")) (.ofString "a,b,c") (2 ^ 32 - 1)).take 2 =
        [.string (.ofString "a"), .string (.ofString "b")] := by decide +kernel
    rw [hitems] at hcopied₁
    exact hcopied₁.array
  · rw [pieces_none _ (by decide)] at hcopied₂
    exact hcopied₂.array

/-! ## 4. Pieces of a text -/

namespace Pattern

section Texts

variable {subject sep : Text} {room p q : Nat} {m : Match} {ps : List (Option Text)}

/-- Pieces that a text falls into from a position on, with a separator between them. No piece contains the separator if
that is not empty. -/
structure Joins (subject sep : Text) (p : Nat) (ts : List Text) : Prop where
  joined : Text.intercalate sep ts = subject.drop p
  free : sep ≠ .empty → ∀ t ∈ ts, ¬ t.Contains sep

theorem separator?_findText (hm : separator? (findText subject sep) subject q = some m) :
    ∃ i, m = .ofSpan i (i + sep.length) ∧ q ≤ i ∧ i < subject.length ∧ subject.matchesAt sep i = true ∧
      ∀ j, q ≤ j → j < i → subject.matchesAt sep j = false := by
  obtain ⟨_, hfound, hi⟩ := separator?_eq_some_iff.mp hm
  obtain ⟨i, hindex, rfl⟩ := Option.map_eq_some_iff.mp hfound
  obtain ⟨hle, hmatch, hleast⟩ := Text.indexOf?_eq_some_iff.mp hindex
  exact ⟨i, rfl, hle, hi, hmatch, hleast⟩

/-- If no separator is left, none stands in the rest. -/
theorem not_contains_of_separator?_eq_none (hsep : sep ≠ .empty)
    (hnone : separator? (findText subject sep) subject q = none) : ¬ (subject.drop q).Contains sep := by
  intro hc
  have hpos : 0 < sep.length := Text.length_pos_of_ne hsep
  rcases Nat.lt_or_ge q subject.length with hq | hq
  · have hc' : (subject.slice q subject.length).Contains sep := hc
    obtain ⟨i, hi, hstop, hmatch⟩ := hc'.exists_matchesAt (Nat.le_of_lt hq) (Nat.le_refl _)
    cases hfound : subject.indexOf? sep q with
    | none =>
      rw [Text.indexOf?_eq_none_iff.mp hfound i hi] at hmatch
      cases hmatch
    | some j =>
      obtain ⟨_, hmatch', hleast⟩ := Text.indexOf?_eq_some_iff.mp hfound
      have hend := Text.le_of_matchesAt hmatch'
      have hsome : separator? (findText subject sep) subject q = some (.ofSpan j (j + sep.length)) :=
        separator?_eq_some_iff.mpr ⟨hq, by rw [findText, hfound]; rfl, show j < _ by omega⟩
      rw [hnone] at hsome
      cases hsome
  · obtain ⟨i, hi⟩ := Text.contains_iff.mp hc
    have hend := Text.le_of_matchesAt hi
    have hlength : (subject.drop q).length = 0 := by
      rw [Text.length_eq] at hq ⊢
      rw [Text.toList_drop, List.length_drop]
      omega
    omega

/-- **What the loop finds joins to what it had before it**, if there is room for a piece before each unit. -/
theorem Splits.joins (hs : Splits (findText subject sep) subject room p q ps) (hle : p ≤ q) (hp : p ≤ subject.length)
    (hroom : subject.length - p < room) (hstart : sep ≠ .empty → q = p) :
    ∃ ts : List Text, ts ≠ [] ∧ ps = ts.map some ∧ Joins subject sep p ts := by
  induction hs with
  | @last _ p _ hnone =>
    refine ⟨[subject.drop p], List.cons_ne_nil _ _, rfl, Text.intercalate_singleton _ _, fun hsep t ht => ?_⟩
    rw [List.mem_singleton.mp ht, ← hstart hsep]
    exact not_contains_of_separator?_eq_none hsep hnone
  | skip hsome hempty _ ih =>
    obtain ⟨i, rfl, hi, hlt, _, _⟩ := separator?_findText hsome
    have hend : i + sep.length = _ := hempty
    refine ih ?_ hp hroom fun hsep => ?_
    · show _ ≤ i + 1
      omega
    · have hpos := Text.length_pos_of_ne hsep
      omega
  | full hsome _ hfull =>
    obtain ⟨i, rfl, hi, hlt, _, _⟩ := separator?_findText hsome
    have hone : _ ≤ 1 := hfull
    omega
  | @more room p _ _ _ hsome hne hmore _ ih =>
    obtain ⟨i, rfl, hi, hlt, hmatch, hleast⟩ := separator?_findText hsome
    obtain ⟨hend, hslice⟩ := Text.matchesAt_iff.mp hmatch
    have hbehind : i + sep.length ≠ p := hne
    obtain ⟨ts, hts, rfl, hjoined, hfree⟩ := ih (Nat.le_refl _) hend
      (show subject.length - (i + sep.length) < room - 1 by omega) fun _ => rfl
    refine ⟨subject.slice p i :: ts, List.cons_ne_nil _ _, rfl, ?_, fun hsep t ht => ?_⟩
    · calc Text.intercalate sep (subject.slice p i :: ts)
          = subject.slice p i ++ sep ++ subject.drop (i + sep.length) := by
            rw [Text.intercalate_cons _ _ hts, hjoined]
            rfl
        _ = subject.slice p i ++ (subject.slice i (i + sep.length) ++ subject.drop (i + sep.length)) := by
            rw [hslice, Text.append_assoc]
        _ = subject.drop p := by
            rw [Text.slice_append_drop (Nat.le_add_right i _), Text.slice_append_drop (by omega)]
    · rcases List.mem_cons.mp ht with rfl | ht
      · -- a separator in the piece would have been found before the one that ends it
        intro hc
        obtain ⟨j, hj, hstop, hj'⟩ := hc.exists_matchesAt (by omega) (by omega)
        have hpos := Text.length_pos_of_ne hsep
        rw [hleast j (hstart hsep ▸ hj) (by omega)] at hj'
        cases hj'
      · exact hfree hsep t ht

/-- The pieces of a whole text join to it. -/
theorem splitParts_joins (subject sep : Text) (hroom : subject.length < room) :
    ∃ ts : List Text, splitParts (findText subject sep) subject room = ts.map some ∧ Joins subject sep 0 ts := by
  by_cases hsubject : subject = .empty
  · subst hsubject
    unfold splitParts
    rw [if_neg (Nat.ne_of_gt (Nat.zero_lt_of_lt hroom)), if_pos (Text.isEmpty_iff.mpr rfl)]
    split
    · -- only the empty separator stands in the empty text
      rename_i hfound
      obtain ⟨m, hm⟩ := Option.isSome_iff_exists.mp hfound
      obtain ⟨i, hi, _⟩ := Option.map_eq_some_iff.mp hm
      have hend := Text.le_of_matchesAt (Text.indexOf?_eq_some_iff.mp hi).2.1
      refine ⟨[], rfl, rfl, fun hsep => ?_⟩
      have hpos := Text.length_pos_of_ne hsep
      have hlength : (Text.empty).length = 0 := rfl
      omega
    · refine ⟨[.empty], rfl, rfl, fun hsep t ht hc => ?_⟩
      obtain ⟨i, hi⟩ := Text.contains_iff.mp (List.mem_singleton.mp ht ▸ hc)
      have hend := Text.le_of_matchesAt hi
      have hpos := Text.length_pos_of_ne hsep
      have hlength : (Text.empty).length = 0 := rfl
      omega
  · obtain ⟨hs, _⟩ := splits_splitParts (within_findText subject sep) hsubject (Nat.zero_lt_of_lt hroom)
    obtain ⟨ts, _, hps, hjoins⟩ := hs.joins (Nat.le_refl 0) (Nat.zero_le _) hroom fun _ => rfl
    exact ⟨ts, hps, hjoins⟩

end Texts

end Pattern

/-! ## 5. Joining -/

section Joining

variable {bodies : Bodies} {m : Machine} {o : ObjectId} {w : Bool} {ts : List Text} {t sep : Text}

/-- The elements of an array of texts. -/
def textElements (ts : List Text) : List (Option Value) := ts.map fun t => some (.string t)

theorem elementTexts_run (us : List Text) (hes : m.heap.IsList o (textElements (us ++ ts)) w) (acc : List Text) :
    elementTexts o false ts.length us.length acc bodies m = .ok (acc.reverse ++ ts) m := by
  induction ts generalizing us acc with
  | nil =>
    rw [List.append_nil]
    rfl
  | cons t ts ih =>
    have helement : (ArrayView.ofList (textElements (us ++ t :: ts)) w).element us.length = some (.string t) := by
      show (textElements (us ++ t :: ts))[us.length]?.join = _
      rw [textElements, List.getElem?_map, List.getElem?_append_right (Nat.le_refl _), Nat.sub_self]
      rfl
    have hlt : us.length < (ArrayView.ofList (textElements (us ++ t :: ts)) w).length := by
      show _ < (textElements (us ++ t :: ts)).length
      rw [textElements, List.length_map, List.length_append, List.length_cons]
      omega
    have hi := hes.lt_limit hlt
    have hread : getAt o us.length bodies m = .ok (.string t) m := by
      have hown := hes.element ⟨us.length, hi⟩
      rw [helement] at hown
      unfold getAt
      rw [Key.ofNat_of_lt hi]
      exact getFrom_data (.inl hes.kind) (Heap.getProperty?_of_own hown)
    have htext : holding [.string t] (elementText (.string t) false) bodies m = .ok t m := holding_run rfl
    have hes' : m.heap.IsList o (textElements ((us ++ [t]) ++ ts)) w := List.append_cons us t ts ▸ hes
    have hrest := ih (us ++ [t]) hes' (t :: acc)
    rw [List.length_append, List.reverse_cons, ← List.append_cons] at hrest
    show (getAt o us.length >>= _) bodies m = _
    rw [bind_run_ok hread, bind_run_ok htext]
    exact hrest

/-- **Joining an array of texts.** -/
theorem join_run (bodies : Bodies) (hes : m.heap.IsList o (textElements ts) w) (sep : Text) :
    arrayFunction .join (.object o) [.string sep] bodies m =
      .ok (.string (Text.intercalate sep ts)) { m with held := .object o :: m.held } := by
  have hlength : (ArrayView.ofList (textElements ts) w).length = ts.length := List.length_map _
  have hthis : thisAndLength (.object o) bodies m = .ok (o, ts.length) { m with held := .object o :: m.held } :=
    hlength ▸ thisAndLengthWith_run hes []
  have htexts : elementTexts o false ts.length 0 [] bodies { m with held := .object o :: m.held } = _ :=
    elementTexts_run (m := { m with held := .object o :: m.held }) [] hes []
  show (thisAndLength (.object o) >>= _) bodies m = _
  rw [bind_run_ok hthis]
  exact (bind_run_ok htexts _).trans rfl

/-- Splits a text at a separator and joins the pieces with it. -/
def splitAndJoin (t sep : Text) : Run Value := do
  let a ← stringFunction .split (.string t) [.string sep]
  arrayFunction .join a [.string sep]

/-- **To split a text and to join the pieces gives the text**, and no piece contains the separator, except that there
may be no room for the array of the pieces. -/
theorem split_join (bodies : Bodies) (m : Machine) {t : Text} (ht : t.length < 2 ^ 32 - 1) (sep : Text) :
    (m.Crowded → splitAndJoin t sep bodies m = .error (.fault .outOfMemory) m.reserve.1) ∧
      (¬ m.Crowded → ∃ ts m₁ m₂,
        stringFunction .split (.string t) [.string sep] bodies m = .ok (.object m.heap.nextObject) m₁ ∧
        m₁.heap.IsList m.heap.nextObject (textElements ts) true ∧
        splitAndJoin t sep bodies m = .ok (.string t) m₂ ∧
        (sep ≠ .empty → ∀ p ∈ ts, ¬ p.Contains sep)) := by
  obtain ⟨ts, hts, hjoined, hfree⟩ := Pattern.splitParts_joins t sep ht
  have hpieces : pieces (Pattern.findText t sep) t (2 ^ 32 - 1) = ts.map .string := by
    unfold pieces
    rw [hts, List.map_map]
    rfl
  have hmakes : m.Makes (ts.map .string) (stringFunction .split (.string t) [.string sep] bodies m) := by
    have hrun : stringFunction .split (.string t) [.string sep] bodies m =
        (do return .object (← newArray (pieces (Pattern.findText t sep) t (2 ^ 32 - 1))) : Run Value) bodies m :=
      split_run (wants_undefined bodies m) (.text sep) nofun
    rw [hrun, hpieces]
    exact makes_newArray bodies m (hpieces ▸ length_pieces_lt (Nat.le_refl _))
  refine ⟨fun hm => bind_run_error (hmakes.1 hm) _, fun hm => ?_⟩
  obtain ⟨m₁, hsplit, hcopied⟩ := hmakes.2 hm
  have hlist : m₁.heap.IsList m.heap.nextObject (textElements ts) true := by
    have hes := hcopied.array
    rw [List.map_map] at hes
    exact hes
  have hjoin := join_run bodies hlist sep
  rw [hjoined, Text.drop_zero] at hjoin
  exact ⟨ts, m₁, _, hsplit, hlist, (bind_run_ok hsplit _).trans hjoin, hfree⟩

/-- A separator that overlaps itself. -/
theorem split_join_overlapping :
    ∃ m₂, splitAndJoin (.ofString "aaaba") (.ofString "aa") (bodiesAt 0) (Machine.start {}) =
      .ok (.string (.ofString "aaaba")) m₂ := by
  obtain ⟨_, hfree⟩ := split_join (bodiesAt 0) (Machine.start {}) (t := .ofString "aaaba") (by decide) (.ofString "aa")
  obtain ⟨_, _, m₂, _, _, hjoin, _⟩ := hfree (Machine.not_crowded_of_unlimited rfl)
  exact ⟨m₂, hjoin⟩

/-- Without room for another object, a text cannot be split. -/
theorem split_join_fails :
    fullMachine.Reachable ∧
      faultOf? (stringFunction .split (.string (.ofString "a,b")) [.string (.ofString ",")] (bodiesAt 0) fullMachine) =
        some .outOfMemory ∧
      faultOf? (splitAndJoin (.ofString "a,b") (.ofString ",") (bodiesAt 0) fullMachine) = some .outOfMemory :=
  ⟨.aside (.start {}) rfl, by decide +kernel, by decide +kernel⟩

end Joining

end Ecma51
