import Ecma51.Proofs.ArraySort

/-!
# Cutting and inserting

The method that removes elements of an array and puts others in their place copies the removed ones to a new array,
moves those behind them to the left or to the right, element by element in the array itself, and writes the others into
the room. Read as lists with gaps, the new array is a segment of the old one, and the array is what comes before that
segment, the new elements, and what comes after it.

* `spliceStart`, `spliceCount`: where the segment begins, and its length.
* **`copySegment_rewrites`**: the segment is copied.
* `ArrayView.Shifted`, **`shiftElements_rewrites`**: the elements behind it are moved.
* `Machine.Spliced`, **`splice_cuts`**: all that the method does.
-/

namespace Ecma51

open Relation (ReflTransGen TransGen)

-- powers mean the same whether or not there are other instances in scope
attribute [local instance (high)] instPowNat

/-! ## 1. Positions -/

/-- Where the arguments say that the removed segment begins. -/
def spliceStart (args : List Value) (length : Nat) : Nat :=
  relativeIndex (primitiveNumber (argumentAt args 0)).toInteger length

/-- How many elements the arguments say are removed: none without arguments, and all that follow with only one. -/
def spliceCount (args : List Value) (length : Nat) : Nat :=
  match args with
  | [] => 0
  | [_] => length - spliceStart args length
  | _ :: count :: _ => clampIndex (primitiveNumber count).toInteger (length - spliceStart args length)

theorem relativeIndex_le (x : Double) (length : Nat) : relativeIndex x length ≤ length := by
  unfold relativeIndex
  split
  · split <;> omega
  · dsimp only
    split <;> omega

theorem clampIndex_le (x : Double) (length : Nat) : clampIndex x length ≤ length := by
  unfold clampIndex
  split
  · split <;> omega
  · exact Nat.min_le_right _ _

theorem spliceStart_le (args : List Value) (length : Nat) : spliceStart args length ≤ length := relativeIndex_le _ _

theorem spliceCount_le (args : List Value) (length : Nat) :
    spliceStart args length + spliceCount args length ≤ length := by
  have hstart := spliceStart_le args length
  have hcount : spliceCount args length ≤ length - spliceStart args length := by
    unfold spliceCount
    split
    · exact Nat.zero_le _
    · exact Nat.le_refl _
    · exact clampIndex_le _ _
  omega

/-- The last two of three elements, however many more are asked for. -/
example : (spliceStart [.number (-.ofNat 2), .number (.infinite false)] 3,
    spliceCount [.number (-.ofNat 2), .number (.infinite false)] 3) = (1, 2) := by decide +kernel

/-- A number that is not negative counts from the start in either way. -/
theorem clampIndex_eq (x : Double) (length : Nat) :
    clampIndex x length = if x.isNegative then 0 else relativeIndex x length := by
  cases x with
  | nan => simp [clampIndex, relativeIndex, Double.isNegative, Double.truncInt]
  | infinite s => cases s <;> rfl
  | finite s m =>
    cases s with
    | true => simp [clampIndex, Double.isNegative, Double.truncInt, Double.signed]
    | false => simp [clampIndex, relativeIndex, Double.isNegative, Double.truncInt, Double.signed]

/-- How many elements are removed, as it is found out. -/
def readCount (args : List Value) (rest : Nat) : Run Nat :=
  match args with
  | [] => pure 0
  | [_] => pure rest
  | _ :: count :: _ => do
    let x ← toInteger count
    pure (if x.isNegative then 0 else relativeIndex x rest)

section Arguments

variable {bodies : Bodies} {m : Machine} {args : List Value}

theorem toInteger_run {v : Value} (hv : v.isObject = false) :
    toInteger v bodies m = .ok (primitiveNumber v).toInteger m :=
  (bind_run_ok (toNumber_run hv) _).trans rfl

theorem isObject_argumentAt (hargs : ∀ v ∈ args.take 2, v.isObject = false) :
    (argumentAt args 0).isObject = false := by
  cases args with
  | nil => rfl
  | cons v rest => exact hargs v List.mem_cons_self

theorem readCount_run (hargs : ∀ v ∈ args.take 2, v.isObject = false) (length : Nat) :
    readCount args (length - spliceStart args length) bodies m = .ok (spliceCount args length) m := by
  match args with
  | [] => rfl
  | [_] => rfl
  | v :: count :: rest =>
    have hcount : count.isObject = false := hargs count (List.mem_cons_of_mem _ List.mem_cons_self)
    have hclamp : spliceCount (v :: count :: rest) length = if (primitiveNumber count).toInteger.isNegative then 0
        else relativeIndex (primitiveNumber count).toInteger (length - spliceStart (v :: count :: rest) length) :=
      clampIndex_eq _ _
    rw [hclamp]
    exact (bind_run_ok (toInteger_run hcount) _).trans rfl

end Arguments

/-! ## 2. Copying a segment -/

/-- Copies consecutive elements to a new array, and gives where they are. -/
def copySegment (o a : ObjectId) (start count : Nat) : Run (Nat × Nat) := do
  upward (fun k => copyElement o (start + k) a k) count 0
  putLength a count
  return (start, count)

/-- Finds out where to cut, and copies what is cut out. -/
def takeSegment (args : List Value) (o a : ObjectId) (length : Nat) : Run (Nat × Nat) := do
  let x ← toInteger (argumentAt args 0)
  let count ← readCount args (length - relativeIndex x length)
  copySegment o a (relativeIndex x length) count

/-- Moves the elements behind a segment to where others are to end that are put in its place. -/
def shiftElements (o : ObjectId) (start removed added length : Nat) : Run Unit := do
  if added < removed then
    upward (fun k => moveElement o (k + removed) (k + added)) (length - removed - start) start
    downward (deleteAt o) (removed - added) (length - removed + added)
  else if removed < added then
    downward (fun k => moveElement o (k + removed) (k + added)) (length - removed - start) start

/-- Puts values in the place of a segment. -/
def replaceSegment (o : ObjectId) (start count length : Nat) (items : List Value) (result : Value) : Run Value := do
  holding items (shiftElements o start count items.length length)
  putAll o items start
  putLength o (length - count + items.length)
  return result

/-- What the method does, in parts. -/
theorem splice_eq (this : Value) (args : List Value) :
    splice this args = (do
      let (o, length) ← thisAndLengthWith args this
      let a ← freshArrayWith args
      let (start, count) ← holding args (takeSegment args o a length)
      replaceSegment o start count length (args.drop 2) (.object a)) := by
  match args with
  | [] => rfl
  | [_] => rfl
  | _ :: _ :: _ =>
    unfold splice takeSegment readCount copySegment replaceSegment
    simp only [bind_assoc]
    rfl

section Segments

variable {bodies : Bodies} {h₀ : Heap} {o a : ObjectId} {es : List (Option Value)}

/-- **The new array is a segment of the other**, with its gaps. -/
theorem copySegment_rewrites (bodies : Bodies) {w : Bool} (hes : h₀.IsList o es w) (hc : h₀.InheritsNoElement o)
    (hne : o ≠ a) (hnot : ∀ p, TransGen (LinksTo h₀.prototypeOf) o p → p ≠ a) {start count : Nat}
    (hcount : start + count ≤ es.length) :
    ∃ V, Rewrites bodies h₀ a (.ofList [] true) (copySegment o a start count) (start, count) V ∧ V.length = count ∧
      V.writable = true ∧ ∀ j, j < count → V.element j = es[start + j]?.join := by
  have hlimit {i : Nat} (hi : i < es.length) : i < indexLimit := hes.lt_limit hi
  -- those below the index are copied, and there are no others
  obtain ⟨V, hcopy, hwritable, helement⟩ : ∃ V, Rewrites bodies h₀ a (.ofList [] true)
      (upward (fun k => copyElement o (start + k) a k) count 0) () V ∧ V.writable = true ∧
      ∀ j, V.element j = if j < count then es[start + j]?.join else none := by
    refine Rewrites.upward (fun k V => V.writable = true ∧
      ∀ j, V.element j = if j < k then es[start + j]?.join else none) ?_ ⟨rfl, fun j => rfl⟩
    rintro k hk V ⟨hwritable, helement⟩
    have habsent : V.element k = none := (helement k).trans (if_neg (Nat.lt_irrefl k))
    rw [Nat.zero_add]
    refine ⟨_, copyElement_rewrites hes hc hne hnot (hlimit (by omega)) (hlimit (by omega)) hwritable habsent,
      (V.writable_copy _ _).trans hwritable, fun j => ?_⟩
    rw [ArrayView.element_copy_of_absent habsent, helement]
    by_cases hj : j = k
    · subst hj
      rw [if_pos rfl, if_pos (Nat.lt_succ_self j)]
      rfl
    · rw [if_neg hj]
      exact if_congr (by omega) rfl rfl
  have hlength : es.length < 2 ^ 32 := hes.inRange
  have hcut : count < 2 ^ 32 := by omega
  refine ⟨_, hcopy.bind ((putLength_rewrites hwritable hcut).bind .pure), rfl, hwritable, fun j hj => ?_⟩
  exact (if_pos hj).trans ((helement j).trans (if_pos hj))

/-- Some elements of an array have moved: those from one place on, and below another. -/
structure ArrayView.Shifted (f : Nat → Option Value) (removed added low high : Nat) (V : ArrayView) : Prop where
  writable : V.writable = true
  element : ∀ j, V.element j = if low + added ≤ j ∧ j < high + added then f (j - added + removed) else f j

namespace ArrayView.Shifted

variable {V : ArrayView} {f : Nat → Option Value} {removed added low high : Nat}

theorem none (hw : V.writable = true) (i : Nat) : Shifted V.element removed added i i V :=
  ⟨hw, fun j => (if_neg (by omega)).symm⟩

/-- One more element moves, which no other was written over. -/
theorem extend (hs : Shifted f removed added low high V) {i low' high' : Nat}
    (hunwritten : i + removed < low + added ∨ high + added ≤ i + removed)
    (hjoin : ∀ j, low' + added ≤ j ∧ j < high' + added ↔ low + added ≤ j ∧ j < high + added ∨ j = i + added) :
    Shifted f removed added low' high' (V.move (i + added) (V.element (i + removed))) := by
  have hsource : V.element (i + removed) = f (i + removed) := (hs.element _).trans (if_neg (by omega))
  refine ⟨(V.writable_move _ _).trans hs.writable, fun j => ?_⟩
  rw [V.element_move, hsource, hs.element j]
  by_cases hj : j = i + added
  · subst hj
    rw [if_pos rfl, if_pos ((hjoin _).mpr (.inr rfl)), Nat.add_sub_cancel]
  · rw [if_neg hj]
    exact if_congr ((hjoin j).trans (or_iff_left hj)).symm rfl rfl

end ArrayView.Shifted

section Moves

variable {V : ArrayView} {start removed added n : Nat}

theorem lt_indexLimit {i : Nat} (hi : i + 1 < 2 ^ 32) : i < indexLimit := Nat.lt_sub_of_add_lt hi

/-- To the left, the first element moves first. -/
theorem moveLeft_rewrites (bodies : Bodies) (hc : h₀.InheritsNoElement o) (hw : V.writable = true)
    (hless : added < removed) (hlimit : start + n + removed < 2 ^ 32) :
    ∃ V', Rewrites bodies h₀ o V (upward (fun k => moveElement o (k + removed) (k + added)) n start) () V' ∧
      V'.Shifted V.element removed added start (start + n) := by
  refine Rewrites.upward (fun k => ArrayView.Shifted V.element removed added start (start + k)) ?_ (.none hw start)
  intro k hk W hs
  exact ⟨_, moveElement_rewrites hc (lt_indexLimit (by omega)) (lt_indexLimit (by omega)) (.inr hs.writable),
    hs.extend (.inr (by omega)) fun j => by omega⟩

/-- To the right, the last element moves first. -/
theorem moveRight_rewrites (bodies : Bodies) (hc : h₀.InheritsNoElement o) (hw : V.writable = true)
    (hle : removed ≤ added) (hlimit : start + n + added < 2 ^ 32) :
    ∃ V', Rewrites bodies h₀ o V (downward (fun k => moveElement o (k + removed) (k + added)) n start) () V' ∧
      V'.Shifted V.element removed added start (start + n) := by
  refine Rewrites.downward (fun k => ArrayView.Shifted V.element removed added (start + k) (start + n)) ?_
    (.none hw (start + n))
  intro k hk W hs
  exact ⟨_, moveElement_rewrites hc (lt_indexLimit (by omega)) (lt_indexLimit (by omega)) (.inr hs.writable),
    hs.extend (.inl (by omega)) fun j => by omega⟩

/-- What is left behind the new end is deleted, the last element first. -/
theorem deleteFrom_rewrites (bodies : Bodies) (hw : V.writable = true) (hlimit : start + n < 2 ^ 32) :
    ∃ V', Rewrites bodies h₀ o V (downward (deleteAt o) n start) () V' ∧ V'.writable = true ∧
      ∀ j, j < start → V'.element j = V.element j := by
  refine Rewrites.downward (fun _ W => W.writable = true ∧ ∀ j, j < start → W.element j = V.element j) ?_
    ⟨hw, fun _ _ => rfl⟩
  rintro k hk W ⟨hwritable, helement⟩
  refine ⟨_, deleteAt_rewrites (lt_indexLimit (by omega)), hwritable, fun j hj => ?_⟩
  rw [W.element_delete, if_neg (by omega)]
  exact helement j hj

end Moves

/-- **The elements behind the segment are moved** to the left or to the right; what is behind the new end is of no
importance. -/
theorem shiftElements_rewrites (bodies : Bodies) (hc : h₀.InheritsNoElement o) {V : ArrayView}
    (hw : V.writable = true) {start removed added : Nat} (hlength : V.length < 2 ^ 32)
    (hremoved : start + removed ≤ V.length) (hlimit : V.length - removed + added < 2 ^ 32) :
    ∃ V', Rewrites bodies h₀ o V (shiftElements o start removed added V.length) () V' ∧ V'.writable = true ∧
      ∀ j, j < V.length - removed + added →
        V'.element j = if start + added ≤ j then V.element (j - added + removed) else V.element j := by
  unfold shiftElements
  by_cases hless : added < removed
  · rw [if_pos hless]
    have hall : start + (V.length - removed - start) + removed < 2 ^ 32 := by omega
    have hbehind : V.length - removed + added + (removed - added) < 2 ^ 32 := by omega
    obtain ⟨V₁, hmove, hshifted⟩ := moveLeft_rewrites bodies hc hw hless hall
    obtain ⟨V₂, hdelete, hwritable, helement⟩ := deleteFrom_rewrites bodies hshifted.writable hbehind
    refine ⟨V₂, hmove.bind hdelete, hwritable, fun j hj => ?_⟩
    rw [helement j hj, hshifted.element]
    exact if_congr (by omega) rfl rfl
  · rw [if_neg hless]
    by_cases hmore : removed < added
    · rw [if_pos hmore]
      have hall : start + (V.length - removed - start) + added < 2 ^ 32 := by omega
      obtain ⟨V₁, hmove, hshifted⟩ := moveRight_rewrites bodies hc hw (Nat.le_of_lt hmore) hall
      refine ⟨V₁, hmove, hshifted.writable, fun j hj => ?_⟩
      rw [hshifted.element]
      exact if_congr (by omega) rfl rfl
    · rw [if_neg hmore]
      obtain rfl : added = removed := by omega
      refine ⟨V, .pure, hw, fun j _ => ?_⟩
      split
      · rw [Nat.sub_add_cancel (by omega)]
      · rfl

/-- **The array becomes what comes before the segment, the new elements, and what comes after it.** -/
theorem replaceSegment_rewrites (bodies : Bodies) (hc : h₀.InheritsNoElement o) (hlength : es.length < 2 ^ 32)
    {start count : Nat} (hcount : start + count ≤ es.length) {items : List Value}
    (hlimit : es.length - count + items.length < 2 ^ 32) (result : Value) :
    ∃ V, Rewrites bodies h₀ o (.ofList es true) (replaceSegment o start count es.length items result) result V ∧
      V.length = es.length - count + items.length ∧ V.writable = true ∧
      ∀ j, j < es.length - count + items.length →
        V.element j = (es.take start ++ items.map some ++ es.drop (start + count))[j]?.join := by
  obtain ⟨V₁, hshift, hwritable, hbehind⟩ := shiftElements_rewrites bodies hc (V := .ofList es true) rfl hlength hcount
    hlimit
  have hroom : start + items.length ≤ indexLimit := by
    unfold indexLimit
    omega
  have hwritable' : (V₁.putAll items start).writable = true := (V₁.writable_putAll items start).trans hwritable
  have hput : Rewrites bodies h₀ o V₁ (putAll o items start) () (V₁.putAll items start) :=
    putAll_rewrites hc hroom (.inr hwritable)
  refine ⟨_, hshift.holding.bind (hput.bind ((putLength_rewrites hwritable' hlimit).bind .pure)), rfl, hwritable',
    fun j hj => ?_⟩
  have helement : ((V₁.putAll items start).cut (es.length - count + items.length)).element j =
      if start ≤ j ∧ j < start + items.length then items[j - start]? else V₁.element j :=
    (if_pos hj).trans (ArrayView.element_putAll items start j)
  have htake : (es.take start).length = start := List.length_take_of_le (by omega)
  have hitems : (items.map some).length = items.length := List.length_map _
  rw [helement, List.append_assoc]
  rcases Nat.lt_or_ge j start with hbefore | hafter
  · rw [if_neg (by omega), hbehind j hj, if_neg (by omega), List.getElem?_append_left (by omega),
      List.getElem?_take_of_lt hbefore]
    rfl
  · rw [List.getElem?_append_right (by omega), htake]
    rcases Nat.lt_or_ge (j - start) items.length with hin | hout
    · rw [if_pos (by omega), List.getElem?_append_left (by omega), List.getElem?_map, List.getElem?_eq_getElem hin]
      rfl
    · rw [if_neg (by omega), hbehind j hj, if_pos (by omega), List.getElem?_append_right (by omega), hitems,
        List.getElem?_drop]
      have hplace : j - items.length + count = start + count + (j - start - items.length) := by omega
      rw [hplace]
      rfl

section Lists

variable {m : Machine}

theorem copySegment_run (bodies : Bodies) {w : Bool} (hes : m.heap.IsList o es w) (hempty : m.heap.IsList a [] true)
    (hc : m.heap.InheritsNoElement o) (hne : o ≠ a)
    (hnot : ∀ p, TransGen (LinksTo m.heap.prototypeOf) o p → p ≠ a) {start count : Nat}
    (hcount : start + count ≤ es.length) :
    ∃ h held, copySegment o a start count bodies m = .ok (start, count) { m with heap := h, held := held } ∧
      h.IsList a ((es.drop start).take count) true ∧ Heap.AltersOnly a (Heap.LengthOrFrom 0) m.heap h := by
  obtain ⟨V, hcopy, hlength, hwritable, helement⟩ := copySegment_rewrites bodies hes hc hne hnot hcount
  obtain ⟨h, held, hrun, hh⟩ := hcopy m (Heap.HasElements.rewritten hempty)
  have hsegment : ((es.drop start).take count).length = count := by
    rw [List.length_take, List.length_drop]
    omega
  refine ⟨h, held, hrun, hwritable ▸ hh.elements.isList (hlength.trans hsegment.symm) fun i hi => ?_, hh.alters⟩
  rw [hsegment] at hi
  rw [helement i hi, List.getElem?_take_of_lt hi, List.getElem?_drop]

theorem takeSegment_run (bodies : Bodies) {w : Bool} (hes : m.heap.IsList o es w) (hempty : m.heap.IsList a [] true)
    (hc : m.heap.InheritsNoElement o) (hne : o ≠ a)
    (hnot : ∀ p, TransGen (LinksTo m.heap.prototypeOf) o p → p ≠ a) {args : List Value}
    (hargs : ∀ v ∈ args.take 2, v.isObject = false) :
    ∃ h held, takeSegment args o a es.length bodies m =
        .ok (spliceStart args es.length, spliceCount args es.length) { m with heap := h, held := held } ∧
      h.IsList a ((es.drop (spliceStart args es.length)).take (spliceCount args es.length)) true ∧
      Heap.AltersOnly a (Heap.LengthOrFrom 0) m.heap h := by
  obtain ⟨h, held, hcopy, hcopied⟩ := copySegment_run bodies hes hempty hc hne hnot (spliceCount_le args es.length)
  refine ⟨h, held, ?_, hcopied⟩
  unfold takeSegment
  rw [bind_run_ok (toInteger_run (isObject_argumentAt hargs))]
  exact (bind_run_ok (readCount_run hargs es.length) _).trans hcopy

theorem replaceSegment_run (bodies : Bodies) (hes : m.heap.IsList o es true) (hc : m.heap.InheritsNoElement o)
    {start count : Nat} (hcount : start + count ≤ es.length) {items : List Value}
    (hlimit : es.length - count + items.length < 2 ^ 32) (result : Value) :
    ∃ h held, replaceSegment o start count es.length items result bodies m =
        .ok result { m with heap := h, held := held } ∧
      h.IsList o (es.take start ++ items.map some ++ es.drop (start + count)) true ∧
      Heap.AltersOnly o (Heap.LengthOrFrom 0) m.heap h := by
  obtain ⟨V, hreplace, hlength, hwritable, helement⟩ :=
    replaceSegment_rewrites bodies hc hes.inRange hcount hlimit result
  obtain ⟨h, held, hrun, hh⟩ := hreplace m (Heap.HasElements.rewritten hes)
  have htotal : (es.take start ++ items.map some ++ es.drop (start + count)).length =
      es.length - count + items.length := by
    rw [List.length_append, List.length_append, List.length_take, List.length_map, List.length_drop]
    omega
  refine ⟨h, held, hrun, hwritable ▸ hh.elements.isList (hlength.trans htotal.symm) fun i hi => ?_, hh.alters⟩
  exact helement i (htotal ▸ hi)

end Lists

end Segments

/-! ## 3. The new array beside the other -/

namespace Heap

variable {h h' : Heap} {o : ObjectId}

/-- A new array with some elements shows them. -/
theorem isList_of_isArrayOf {vs : List Value} (hx : (h.object o).IsArrayOf vs) (hvs : vs.length < 2 ^ 32) :
    h.IsList o (vs.map some) true := by
  have hlength : (ArrayView.ofList (vs.map some) true).length = vs.length := List.length_map _
  have hown (k : Key) : h.getOwn? o k = (h.object o).properties.get? k := getOwn?_of_array hx.kind k
  refine .mk_of_element hx.kind hx.extensible (hlength ▸ hvs) ((hown _).trans (hlength ▸ hx.length)) (fun i => ?_)
    fun i hi => ?_
  · have hi : i.val < 2 ^ 32 := Nat.lt_trans i.isLt (by decide)
    show _ = ((vs.map some)[i.val]?.join).map Property.plain
    rw [hown, ← Key.ofNat_val i, hx.get? i.val hi, List.getElem?_map]
    cases vs[i.val]? <;> rfl
  · show (vs.map some)[i]?.join = none
    rw [List.getElem?_eq_none hi]
    rfl

/-- A new object is no prototype of an object that was made before. -/
theorem InheritsNoElement.add (hc : h.InheritsNoElement o) (hlinked : h.WellLinked) (ho : o < h.nextObject)
    (x : Object) : (h.add x).1.InheritsNoElement o ∧
      ∀ p, TransGen (LinksTo (h.add x).1.prototypeOf) o p → p ≠ h.nextObject := by
  have hold {p : ObjectId} (hp : p < h.nextObject) : (h.add x).1.object p = h.object p :=
    (object_add h x p).trans (if_neg (Nat.ne_of_gt hp))
  have hchain {p : ObjectId} (hp : TransGen (LinksTo (h.add x).1.prototypeOf) o p) :
      TransGen (LinksTo h.prototypeOf) o p ∧ p < h.nextObject := by
    induction hp with
    | single hlink =>
      have hlink' : LinksTo h.prototypeOf o _ := (links_of_object (hold ho)).1.symm.trans hlink
      exact ⟨.single hlink', hlinked.prototypes.below _ _ hlink'⟩
    | tail _ hlink ih =>
      have hlink' : LinksTo h.prototypeOf _ _ := (links_of_object (hold ih.2)).1.symm.trans hlink
      exact ⟨.tail ih.1 hlink', hlinked.prototypes.below _ _ hlink'⟩
  refine ⟨fun p hp => ⟨(hc p (hchain hp).1).1, fun i => ?_⟩, fun p hp => Nat.ne_of_lt (hchain hp).2⟩
  rw [getOwn?_of_environments (hold (hchain hp).2) rfl]
  exact (hc p (hchain hp).1).2 i

end Heap

namespace Machine

variable {m : Machine} {h : Heap} {o : ObjectId}

/-- The prototypes of an object in use are in use. -/
theorem Intact.inheritsNoElement (hi : m.Intact h) (ho : m.heap.InUse m.roots [] (Heap.objectNode o))
    (hc : m.heap.InheritsNoElement o) : h.InheritsNoElement o := by
  have hnext {p q : ObjectId} (hp : m.heap.InUse m.roots [] (Heap.objectNode p)) (hlink : LinksTo h.prototypeOf p q) :
      LinksTo m.heap.prototypeOf p q ∧ m.heap.InUse m.roots [] (Heap.objectNode q) := by
    have hlink' : LinksTo m.heap.prototypeOf p q := (Heap.links_of_object (hi.object p hp)).1.symm.trans hlink
    obtain ⟨x, hx, hprototype⟩ := Heap.exists_of_prototype hlink'
    exact ⟨hlink', hp.refers (.prototype hx hprototype)⟩
  have hchain {p : ObjectId} (hp : TransGen (LinksTo h.prototypeOf) o p) :
      TransGen (LinksTo m.heap.prototypeOf) o p ∧ m.heap.InUse m.roots [] (Heap.objectNode p) := by
    induction hp with
    | single hlink => exact ⟨.single (hnext ho hlink).1, (hnext ho hlink).2⟩
    | tail _ hlink ih => exact ⟨.tail ih.1 (hnext ih.2 hlink).1, (hnext ih.2 hlink).2⟩
  intro p hp
  obtain ⟨hp', huse⟩ := hchain hp
  exact ⟨(hc p hp').1, fun i => (hi.property p huse _).trans ((hc p hp').2 i)⟩

/-- Asking for room takes links away only. -/
theorem wellLinked_reserve (hlinked : m.heap.WellLinked) : m.reserve.1.heap.WellLinked := by
  unfold reserve
  rcases m.heap.reserve_cases m.roots [] m.heapLimit m.nextCollection with ⟨hr, _⟩ | ⟨next, hr⟩
  · rw [hr]
    exact hlinked
  · rw [hr]
    exact hlinked.collect m.roots []

/-- The machine while it keeps some more values. -/
def retaining (m : Machine) (vs : List Value) : Machine := { m with held := vs ++ m.held }

/-- The machine while it works with an array and keeps the arguments. -/
def splicing (m : Machine) (o : ObjectId) (args : List Value) : Machine :=
  { m with held := args ++ .object o :: m.held }

/-- After the cut, a new array is the segment, the array has the new elements in its place, and the rest of what is in
use is as before. -/
structure Spliced (m : Machine) (o : ObjectId) (args : List Value) (es : List (Option Value)) (m' : Machine) :
    Prop where
  new : m.heap.nextObject ≠ o
  segment : m'.heap.IsList m.heap.nextObject
    ((es.drop (spliceStart args es.length)).take (spliceCount args es.length)) true
  array : m'.heap.IsList o (es.take (spliceStart args es.length) ++ (args.drop 2).map some ++
    es.drop (spliceStart args es.length + spliceCount args es.length)) true
  own : ∀ k, ¬ Heap.LengthOrFrom 0 k → m'.heap.getOwn? o k = m.heap.getOwn? o k
  object : ∀ b, m.heap.InUse (m.splicing o args).roots [] (Heap.objectNode b) → b ≠ o → b ≠ m.heap.nextObject →
    m'.heap.object b = m.heap.object b
  environment : ∀ e, m.heap.InUse (m.splicing o args).roots [] (Heap.environmentNode e) →
    m'.heap.environment e = m.heap.environment e
  rest : m' = { m with heap := m'.heap, held := m'.held, nextCollection := m'.nextCollection }

end Machine

section Splice

variable {bodies : Bodies} {m : Machine} {o : ObjectId} {es : List (Option Value)} {args : List Value}

/-- The machine with the new array. -/
def Machine.withArray (m : Machine) : Machine :=
  { m.reserve.1 with heap := (m.reserve.1.heap.add (arrayOf [])).1 }

theorem freshArrayWith_crowded {vs : List Value} (hm : (m.retaining vs).Crowded) :
    freshArrayWith vs bodies m =
      .error (.fault .outOfMemory) { (m.retaining vs).reserve.1 with held := m.held } :=
  bind_run_error (holding_error (newObjectOf_crowded hm _)) _

theorem freshArrayWith_free {vs : List Value} (hm : ¬ (m.retaining vs).Crowded) :
    freshArrayWith vs bodies m =
      .ok m.heap.nextObject { (m.retaining vs).withArray with held := .object m.heap.nextObject :: m.held } := by
  have hnew : holding vs (newArray []) bodies m =
      .ok m.heap.nextObject { (m.retaining vs).withArray with held := m.held } :=
    holding_ok (newObjectOf_free hm (arrayOf []))
  exact (bind_run_ok hnew _).trans rfl

theorem object_withArray_eq (m : Machine) (b : ObjectId) :
    m.withArray.heap.object b = if m.heap.nextObject = b then arrayOf [] else m.reserve.1.heap.object b := by
  have hnext : m.reserve.1.heap.nextObject = m.heap.nextObject := nextObject_reserve m
  exact hnext ▸ Heap.object_add m.reserve.1.heap (arrayOf []) b

/-- The new array is empty. -/
theorem isList_withArray (m : Machine) : m.withArray.heap.IsList m.heap.nextObject [] true := by
  have hempty : (m.withArray.heap.object m.heap.nextObject).IsArrayOf [] := by
    rw [object_withArray_eq, if_pos rfl]
    exact isArrayOf_arrayOf (by decide)
  exact Heap.isList_of_isArrayOf hempty (by decide)

/-- The new array changes no object that is in use. -/
theorem object_withArray {b : ObjectId} (hb : m.heap.InUse m.roots [] (Heap.objectNode b))
    (hne : b ≠ m.heap.nextObject) : m.withArray.heap.object b = m.heap.object b := by
  rw [object_withArray_eq, if_neg hne.symm]
  exact m.intact_reserve.object b hb

theorem environment_withArray {e : EnvironmentId} (he : m.heap.InUse m.roots [] (Heap.environmentNode e)) :
    m.withArray.heap.environment e = m.heap.environment e := m.intact_reserve.environment e he

/-- The new array is no prototype of an array that was there before. -/
theorem inheritsNoElement_withArray (hc : m.heap.InheritsNoElement o) (hlinked : m.heap.WellLinked)
    (ho : o < m.heap.nextObject) (huse : m.heap.InUse m.roots [] (Heap.objectNode o)) :
    m.withArray.heap.InheritsNoElement o ∧
      ∀ p, TransGen (LinksTo m.withArray.heap.prototypeOf) o p → p ≠ m.heap.nextObject := by
  have hnext : m.reserve.1.heap.nextObject = m.heap.nextObject := nextObject_reserve m
  have hchain := (m.intact_reserve.inheritsNoElement huse hc).add (Machine.wellLinked_reserve hlinked)
    (hnext.symm ▸ ho) (arrayOf [])
  rw [hnext] at hchain
  exact hchain

theorem splice_crowded (hes : m.heap.IsList o es true) (hm : (m.splicing o args).Crowded) :
    ∃ m', splice (.object o) args bodies m = .error (.fault .outOfMemory) m' ∧
      (m.splicing o args).Intact m'.heap := by
  refine ⟨{ (m.splicing o args).reserve.1 with held := .object o :: m.held }, ?_, (m.splicing o args).intact_reserve⟩
  rw [splice_eq, bind_run_ok (thisAndLengthWith_run hes args)]
  exact bind_run_error (freshArrayWith_crowded (m := { m with held := .object o :: m.held }) hm) _

theorem splice_free (bodies : Bodies) (hes : m.heap.IsList o es true) (hc : m.heap.InheritsNoElement o)
    (hlinked : m.heap.WellLinked) (ho : o < m.heap.nextObject) (hargs : ∀ v ∈ args.take 2, v.isObject = false)
    (hlimit : es.length - spliceCount args es.length + (args.drop 2).length < 2 ^ 32)
    (hm : ¬ (m.splicing o args).Crowded) :
    ∃ m', splice (.object o) args bodies m = .ok (.object m.heap.nextObject) m' ∧ m.Spliced o args es m' := by
  have huse : (m.splicing o args).heap.InUse (m.splicing o args).roots [] (Heap.objectNode o) :=
    .outside (Machine.mem_roots_of_held (List.mem_append_right _ List.mem_cons_self))
  have hne : o ≠ m.heap.nextObject := Nat.ne_of_lt ho
  obtain ⟨hc₀, hnot⟩ := inheritsNoElement_withArray (m := m.splicing o args) hc hlinked ho huse
  -- what is kept from here on does not matter for the rest
  obtain ⟨held, hheld⟩ : ∃ held, held = Value.object m.heap.nextObject :: .object o :: m.held := ⟨_, rfl⟩
  obtain ⟨h₁, held₁, htake, hsegment, halters⟩ := takeSegment_run
    (m := { (m.splicing o args).withArray with held := args ++ held }) bodies
    (Heap.HasElements.of_object hes (object_withArray huse hne)) (isList_withArray (m.splicing o args)) hc₀ hne hnot
    hargs
  have hobject₁ : h₁.object o = m.heap.object o := (halters.other o hne).trans (object_withArray huse hne)
  -- then the array is changed
  obtain ⟨h₂, held₂, hreplace, hlist, halters₂⟩ := replaceSegment_run
    (m := { (m.splicing o args).withArray with heap := h₁, held := held }) bodies
    (Heap.HasElements.of_object hes hobject₁) (hc₀.altered halters hnot)
    (spliceCount_le args es.length) hlimit (.object m.heap.nextObject)
  refine ⟨{ (m.splicing o args).withArray with heap := h₂, held := held₂ }, ?_, ?_⟩
  · have hfresh : freshArrayWith args bodies { m with held := .object o :: m.held } =
        .ok m.heap.nextObject { (m.splicing o args).withArray with held := held } :=
      hheld ▸ freshArrayWith_free (m := { m with held := .object o :: m.held }) hm
    rw [splice_eq, bind_run_ok (thisAndLengthWith_run hes args)]
    exact (bind_run_ok hfresh _).trans ((bind_run_ok (holding_ok htake) _).trans hreplace)
  · refine ⟨hne.symm, hsegment.of_object (halters₂.other _ hne.symm), hlist, fun k hk => ?_, fun b hb hbo hba => ?_,
      fun e he => ?_, rfl⟩
    · have hkind : (h₁.object o).kind = .array := hobject₁ ▸ hes.kind
      rw [halters₂.own k hk, Heap.getOwn?_of_array hkind, Heap.getOwn?_of_array hes.kind, hobject₁]
    · exact (halters₂.other b hbo).trans ((halters.other b hba).trans (object_withArray hb hba))
    · refine Eq.trans ?_ (environment_withArray (m := m.splicing o args) he)
      unfold Heap.environment
      rw [halters₂.others, halters.others]

end Splice

/-- **A cut leaves what comes before, the new elements, and what comes after, and gives what is between.** This holds
of every extensible array of plain elements, with any gaps, whose length can be written, if no prototype has an element,
and whatever primitive values say where to cut; an array that becomes too long is left out. The only failure is that
there is no room for the new array, and then everything in use is as it was. -/
theorem splice_cuts {m : Machine} {o : ObjectId} {es : List (Option Value)} {args : List Value} (bodies : Bodies)
    (hes : m.heap.IsList o es true) (hc : m.heap.InheritsNoElement o) (hlinked : m.heap.WellLinked)
    (ho : o < m.heap.nextObject) (hargs : ∀ v ∈ args.take 2, v.isObject = false)
    (hlimit : es.length - spliceCount args es.length + (args.drop 2).length < 2 ^ 32) :
    ((m.splicing o args).Crowded → ∃ m',
      arrayFunction .splice (.object o) args bodies m = .error (.fault .outOfMemory) m' ∧
        (m.splicing o args).Intact m'.heap) ∧
    (¬ (m.splicing o args).Crowded → ∃ m',
      arrayFunction .splice (.object o) args bodies m = .ok (.object m.heap.nextObject) m' ∧ m.Spliced o args es m') :=
  ⟨splice_crowded hes, splice_free bodies hes hc hlinked ho hargs hlimit⟩

theorem wellLinked_gappyMachine : gappyMachine.heap.WellLinked := by
  have hprototype : gappyArray.prototype = none := rfl
  have hkind : gappyArray.kind = .array := rfl
  have hprecedes : Heap.empty.Precedes gappyArray := by
    refine ⟨fun p hp => ?_, fun b hb => ?_⟩
    · cases hprototype.symm.trans hp
    · cases hkind.symm.trans hb
  exact Heap.wellLinked_empty.add hprecedes

/-- Two elements of which one is a gap are replaced by one, and a gap moves to the left. -/
theorem splice_cuts_gappy :
    ∃ m', arrayFunction .splice (.object Heap.empty.nextObject) [.number (-.ofNat 3), .ofNat 2, .ofNat 7] (bodiesAt 0)
        gappyMachine = .ok (.object gappyMachine.heap.nextObject) m' ∧
      m'.heap.IsList gappyMachine.heap.nextObject [none, some (.ofNat 1)] true ∧
      m'.heap.IsList Heap.empty.nextObject [some (.ofNat 3), some (.ofNat 7), none] true := by
  have hcut : (spliceStart [.number (-.ofNat 3), .ofNat 2, .ofNat 7] 4,
      spliceCount [.number (-.ofNat 3), .ofNat 2, .ofNat 7] 4) = (1, 2) := by decide +kernel
  obtain ⟨hstart, hcount⟩ := Prod.mk.inj hcut
  have hfree : ¬ (gappyMachine.splicing Heap.empty.nextObject [.number (-.ofNat 3), .ofNat 2, .ofNat 7]).Crowded :=
    Machine.not_crowded_of_unlimited rfl
  obtain ⟨m', hrun, hspliced⟩ := (splice_cuts (bodiesAt 0) isList_gappyMachine inheritsNoElement_gappyMachine
    wellLinked_gappyMachine
    (by decide) (by decide) (Nat.lt_of_le_of_lt (Nat.add_le_add_right (Nat.sub_le _ _) _) (by decide))).2 hfree
  have hsegment := hspliced.segment
  have harray := hspliced.array
  rw [show ([some (.ofNat 3), none, some (.ofNat 1), none] : List (Option Value)).length = 4 from rfl, hstart,
    hcount] at hsegment harray
  exact ⟨m', hrun, hsegment, harray⟩

/-- The array from which all others inherit is empty at first. -/
theorem isList_fullMachine : fullMachine.heap.IsList Intrinsic.arrayPrototype.id [] true :=
  .mk_of_element rfl rfl (by decide) (by decide +kernel) (fun _ => rfl) fun _ _ => rfl

theorem inheritsNoElement_fullMachine : fullMachine.heap.InheritsNoElement Intrinsic.arrayPrototype.id := by
  intro p hp
  -- the only prototype is that of all objects, which has none
  obtain ⟨q, hq, hrest⟩ := TransGen.head'_iff.mp hp
  have hfirst : fullMachine.heap.prototypeOf Intrinsic.arrayPrototype.id = some Intrinsic.objectPrototype.id := rfl
  obtain rfl : Intrinsic.objectPrototype.id = q := Option.some.inj (hfirst.symm.trans hq)
  rcases hrest.cases_head with rfl | ⟨r, hr, _⟩
  · exact ⟨by decide, fun _ => rfl⟩
  · have hlast : fullMachine.heap.prototypeOf Intrinsic.objectPrototype.id = none := rfl
    cases hlast.symm.trans hr

/-- Without room for another object nothing can be cut, not even nothing from an empty array. -/
theorem splice_fails :
    fullMachine.Reachable ∧ fullMachine.heap.IsList Intrinsic.arrayPrototype.id [] true ∧
      fullMachine.heap.InheritsNoElement Intrinsic.arrayPrototype.id ∧
      faultOf? (arrayFunction .splice (.object Intrinsic.arrayPrototype.id) [.ofNat 0, .ofNat 0] (bodiesAt 0)
        fullMachine) = some .outOfMemory :=
  ⟨.aside (.start {}) rfl, isList_fullMachine, inheritsNoElement_fullMachine, by decide +kernel⟩

end Ecma51
