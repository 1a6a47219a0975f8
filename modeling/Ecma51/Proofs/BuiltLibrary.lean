import Ecma51.Proofs.Built

/-!
# The library is built from basic operations

Every built-in function, one after the other.

* **`built_run`**: running a built-in function.
-/

namespace Ecma51

/-! ## 1. Objects and functions -/

@[grind ←] theorem built_requireObject (v : Value) : Built (requireObject v) := by
  unfold requireObject
  grind

@[grind ←] theorem built_keysArray (keys : List Key) : Built (keysArray keys) := by grind [keysArray]

@[grind ←] theorem built_readDescriptors (o : ObjectId) (keys : List Key) :
    Built (readDescriptors o keys) := by
  induction keys with
  | nil => exact .pure _
  | cons k keys ih =>
    refine .bind (built_getFrom o k) fun v => .bind (.holding _ (built_toDescriptor v)) fun d => ?_
    exact .bind (built_forM .hold _) fun _ => .bind ih fun _ => .pure _

@[grind ←] theorem built_defineEach (o : ObjectId) (all : List (Key × Descriptor)) :
    Built (defineEach o all) := by
  induction all with
  | nil => exact .pure _
  | cons d all ih => exact .bind (built_defineOwn _ _ _ _) fun _ => ih

@[grind ←] theorem built_defineAll (o : ObjectId) (descriptions : Value) :
    Built (defineAll o descriptions) := by grind [defineAll]

@[grind ←] theorem built_createObject (prototype descriptions : Value) :
    Built (createObject prototype descriptions) := by
  unfold createObject
  grind

@[grind ←] theorem built_classOf (v : Value) : Built (classOf v) := by
  unfold classOf
  grind

@[grind ←] theorem built_objectFunction (f : ObjectFunction) (this : Value) (args : List Value) :
    Built (objectFunction f this args) := by
  unfold objectFunction
  cases f <;> grind

@[grind ←] theorem built_thisFunction (this : Value) (method : String) :
    Built (thisFunction this method) := by
  unfold thisFunction
  grind

@[grind ←] theorem built_textsOf (vs : List Value) : Built (textsOf vs) := by
  induction vs with
  | nil => exact .pure _
  | cons v vs ih => grind [textsOf]

@[grind ←] theorem built_sourceCompiler : Built sourceCompiler := by grind [sourceCompiler]

@[grind ←] theorem built_compileFunction (args : List Value) : Built (compileFunction args) := by
  unfold compileFunction
  split
  · refine .bind (built_toText _) fun body => .bind (built_textsOf _) fun parameters => ?_
    grind
  · refine .bind (.pure _) fun body => .bind (built_textsOf _) fun parameters => ?_
    grind

@[grind ←] theorem built_functionFunction (f : FunctionFunction) (this : Value) (args : List Value) :
    Built (functionFunction f this args) := by
  unfold functionFunction
  cases f <;> grind

/-! ## 2. Arrays -/

@[grind ←] theorem built_getAt (o : ObjectId) (i : Nat) : Built (getAt o i) := built_getFrom o _

@[grind ←] theorem built_putAt (o : ObjectId) (i : Nat) (v : Value) : Built (putAt o i v) :=
  built_putTo o _ v _

@[grind ←] theorem built_hasAt (o : ObjectId) (i : Nat) : Built (hasAt o i) := by grind [hasAt]

@[grind ←] theorem built_deleteAt (o : ObjectId) (i : Nat) : Built (deleteAt o i) := by grind [deleteAt]

@[grind ←] theorem built_putLength (o : ObjectId) (n : Nat) : Built (putLength o n) :=
  built_putTo o _ _ _

@[grind ←] theorem built_addAt (a : ObjectId) (i : Nat) (v : Value) : Built (addAt a i v) := by
  grind [addAt]

@[grind ←] theorem built_thisAndLengthWith (waiting : List Value) (this : Value) :
    Built (thisAndLengthWith waiting this) := by grind [thisAndLengthWith]

@[grind ←] theorem built_thisAndLength (this : Value) : Built (thisAndLength this) :=
  built_thisAndLengthWith [] this

@[grind ←] theorem built_freshArrayWith (waiting : List Value) : Built (freshArrayWith waiting) := by
  grind [freshArrayWith]

@[grind ←] theorem built_freshArray : Built freshArray := built_freshArrayWith []

@[grind ←] theorem built_moveElement (o : ObjectId) (source target : Nat) :
    Built (moveElement o source target) := by grind [moveElement]

@[grind ←] theorem built_copyElement (o : ObjectId) (source : Nat) (a : ObjectId) (target : Nat) :
    Built (copyElement o source a target) := by grind [copyElement]

@[grind ←] theorem built_upward {body : Nat → Run Unit} (h : ∀ i, Built (body i)) (n i : Nat) :
    Built (upward body n i) := by
  induction n generalizing i with
  | zero => exact .pure _
  | succ n ih => exact .bind (h i) fun _ => ih _

@[grind ←] theorem built_downward {body : Nat → Run Unit} (h : ∀ i, Built (body i)) (n i : Nat) :
    Built (downward body n i) := by
  induction n with
  | zero => exact .pure _
  | succ n ih => exact .bind (h _) fun _ => ih

@[grind ←] theorem built_findUpward {test : Nat → Run Bool} (h : ∀ i, Built (test i)) (n i : Nat) :
    Built (findUpward test n i) := by
  induction n generalizing i with
  | zero => exact .pure _
  | succ n ih => grind [findUpward]

@[grind ←] theorem built_findDownward {test : Nat → Run Bool} (h : ∀ i, Built (test i)) (n : Nat) :
    Built (findDownward test n) := by
  induction n with
  | zero => exact .pure _
  | succ n ih => grind [findDownward]

@[grind ←] theorem built_positionOr (v : Value) (length other : Nat) :
    Built (positionOr v length other) := by grind [positionOr]

@[grind ←] theorem built_elementText (v : Value) (isLocal : Bool) : Built (elementText v isLocal) := by
  grind [elementText]

@[grind ←] theorem built_elementTexts (o : ObjectId) (isLocal : Bool) (n i : Nat) (acc : List Text) :
    Built (elementTexts o isLocal n i acc) := by
  induction n generalizing i acc with
  | zero => exact .pure _
  | succ n ih => grind [elementTexts]

@[grind ←] theorem built_joinElements (o : ObjectId) (length : Nat) (separator : Text)
    (isLocal : Bool) : Built (joinElements o length separator isLocal) := by grind [joinElements]

@[grind ←] theorem built_constructArray (args : List Value) : Built (constructArray args) := by
  unfold constructArray
  grind

@[grind ←] theorem built_appendItem (a : ObjectId) (n : Nat) (v : Value) : Built (appendItem a n v) := by
  unfold appendItem
  grind

@[grind ←] theorem built_exchange (o : ObjectId) (lower upper : Nat) :
    Built (exchange o lower upper) := by
  refine .bind (built_getAt o lower) fun low => ?_
  refine .bind (.holding _ (built_getAt o upper)) fun high => ?_
  grind

@[grind ←] theorem built_putAll (o : ObjectId) (vs : List Value) (i : Nat) :
    Built (putAll o vs i) := by grind [putAll]

@[grind ←] theorem built_splice (this : Value) (args : List Value) : Built (splice this args) := by
  refine .bind (built_thisAndLengthWith args this) fun (o, length) => ?_
  refine .bind (built_freshArrayWith args) fun a => ?_
  refine .bind (.holding args ?_) fun (start, removed) => ?_
  · refine .bind (built_toInteger _) fun x => ?_
    grind
  · refine .bind (.holding _ ?_) fun _ => ?_
    · grind
    · grind

@[grind ←] theorem built_compareElements (f x y : Value) : Built (compareElements f x y) := by
  unfold compareElements
  grind

@[grind ←] theorem built_presentElements (o : ObjectId) (n i : Nat) (acc : List Value) :
    Built (presentElements o n i acc) := by
  induction n generalizing i acc with
  | zero => exact .pure _
  | succ n ih => grind [presentElements]

@[grind ←] theorem built_siftDown {compare : Value → Value → Run Ordering}
    (hc : ∀ x y, Built (compare x y)) {n : Nat} (v : Vector Value n) (root stop : Nat)
    (h : stop ≤ n) : Built (siftDown compare v root stop h) := by
  fun_induction siftDown compare v root stop h with
  | case1 v root hl ih =>
    refine .bind ?_ fun child => .bind (hc _ _) fun o => ?_
    · unfold largerChild
      grind
    · grind
  | case2 => exact .pure _

@[grind ←] theorem built_heapify {compare : Value → Value → Run Ordering}
    (hc : ∀ x y, Built (compare x y)) {n : Nat} (v : Vector Value n) (count : Nat) :
    Built (heapify compare v count) := by
  induction count generalizing v with
  | zero => exact .pure _
  | succ count ih => exact .bind (built_siftDown hc _ _ _ _) fun v => ih v

@[grind ←] theorem built_extractAll {compare : Value → Value → Run Ordering}
    (hc : ∀ x y, Built (compare x y)) {n : Nat} (v : Vector Value n) (stop : Nat) (h : stop < n) :
    Built (extractAll compare v stop h) := by
  induction stop generalizing v with
  | zero => exact .pure _
  | succ stop ih => exact .bind (built_siftDown hc _ _ _ _) fun v => ih v _

@[grind ←] theorem built_heapSort {compare : Value → Value → Run Ordering}
    (hc : ∀ x y, Built (compare x y)) {n : Nat} (v : Vector Value n) : Built (heapSort compare v) := by
  refine .bind (built_heapify hc _ _) fun v => ?_
  split
  · exact built_extractAll hc _ _ _
  · exact .pure _

@[grind ←] theorem built_sortElements (this f : Value) : Built (sortElements this f) := by
  refine .bind (built_thisAndLength this) fun (o, length) => .bind built_getHeap fun h => ?_
  have hsort : Built (holding [] do
      let items ← presentElements o length 0 []
      let sorted ← heapSort (compareElements f) (⟨items.toArray, rfl⟩ : Vector Value items.toArray.size)
      return sorted.toList) := by grind
  grind

@[grind ←] theorem built_isElement (o : ObjectId) (v : Value) (i : Nat) : Built (isElement o v i) := by
  grind [isElement]

@[grind ←] theorem built_indexOfElement (this : Value) (args : List Value) :
    Built (indexOfElement this args) := by
  refine .bind (built_thisAndLength this) fun (o, length) => ?_
  grind

@[grind ←] theorem built_lastIndexOfElement (this : Value) (args : List Value) :
    Built (lastIndexOfElement this args) := by
  refine .bind (built_thisAndLength this) fun (o, length) => ?_
  grind

@[grind ←] theorem built_requireCallback (v : Value) : Built (requireCallback v) := by
  grind [requireCallback]

@[grind ←] theorem built_visitFrom (o : ObjectId) (f thisArg : Value)
    {visit : Nat → Value → Value → Run Bool} (h : ∀ i v r, Built (visit i v r)) (n i : Nat) :
    Built (visitFrom o f thisArg visit n i) := by
  induction n generalizing i with
  | zero => exact .pure _
  | succ n ih =>
    refine .bind (built_hasAt o i) fun present => ?_
    grind

@[grind ←] theorem built_visitElements (this : Value) (args : List Value)
    {visit : Nat → Value → Value → Run Bool} (h : ∀ i v r, Built (visit i v r)) :
    Built (visitElements this args visit) := by
  refine .bind (built_thisAndLength this) fun (o, length) => ?_
  exact .bind (built_requireCallback _) fun _ => built_visitFrom o _ _ h _ _

@[grind ←] theorem built_searchFrom (o : ObjectId) (f thisArg : Value) (goal : Bool) (n i : Nat) :
    Built (searchFrom o f thisArg goal n i) := by
  induction n generalizing i with
  | zero => exact .pure _
  | succ n ih =>
    refine .bind (built_hasAt o i) fun present => ?_
    grind

@[grind ←] theorem built_searchElements (this : Value) (args : List Value) (goal : Bool) :
    Built (searchElements this args goal) := by
  refine .bind (built_thisAndLength this) fun (o, length) => ?_
  grind

@[grind ←] theorem built_mapElements (this : Value) (args : List Value) :
    Built (mapElements this args) := by
  refine .bind (built_thisAndLength this) fun (o, length) => ?_
  grind

@[grind ←] theorem built_filterElements (this : Value) (args : List Value) :
    Built (filterElements this args) := by
  refine .bind built_freshArray fun a => .bind (built_visitElements this args fun i v r => ?_) ?_
  · grind
  · exact fun _ => .pure _

@[grind ←] theorem built_accumulate (o : ObjectId) (f : Value) (indices : List Nat) (acc : Value) :
    Built (accumulate o f indices acc) := by
  induction indices generalizing acc with
  | nil => exact .pure _
  | cons i indices ih => grind [accumulate]

@[grind ←] theorem built_firstPresent (o : ObjectId) (indices : List Nat) :
    Built (firstPresent o indices) := by
  induction indices with
  | nil => exact built_raise _
  | cons i indices ih => grind [firstPresent]

@[grind ←] theorem built_reduceElements (this : Value) (args : List Value) (fromRight : Bool) :
    Built (reduceElements this args fromRight) := by
  refine .bind (built_thisAndLength this) fun (o, length) => ?_
  grind

@[grind ←] theorem built_arrayFunction (f : ArrayFunction) (this : Value) (args : List Value) :
    Built (arrayFunction f this args) := by
  unfold arrayFunction
  cases f with
  | forEach => exact .bind (built_visitElements this args fun _ _ _ => .pure _) fun _ => .pure _
  | _ => grind

/-! ## 3. Strings and regular expressions -/

@[grind ←] theorem built_setLastIndex (o : ObjectId) (i : Nat) : Built (setLastIndex o i) :=
  built_putNamed o _ _

@[grind ←] theorem built_execRegExp (o : ObjectId) (r : RegExp) (subject : Text) :
    Built (execRegExp o r subject) := by
  refine .bind (built_getNamed o _) fun v => .bind (built_toInteger v) fun lastIndex => ?_
  grind

@[grind ←] theorem built_matchArray (m : Pattern.Match) (subject : Text) :
    Built (matchArray m subject) := .newObjectOf (made_matchObject m subject) (Object.holdsTime_of_isDate rfl)

@[grind ←] theorem built_thisText (this : Value) : Built (thisText this) := by grind [thisText]

@[grind ←] theorem built_thisString (this : Value) (method : String) :
    Built (thisString this method) := by
  unfold thisString
  grind

@[grind ←] theorem built_firstText (args : List Value) : Built (firstText args) := by
  unfold firstText
  grind

@[grind ←] theorem built_unitsOf (vs : List Value) : Built (unitsOf vs) := by
  induction vs with
  | nil => exact .pure _
  | cons v vs ih => grind [unitsOf]

@[grind ←] theorem built_appendTexts (t : Text) (vs : List Value) : Built (appendTexts t vs) := by
  induction vs generalizing t with
  | nil => exact .pure _
  | cons v vs ih => grind [appendTexts]

@[grind ←] theorem built_positionBy (rule : Double → Nat → Nat) (v : Value) (length : Nat) :
    Built (positionBy rule v length) := by grind [positionBy]

@[grind ←] theorem built_coerceRegExp (v : Value) : Built (coerceRegExp v) := by grind [coerceRegExp]

@[grind ←] theorem built_matchText (t : Text) (v : Value) : Built (matchText t v) := by
  refine .bind (built_coerceRegExp v) fun (o, r) => ?_
  grind

@[grind ←] theorem built_replacedMatches (t : Text) (v : Value) : Built (replacedMatches t v) := by
  refine .bind built_getHeap fun h => ?_
  grind

@[grind ←] theorem built_replacementBy (f : Value) (t : Text) (m : Pattern.Match) :
    Built (replacementBy f t m) := by grind [replacementBy]

@[grind ←] theorem built_replaceFrom (t : Text) {replacement : Pattern.Match → Run Text}
    (h : ∀ m, Built (replacement m)) (found : List Pattern.Match) (last : Nat) (acc : List Text) :
    Built (replaceFrom t replacement found last acc) := by
  induction found generalizing last acc with
  | nil => exact .pure _
  | cons m found ih => exact .bind (h m) fun _ => ih _ _

@[grind ←] theorem built_replaceMatches (t : Text) (pattern replacement : Value) :
    Built (replaceMatches t pattern replacement) := by
  refine .bind (built_replacedMatches t pattern) fun found => .bind built_getHeap fun h => ?_
  split
  · exact .bind (built_replaceFrom t (built_replacementBy replacement t) _ _ _) fun _ => .pure _
  · exact .bind (built_toText _) fun _ =>
      .bind (built_replaceFrom t (fun _ => .pure _) _ _ _) fun _ => .pure _

@[grind ←] theorem built_splitText (t : Text) (separator limit : Value) :
    Built (splitText t separator limit) := by
  unfold splitText
  grind

@[grind ←] theorem built_stringFunction (f : StringFunction) (this : Value) (args : List Value) :
    Built (stringFunction f this args) := by
  unfold stringFunction
  cases f <;> grind

@[grind ←] theorem built_thisRegExp (this : Value) (method : String) :
    Built (thisRegExp this method) := by grind [thisRegExp]

@[grind ←] theorem built_textOrEmpty (v : Value) : Built (textOrEmpty v) := by grind [textOrEmpty]

@[grind ←] theorem built_constructRegExp (pattern flags : Value) :
    Built (constructRegExp pattern flags) := by grind [constructRegExp]

@[grind ←] theorem built_regExpFunction (f : RegExpFunction) (this : Value) (args : List Value) :
    Built (regExpFunction f this args) := by
  unfold regExpFunction
  cases f <;> grind

/-! ## 4. Numbers, dates and errors -/

@[grind ←] theorem built_thisBoolean (this : Value) (method : String) :
    Built (thisBoolean this method) := by
  unfold thisBoolean
  grind

@[grind ←] theorem built_booleanFunction (f : BooleanFunction) (this : Value) (args : List Value) :
    Built (booleanFunction f this args) := by
  unfold booleanFunction
  cases f <;> grind [Kind.isPlain, Kind.isDate]

@[grind ←] theorem built_thisNumber (this : Value) (method : String) :
    Built (thisNumber this method) := by
  unfold thisNumber
  grind

@[grind ←] theorem built_firstNumber (args : List Value) : Built (firstNumber args) := by
  unfold firstNumber
  grind

@[grind ←] theorem built_requireCount (least most : Nat) (x : Double) (f : Fault) :
    Built (requireCount least most x f) := by grind [requireCount]

@[grind ←] theorem built_numberFunction (f : NumberFunction) (this : Value) (args : List Value) :
    Built (numberFunction f this args) := by
  unfold numberFunction
  cases f <;> grind [Kind.isPlain, Kind.isDate]

@[grind ←] theorem built_numbersOf (vs : List Value) : Built (numbersOf vs) := by
  induction vs with
  | nil => exact .pure _
  | cons v vs ih => grind [numbersOf]

theorem Machine.sameCore_seed (m : Machine) (seed : Nat) : m.SameCore { m with seed } :=
  ⟨rfl, rfl, rfl, rfl, rfl, rfl, .inl rfl⟩

@[grind ←] theorem built_advanceSeed : Built advanceSeed := .aside _ fun m => m.sameCore_seed _

@[grind ←] theorem built_randomNumber : Built randomNumber :=
  .bind built_advanceSeed fun _ => .pure _

@[grind ←] theorem built_mathFunction (f : MathFunction) (args : List Value) :
    Built (mathFunction f args) := by
  unfold mathFunction
  cases f <;> grind

@[grind ←] theorem built_thisTime (this : Value) (f : DateFunction) : Built (thisTime this f) := by
  unfold thisTime
  grind

@[grind ←] theorem built_presentTime : Built presentTime := by grind [presentTime]

@[grind ←] theorem built_timeOfComponents (args : List Value) : Built (timeOfComponents args) :=
  .bind (built_mapM built_toNumber _) fun _ => .pure _

@[grind ←] theorem built_constructedTime (args : List Value) : Built (constructedTime args) := by
  unfold constructedTime
  grind

@[grind ←] theorem built_withFields (field : DateField) (isLocal : Bool) (args : List Value)
    (t : Double) : Built (withFields field isLocal args t) :=
  .bind (built_mapM built_toNumber _) fun _ => .bind .get fun _ => .pure _

@[grind ←] theorem built_dateJson (this : Value) : Built (dateJson this) := by
  refine .bind (built_toObject this) fun o => .holding _ (.bind (built_toPrimitive _ _) fun v => ?_)
  grind

theorem built_newDate (args : List Value) : Built (do
    let t ← constructedTime args
    return .object (← newObjectOf (.ofKind "Date" (some Intrinsic.datePrototype.id) (.date t))) : Run Value) := by
  have hdate := Built.newDate "Date" (some Intrinsic.datePrototype.id) (built_constructedTime args)
    (gives_constructedTime args)
  exact (bind_assoc (constructedTime args) _ fun o => pure (Value.object o)) ▸ hdate.bind fun _ => .pure _

@[grind ←] theorem built_dateFunction (f : DateFunction) (this : Value) (args : List Value) :
    Built (dateFunction f this args) := by
  refine .bind .get fun m => ?_
  cases f with
  | construct => exact built_newDate args
  | setTime => exact .updateTime this _ (fun _ => .bind (built_toNumber _) fun _ => .pure _) fun _ => gives_setTime _
  | setField field isLocal =>
    exact .updateTime this _ (built_withFields field isLocal args) (gives_withFields field isLocal args)
  | _ => grind

@[grind ←] theorem built_namedText (o : ObjectId) (name : String) (other : Text) :
    Built (namedText o name other) := by grind [namedText]

@[grind ←] theorem built_errorFunction (f : ErrorFunction) (this : Value) (args : List Value) :
    Built (errorFunction f this args) := by
  unfold errorFunction
  cases f with
  | construct kind => exact .constructError kind _ built_toText
  | toString => grind

/-! ## 5. JSON -/

@[grind ←] theorem built_takePart {α : Type} (total : Nat) (p : Except (List CodeUnit) α) :
    Built (takePart total p) := by
  cases p with
  | ok a => exact .pure a
  | error left => exact built_raise _

@[grind ←] theorem built_parseWord (total : Nat) (word : String) (v : Value) (us : List CodeUnit) :
    Built (parseWord total word v us) := by grind [parseWord]

@[grind ←] theorem built_parseScalar (total : Nat) (us : List CodeUnit) : Built (parseScalar total us) := by
  unfold parseScalar
  grind

theorem built_afterItem {α : Type} (total : Nat) (close : CodeUnit) {more ended : List CodeUnit → Run α}
    (hmore : ∀ us, Built (more us)) (hended : ∀ us, Built (ended us)) (us : List CodeUnit) :
    Built (afterItem total close more ended us) := by
  unfold afterItem
  cases Json.ending close us with
  | more rest => exact hmore rest
  | closed rest => exact hended rest
  | wrong left => exact built_raise _

section Nested

variable (total : Nat) {value : List CodeUnit → Run (Value × List CodeUnit)} (h : ∀ us, Built (value us))
include h

theorem built_parseItems (n : Nat) (us : List CodeUnit) : Built (parseItems total value n us) := by
  induction n generalizing us with
  | zero => exact built_raise _
  | succ n ih =>
    refine .bind (h us) fun (v, rest) => .bind (.hold v) fun _ => .bind ?_ fun _ => .pure _
    exact built_afterItem total _ ih (fun _ => .pure _) rest

theorem built_parseArray (us : List CodeUnit) : Built (parseArray total value us) := by
  unfold parseArray
  cases Json.closedAtOnce? 0x5D us with
  | some rest => exact .holding [] (.bind (.pure _) fun _ => by grind)
  | none => exact .holding [] (.bind (built_parseItems total h total us) fun _ => by grind)

theorem built_parseMembers (o : ObjectId) (n : Nat) (us : List CodeUnit) :
    Built (parseMembers total value o n us) := by
  induction n generalizing us with
  | zero => exact built_raise _
  | succ n ih =>
    refine .bind (built_takePart total _) fun (name, rest) => .bind (h rest) fun (v, rest) =>
      .bind (built_createData o _ v) fun _ => ?_
    exact built_afterItem total _ ih (fun _ => .pure _) rest

theorem built_parseObject (us : List CodeUnit) : Built (parseObject total value us) := by
  refine .bind built_newObject fun o => .bind (.holding _ ?_) fun _ => .pure _
  cases Json.closedAtOnce? 0x7D us with
  | some rest => exact .pure _
  | none => exact built_parseMembers total h o total us

end Nested

@[grind ←] theorem built_parseValue (total n : Nat) (us : List CodeUnit) :
    Built (parseValue total n us) := by
  induction n generalizing us with
  | zero => exact .throw trivial
  | succ n ih =>
    unfold parseValue
    cases Json.skipBlanks us with
    | nil => exact built_parseScalar total []
    | cons u rest =>
      dsimp only
      split
      · exact .nestedCall (built_parseArray total ih rest)
      split
      · exact .nestedCall (built_parseObject total ih rest)
      · exact built_parseScalar total _

@[grind ←] theorem built_parseJson (t : Text) : Built (parseJson t) := by
  refine .bind .get fun m => .bind (built_parseValue _ _ _) fun (v, rest) => ?_
  dsimp only
  cases Json.skipBlanks rest with
  | nil => exact .pure v
  | cons u left => exact built_raise _

@[grind ←] theorem built_putRevived (o : ObjectId) (k : Key) (v : Value) :
    Built (putRevived o k v) := by grind [putRevived]

@[grind ←] theorem built_forKeys {body : Key → Run Unit} (h : ∀ k, Built (body k)) (keys : List Key) :
    Built (forKeys body keys) := by
  induction keys with
  | nil => exact .pure _
  | cons k keys ih => exact .bind (h k) fun _ => ih

@[grind ←] theorem built_forIndices {body : Key → Run Unit} (h : ∀ k, Built (body k)) (n i : Nat) :
    Built (forIndices body n i) := by
  induction n generalizing i with
  | zero => exact .pure _
  | succ n ih => exact .bind (h _) fun _ => ih _

@[grind ←] theorem built_revive (f : Value) (n : Nat) (holder : ObjectId) (k : Key) :
    Built (revive f n holder k) := by
  induction n generalizing holder k with
  | zero => exact .throw trivial
  | succ n ih =>
    refine .bind (built_getFrom holder k) fun v => .holding _ ?_
    have hbody (o : ObjectId) (k : Key) : Built (do putRevived o k (← revive f n o k)) :=
      .bind (ih o k) fun _ => built_putRevived o k _
    cases v with
    | object o =>
      refine .bind built_getHeap fun h => ?_
      split
      · exact .bind (built_lengthOfArrayLike o) fun _ =>
          .bind (built_forIndices (hbody o) _ _) fun _ => built_callValue _ _ _
      · exact .bind (built_forKeys (hbody o) _) fun _ => built_callValue _ _ _
    | _ => exact built_callValue _ _ _

@[grind ←] theorem built_parseAndRevive (t : Text) (f : Value) : Built (parseAndRevive t f) := by
  refine .bind (built_parseJson t) fun v => ?_
  grind

@[grind ←] theorem built_nameItem (v : Value) : Built (nameItem? v) := by grind [nameItem?]

@[grind ←] theorem built_namesFrom (o : ObjectId) (n i : Nat) (found : List Key) :
    Built (namesFrom o n i found) := by
  induction n generalizing i found with
  | zero => exact .pure _
  | succ n ih => grind [namesFrom]

@[grind ←] theorem built_ofArguments (replacer space : Value) :
    Built (Serializer.ofArguments replacer space) := by
  unfold Serializer.ofArguments
  grind

@[grind ←] theorem built_writtenValue (s : Serializer) (holder : ObjectId) (k : Key) :
    Built (writtenValue s holder k) := by
  refine .bind (built_getFrom holder k) fun v => ?_
  grind

@[grind ←] theorem built_unwrapValue (v : Value) : Built (unwrapValue v) := by
  unfold unwrapValue
  grind

@[grind ←] theorem built_memberTexts (gap : Text) {text : Key → Run (Option Json.Written)}
    (h : ∀ k, Built (text k)) (keys : List Key) : Built (memberTexts gap text keys) := by
  induction keys with
  | nil => exact .pure _
  | cons k keys ih =>
    refine .bind (h k) fun t => ?_
    grind

@[grind ←] theorem built_itemTexts {text : Key → Run (Option Json.Written)}
    (h : ∀ k, Built (text k)) (n i : Nat) (acc : List Json.Written) :
    Built (itemTexts text n i acc) := by
  induction n generalizing i acc with
  | zero => exact .pure _
  | succ n ih => exact .bind (h _) fun _ => ih _ _

@[grind ←] theorem built_serialize (s : Serializer) (n : Nat) (around : List ObjectId)
    (indent : Text) (holder : ObjectId) (k : Key) : Built (serialize s n around indent holder k) := by
  induction n generalizing around indent holder k with
  | zero => exact .throw trivial
  | succ n ih =>
    refine .bind (built_writtenValue s holder k) fun v => .holding _ ?_
    refine .bind (built_unwrapValue v) fun u => ?_
    have htext (o : ObjectId) (k : Key) := ih (o :: around) (indent ++ s.gap) o k
    cases u with
    | object o =>
      refine .bind built_getHeap fun h => ?_
      grind
    | _ => exact .pure _

@[grind ←] theorem built_stringifyJson (s : Serializer) (v : Value) :
    Built (stringifyJson s v) := by grind [stringifyJson]

@[grind ←] theorem built_jsonFunction (f : JsonFunction) (args : List Value) :
    Built (jsonFunction f args) := by
  unfold jsonFunction
  cases f <;> grind

/-! ## 6. Global and host functions -/

@[grind ←] theorem built_takeDirectEval : Built takeDirectEval :=
  .aside (fun m => (m.directEval.isSome, { m with directEval := none })) fun _ =>
    ⟨rfl, rfl, rfl, rfl, rfl, rfl, .inr rfl⟩

@[grind ←] theorem built_evalContext (direct strict : Bool) : Built (evalContext direct strict) := by
  refine .bind .get fun m => ?_
  grind

@[grind ←] theorem built_evaluateIn (direct : Bool) (v : Value) : Built (evaluateIn direct v) := by
  cases v with
  | string source =>
    refine .bind built_sourceCompiler fun compiler => ?_
    grind
  | _ => exact .pure _

@[grind ←] theorem built_evaluate (v : Value) : Built (evaluate v) :=
  .bind built_takeDirectEval fun direct => built_evaluateIn direct v

@[grind ←] theorem built_orFault (f : Fault) (t : Option Text) : Built (orFault f t) := by
  unfold orFault
  grind

@[grind ←] theorem built_globalFunction (f : GlobalFunction) (args : List Value) :
    Built (globalFunction f args) := by
  unfold globalFunction
  cases f <;> grind

@[grind ←] theorem built_writeLine (t : Text) : Built (writeLine t) :=
  .aside _ fun _ => ⟨rfl, rfl, rfl, rfl, rfl, rfl, .inl rfl⟩

@[grind ←] theorem built_elementsOf (o : ObjectId) : Built (elementsOf o) := by grind [elementsOf]

@[grind ←] theorem built_insertByLess (v : Value) (l : List Value) : Built (insertByLess v l) := by
  induction l with
  | nil => exact .pure _
  | cons w l ih => grind [insertByLess]

@[grind ←] theorem built_sortByLess (l sorted : List Value) : Built (sortByLess l sorted) := by
  induction l generalizing sorted with
  | nil => exact .pure _
  | cons v l ih => grind [sortByLess]

@[grind ←] theorem built_compareArrays (a b : Value) : Built (compareArrays a b) := by
  refine .bind (built_toObject a) fun a => .bind (.hold _) fun _ => ?_
  refine .bind (built_toObject b) fun b => .bind (.hold _) fun _ => ?_
  grind

@[grind ←] theorem built_containsArray (a b : Value) : Built (containsArray a b) := by
  grind [containsArray]

@[grind ←] theorem built_runTestCase (f : Value) : Built (runTestCase f) := by
  unfold runTestCase
  grind

@[grind ←] theorem built_hostFunction (f : HostFunction) (args : List Value) :
    Built (hostFunction f args) := by
  unfold hostFunction
  cases f <;> grind

/-! ## 7. All functions -/

/-- **Every built-in function is built from basic operations.** -/
theorem built_run (b : Builtin) (this : Value) (args : List Value) : Built (b.run this args) := by
  unfold Builtin.run
  cases b <;> grind

end Ecma51
