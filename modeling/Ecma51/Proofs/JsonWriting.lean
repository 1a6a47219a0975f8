import Mathlib.Data.List.Forall2
import Ecma51.Json.Writer
import Ecma51.Proofs.NumberText

/-!
# Writing JSON text

The pieces that are written for data spell the data again, wherever they stand. Only numbers may change: they
are spelled by their shortest text, and so become what that is read as.

* `Json.reread`: data with every number as its text is read.
* `Json.Writes`: pieces spell data, whatever follows.
* **`Json.spellsString_quote`**, **`Json.writes_array`**, **`Json.writes_object`**: strings in quotes, and
  items laid out between brackets.
-/

namespace Ecma51

namespace Json

/-! ## 1. Data read again -/

mutual

/-- The data with every number as its shortest text is read. -/
def reread : Json → Json
  | .number x => .number (Double.ofText x.toText)
  | .array items => .array (rereadItems items)
  | .object members => .object (rereadMembers members)
  | .null => .null
  | .boolean b => .boolean b
  | .string t => .string t
  | .broken f => .broken f

/-- Items with every number as its shortest text is read. -/
def rereadItems : List Json → List Json
  | [] => []
  | j :: js => j.reread :: rereadItems js

/-- Members with every number as its shortest text is read. -/
def rereadMembers : List (Text × Json) → List (Text × Json)
  | [] => []
  | (name, j) :: js => (name, j.reread) :: rereadMembers js

end

mutual

/-- The numbers in data. -/
def numbers : Json → List Double
  | .number x => [x]
  | .array items => numbersOfItems items
  | .object members => numbersOfMembers members
  | .null | .boolean _ | .string _ | .broken _ => []

/-- The numbers in items. -/
def numbersOfItems : List Json → List Double
  | [] => []
  | j :: js => j.numbers ++ numbersOfItems js

/-- The numbers in members. -/
def numbersOfMembers : List (Text × Json) → List Double
  | [] => []
  | (_, j) :: js => j.numbers ++ numbersOfMembers js

end

mutual

/-- The data are equal, with numbers compared as `===` does: both zeros are equal. -/
def Equals : Json → Json → Prop
  | .number x, j => ∃ y, j = .number y ∧ y.eq x = true
  | .array items, j => ∃ js, j = .array js ∧ EqualItems items js
  | .object members, j => ∃ js, j = .object js ∧ EqualMembers members js
  | .null, j => j = .null
  | .boolean b, j => j = .boolean b
  | .string t, j => j = .string t
  | .broken f, j => j = .broken f

/-- Items are equal one by one. -/
def EqualItems : List Json → List Json → Prop
  | [], js => js = []
  | j :: more, js => ∃ j' more', js = j' :: more' ∧ j.Equals j' ∧ EqualItems more more'

/-- Members have the same names, in order, and equal values. -/
def EqualMembers : List (Text × Json) → List (Text × Json) → Prop
  | [], js => js = []
  | (name, j) :: more, js => ∃ j' more', js = (name, j') :: more' ∧ j.Equals j' ∧ EqualMembers more more'

end

mutual

/-- **Data are read again as equal data if their numbers are.** -/
theorem equals_reread : ∀ (j : Json), (∀ x ∈ j.numbers, (Double.ofText x.toText).eq x = true) →
    j.Equals j.reread
  | .null, _ | .boolean _, _ | .string _, _ | .broken _, _ => by
    rw [reread, Equals]
  | .number x, h => by
    rw [numbers] at h
    rw [reread, Equals]
    exact ⟨_, rfl, h x List.mem_cons_self⟩
  | .array items, h => by
    rw [numbers] at h
    rw [reread, Equals]
    exact ⟨_, rfl, equalItems_reread items h⟩
  | .object members, h => by
    rw [numbers] at h
    rw [reread, Equals]
    exact ⟨_, rfl, equalMembers_reread members h⟩

theorem equalItems_reread : ∀ (js : List Json),
    (∀ x ∈ numbersOfItems js, (Double.ofText x.toText).eq x = true) → EqualItems js (rereadItems js)
  | [], _ => by rw [rereadItems, EqualItems]
  | j :: js, h => by
    rw [numbersOfItems, List.forall_mem_append] at h
    rw [rereadItems, EqualItems]
    exact ⟨_, _, rfl, equals_reread j h.1, equalItems_reread js h.2⟩

theorem equalMembers_reread : ∀ (js : List (Text × Json)),
    (∀ x ∈ numbersOfMembers js, (Double.ofText x.toText).eq x = true) → EqualMembers js (rereadMembers js)
  | [], _ => by rw [rereadMembers, EqualMembers]
  | (name, j) :: js, h => by
    rw [numbersOfMembers, List.forall_mem_append] at h
    rw [rereadMembers, EqualMembers]
    exact ⟨_, _, rfl, equals_reread j h.1, equalMembers_reread js h.2⟩

end

mutual

theorem nesting_reread : ∀ (j : Json), j.reread.nesting = j.nesting
  | .null | .boolean _ | .string _ | .broken _ => by rw [reread]
  | .number _ => by
    rw [reread]
    rfl
  | .array items => by rw [reread, nesting, nesting, nestingOfItems_reread items]
  | .object members => by rw [reread, nesting, nesting, nestingOfMembers_reread members]

theorem nestingOfItems_reread : ∀ (js : List Json), nestingOfItems (rereadItems js) = nestingOfItems js
  | [] => by rw [rereadItems]
  | j :: js => by
    rw [rereadItems, nestingOfItems, nestingOfItems, nesting_reread j, nestingOfItems_reread js]

theorem nestingOfMembers_reread : ∀ (js : List (Text × Json)),
    nestingOfMembers (rereadMembers js) = nestingOfMembers js
  | [] => by rw [rereadMembers]
  | (name, j) :: js => by
    rw [rereadMembers, nestingOfMembers, nestingOfMembers, nesting_reread j, nestingOfMembers_reread js]

end

theorem length_rereadItems (js : List Json) : (rereadItems js).length = js.length := by
  induction js with
  | nil => rw [rereadItems]
  | cons j js ih => rw [rereadItems, List.length_cons, List.length_cons, ih]

theorem names_rereadMembers (js : List (Text × Json)) : (rereadMembers js).map (·.1) = js.map (·.1) := by
  induction js with
  | nil => rw [rereadMembers]
  | cons e js ih =>
    obtain ⟨name, j⟩ := e
    rw [rereadMembers, List.map_cons, List.map_cons, ih]

/-! ## 2. Pieces -/

/-- The units of pieces. -/
def unitsOf (w : Written) : List CodeUnit := (Text.concat w).toList

theorem unitsOf_eq (w : Written) : unitsOf w = w.flatMap Text.toList := by
  have hfold (w : Written) (acc : Array CodeUnit) :
      (w.foldl (fun acc t => acc ++ t.units) acc).toList = acc.toList ++ w.flatMap Text.toList := by
    induction w generalizing acc with
    | nil => exact (List.append_nil _).symm
    | cons t w ih =>
      rw [List.foldl_cons, ih, Array.toList_append, List.append_assoc, List.flatMap_cons]
      rfl
  exact hfold w #[]

theorem unitsOf_cons (t : Text) (w : Written) : unitsOf (t :: w) = t.toList ++ unitsOf w := by
  rw [unitsOf_eq, unitsOf_eq, List.flatMap_cons]

theorem unitsOf_append (w w' : Written) : unitsOf (w ++ w') = unitsOf w ++ unitsOf w' := by
  rw [unitsOf_eq, unitsOf_eq, unitsOf_eq, List.flatMap_append]

theorem unitsOf_intercalate (sep : Written) (ws : List Written) :
    unitsOf (List.intercalate sep ws) = List.intercalate (unitsOf sep) (ws.map unitsOf) := by
  induction ws with
  | nil => rfl
  | cons w ws ih =>
    cases ws with
    | nil => rw [List.intercalate_singleton, List.map_singleton, List.intercalate_singleton]
    | cons w' ws =>
      rw [List.intercalate_cons_cons, List.map_cons, List.map_cons, List.intercalate_cons_cons,
        unitsOf_append, unitsOf_append, ih, List.map_cons]

/-- Pieces spell data, whatever follows. -/
def Writes (w : Written) (j : Json) : Prop := ∀ rest, Spells j (unitsOf w ++ rest) rest

/-- Units that may stand between the parts of a text. -/
def AreBlank (us : List CodeUnit) : Prop := ∀ u ∈ us, isBlank u = true

theorem AreBlank.blanks {us : List CodeUnit} (h : AreBlank us) (rest : List CodeUnit) :
    Blanks (us ++ rest) rest := by
  induction us with
  | nil => exact .none
  | cons u us ih => exact .more (h u List.mem_cons_self) (ih fun v hv => h v (List.mem_cons_of_mem u hv))

/-! ## 3. Strings -/

theorem hexValue?_ofDigit : ∀ d < 16, CodeUnit.hexValue? (.ofDigit d) = some d := by decide

theorem mem_escapes_of_escapeOf? {u l : CodeUnit} (h : escapeOf? u = some l) : (l, u) ∈ escapes := by
  unfold escapeOf? at h
  obtain ⟨⟨l', u'⟩, he, rfl⟩ := Option.map_eq_some_iff.mp h
  have hfound := List.find?_some he
  dsimp only at hfound ⊢
  rw [← beq_iff_eq.mp hfound]
  exact List.mem_cons_of_mem _ (List.mem_of_find?_eq_some he)

theorem spellsUnit_quoteUnit (u : CodeUnit) (rest : List CodeUnit) :
    SpellsUnit u (quoteUnit u ++ rest) rest := by
  unfold quoteUnit
  cases hletter : escapeOf? u with
  | some l => exact .letter (mem_escapes_of_escapeOf? hletter)
  | none =>
    dsimp only
    split
    · rename_i hcontrol
      have hlt : u.toNat < 32 := hcontrol
      have hvalue : (((0 * 16 + 0) * 16 + u.toNat / 16) * 16 + u.toNat % 16).toUInt16 = u := by
        rw [show ((0 * 16 + 0) * 16 + u.toNat / 16) * 16 + u.toNat % 16 = u.toNat by omega]
        exact UInt16.ofNat_toNat
      have hspelled : SpellsUnit _ (escapeControl u ++ rest) rest :=
        .digits (hexValue?_ofDigit 0 (by decide)) (hexValue?_ofDigit 0 (by decide))
          (hexValue?_ofDigit (u.toNat / 16) (by omega)) (hexValue?_ofDigit (u.toNat % 16) (by omega))
      rw [hvalue] at hspelled
      exact hspelled
    · rename_i hplain
      refine .plain hplain ?_ ?_ <;>
      · rintro rfl
        cases hletter

/-- **A string in quotes spells itself.** -/
theorem spellsString_quote (t : Text) (rest : List CodeUnit) :
    SpellsString t ((quote t).toList ++ rest) rest := by
  have hunits (us : List CodeUnit) : SpellsUnits us (us.flatMap quoteUnit ++ 0x22 :: rest) rest := by
    induction us with
    | nil => rfl
    | cons u us ih =>
      rw [List.flatMap_cons, List.append_assoc]
      exact ⟨_, spellsUnit_quoteUnit u _, ih⟩
  unfold quote
  rw [Text.toList_ofList]
  refine ⟨t.toList.flatMap quoteUnit ++ 0x22 :: rest, ?_, hunits t.toList⟩
  rw [List.append_assoc]
  rfl

/-! ## 4. Items and members -/

section LaidOut

variable {before after : List CodeUnit}

/-- Items with blanks before each of them and after the last, and commas between. -/
theorem spellsItems_intercalate (hbefore : AreBlank before) (hafter : AreBlank after) {w : Written} {j : Json}
    {ws : List Written} {js : List Json} (hw : Writes w j) (hws : List.Forall₂ Writes ws js)
    (rest : List CodeUnit) :
    SpellsItems (j :: js) (before ++ (List.intercalate (0x2C :: before) ((w :: ws).map unitsOf) ++
      (after ++ 0x5D :: rest))) rest := by
  induction hws generalizing w j with
  | nil =>
    rw [List.map_singleton, List.intercalate_singleton, SpellsItems]
    exact ⟨_, ⟨_, _, hbefore.blanks _, hw _, hafter.blanks _⟩, by rw [SpellsMoreItems]⟩
  | @cons w' j' ws js hw' _ ih =>
    have hmore := ih hw'
    rw [SpellsItems] at hmore
    obtain ⟨mid, hitem, hmore⟩ := hmore
    rw [List.map_cons, List.map_cons, List.intercalate_cons_cons, SpellsItems, List.append_assoc,
      List.append_assoc]
    refine ⟨_, ⟨_, _, hbefore.blanks _, hw _, .none⟩, ?_⟩
    rw [SpellsMoreItems]
    exact ⟨_, mid, rfl, hitem, hmore⟩

/-- The units of a member. -/
def memberUnits (space : List CodeUnit) (name : Text) (w : Written) : List CodeUnit :=
  (quote name).toList ++ 0x3A :: (space ++ unitsOf w)

/-- Pieces spell the value of a member of the same name. -/
def WritesMember (e : Text × Written) (m : Text × Json) : Prop := e.1 = m.1 ∧ Writes e.2 m.2

/-- Members with blanks before each of them and after the last, and commas between. -/
theorem spellsMembers_intercalate (hbefore : AreBlank before) (hafter : AreBlank after)
    {space : List CodeUnit} (hspace : AreBlank space) {e : Text × Written} {m : Text × Json}
    {es : List (Text × Written)}
    {js : List (Text × Json)} (he : WritesMember e m) (hes : List.Forall₂ WritesMember es js)
    (rest : List CodeUnit) :
    SpellsMembers (m :: js) (before ++ (List.intercalate (0x2C :: before)
      ((e :: es).map fun e => memberUnits space e.1 e.2) ++ (after ++ 0x7D :: rest))) rest := by
  have hname {us : List CodeUnit} {name : Text} {w : Written} :
      SpellsName name (before ++ (memberUnits space name w ++ us)) (space ++ (unitsOf w ++ us)) := by
    unfold memberUnits
    rw [List.append_assoc, List.cons_append, List.append_assoc]
    exact ⟨_, _, hbefore.blanks _, spellsString_quote name _, .none⟩
  induction hes generalizing e m with
  | nil =>
    obtain ⟨name, w⟩ := e
    obtain ⟨_, j⟩ := m
    obtain ⟨rfl, hw⟩ := he
    rw [List.map_singleton, List.intercalate_singleton, SpellsMembers]
    exact ⟨_, _, hname, ⟨_, _, hspace.blanks _, hw _, hafter.blanks _⟩, by rw [SpellsMoreMembers]⟩
  | @cons e' m' es js he' _ ih =>
    obtain ⟨name, w⟩ := e
    obtain ⟨_, j⟩ := m
    obtain ⟨rfl, hw⟩ := he
    have hmore := ih he'
    obtain ⟨name', j'⟩ := m'
    rw [SpellsMembers] at hmore
    obtain ⟨us₁, mid, hname', hmember, hmore⟩ := hmore
    rw [List.map_cons, List.map_cons, List.intercalate_cons_cons, SpellsMembers, List.append_assoc,
      List.append_assoc]
    refine ⟨_, _, hname, ⟨_, _, hspace.blanks _, hw _, .none⟩, ?_⟩
    rw [SpellsMoreMembers]
    exact ⟨_, us₁, mid, rfl, hname', hmember, hmore⟩

end LaidOut

/-! ## 5. Brackets -/

theorem AreBlank.append {us vs : List CodeUnit} (hus : AreBlank us) (hvs : AreBlank vs) :
    AreBlank (us ++ vs) :=
  List.forall_mem_append.mpr ⟨hus, hvs⟩

/-- What stands between brackets, if anything does. -/
theorem unitsOf_layOut (left right : String) (gap : Text) {indent outer : Text}
    (hindent : AreBlank indent.toList) (houter : AreBlank outer.toList) {ws : List Written} (hws : ws ≠ []) :
    ∃ before after, AreBlank before ∧ AreBlank after ∧
      unitsOf (layOut left right gap indent outer ws) = (Text.ofString left).toList ++
        (before ++ (List.intercalate (0x2C :: before) (ws.map unitsOf) ++
          (after ++ (Text.ofString right).toList))) := by
  have hline : (Text.ofString "\n").toList = [0x0A] := by decide
  have hcomma : (Text.ofString ",").toList = [0x2C] := by decide
  have hcommaLine : (Text.ofString ",\n").toList = [0x2C, 0x0A] := by decide
  have hnil : unitsOf [] = [] := rfl
  unfold layOut
  rw [if_neg (by rw [List.isEmpty_iff]; exact hws)]
  split
  · refine ⟨[], [], nofun, nofun, ?_⟩
    simp only [unitsOf_append, unitsOf_intercalate, unitsOf_cons, hnil, hcomma, List.append_nil,
      List.append_assoc, List.nil_append]
  · refine ⟨0x0A :: indent.toList, 0x0A :: outer.toList, ?_, ?_, ?_⟩
    · exact List.forall_mem_cons.mpr ⟨by decide, hindent⟩
    · exact List.forall_mem_cons.mpr ⟨by decide, houter⟩
    · simp only [unitsOf_append, unitsOf_intercalate, unitsOf_cons, hnil, hline, hcommaLine, List.append_nil,
        List.nil_append, List.cons_append]

/-- **Items laid out between brackets spell an array.** -/
theorem writes_array (gap : Text) {indent outer : Text} (hindent : AreBlank indent.toList)
    (houter : AreBlank outer.toList) {ws : List Written} {js : List Json} (h : List.Forall₂ Writes ws js) :
    Writes (layOut "[" "]" gap indent outer ws) (.array js) := by
  have hleft : (Text.ofString "[").toList = [0x5B] := by decide
  have hright : (Text.ofString "]").toList = [0x5D] := by decide
  intro rest
  rw [Spells]
  cases h with
  | nil =>
    refine ⟨0x5D :: rest, ?_, ?_⟩
    · show unitsOf [Text.ofString "[", Text.ofString "]"] ++ rest = _
      rw [unitsOf_cons, unitsOf_cons, hleft, hright]
      rfl
    · rw [SpellsItems]
      exact .none
  | cons hw hws =>
    obtain ⟨before, after, hbefore, hafter, hunits⟩ :=
      unitsOf_layOut "[" "]" gap hindent houter (List.cons_ne_nil _ _)
    refine ⟨_, ?_, spellsItems_intercalate hbefore hafter hw hws rest⟩
    rw [hunits, hleft, hright]
    simp only [List.append_assoc, List.cons_append, List.nil_append]

/-- **Members laid out between braces spell an object.** -/
theorem writes_object (gap : Text) {indent outer : Text} (hindent : AreBlank indent.toList)
    (houter : AreBlank outer.toList) {es : List (Text × Written)} {js : List (Text × Json)}
    (h : List.Forall₂ WritesMember es js) :
    Writes (layOut "\x7b" "\x7d" gap indent outer (es.map fun e => member gap e.1 e.2)) (.object js) := by
  have hleft : (Text.ofString "\x7b").toList = [0x7B] := by decide
  have hright : (Text.ofString "\x7d").toList = [0x7D] := by decide
  have hcolon : (Text.ofString ":").toList = [0x3A] := by decide
  have hcolonSpace : (Text.ofString ": ").toList = [0x3A, 0x20] := by decide
  -- the blanks between a colon and the value
  obtain ⟨space, hspace, hmember⟩ : ∃ space, AreBlank space ∧ ∀ e : Text × Written,
      unitsOf (member gap e.1 e.2) = memberUnits space e.1 e.2 := by
    unfold member memberUnits
    cases gap.isEmpty with
    | true =>
      refine ⟨[], nofun, fun e => ?_⟩
      rw [unitsOf_cons, unitsOf_cons, if_pos rfl, hcolon]
      rfl
    | false =>
      refine ⟨[0x20], List.forall_mem_singleton.mpr rfl, fun e => ?_⟩
      rw [unitsOf_cons, unitsOf_cons, if_neg Bool.false_ne_true, hcolonSpace]
      rfl
  intro rest
  rw [Spells]
  cases h with
  | nil =>
    refine ⟨0x7D :: rest, ?_, ?_⟩
    · show unitsOf [Text.ofString "\x7b", Text.ofString "\x7d"] ++ rest = _
      rw [unitsOf_cons, unitsOf_cons, hleft, hright]
      rfl
    · rw [SpellsMembers]
      exact .none
  | @cons e m es js he hes =>
    obtain ⟨before, after, hbefore, hafter, hunits⟩ :=
      unitsOf_layOut "\x7b" "\x7d" gap hindent houter
        (List.map_eq_nil_iff.not.mpr (List.cons_ne_nil e es))
    refine ⟨_, ?_, spellsMembers_intercalate hbefore hafter hspace he hes rest⟩
    have hmembers : ((e :: es).map fun e => member gap e.1 e.2).map unitsOf =
        (e :: es).map fun e => memberUnits space e.1 e.2 :=
      List.map_map.trans (List.map_congr_left fun e _ => hmember e)
    rw [hunits, hleft, hright, hmembers]
    simp only [List.append_assoc, List.cons_append, List.nil_append]

/-! ## 6. Data without inner structure -/

theorem unitsOf_singleton (t : Text) : unitsOf [t] = t.toList := by
  rw [unitsOf_cons]
  exact List.append_nil _

theorem writes_null : Writes ["null"] .null := by
  intro rest
  rw [unitsOf_singleton, Spells]
  rfl

theorem writes_boolean (b : Bool) : Writes [if b then "true" else "false"] (.boolean b) := by
  intro rest
  cases b <;>
  · rw [unitsOf_singleton, Spells]
    rfl

theorem writes_string (t : Text) : Writes [quote t] (.string t) := by
  intro rest
  rw [unitsOf_singleton, Spells]
  exact spellsString_quote t rest

theorem writes_number {x : Double} (hx : x.isFinite = true) :
    Writes [x.toText] (.number (Double.ofText x.toText)) := by
  intro rest
  rw [unitsOf_singleton, Spells]
  exact spellsNumber_toText hx rest

/-! ## 7. Gaps -/

theorem areBlank_repeated (n : Nat) : AreBlank (Text.repeated " " n).toList := by
  induction n with
  | zero => exact List.forall_mem_nil _
  | succ n ih =>
    have hspace : AreBlank (Text.ofString " ").toList := List.forall_mem_singleton.mpr rfl
    have hunits : (Text.repeated " " (n + 1)).toList =
        (Text.repeated " " n).toList ++ (Text.ofString " ").toList := by
      unfold Text.repeated
      rw [Nat.fold_succ]
      exact Array.toList_append
    rw [hunits]
    exact ih.append hspace

/-- A gap of spaces is blank. -/
theorem areBlank_spaces (count : Double) : AreBlank (spaces count).toList := by
  unfold spaces
  split <;> exact areBlank_repeated _

/-- So is the start of a blank text. -/
theorem areBlank_take {t : Text} (h : AreBlank t.toList) (n : Nat) : AreBlank (t.take n).toList := by
  intro u hu
  have hunits : (t.take n).toList = t.toList.take n := by
    show (t.units.extract 0 n).toList = t.units.toList.take n
    rw [Array.toList_extract, List.extract_eq_take_drop, List.drop_zero, Nat.sub_zero]
  rw [hunits] at hu
  exact h u (List.mem_of_mem_take hu)

end Json

end Ecma51
