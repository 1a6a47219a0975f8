import Ecma51.Json.Reader

/-!
# The grammar of JSON text

The data that JSON text denotes, which units spell which data, and how data are read without any object made. Every
relation here has the units at which a part starts and the units that follow it, so that parts are put together by
handing on what follows.

* `Json`: data, or data up to a place where the text is wrong.
* `Json.SpellsString`, `Json.SpellsNumber`: strings and numbers.
* `Json.Spells`, `Json.Padded`: data, and data with blanks around it.
* `Json.IsText`: a whole text.
* `Json.nesting`, `Json.Overruns`: how deep arrays and objects are nested, and a text whose nesting goes
  too deep before anything is wrong with it.
* `Json.readValue`, `Json.read`: a reader of data. How deep arrays and objects may be nested is a number here,
  where a machine counts calls.
-/

namespace Ecma51

/-- What a JSON text denotes. A text that is wrong somewhere denotes the data up to that place, where
`broken` stands for all the rest. -/
inductive Json where
  | null
  | boolean (b : Bool)
  | number (x : Double)
  | string (t : Text)
  | array (items : List Json)
  | object (members : List (Text × Json))
  | broken (f : Fault)

namespace Json

/-! ## 1. Blanks -/

/-- Blanks, and what follows them. -/
inductive Blanks : (us rest : List CodeUnit) → Prop where
  | none {us : List CodeUnit} : Blanks us us
  | more {u : CodeUnit} {us rest : List CodeUnit} : isBlank u = true → Blanks us rest →
      Blanks (u :: us) rest

/-! ## 2. Strings -/

/-- The escapes of one letter, each with the unit for which it stands. -/
def escapes : List (CodeUnit × CodeUnit) := (0x2F, 0x2F) :: letterEscapes

/-- One unit inside quotes: itself, unless it is below U+0020, a quote or a backslash; an escape of one
letter; or the letter `u` with exactly four hexadecimal digits. -/
inductive SpellsUnit : CodeUnit → (us rest : List CodeUnit) → Prop where
  | plain {u : CodeUnit} {rest : List CodeUnit} : ¬ u < 0x20 → u ≠ 0x22 → u ≠ 0x5C →
      SpellsUnit u (u :: rest) rest
  | letter {l u : CodeUnit} {rest : List CodeUnit} : (l, u) ∈ escapes →
      SpellsUnit u (0x5C :: l :: rest) rest
  | digits {a b c d : CodeUnit} {w x y z : Nat} {rest : List CodeUnit} : a.hexValue? = some w →
      b.hexValue? = some x → c.hexValue? = some y → d.hexValue? = some z →
      SpellsUnit (((w * 16 + x) * 16 + y) * 16 + z).toUInt16 (0x5C :: 0x75 :: a :: b :: c :: d :: rest) rest

/-- Units inside quotes, up to the closing quote. -/
def SpellsUnits : List CodeUnit → (us rest : List CodeUnit) → Prop
  | [], us, rest => us = 0x22 :: rest
  | u :: more, us, rest => ∃ mid, SpellsUnit u us mid ∧ SpellsUnits more mid rest

/-- A string. -/
def SpellsString (t : Text) (us rest : List CodeUnit) : Prop :=
  ∃ us', us = 0x22 :: us' ∧ SpellsUnits t.toList us' rest

/-! ## 3. Numbers -/

/-- Decimal digits, at least one. -/
inductive Digits : List Nat → (us rest : List CodeUnit) → Prop where
  | last {u : CodeUnit} {rest : List CodeUnit} : u.isDecimalDigit = true →
      Digits [u.toNat - 0x30] (u :: rest) rest
  | more {u : CodeUnit} {ds : List Nat} {us rest : List CodeUnit} : u.isDecimalDigit = true →
      Digits ds us rest → Digits ((u.toNat - 0x30) :: ds) (u :: us) rest

/-- A minus, or none. -/
inductive Minus : Bool → (us rest : List CodeUnit) → Prop where
  | absent {us : List CodeUnit} : Minus false us us
  | present {us : List CodeUnit} : Minus true (0x2D :: us) us

/-- The whole part of a number: zero alone, or digits that do not start with zero. -/
inductive Whole : List Nat → (us rest : List CodeUnit) → Prop where
  | zero {rest : List CodeUnit} : Whole [0] (0x30 :: rest) rest
  | digits {ds : List Nat} {us rest : List CodeUnit} : us.head? ≠ some 0x30 → Digits ds us rest →
      Whole ds us rest

/-- A point with digits, or neither. -/
inductive Fraction : List Nat → (us rest : List CodeUnit) → Prop where
  | absent {us : List CodeUnit} : Fraction [] us us
  | digits {ds : List Nat} {us rest : List CodeUnit} : Digits ds us rest → Fraction ds (0x2E :: us) rest

/-- The sign of an exponent, or none. -/
inductive Sign : Bool → (us rest : List CodeUnit) → Prop where
  | absent {us : List CodeUnit} : Sign false us us
  | plus {us : List CodeUnit} : Sign false (0x2B :: us) us
  | minus {us : List CodeUnit} : Sign true (0x2D :: us) us

/-- An exponent, or none. -/
inductive Exponent : Int → (us rest : List CodeUnit) → Prop where
  | absent {us : List CodeUnit} : Exponent 0 us us
  | digits {u : CodeUnit} {negative : Bool} {ds : List Nat} {us mid rest : List CodeUnit} :
      u = 0x65 ∨ u = 0x45 → Sign negative us mid → Digits ds mid rest →
      Exponent (Double.signed negative (Decimal.valueOf ds)) (u :: us) rest

/-- A number, which is rounded once. -/
def SpellsNumber (x : Double) (us rest : List CodeUnit) : Prop :=
  ∃ negative whole fraction exponent us₁ us₂ us₃, Minus negative us us₁ ∧ Whole whole us₁ us₂ ∧
    Fraction fraction us₂ us₃ ∧ Exponent exponent us₃ rest ∧
    x = DecimalLiteral.value ⟨negative, .digits whole fraction exponent⟩

/-! ## 4. Data -/

/-- The units of a word. -/
def word (s : String) : List CodeUnit := (Text.ofString s).toList

/-- A part with blanks around it. -/
def Around (part : List CodeUnit → List CodeUnit → Prop) (us rest : List CodeUnit) : Prop :=
  ∃ us₁ us₂, Blanks us us₁ ∧ part us₁ us₂ ∧ Blanks us₂ rest

/-- The name of a member, with the colon after it. -/
def SpellsName (name : Text) (us rest : List CodeUnit) : Prop :=
  Around (SpellsString name) us (0x3A :: rest)

mutual

/-- Data. -/
def Spells : Json → (us rest : List CodeUnit) → Prop
  | .null, us, rest => us = word "null" ++ rest
  | .boolean true, us, rest => us = word "true" ++ rest
  | .boolean false, us, rest => us = word "false" ++ rest
  | .number x, us, rest => SpellsNumber x us rest
  | .string t, us, rest => SpellsString t us rest
  | .array items, us, rest => ∃ us', us = 0x5B :: us' ∧ SpellsItems items us' rest
  | .object members, us, rest => ∃ us', us = 0x7B :: us' ∧ SpellsMembers members us' rest
  | .broken _, _, _ => False

/-- The items of an array, up to the closing bracket. -/
def SpellsItems : List Json → (us rest : List CodeUnit) → Prop
  | [], us, rest => Blanks us (0x5D :: rest)
  | j :: js, us, rest => ∃ mid, Around (Spells j) us mid ∧ SpellsMoreItems js mid rest

/-- Further items, each after a comma, up to the closing bracket. -/
def SpellsMoreItems : List Json → (us rest : List CodeUnit) → Prop
  | [], us, rest => us = 0x5D :: rest
  | j :: js, us, rest =>
    ∃ us' mid, us = 0x2C :: us' ∧ Around (Spells j) us' mid ∧ SpellsMoreItems js mid rest

/-- The members of an object, up to the closing brace. -/
def SpellsMembers : List (Text × Json) → (us rest : List CodeUnit) → Prop
  | [], us, rest => Blanks us (0x7D :: rest)
  | (name, j) :: js, us, rest =>
    ∃ us₁ mid, SpellsName name us us₁ ∧ Around (Spells j) us₁ mid ∧ SpellsMoreMembers js mid rest

/-- Further members, each after a comma, up to the closing brace. -/
def SpellsMoreMembers : List (Text × Json) → (us rest : List CodeUnit) → Prop
  | [], us, rest => us = 0x7D :: rest
  | (name, j) :: js, us, rest => ∃ us' us₁ mid, us = 0x2C :: us' ∧ SpellsName name us' us₁ ∧
      Around (Spells j) us₁ mid ∧ SpellsMoreMembers js mid rest

end

/-- Data with blanks around it. -/
def Padded (j : Json) : (us rest : List CodeUnit) → Prop := Around (Spells j)

/-- A whole text. -/
def IsText (us : List CodeUnit) (j : Json) : Prop := Padded j us []

/-! ## 5. Nesting -/

mutual

/-- How deep arrays and objects are nested. -/
def nesting : Json → Nat
  | .array items => 1 + nestingOfItems items
  | .object members => 1 + nestingOfMembers members
  | _ => 0

/-- How deep arrays and objects are nested in items. -/
def nestingOfItems : List Json → Nat
  | [] => 0
  | j :: js => max j.nesting (nestingOfItems js)

/-- How deep arrays and objects are nested in members. -/
def nestingOfMembers : List (Text × Json) → Nat
  | [] => 0
  | (_, j) :: js => max j.nesting (nestingOfMembers js)

end

/-- Complete items of an array, each with a comma after it, nested at most `d` deep. -/
inductive ItemsBefore (d : Nat) : (us rest : List CodeUnit) → Prop where
  | none {us : List CodeUnit} : ItemsBefore d us us
  | more {j : Json} {us mid rest : List CodeUnit} : Padded j us (0x2C :: mid) → j.nesting ≤ d →
      ItemsBefore d mid rest → ItemsBefore d us rest

/-- Complete members of an object, each with a comma after it, nested at most `d` deep. -/
inductive MembersBefore (d : Nat) : (us rest : List CodeUnit) → Prop where
  | none {us : List CodeUnit} : MembersBefore d us us
  | more {name : Text} {j : Json} {us us₁ mid rest : List CodeUnit} : SpellsName name us us₁ →
      Padded j us₁ (0x2C :: mid) → j.nesting ≤ d → MembersBefore d mid rest → MembersBefore d us rest

/-- A text that opens one array or object more than `d` allows, and is right up to there. -/
inductive Overruns : Nat → List CodeUnit → Prop where
  | opens {u : CodeUnit} {us rest : List CodeUnit} : Blanks us (u :: rest) → u = 0x5B ∨ u = 0x7B →
      Overruns 0 us
  | item {d : Nat} {us us₁ us₂ : List CodeUnit} : Blanks us (0x5B :: us₁) → ItemsBefore d us₁ us₂ →
      Overruns d us₂ → Overruns (d + 1) us
  | member {d : Nat} {name : Text} {us us₁ us₂ us₃ : List CodeUnit} : Blanks us (0x7B :: us₁) →
      MembersBefore d us₁ us₂ → SpellsName name us₂ us₃ → Overruns d us₃ → Overruns (d + 1) us

/-! ## 6. Faults -/

mutual

/-- What is wrong first, if anything is. -/
def fault? : Json → Option Fault
  | .array items => faultOfItems? items
  | .object members => faultOfMembers? members
  | .broken f => some f
  | _ => none

/-- What is wrong first in items. -/
def faultOfItems? : List Json → Option Fault
  | [] => none
  | j :: js => j.fault?.or (faultOfItems? js)

/-- What is wrong first in members. -/
def faultOfMembers? : List (Text × Json) → Option Fault
  | [] => none
  | (_, j) :: js => j.fault?.or (faultOfMembers? js)

end

/-! ## 7. Readers -/

/-- Data read, and what follows it unless the text was wrong. -/
abbrev Reading (α : Type) := α × Option (List CodeUnit)

/-- The outcome of reading a part. -/
def ofPart {α : Type} (total : Nat) (make : α → Json) : Part α → Reading Json
  | .ok (a, rest) => (make a, some rest)
  | .error left => (.broken (faultAt total left), none)

/-- A word that stands for a value. -/
def readWord (total : Nat) (word : String) (value : Json) (us : List CodeUnit) : Reading Json :=
  ofPart total (fun () => value) ((expect (Text.ofString word).toList us).map fun rest => ((), rest))

/-- Data without inner structure. -/
def readScalar (total : Nat) (us : List CodeUnit) : Reading Json :=
  match us with
  | u :: _ =>
    if u == 0x22 then ofPart total .string (readString us)
    else if u == 0x74 then readWord total "true" (.boolean true) us
    else if u == 0x66 then readWord total "false" (.boolean false) us
    else if u == 0x6E then readWord total "null" .null us
    else if u == 0x2D || u.isDecimalDigit then ofPart total .number (readNumber us)
    else (.broken (faultAt total us), none)
  | [] => (.broken .jsonEnded, none)

/-- The items of an array up to its end, after those already read, latest first; the number bounds how
many there are. -/
def readItems (total : Nat) (value : List CodeUnit → Reading Json) :
    Nat → List CodeUnit → List Json → Reading (List Json)
  | 0, us, acc => ((.broken (faultAt total us) :: acc).reverse, none)
  | n + 1, us, acc =>
    match value us with
    | (v, none) => ((v :: acc).reverse, none)
    | (v, some rest) =>
      match ending 0x5D rest with
      | .more rest => readItems total value n rest (v :: acc)
      | .closed rest => ((v :: acc).reverse, some rest)
      | .wrong left => ((.broken (faultAt total left) :: v :: acc).reverse, none)

/-- What stands in an array after an item. -/
def moreItems (total : Nat) (value : List CodeUnit → Reading Json) (n : Nat) (us : List CodeUnit) :
    Reading (List Json) :=
  match ending 0x5D us with
  | .more rest => readItems total value n rest []
  | .closed rest => ([], some rest)
  | .wrong left => ([.broken (faultAt total left)], none)

/-- The members of an object up to its end, after those already read, latest first; the number bounds
how many there are. -/
def readMembers (total : Nat) (value : List CodeUnit → Reading Json) :
    Nat → List CodeUnit → List (Text × Json) → Reading (List (Text × Json))
  | 0, us, acc => (((.empty, .broken (faultAt total us)) :: acc).reverse, none)
  | n + 1, us, acc =>
    match readName us with
    | .error left => (((.empty, .broken (faultAt total left)) :: acc).reverse, none)
    | .ok (name, rest) =>
      match value rest with
      | (v, none) => (((name, v) :: acc).reverse, none)
      | (v, some rest) =>
        match ending 0x7D rest with
        | .more rest => readMembers total value n rest ((name, v) :: acc)
        | .closed rest => (((name, v) :: acc).reverse, some rest)
        | .wrong left =>
          (((.empty, .broken (faultAt total left)) :: (name, v) :: acc).reverse, none)

/-- What stands in an object after a member. -/
def moreMembers (total : Nat) (value : List CodeUnit → Reading Json) (n : Nat) (us : List CodeUnit) :
    Reading (List (Text × Json)) :=
  match ending 0x7D us with
  | .more rest => readMembers total value n rest []
  | .closed rest => ([], some rest)
  | .wrong left => ([(.empty, .broken (faultAt total left))], none)

/-- Data at the start of a text, after blanks, with arrays and objects nested at most `depth` deep. -/
def readValue (total : Nat) : (depth : Nat) → List CodeUnit → Reading Json
  | 0, us =>
    match skipBlanks us with
    | u :: rest =>
      if u == 0x7B || u == 0x5B then (.broken .stackOverflow, none) else readScalar total (u :: rest)
    | [] => readScalar total []
  | depth + 1, us =>
    match skipBlanks us with
    | u :: rest =>
      if u == 0x5B then
        match closedAtOnce? 0x5D rest with
        | some rest => (.array [], some rest)
        | none =>
          let (items, rest) := readItems total (readValue total depth) total rest []
          (.array items, rest)
      else if u == 0x7B then
        match closedAtOnce? 0x7D rest with
        | some rest => (.object [], some rest)
        | none =>
          let (members, rest) := readMembers total (readValue total depth) total rest []
          (.object members, rest)
      else readScalar total (u :: rest)
    | [] => readScalar total []

/-- The data of a text, with arrays and objects nested at most `depth` deep, and what is wrong after
it. -/
def read (depth : Nat) (t : Text) : Json × Option Fault :=
  match readValue t.length depth t.toList with
  | (v, none) => (v, none)
  | (v, some rest) =>
    match skipBlanks rest with
    | [] => (v, none)
    | left => (v, some (faultAt t.length left))

/-! ## 8. What was read before -/

section After

variable {total n : Nat} {value : List CodeUnit → Reading Json} {us rest : List CodeUnit} {j : Json}

/-- Items that were read before stand before those that are read. -/
theorem readItems_after (acc : List Json) : readItems total value n us acc =
    (acc.reverse ++ (readItems total value n us []).1, (readItems total value n us []).2) := by
  induction n generalizing us acc with
  | zero => exact Prod.ext List.reverse_cons rfl
  | succ n ih =>
    unfold readItems
    cases value us with
    | mk j left =>
      cases left with
      | none => exact Prod.ext List.reverse_cons rfl
      | some rest =>
        dsimp only
        cases ending 0x5D rest with
        | more rest =>
          dsimp only
          rw [ih, ih [j], List.reverse_cons, List.append_assoc]
          rfl
        | closed rest => exact Prod.ext List.reverse_cons rfl
        | wrong left =>
          refine Prod.ext ?_ rfl
          dsimp only
          rw [List.reverse_cons, List.reverse_cons, List.append_assoc]
          rfl

theorem readItems_wrong (h : value us = (j, none)) :
    readItems total value (n + 1) us [] = ([j], none) := by
  unfold readItems
  rw [h]
  rfl

theorem readItems_right (h : value us = (j, some rest)) : readItems total value (n + 1) us [] =
    (j :: (moreItems total value n rest).1, (moreItems total value n rest).2) := by
  unfold readItems moreItems
  rw [h]
  dsimp only
  cases ending 0x5D rest with
  | more rest => exact readItems_after [j]
  | closed rest => rfl
  | wrong left => rfl

/-- Members that were read before stand before those that are read. -/
theorem readMembers_after (acc : List (Text × Json)) : readMembers total value n us acc =
    (acc.reverse ++ (readMembers total value n us []).1, (readMembers total value n us []).2) := by
  induction n generalizing us acc with
  | zero => exact Prod.ext List.reverse_cons rfl
  | succ n ih =>
    unfold readMembers
    cases readName us with
    | error left => exact Prod.ext List.reverse_cons rfl
    | ok part =>
      obtain ⟨name, mid⟩ := part
      dsimp only
      cases value mid with
      | mk j left =>
        cases left with
        | none => exact Prod.ext List.reverse_cons rfl
        | some rest =>
          dsimp only
          cases ending 0x7D rest with
          | more rest =>
            dsimp only
            rw [ih, ih [(name, j)], List.reverse_cons, List.append_assoc]
            rfl
          | closed rest => exact Prod.ext List.reverse_cons rfl
          | wrong left =>
            refine Prod.ext ?_ rfl
            dsimp only
            rw [List.reverse_cons, List.reverse_cons, List.append_assoc]
            rfl

variable {name : Text} {mid : List CodeUnit}

theorem readMembers_unnamed {left : List CodeUnit} (h : readName us = .error left) :
    readMembers total value (n + 1) us [] = ([(.empty, .broken (faultAt total left))], none) := by
  unfold readMembers
  rw [h]
  rfl

theorem readMembers_wrong (hname : readName us = .ok (name, mid)) (h : value mid = (j, none)) :
    readMembers total value (n + 1) us [] = ([(name, j)], none) := by
  unfold readMembers
  rw [hname]
  dsimp only
  rw [h]
  rfl

theorem readMembers_right (hname : readName us = .ok (name, mid)) (h : value mid = (j, some rest)) :
    readMembers total value (n + 1) us [] =
      ((name, j) :: (moreMembers total value n rest).1, (moreMembers total value n rest).2) := by
  unfold readMembers moreMembers
  rw [hname]
  dsimp only
  rw [h]
  dsimp only
  cases ending 0x7D rest with
  | more rest => exact readMembers_after [(name, j)]
  | closed rest => rfl
  | wrong left => rfl

end After

end Json

end Ecma51
