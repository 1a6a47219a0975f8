import Mathlib.Data.Rat.Defs
import Ecma51.Proofs.JsonGrammar

/-!
# The grammar of numbers in text

Two descriptions of the numbers that a text may hold. One says which units spell which literal, and what this is
worth; the other one is a list of parsing expressions, which take the first alternative that matches and repeat a
part as long as it matches, and never reconsider either.

* `SpellsDecimal`, `SpellsHex`: decimal and hexadecimal literals, with the units at which they start and the units
  that follow them.
* `DecimalBody.toRat?`, `hexNumber`: what they are worth.
* `Peg`, `Peg.Gives`: parsing expressions, and what one makes of a list of units.
* `Peg.decimal`, `Peg.numeral`: the expressions for numbers.
* `Peg.Gives.unique`: an expression makes one thing of a list.
-/

namespace Ecma51

-- powers mean the same whether or not there are other instances in scope
attribute [local instance (high)] instPowNat

open Json (Digits Sign Exponent)

/-! ## 1. Literals -/

/-- Decimal digits, or none. -/
inductive DigitsOrNone : List Nat → (us rest : List CodeUnit) → Prop where
  | none {us : List CodeUnit} : DigitsOrNone [] us us
  | some {ds : List Nat} {us rest : List CodeUnit} : Digits ds us rest → DigitsOrNone ds us rest

/-- A decimal literal without its sign: the word for infinity; digits with a point after them, further digits or
none, and an exponent or none; a point with digits after it and an exponent or none; digits with an exponent or
none. -/
inductive SpellsBody : DecimalBody → (us rest : List CodeUnit) → Prop where
  | infinity {rest : List CodeUnit} : SpellsBody .infinity (DecimalLiteral.infinityUnits ++ rest) rest
  | pointed {whole fraction : List Nat} {exponent : Int} {us us₁ us₂ rest : List CodeUnit} :
      Digits whole us (0x2E :: us₁) → DigitsOrNone fraction us₁ us₂ → Exponent exponent us₂ rest →
      SpellsBody (.digits whole fraction exponent) us rest
  | fraction {fraction : List Nat} {exponent : Int} {us us₁ rest : List CodeUnit} :
      Digits fraction us us₁ → Exponent exponent us₁ rest →
      SpellsBody (.digits [] fraction exponent) (0x2E :: us) rest
  | whole {whole : List Nat} {exponent : Int} {us us₁ rest : List CodeUnit} :
      Digits whole us us₁ → Exponent exponent us₁ rest → SpellsBody (.digits whole [] exponent) us rest

/-- A decimal literal, with a sign or without. -/
def SpellsDecimal (l : DecimalLiteral) (us rest : List CodeUnit) : Prop :=
  ∃ us₁, Sign l.negative us us₁ ∧ SpellsBody l.body us₁ rest

/-- A hexadecimal digit. -/
def CodeUnit.isHexDigit (u : CodeUnit) : Bool := u.hexValue?.isSome

/-- Hexadecimal digits, at least one. -/
inductive HexDigits : List Nat → (us rest : List CodeUnit) → Prop where
  | last {d : Nat} {u : CodeUnit} {rest : List CodeUnit} : u.hexValue? = some d → HexDigits [d] (u :: rest) rest
  | more {d : Nat} {u : CodeUnit} {ds : List Nat} {us rest : List CodeUnit} : u.hexValue? = some d →
      HexDigits ds us rest → HexDigits (d :: ds) (u :: us) rest

/-- A hexadecimal literal, which has no sign. -/
def SpellsHex (ds : List Nat) (us rest : List CodeUnit) : Prop :=
  ∃ x us₁, us = 0x30 :: x :: us₁ ∧ (x = 0x78 ∨ x = 0x58) ∧ HexDigits ds us₁ rest

/-! ## 2. What they are worth -/

/-- The value of digits with a point among them and an exponent. -/
def pointedRat (whole fraction : List Nat) (exponent : Int) : ℚ :=
  (Decimal.valueOf whole + Decimal.valueOf fraction / 10 ^ fraction.length) * 10 ^ exponent

/-- The value of a decimal literal without its sign; infinity has none. -/
def DecimalBody.toRat? : DecimalBody → Option ℚ
  | .infinity => none
  | .digits whole fraction exponent => some (pointedRat whole fraction exponent)

/-- The value of hexadecimal digits. -/
def hexNumber (ds : List Nat) : Nat := ds.foldl (fun acc d => acc * 16 + d) 0

/-! ## 3. Parsing expressions -/

/-- A parsing expression: a word, a unit of a class, a sequence, a choice, a part that may be missing, a part any
number of times, or the end of the text. -/
inductive Peg where
  | word (w : List CodeUnit)
  | unit (p : CodeUnit → Bool)
  | seq (a b : Peg)
  | choice (a b : Peg)
  | optional (a : Peg)
  | many (a : Peg)
  | ending

namespace Peg

/-- A part once or more often. -/
def plus (a : Peg) : Peg := seq a (many a)

/-- What an expression makes of a list of units: what follows the units that it matches, or nothing if it matches
none of the ways the list may start. -/
inductive Gives : Peg → List CodeUnit → Option (List CodeUnit) → Prop where
  | word {w rest : List CodeUnit} : Gives (.word w) (w ++ rest) (some rest)
  | notWord {w us : List CodeUnit} : ¬ w <+: us → Gives (.word w) us none
  | unit {p : CodeUnit → Bool} {u : CodeUnit} {rest : List CodeUnit} : p u = true →
      Gives (.unit p) (u :: rest) (some rest)
  | notUnit {p : CodeUnit → Bool} {us : List CodeUnit} : (∀ u ∈ us.head?, p u = false) → Gives (.unit p) us none
  | seq {a b : Peg} {us mid : List CodeUnit} {r : Option (List CodeUnit)} : Gives a us (some mid) → Gives b mid r →
      Gives (.seq a b) us r
  | notSeq {a b : Peg} {us : List CodeUnit} : Gives a us none → Gives (.seq a b) us none
  | first {a b : Peg} {us rest : List CodeUnit} : Gives a us (some rest) → Gives (.choice a b) us (some rest)
  | second {a b : Peg} {us : List CodeUnit} {r : Option (List CodeUnit)} : Gives a us none → Gives b us r →
      Gives (.choice a b) us r
  | present {a : Peg} {us rest : List CodeUnit} : Gives a us (some rest) → Gives (.optional a) us (some rest)
  | missing {a : Peg} {us : List CodeUnit} : Gives a us none → Gives (.optional a) us (some us)
  | again {a : Peg} {us mid : List CodeUnit} {r : Option (List CodeUnit)} : Gives a us (some mid) →
      Gives (.many a) mid r → Gives (.many a) us r
  | enough {a : Peg} {us : List CodeUnit} : Gives a us none → Gives (.many a) us (some us)
  | ending : Gives .ending [] (some [])
  | notEnding {u : CodeUnit} {us : List CodeUnit} : Gives .ending (u :: us) none

/-- **An expression makes one thing of a list.** -/
theorem Gives.unique {a : Peg} {us : List CodeUnit} {r r' : Option (List CodeUnit)} (h : Gives a us r)
    (h' : Gives a us r') : r = r' := by
  induction h generalizing r' with
  | @word w rest =>
    generalize hus : w ++ rest = us at h'
    cases h' with
    | word => exact congrArg some (List.append_cancel_left hus)
    | notWord hno => exact absurd ⟨_, hus⟩ hno
  | notWord hno =>
    cases h' with
    | word => exact absurd (List.prefix_append _ _) hno
    | notWord _ => rfl
  | unit hp =>
    cases h' with
    | unit _ => rfl
    | notUnit hno => exact absurd hp (Bool.eq_false_iff.mp (hno _ rfl))
  | notUnit hno =>
    cases h' with
    | unit hp => exact absurd hp (Bool.eq_false_iff.mp (hno _ rfl))
    | notUnit _ => rfl
  | seq _ _ iha ihb =>
    cases h' with
    | seq ha hb =>
      cases iha ha
      exact ihb hb
    | notSeq ha => cases iha ha
  | notSeq _ iha =>
    cases h' with
    | seq ha _ => cases iha ha
    | notSeq _ => rfl
  | first _ iha =>
    cases h' with
    | first ha => exact iha ha
    | second ha _ => cases iha ha
  | second _ _ iha ihb =>
    cases h' with
    | first ha => cases iha ha
    | second _ hb => exact ihb hb
  | present _ iha =>
    cases h' with
    | present ha => exact iha ha
    | missing ha => cases iha ha
  | missing _ iha =>
    cases h' with
    | present ha => cases iha ha
    | missing _ => rfl
  | again _ _ iha ihmore =>
    cases h' with
    | again ha hmore =>
      cases iha ha
      exact ihmore hmore
    | enough ha => cases iha ha
  | enough _ iha =>
    cases h' with
    | again ha _ => cases iha ha
    | enough _ => rfl
  | ending =>
    cases h' with
    | ending => rfl
  | notEnding =>
    cases h' with
    | notEnding => rfl

/-! ## 4. The expressions for numbers -/

/-- Decimal digits. -/
def digits : Peg := plus (unit CodeUnit.isDecimalDigit)

/-- A sign. -/
def sign : Peg := choice (word [0x2B]) (word [0x2D])

/-- An exponent. -/
def exponentPart : Peg := seq (choice (word [0x65]) (word [0x45])) (seq (optional sign) digits)

/-- A decimal literal without its sign. -/
def unsignedDecimal : Peg :=
  choice (word DecimalLiteral.infinityUnits)
    (choice (seq digits (seq (optional (seq (word [0x2E]) (optional digits))) (optional exponentPart)))
      (seq (word [0x2E]) (seq digits (optional exponentPart))))

/-- A decimal literal. -/
def decimal : Peg := seq (optional sign) unsignedDecimal

/-- A hexadecimal literal. -/
def hexInteger : Peg :=
  seq (choice (word [0x30, 0x78]) (word [0x30, 0x58])) (plus (unit CodeUnit.isHexDigit))

/-- A number that is the whole text. -/
def numeral : Peg := seq (choice hexInteger decimal) ending

end Peg

end Ecma51
