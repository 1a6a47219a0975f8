import Ecma51.Text.Basic

/-!
# Configuration

The limits and the mode under which programs run, and how they are read from named settings.

* `Config`: the settings, with their defaults.
* `Config.ofLookup`: the settings that a lookup of names gives, or the first that is invalid.
-/

namespace Ecma51

-- powers mean the same whether or not there are other instances in scope
attribute [local instance (high)] instPowNat

/-- The settings of a run. -/
structure Config where
  /-- The most objects that may be alive; none means no limit. -/
  heapLimit : Option Nat := none
  /-- The most calls that may be under way. -/
  maxCallDepth : Nat := 512
  /-- Global code is strict. -/
  strict : Bool := false
  deriving DecidableEq, Repr, Inhabited

/-- A setting whose value cannot be read. -/
structure ConfigError where
  name : String
  value : String
  deriving DecidableEq, Repr

/-- The wording of an invalid setting. -/
def ConfigError.message (e : ConfigError) : String :=
  "invalid value '" ++ e.value ++ "' for " ++ e.name

namespace Config

/-- Characters that may surround a setting. -/
def isBlank (c : Char) : Bool :=
  let n := c.toNat
  (0x9 ≤ n && n ≤ 0xD) || n == 0x20 || n == 0x85 || n == 0xA0 || n == 0x1680 ||
    (0x2000 ≤ n && n ≤ 0x200A) || n == 0x2028 || n == 0x2029 || n == 0x202F || n == 0x205F ||
    n == 0x3000

/-- The characters of a string without blanks at the ends. -/
def trimmed (s : String) : List Char :=
  ((s.toList.dropWhile isBlank).reverse.dropWhile isBlank).reverse

/-- The number that decimal digits, after an optional plus sign, spell below a limit. -/
def natBelow? (limit : Nat) (cs : List Char) : Option Nat :=
  let digits := match cs with
    | '+' :: rest => rest
    | _ => cs
  if digits.isEmpty || !digits.all Char.isDigit then none
  else
    let n := digits.foldl (fun acc c => acc * 10 + (c.toNat - 48)) 0
    if n < limit then some n else none

/-- A count: a number of at most 64 bits. -/
def readCount? (s : String) : Option Nat := natBelow? (2 ^ (64 : Nat)) (trimmed s)

/-- The lower case of an ASCII letter. -/
def lowerAscii (c : Char) : Char := if c.isUpper then c.toLower else c

/-- A switch, in any of the usual spellings. -/
def readFlag? (s : String) : Option Bool :=
  let word := String.ofList ((trimmed s).map lowerAscii)
  if ["1", "true", "yes", "on"].contains word then some true
  else if ["0", "false", "no", "off", ""].contains word then some false
  else none

/-- The setting for the most live objects. -/
def heapLimitName : String := "ESRT_HEAP_LIMIT"

/-- The setting for the most nested calls. -/
def maxCallDepthName : String := "ESRT_MAX_CALL_DEPTH"

/-- The setting for strict global code. -/
def strictName : String := "ESRT_STRICT"

/-- A setting by name: absent, read, or invalid. -/
def setting {α : Type} (lookup : String → Option String) (read? : String → Option α)
    (name : String) : Except ConfigError (Option α) :=
  match lookup name with
  | none => .ok none
  | some text =>
    match read? text with
    | some a => .ok (some a)
    | none => .error ⟨name, text⟩

/-- The configuration that a lookup of names gives; absent settings keep their defaults. -/
def ofLookup (lookup : String → Option String) : Except ConfigError Config := do
  let base : Config := {}
  let heapLimit ← setting lookup readCount? heapLimitName
  let maxCallDepth ← setting lookup readCount? maxCallDepthName
  let strict ← setting lookup readFlag? strictName
  return {
    heapLimit := heapLimit.or base.heapLimit
    maxCallDepth := maxCallDepth.getD base.maxCallDepth
    strict := strict.getD base.strict }

end Config

end Ecma51
