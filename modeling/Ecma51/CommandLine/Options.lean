import Ecma51.Config
import Ecma51.Text.Uri

/-!
# Options of the command line

The words of a command line: options that belong to all commands, the name of a command, its own
options and its arguments. Options may stand before or after the arguments, with their value behind an
equals sign or in the next word, each at most once; two dashes end the options. General options may be
given before the command and again after it, where they count more, and have defaults in the
environment.

* `OptionSpec`, `Level`: what is understood before and after the name of a command.
* `scanWords`: options and arguments of one level.
* `Invocation.read`: what a command line asks for.
-/

namespace Ecma51

-- powers mean the same whether or not there are other instances in scope
attribute [local instance (high)] instPowNat

namespace CommandLine

/-! ## 1. Words -/

/-- An option that is understood. -/
structure OptionSpec where
  name : String
  /-- The values that it takes; none for an option without a value. -/
  accepts : Option (String → Bool)

/-- What one level of a command line understands. -/
structure Level where
  options : List OptionSpec
  /-- The values that its arguments take, in order. -/
  arguments : List (String → Bool)
  /-- The first argument is the name of a command, which ends the level and stays among the words that
  are left; only such a level can ask for the version. -/
  endsAtCommand : Bool

/-- Why a command line is not carried out. -/
inductive Refusal where
  /-- It is not well formed. -/
  | usage
  /-- It only asks for help. -/
  | help
  /-- It only asks for the version. -/
  | version
  deriving DecidableEq, Repr

/-- The options and arguments found so far. -/
structure Words where
  options : List (String × String) := []
  arguments : List String := []

/-- A badly formed command line unless the condition holds. -/
def check (condition : Bool) : Except Refusal Unit := if condition then .ok () else .error .usage

/-- Adds an option, which must not be there yet. -/
def Words.addOption (w : Words) (name value : String) : Except Refusal Words := do
  check (w.options.lookup name).isNone
  return { w with options := w.options ++ [(name, value)] }

/-- Adds an argument, for which there must be a place that takes it. -/
def Words.addArgument (level : Level) (w : Words) (arg : String) : Except Refusal Words := do
  check (level.arguments[w.arguments.length]?.any (· arg))
  return { w with arguments := w.arguments ++ [arg] }

/-- The word looks like an option. A single dash does not. -/
def isOptionLike (word : String) : Bool := word.startsWith "-" && word != "-"

/-- The name of a long option, and the value behind an equals sign. -/
def splitOption (word : String) : String × Option String :=
  let cs := word.toList.drop 2
  let name := String.ofList (cs.takeWhile (· != '='))
  match cs.dropWhile (· != '=') with
  | [] => (name, none)
  | _ :: value => (name, some (String.ofList value))

/-- Reads an option word: the words found, and the words that are left. A value is looked at as soon as
something else follows on the same level; the name of a command does not. -/
def readOption (level : Level) (word : String) (rest : List String) (w : Words) :
    Except Refusal (Words × List String) := do
  if word == "--help" || word.startsWith "-h" then throw .help
  if level.endsAtCommand && (word == "--version" || word.startsWith "-V") then throw .version
  check (word.startsWith "--")
  let (name, value) := splitOption word
  match level.options.find? (·.name == name), value, rest with
  | none, _, _ => throw .usage
  | some ⟨_, none⟩, none, rest => return (← w.addOption name "true", rest)
  | some ⟨_, none⟩, some _, _ => throw .usage
  | some ⟨_, some accepts⟩, some v, rest =>
    check (accepts v)
    return (← w.addOption name v, rest)
  | some ⟨_, some _⟩, none, [] => throw .usage
  | some ⟨_, some accepts⟩, none, v :: rest =>
    let left := level.endsAtCommand && !(rest.head?.any isOptionLike)
    check (!isOptionLike v && (left || accepts v))
    return (← w.addOption name v, rest)

/-- Reads the words of one level. The number bounds how many words there are. -/
def scanWords (level : Level) :
    Nat → List String → Words → Except Refusal (Words × List String)
  | 0, rest, w => .ok (w, rest)
  | _ + 1, [], w => .ok (w, [])
  | n + 1, word :: rest, w => do
    if word == "--" then
      check (!level.endsAtCommand)
      return (← rest.foldlM (Words.addArgument level) w, [])
    else if isOptionLike word then
      let (w, rest) ← readOption level word rest w
      scanWords level n rest w
    else if level.endsAtCommand then return (w, word :: rest)
    else scanWords level n rest (← w.addArgument level word)

/-! ## 2. Commands -/

/-- Whether characters are escaped or escapes are read. -/
inductive UriDirection where
  | encode
  | decode
  deriving DecidableEq, Repr

/-- What to do. -/
inductive Command where
  /-- Read JSON from a file, or from standard input if its name is a dash, and write it again. -/
  | json (input : String) (indent : Nat)
  /-- Write or read the escapes of a URI. -/
  | uri (direction : UriDirection) (extent : Uri.Scope) (text : String)
  /-- Convert a text to a number, and write it in some base. -/
  | number (text : String) (radix : Option Nat)
  deriving DecidableEq, Repr

/-- What to do, and under which settings. -/
structure Invocation where
  config : Config
  command : Command
  deriving DecidableEq, Repr

/-- The option for which log messages are wanted; there are none, so it has no effect. -/
def logOption : String := "log"

/-- The option for the most live objects. -/
def heapLimitOption : String := "heap-limit"

/-- The option for the most nested calls. -/
def maxCallDepthOption : String := "max-call-depth"

/-- The option for strict global code. -/
def strictOption : String := "strict"

/-- A value that can be read, or a badly formed command line. -/
def orUsage {α : Type} : Option α → Except Refusal α
  | some a => .ok a
  | none => .error .usage

/-- A number of at most 64 bits. -/
def readSize? (s : String) : Option Nat := Config.natBelow? (2 ^ (64 : Nat)) s.toList

/-- A number of at most 32 bits; zero may be negative. -/
def readWord? (s : String) : Option Nat :=
  match s.toList with
  | '-' :: digits =>
    if digits.head?.any Char.isDigit then Config.natBelow? 1 digits else none
  | cs => Config.natBelow? (2 ^ (32 : Nat)) cs

/-- A truth value. -/
def readBool? (s : String) : Option Bool :=
  if s == "true" then some true else if s == "false" then some false else none

/-- The options that belong to all commands. -/
def generalOptions : List OptionSpec :=
  [⟨logOption, some fun _ => true⟩, ⟨heapLimitOption, some fun s => (readSize? s).isSome⟩,
    ⟨maxCallDepthOption, some fun s => (readSize? s).isSome⟩, ⟨strictOption, none⟩]

/-- The level before the name of a command. -/
def outerLevel : Level := { options := generalOptions, arguments := [], endsAtCommand := true }

/-- The value of an option on one level: given there, or set in the environment. -/
def levelValue {α : Type} (read? : String → Option α) (name setting : String)
    (env : String → Option String) (w : Words) : Except Refusal (Option α) :=
  match (w.options.lookup name).or (env setting) with
  | none => .ok none
  | some text => some <$> orUsage (read? text)

/-- The value of a general option: that of the command counts more than what stands before it, and
both more than the environment. Values that are not used are read all the same. -/
def generalValue {α : Type} (read? : String → Option α) (name setting : String)
    (env : String → Option String) (outer inner : Words) : Except Refusal (Option α) := do
  let innerValue ← levelValue read? name setting env inner
  let outerValue ← levelValue read? name setting env outer
  if (inner.options.lookup name).isNone && (outer.options.lookup name).isSome then return outerValue
  else return innerValue

/-- The settings that options and environment give. -/
def readConfig (env : String → Option String) (outer inner : Words) : Except Refusal Config := do
  let base : Config := {}
  let heapLimit ← generalValue readSize? heapLimitOption Config.heapLimitName env outer inner
  let depth ← generalValue readSize? maxCallDepthOption Config.maxCallDepthName env outer inner
  let strict ← generalValue readBool? strictOption Config.strictName env outer inner
  return {
    heapLimit := heapLimit.or base.heapLimit
    maxCallDepth := depth.getD base.maxCallDepth
    strict := strict.getD base.strict }

/-- The ways to treat a URI, by name. -/
def uriMode? (name : String) : Option (UriDirection × Uri.Scope) :=
  [("encode", .encode, Uri.Scope.whole), ("decode", .decode, .whole),
    ("encode-component", .encode, .component), ("decode-component", .decode, .component)].lookup name

/-- What follows the name of a command, with options and arguments of its own. -/
def commandLevel (options : List OptionSpec) (arguments : List (String → Bool)) : Level :=
  { options := generalOptions ++ options, arguments, endsAtCommand := false }

/-- What follows the name of a command. -/
def commandLevel? (name : String) : Option Level :=
  let word : Option (String → Bool) := some fun s => (readWord? s).isSome
  [("json", commandLevel [⟨"indent", word⟩] [fun _ => true]),
    ("uri", commandLevel [] [fun s => (uriMode? s).isSome, fun _ => true]),
    ("number", commandLevel [⟨"radix", word⟩] [fun _ => true])].lookup name

/-- The names of commands after which help is given: none, or one that exists. -/
def isHelpTopic : List String → Bool
  | [] => true
  | [name] => name == "help" || (commandLevel? name).isSome
  | _ => false

/-- What a command with its words asks for. -/
def readCommand (name : String) (w : Words) : Except Refusal Command := do
  match name, w.arguments with
  | "json", [input] =>
    match w.options.lookup "indent" with
    | some text => return .json input (← orUsage (readWord? text))
    | none => return .json input 0
  | "uri", [mode, text] =>
    let (direction, extent) ← orUsage (uriMode? mode)
    return .uri direction extent text
  | "number", [text] =>
    match w.options.lookup "radix" with
    | some radix => return .number text (some (← orUsage (readWord? radix)))
    | none => return .number text none
  | _, _ => throw .usage

/-- What a command line asks for. -/
def Invocation.read (env : String → Option String) (words : List String) :
    Except Refusal Invocation := do
  match ← scanWords outerLevel (words.length + 1) words {} with
  | (_, []) => throw .usage
  | (outer, name :: rest) =>
    if name == "help" then throw (if isHelpTopic rest then .help else .usage)
    let level ← orUsage (commandLevel? name)
    let (inner, _) ← scanWords level (rest.length + 1) rest {}
    let command ← readCommand name inner
    let config ← readConfig env outer inner
    return { config, command }

end CommandLine

end Ecma51
