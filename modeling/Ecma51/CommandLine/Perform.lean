import Ecma51.CommandLine.Options
import Ecma51.Number.Radix
import Ecma51.Program

/-!
# Commands

Carrying out what a command line asks for, given what was read from the file that it names.

* `Command.input?`: the file to be read.
* `Command.line`: the line that a command writes.
* `finish`: how the process ends.
-/

namespace Ecma51

namespace CommandLine

/-- How a process ends: its code, what it writes, and what it complains about. -/
structure Ending where
  code : Nat
  output : String := ""
  complaint : Option String := none
  deriving DecidableEq, Repr

/-- The file that a command reads; a dash is standard input. -/
def Command.input? : Command → Option String
  | .json input _ => some input
  | _ => none

/-- A text, or a fault if there is none. -/
def textOr (f : Fault) : Option Text → Run Text
  | some t => return t
  | none => raise f

/-- The text of a number in a base; ten if none is given. -/
def writeNumber (x : Double) (radix : Option Nat) : Run Text := do
  let radix := radix.getD 10
  if radix = 10 then return x.toText
  else if 2 ≤ radix && radix ≤ 36 then return x.toRadix radix
  else raise .badRadix

/-- The line that a command writes, given the content of the file that it reads. -/
def Command.line (c : Command) (content : String) : Run Text := do
  match c with
  | .json _ indent =>
    let v ← parseJson content
    hold v
    let s ← Serializer.ofArguments .undefined (.ofNat indent)
    return (← stringifyJson s v).getD "undefined"
  | .uri .encode extent text => textOr .uriEncode (Uri.encode? extent text)
  | .uri .decode extent text => textOr .badUri (Uri.decode? extent text)
  | .number text radix => writeNumber (.ofText text) radix

/-- What is complained about when nothing handles an exception. -/
def uncaught (shown : String) : Ending :=
  { code := exitFailure, complaint := some ("Uncaught " ++ shown) }

/-- Carries out a command with the content of the file that it reads, if that can be read. -/
def Command.carryOut (c : Command) (content : Option String) (m : Machine) : Ending :=
  match c.input?, content with
  | some name, none => { code := exitFailure, complaint := some ("Error reading '" ++ name ++ "'") }
  | _, content =>
    match (c.line (content.getD "")).perform m with
    | .ok t _ => { code := exitSuccess, output := t.toWellFormed ++ "\n" }
    | .error f m =>
      match (describeFailure f).perform m with
      | .ok shown _ => uncaught shown
      | .error _ _ => uncaught ""

/-- How the process ends that an invocation asks for. -/
def Invocation.finish (i : Invocation) (content : Option String) : Ending :=
  match boot { config := i.config } with
  | .ok _ m => i.command.carryOut content m
  | .error (.fault f) _ => uncaught (f.kind.name ++ ": " ++ f.message)
  | .error _ _ => uncaught ""

/-- The name and version of the program. -/
def versionText : String := "esrt 0.1.0\n"

/-- How the process ends whose command line is refused. -/
def Refusal.finish : Refusal → Ending
  | .usage => { code := 2, complaint := some "error: unknown arguments" }
  | .help => { code := 0 }
  | .version => { code := 0, output := versionText }

end CommandLine

end Ecma51
