import Ecma51.CommandLine.Perform

/-!
# The program

Reads the command line, the environment and the file that a command names, and ends as the command
does.
-/

namespace Ecma51

namespace CommandLine

/-- All of standard input from here on. -/
partial def readAll (stream : IO.FS.Stream) (acc : String) : IO String := do
  let line ← stream.getLine
  if line.isEmpty then return acc else readAll stream (acc ++ line)

/-- The content of a file, or of standard input for a dash; none if it cannot be read. -/
def readContent (name : String) : IO (Option String) := do
  try
    if name == "-" then return some (← readAll (← IO.getStdin) "")
    else return some (← IO.FS.readFile name)
  catch _ => return none

/-- The settings in the environment. -/
def readEnvironment : IO (List (String × String)) := do
  let names := [Config.heapLimitName, Config.maxCallDepthName, Config.strictName]
  let values ← names.mapM fun name => return (name, ← IO.getEnv name)
  return values.filterMap fun (name, value) => value.map (name, ·)

/-- Reports how the process ends. -/
def report (e : Ending) : IO UInt32 := do
  IO.print e.output
  match e.complaint with
  | some c => IO.eprintln c
  | none => pure ()
  return e.code.toUInt32

end CommandLine

end Ecma51

open Ecma51.CommandLine in
/-- Runs the command that the command line asks for. -/
def main (args : List String) : IO UInt32 := do
  let env ← readEnvironment
  match Invocation.read (fun name => env.lookup name) args with
  | .error r => report r.finish
  | .ok i =>
    match i.command.input? with
    | none => report (i.finish none)
    | some name => report (i.finish (← readContent name))
