import Ecma51.Library
import Ecma51.Operation.Operator
import Ecma51.Realm

/-!
# Programs

The life of a machine: it is started, global data are prepared, and global code is run, any number of
times, on what earlier code has left behind. What fails is reported as text.

* `boot`: a machine with the whole catalogue installed.
* `prepare`: runs what sets up global data.
* `runEntry`, `runGlobal`: runs global code and gives its result.
* `describeFailure`: the text of an exception.
* `exitCode`: all of this as a process would.
-/

namespace Ecma51

/-! ## 1. Starting -/

/-- A machine with the whole catalogue installed, unless it does not fit. -/
def boot (s : Surroundings) : EStateM.Result Failure Machine Unit :=
  Run.perform installCatalogue (Machine.start s)

/-- Global code made of one tree, whose value is the result. -/
def Code.ofTree (t : Tree) (strict : Bool) : Code :=
  { signature := { parameters := [], bindsArguments := false, strict }, body := [t],
    yieldsValue := true }

/-- Stops with the pending exception. -/
def failPending {α : Type} : Run α := do
  match ← takePending with
  | .nothing => raise .globalCodeFailed
  | v => throw (.thrown v)

/-- Runs what sets up global data, outside of any frame. -/
def prepare (data : Code) : Run Unit := do
  unless ← data.run default do failPending

/-- Counts live objects from those that are alive now. -/
def Machine.rebase (m : Machine) : Machine :=
  let m := m.collect
  { m with baseline := m.heap.size }

/-- Allows so many objects beyond the baseline. -/
def Machine.allowBeyondBaseline (m : Machine) (extra : Nat) : Machine :=
  { m with heapLimit := some (m.baseline + extra), nextCollection := Heap.collectionThreshold }

/-! ## 2. Running -/

/-- Runs an entry on a frame without arguments, whose `this` is the global object. -/
def runEntry (entry : Frame → Run Bool) : Run Value := do
  let m ← get
  let (stack, frame) := m.stack.pushFrame 0 0 .undefined (.object globalObject)
  set { m with stack }
  let succeeded ← entry frame
  let m ← get
  let (stack, result) := m.stack.popFrame frame
  set { m with stack }
  if succeeded then return result else failPending

/-- Runs global code. -/
def runGlobal (code : Code) : Run Value := runEntry code.run

/-- The lines written since the last time, in order; they are forgotten. -/
def Machine.takeOutput (m : Machine) : Machine × List Text :=
  ({ m with output := [] }, m.output.reverse)

/-! ## 3. Reporting -/

/-- The text of an exception; the name of its type if it cannot be converted. -/
def describeFailure (f : Failure) : Run String := do
  let v ← failureValue f
  try
    let t ← toText v
    pure t.toWellFormed
  catch _ =>
    let h ← getHeap
    pure ("<" ++ h.typeName v ++ ">")

/-- The code of a run that succeeded. -/
def exitSuccess : Nat := 0

/-- The code of a run that failed. -/
def exitFailure : Nat := 1

/-- The code with which a process ends that sets up global data and runs global code. -/
def exitCode (s : Surroundings) (data main : Code) : Nat :=
  let run : Run Unit := do
    installCatalogue
    prepare data
    let _ ← runGlobal main
  match run.perform (Machine.start s) with
  | .ok _ _ => exitSuccess
  | .error _ _ => exitFailure

end Ecma51
