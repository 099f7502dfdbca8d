import ClosureReady.CommandLine.Run

/-!
The program: it carries out a plan on the real files.
-/

set_option autoImplicit false
set_option relaxedAutoImplicit false

open ClosureReady.CommandLine

/-- The cause of a failed file operation. -/
def fileErrorOf : IO.Error → FileError
  | .inappropriateType .. => .isDirectory
  | .unsupportedOperation .. => .isDirectory
  | _ => .notFound

/-- Reads the input. -/
def readInput (path : String) : IO (Except FileError ByteArray) := do
  try
    return .ok (← IO.FS.readBinFile path)
  catch e => return .error (fileErrorOf e)

/-- Writes the result and tells why it failed, if it did. -/
def writeOutput (path text : String) : IO (Option FileError) := do
  try
    IO.FS.writeFile path text
    return none
  catch e => return some (fileErrorOf e)

/-- Logs the notices that pass a filter on standard error. -/
def logAll (f : LogFilter) (notices : List ClosureReady.Notice) : IO Unit :=
  (logLines f notices).forM IO.eprintln

/-- Runs the program on real arguments and files. -/
def main (arguments : List String) : IO UInt32 := do
  match Invocation.ofArguments? arguments with
  | none =>
    IO.eprintln "usage: coffee2closure [-q | -v] [--no-header] [-o [FILE]] INPUT"
    return usageExit.toUInt32
  | some inv =>
    let env : Environment := ⟨← IO.getEnv ownLogVariable, ← IO.getEnv sharedLogVariable⟩
    let f := chooseFilter env inv
    let p := plan inv (← readInput inv.input)
    logAll f p.notices
    match p.action with
    | .stop exit => return exit.toUInt32
    | .print text =>
      IO.print text
      return 0
    | .save path text =>
      let error ← writeOutput path text
      logAll f [saveNotice path error]
      return if error.isSome then failureExit.toUInt32 else 0
