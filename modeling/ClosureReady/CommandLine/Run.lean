import ClosureReady.CommandLine.Arguments
import ClosureReady.CommandLine.FileSystem
import ClosureReady.CommandLine.LogFilter
import ClosureReady.Pipeline

/-!
A run of the program: from arguments, environment and files to exit code, standard output, log and
files.  What is done between reading the input and writing the result is a `Plan`, so that the same
decisions serve a simulated and a real file system.
-/

set_option autoImplicit false
set_option relaxedAutoImplicit false

namespace ClosureReady.CommandLine

/-- The variables of the environment that choose what is logged. -/
structure Environment where
  /-- The filter of this program. -/
  ownLog : Option String
  /-- The filter shared with other programs. -/
  sharedLog : Option String
  deriving DecidableEq, Repr, Inhabited

/-- The name of the variable with the filter of this program. -/
def ownLogVariable : String := "COFFEE2CLOSURE_LOG"

/-- The name of the variable with the filter shared with other programs. -/
def sharedLogVariable : String := "RUST_LOG"

/-- The filter of a run.  The environment comes before the flags. -/
def chooseFilter (env : Environment) (inv : Invocation) : LogFilter :=
  match env.ownLog, env.sharedLog with
  | some text, _ => .parse text
  | none, some text => .parse text
  | none, none => .parse (if inv.verbose then "debug" else if inv.quiet then "error" else "info")

/-- The path a result is written to. -/
def resolveOutput (input value : String) : String :=
  if value == "" then besideInput input else value

/-- What is left to do once the input has been dealt with. -/
inductive Action
  | stop (exit : Nat)
  | print (text : String)
  | save (path text : String)
  deriving DecidableEq, Repr, Inhabited

/-- What a run is going to do, and what it has reported so far. -/
structure Plan where
  notices : List Notice
  action : Action
  deriving DecidableEq, Repr, Inhabited

/-- The exit code after a failure that was reported. -/
def failureExit : Nat := 1

/-- The exit code for arguments that are not in order. -/
def usageExit : Nat := 2

/-- The exit code when a run was broken off. -/
def abortExit : Nat := 101

/-- The text of a file, if it is text. -/
def decode (content : ByteArray) : Except FileError String :=
  match String.fromUTF8? content with
  | some text => .ok text
  | none => .error .notText

/-- Decides what to do with the result of fixing. -/
def planResult (inv : Invocation) (result : FixResult) : Action :=
  match inv.output with
  | none => .print result.code
  | some value => .save (resolveOutput inv.input value) result.code

/-- Fixes the input and decides what to do with it. -/
def plan (inv : Invocation) (input : Except FileError ByteArray) : Plan :=
  match input.bind decode with
  | .error e => ⟨[.readFailed inv.input e.message], .stop failureExit⟩
  | .ok source =>
    let fixed := fix { header := !inv.noHeader } source
    let before := Notice.fixing inv.input :: fixed.notices
    match fixed.outcome with
    | .error .brokenLayout => ⟨before, .stop abortExit⟩
    | .error fault => ⟨before ++ [.failed fault], .stop failureExit⟩
    | .ok result =>
      let untouched := if result.modified then [] else [Notice.nothingToFix inv.input]
      ⟨before ++ untouched, planResult inv result⟩

/-- The notice after writing a file. -/
def saveNotice (path : String) (error : Option FileError) : Notice :=
  match error with
  | none => .saved path
  | some e => .writeFailed path e.message

/-- What a run leaves behind. -/
structure Report where
  exit : Nat
  stdout : String
  log : List String
  files : FileSystem

/-- Carries out a plan. -/
def carryOut (p : Plan) (fs : FileSystem) : Nat × String × List Notice × FileSystem :=
  match p.action with
  | .stop exit => (exit, "", p.notices, fs)
  | .print text => (0, text, p.notices, fs)
  | .save path text =>
    match fs.write path text.toUTF8 with
    | .ok fs => (0, "", p.notices ++ [saveNotice path none], fs)
    | .error e => (failureExit, "", p.notices ++ [saveNotice path (some e)], fs)

/-- The log lines of the notices that pass a filter. -/
def logLines (f : LogFilter) (notices : List Notice) : List String :=
  (notices.filter f.passes).map Notice.render

/-- Runs the program. -/
def run (arguments : List String) (env : Environment) (fs : FileSystem) : Report :=
  match Invocation.ofArguments? arguments with
  | none => ⟨usageExit, "", [], fs⟩
  | some inv =>
    let (exit, stdout, notices, files) := carryOut (plan inv (fs.read inv.input)) fs
    ⟨exit, stdout, logLines (chooseFilter env inv) notices, files⟩

end ClosureReady.CommandLine
