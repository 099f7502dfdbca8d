import ClosureReady.Fault

/-!
Notices: what a run reports about its progress.  A `Traced` computation keeps the notices given so
far, also when it fails.
-/

set_option autoImplicit false
set_option relaxedAutoImplicit false

namespace ClosureReady

/-- How much a notice matters, most important first. -/
inductive Severity
  | error
  | warn
  | info
  | debug
  | trace
  deriving DecidableEq, Repr, Inhabited

namespace Severity

/-- Ranks severities: the more important, the smaller. -/
def rank : Severity → Nat
  | error => 1
  | warn => 2
  | info => 3
  | debug => 4
  | trace => 5

/-- The label in front of a notice. -/
def label : Severity → String
  | error => "ERROR"
  | warn => "WARN"
  | info => "INFO"
  | debug => "DEBUG"
  | trace => "TRACE"

end Severity

/-- What the passes and the command line report. -/
inductive Notice
  | sourceLeftAlone
  | passModified (pass : String)
  | declarationMarked (startLine stopLine : Nat)
  | wrapperMissing (className : String) (line : Nat)
  | constructorMoved (className : String)
  | classUnwrapped (className pathBefore parent : String)
  | markedLinesRemoved (count : Nat)
  | helperAliased (helper : String) (line : Nat)
  | fixing (path : String)
  | nothingToFix (path : String)
  | saved (path : String)
  | readFailed (path cause : String)
  | writeFailed (path cause : String)
  | failed (fault : Fault)
  deriving DecidableEq, Repr, Inhabited

namespace Notice

/-- The severity of a notice. -/
def severity : Notice → Severity
  | wrapperMissing .. => .warn
  | fixing _ | nothingToFix _ | saved _ => .info
  | readFailed .. | writeFailed .. | failed _ => .error
  | _ => .debug

/-- The part of the program a notice comes from. -/
def target : Notice → String
  | sourceLeftAlone | passModified _ => "coffee2closure_rs"
  | declarationMarked .. => "coffee2closure_rs::transforms::remove_injected_helpers"
  | wrapperMissing .. | constructorMoved _ | classUnwrapped .. =>
    "coffee2closure_rs::transforms::unwrap_class_declarations"
  | markedLinesRemoved _ => "coffee2closure_rs::transforms::remove_marked_lines"
  | helperAliased .. => "coffee2closure_rs::transforms::alias_injected_helpers"
  | _ => "coffee2closure"

/-- The text of a notice with its fields. -/
def text : Notice → String
  | sourceLeftAlone => "source uses `exports`, leaving it untouched"
  | passModified pass => "modified transform=\"" ++ pass ++ "\""
  | declarationMarked startLine stopLine =>
    "removing injected helper declaration start_line=" ++ toString startLine ++
      " end_line=" ++ toString stopLine
  | wrapperMissing className line =>
    "no class wrapper around constructor, skipping class=" ++ className ++
      " line=" ++ toString line
  | constructorMoved className =>
    "moving constructor to the top of the class body class=" ++ className
  | classUnwrapped className pathBefore parent =>
    "unwrapped class declaration class=" ++ className ++ " namespace=" ++ pathBefore ++
      " parent=" ++ parent
  | markedLinesRemoved count => "removed tokens on marked lines removed=" ++ toString count
  | helperAliased helper line =>
    "aliasing injected helper helper=\"" ++ helper ++ "\" line=" ++ toString line
  | fixing path => "Fixing " ++ path ++ "..."
  | nothingToFix path => "Nothing to fix in " ++ path
  | saved path => "Saved " ++ path
  | readFailed path cause => "Failed to read " ++ path ++ ": " ++ cause
  | writeFailed path cause => "Failed to write " ++ path ++ ": " ++ cause
  | failed fault => fault.message

/-- The line a notice is logged as. -/
def render (n : Notice) : String :=
  n.severity.label ++ " " ++ n.target ++ ": " ++ n.text

end Notice

/-- A result together with the notices given on the way to it, in order. -/
structure Traced (α : Type) where
  notices : List Notice
  outcome : Except Fault α

namespace Traced

variable {α β : Type}

/-- A result without notices. -/
def pure (a : α) : Traced α := ⟨[], .ok a⟩

/-- Goes on from a result; the notices of both parts are kept in order. -/
def bind (t : Traced α) (next : α → Traced β) : Traced β :=
  match t.outcome with
  | .error fault => ⟨t.notices, .error fault⟩
  | .ok a =>
    let u := next a
    ⟨t.notices ++ u.notices, u.outcome⟩

instance : Monad Traced where
  pure := pure
  bind := bind

/-- Gives one notice. -/
def tell (n : Notice) : Traced Unit := ⟨[n], .ok ()⟩

/-- Fails for the given cause. -/
def fail (fault : Fault) : Traced α := ⟨[], .error fault⟩

/-- Takes over a result that was found without notices. -/
def ofExcept (r : Except Fault α) : Traced α := ⟨[], r⟩

/-- Takes over the result of an edit; an edit that is not possible breaks the layout. -/
def ofEdit (r : Option α) : Traced α :=
  match r with
  | some a => ⟨[], .ok a⟩
  | none => ⟨[], .error .brokenLayout⟩

end Traced

end ClosureReady
