import ClosureReady.Notice

/-!
Which notices are logged.  A filter is a list of directives; for each notice the directive with the
longest matching target decides.
-/

set_option autoImplicit false
set_option relaxedAutoImplicit false

namespace ClosureReady.CommandLine

/-- Lets notices up to a severity pass, from all parts of the program whose name starts so.  Without
a severity it lets none pass. -/
structure Directive where
  target : String
  limit : Option Severity
  deriving DecidableEq, Repr, Inhabited

/-- Directives in the order in which they were given. -/
abbrev LogFilter := List Directive

/-- A severity, or the word for none, by its name in small letters. -/
def limitOfName? (name : String) : Option (Option Severity) :=
  match name with
  | "off" | "0" => some none
  | "error" | "1" => some (some .error)
  | "warn" | "2" => some (some .warn)
  | "info" | "3" => some (some .info)
  | "debug" | "4" => some (some .debug)
  | "trace" | "5" => some (some .trace)
  | _ => none

/-- Reads one directive: a severity for all targets, a target with its severity, or a target from
which everything passes. -/
def Directive.parse? (text : List Char) : Option Directive :=
  let first := String.ofList (text.takeWhile (· != '='))
  match text.dropWhile (· != '=') with
  | [] =>
    if text.isEmpty then none
    else
      match limitOfName? first.toLower with
      | some limit => some ⟨"", limit⟩
      | none => some ⟨first, some .trace⟩
  | _ :: level => (limitOfName? (String.ofList level).toLower).map (⟨first, ·⟩)

/-- Cuts a text at commas. -/
def splitAtCommas (part : List Char) : List Char → List (List Char)
  | [] => [part.reverse]
  | c :: rest =>
    if c == ',' then part.reverse :: splitAtCommas [] rest else splitAtCommas (c :: part) rest

namespace LogFilter

/-- Reads a filter; parts that are not in order are left out.  Without any directive, only errors
pass. -/
def parse (text : String) : LogFilter :=
  match (splitAtCommas [] text.toList).filterMap Directive.parse? with
  | [] => [⟨"", some .error⟩]
  | directives => directives

/-- Of two directives that match, the one with the longer target; of equal ones the later. -/
def moreSpecific (a : Option Directive) (b : Directive) : Option Directive :=
  match a with
  | none => some b
  | some a => if a.target.length ≤ b.target.length then some b else some a

/-- Whether a notice is logged. -/
def passes (f : LogFilter) (n : Notice) : Bool :=
  let matching := f.filter fun d => d.target.toList.isPrefixOf n.target.toList
  match matching.foldl moreSpecific none with
  | none => false
  | some d =>
    match d.limit with
    | none => false
    | some limit => decide (n.severity.rank ≤ limit.rank)

end LogFilter

end ClosureReady.CommandLine
