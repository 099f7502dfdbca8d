/-!
Why a source cannot be fixed.
-/

set_option autoImplicit false
set_option relaxedAutoImplicit false

namespace ClosureReady

/-- The causes of failure. -/
inductive Fault
  /-- The source is no valid program text. -/
  | parseFailed
  /-- A helper declaration shares its first line with other code and that line does not end in a
  comma. -/
  | malformedDeclaration (line : Nat) (found : String)
  /-- The class name in a variable statement is not followed by punctuation. -/
  | malformedVarStatement (line : Nat) (name : String)
  /-- An edit would put a token before the start of its line, or reach outside the stream. -/
  | brokenLayout
  deriving DecidableEq, Repr, Inhabited

namespace Fault

/-- The fault as it is told to the user. -/
def message : Fault → String
  | parseFailed => "Parsing failed: "
  | malformedDeclaration line found =>
    "Expected `,` at the end of line " ++ toString line ++
      " of an injected helper declaration, found `" ++ found ++ "`"
  | malformedVarStatement line name =>
    "Expected punctuation after `" ++ name ++ "` in the var statement on line " ++ toString line
  | brokenLayout => "A token would leave its line"

end Fault

end ClosureReady
