import ClosureReady.Pass.ClassWrapper
import ClosureReady.Pass.HelperDeclarations
import ClosureReady.Pass.HelperUses
import ClosureReady.Pass.MarkedLineRemoval
import ClosureReady.Source
import ClosureReady.Token.Print

/-!
The whole way from a source to the fixed code: the four passes in order, the printing, and the lines
put in front of the result.
-/

set_option autoImplicit false
set_option relaxedAutoImplicit false

namespace ClosureReady

/-- The passes. -/
inductive Pass
  | removeInjectedHelpers
  | unwrapClassDeclarations
  | removeMarkedLines
  | aliasInjectedHelpers
  deriving DecidableEq, Repr, Inhabited

namespace Pass

/-- The passes in the order in which a source goes through them. -/
def all : List Pass :=
  [removeInjectedHelpers, unwrapClassDeclarations, removeMarkedLines, aliasInjectedHelpers]

/-- The name a pass is reported under. -/
def name : Pass → String
  | removeInjectedHelpers => "removeInjectedHelpers"
  | unwrapClassDeclarations => "unwrapClassDeclarations"
  | removeMarkedLines => "removeMarkedLines"
  | aliasInjectedHelpers => "aliasInjectedHelpers"

/-- Runs a pass. -/
def run : Pass → Workspace → Traced PassResult
  | removeInjectedHelpers => HelperDeclarations.run
  | unwrapClassDeclarations => ClassWrapper.run
  | removeMarkedLines => MarkedLineRemoval.run
  | aliasInjectedHelpers => HelperUses.run

/-- Runs passes one after the other on one workspace and reports each that changed something. -/
def runAll (r : PassResult) : List Pass → Traced PassResult
  | [] => return r
  | p :: ps => do
    let next ← p.run r.workspace
    if next.modified then Traced.tell (.passModified p.name)
    runAll ⟨next.workspace, r.modified || next.modified⟩ ps

end Pass

/-- How a source is to be fixed. -/
structure FixOptions where
  /-- Whether the result starts with the banner. -/
  header : Bool := true
  mode : Grammar.Mode := .script
  deriving DecidableEq, Repr, Inhabited

/-- The fixed code and what was done. -/
structure FixResult where
  modified : Bool
  requiresArrayLibrary : Bool
  code : String
  deriving DecidableEq, Repr, Inhabited

/-- The version of the program. -/
def version : String := "0.1.0"

/-- The first line of the result, unless it is turned off. -/
def generatedByBanner : String := "// Generated by coffee2closure-rs " ++ version

/-- The import put above the code when it uses the array library. -/
def arrayLibraryRequire : String := "goog.require('goog.array');"

/-- The identifier whose presence marks a module that is left alone. -/
def moduleMarker : String := "exports"

/-- Whether a source is left alone. -/
def isLeftAlone (tokens : List Token) : Bool := tokens.any (·.isIdentifier moduleMarker)

/-- The printed code with the final line break of the source and the lines in front of it. -/
def assemble (options : FixOptions) (source : String) (w : Workspace) : String :=
  let code := w.stream.print
  let code := if source.toList.getLast? = some '\n' ∧ code ≠ "" then code ++ "\n" else code
  let code := if w.requiresArrayLibrary then arrayLibraryRequire ++ "\n" ++ code else code
  if options.header then generatedByBanner ++ "\n" ++ code else code

/-- Fixes a source. -/
def fix (options : FixOptions) (source : String) : Traced FixResult := do
  let parsed ← Traced.ofExcept (ParsedSource.parse options.mode source)
  if isLeftAlone parsed.tokens then
    Traced.tell .sourceLeftAlone
    return ⟨false, false, source⟩
  let r ← Pass.runAll ⟨.start parsed.tree parsed.stream, false⟩ Pass.all
  return ⟨r.modified, r.workspace.requiresArrayLibrary, assemble options source r.workspace⟩

/-- Fixes a source and answers only its code. -/
def fixCode (options : FixOptions) (source : String) : Except Fault String :=
  (fix options source).outcome.map (·.code)

end ClosureReady
