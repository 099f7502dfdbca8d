import ClosureReady.Pass.Helper
import ClosureReady.Pass.Workspace

/-!
The first pass: it schedules the lines of every variable statement that declares a helper.  When the
statement starts with other declarators and the helpers stand on later lines only, the first line
stays and its final comma becomes a semicolon.
-/

set_option autoImplicit false
set_option relaxedAutoImplicit false

namespace ClosureReady.HelperDeclarations

/-- Whether a node declares a helper. -/
def declaresHelper (n : SyntaxNode) : Bool := n.declaredNames.any isInjectedHelper

/-- Whether an identifier of the given tokens is the name of a helper. -/
def namesHelper (tokens : List Token) : Bool :=
  tokens.any fun t => t.kind == .identifier && isInjectedHelper t.value

/-- The stream and marked lines after a declaration was dealt with, and the lines scheduled. -/
structure Marking where
  stream : TokenStream
  marked : MarkedLines
  startLine : Nat
  stopLine : Nat
  deriving DecidableEq, Repr, Inhabited

/-- Ends the first line of a declaration: its last token, a comma, becomes a semicolon. -/
def closeFirstLine (stream : TokenStream) (line : Nat) : Except Fault TokenStream :=
  let range := stream.lineRange line
  if range.start < range.stop then
    match stream[range.stop - 1]? with
    | some t =>
      if t.isPunctuator "," then .ok (stream.modify (range.stop - 1) (·.withValue ";"))
      else .error (.malformedDeclaration line t.value)
    | none => .error (.malformedDeclaration line "")
  else .error (.malformedDeclaration line "")

/-- Whether the first line of a declaration stays: it ends on a later line and the first line names
no helper. -/
def keepsFirstLine (stream : TokenStream) (startLine stopLine : Nat) : Bool :=
  let range := stream.lineRange startLine
  decide (startLine < stopLine) && !namesHelper ((stream.take range.stop).drop range.start)

/-- Schedules the lines of one declaration. -/
def markDeclaration (n : SyntaxNode) (stream : TokenStream) (marked : MarkedLines) :
    Except Fault Marking :=
  let startLine := n.region.start.line
  let stopLine := n.region.stop.line
  if keepsFirstLine stream startLine stopLine then
    match closeFirstLine stream startLine with
    | .error fault => .error fault
    | .ok stream =>
      .ok ⟨stream, marked.markRange (startLine + 1) stopLine, startLine + 1, stopLine⟩
  else .ok ⟨stream, marked.markRange startLine stopLine, startLine, stopLine⟩

/-- The state of the walk through the tree. -/
structure Sweep where
  stream : TokenStream
  marked : MarkedLines
  modified : Bool
  notices : List Notice
  fault : Option Fault
  deriving Repr, Inhabited

/-- Deals with one node; the first declaration that is not in order ends the walk. -/
def visit (s : Sweep) (n : SyntaxNode) : Step Sweep :=
  if declaresHelper n then
    match markDeclaration n s.stream s.marked with
    | .error fault => .halt { s with fault := some fault }
    | .ok m =>
      .proceed
        { stream := m.stream
          marked := m.marked
          modified := true
          notices := s.notices ++ [.declarationMarked m.startLine m.stopLine]
          fault := s.fault }
  else .proceed s

/-- Runs the pass. -/
def run (w : Workspace) : Traced PassResult :=
  let s := (w.tree.walk visit ⟨w.stream, w.marked, false, [], none⟩).state
  match s.fault with
  | some fault => ⟨s.notices, .error fault⟩
  | none => ⟨s.notices, .ok ⟨{ w with stream := s.stream, marked := s.marked }, s.modified⟩⟩

end ClosureReady.HelperDeclarations
