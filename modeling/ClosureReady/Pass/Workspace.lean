import ClosureReady.Notice
import ClosureReady.Pass.MarkedLines
import ClosureReady.Token.Stream
import ClosureReady.Tree.Basic

/-!
What the passes of one run share: the tree of the source, the stream they edit, the lines they
schedule for deletion and whether the result needs the array library.
-/

set_option autoImplicit false
set_option relaxedAutoImplicit false

namespace ClosureReady

/-- The state handed from pass to pass. -/
structure Workspace where
  tree : SyntaxNode
  stream : TokenStream
  marked : MarkedLines
  requiresArrayLibrary : Bool
  deriving Repr, Inhabited

/-- The state before the first pass. -/
def Workspace.start (tree : SyntaxNode) (stream : TokenStream) : Workspace :=
  ⟨tree, stream, .empty, false⟩

/-- A workspace after a pass, and whether the pass changed anything. -/
structure PassResult where
  workspace : Workspace
  modified : Bool
  deriving Repr, Inhabited

/-- Columns per level of indentation in the code that is fixed. -/
def indentUnit : Nat := 2

end ClosureReady
