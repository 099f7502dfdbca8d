import ClosureReady.Pass.Workspace

/-!
The third pass: it drops every token that starts on a marked line.
-/

set_option autoImplicit false
set_option relaxedAutoImplicit false

namespace ClosureReady.MarkedLineRemoval

/-- The tokens that do not start on a marked line. -/
def keep (marked : MarkedLines) (s : TokenStream) : TokenStream :=
  s.filter fun t => !marked.contains t.line

/-- Runs the pass. -/
def run (w : Workspace) : Traced PassResult :=
  if w.marked.isEmpty then return ⟨w, false⟩
  else
    let kept := keep w.marked w.stream
    let removed := w.stream.length - kept.length
    ⟨[.markedLinesRemoved removed], .ok ⟨{ w with stream := kept }, decide (0 < removed)⟩⟩

end ClosureReady.MarkedLineRemoval
