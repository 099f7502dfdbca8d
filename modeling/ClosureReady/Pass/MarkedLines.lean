/-!
The lines scheduled for deletion, as an ascending list without repetition.  The set only grows.
-/

set_option autoImplicit false
set_option relaxedAutoImplicit false

namespace ClosureReady

/-- A set of line numbers, ascending. -/
structure MarkedLines where
  lines : List Nat
  deriving DecidableEq, Repr, Inhabited

namespace MarkedLines

/-- No line. -/
def empty : MarkedLines := ⟨[]⟩

/-- Inserts a number into an ascending list unless it is there. -/
def insertLine (line : Nat) : List Nat → List Nat
  | [] => [line]
  | l :: ls =>
    if line < l then line :: l :: ls
    else if line = l then l :: ls
    else l :: insertLine line ls

/-- Marks a line.  There is no line zero. -/
def mark (m : MarkedLines) (line : Nat) : MarkedLines :=
  if line = 0 then m else ⟨insertLine line m.lines⟩

/-- Marks all lines from the first to the last. -/
def markRange (m : MarkedLines) (first last : Nat) : MarkedLines :=
  (List.range' first (last + 1 - first)).foldl mark m

/-- Whether a line is marked. -/
def contains (m : MarkedLines) (line : Nat) : Bool := m.lines.contains line

/-- Whether no line is marked. -/
def isEmpty (m : MarkedLines) : Bool := m.lines.isEmpty

/-- The marked lines up to a bound, ascending. -/
def upTo (m : MarkedLines) (bound : Nat) : List Nat :=
  m.lines.filter fun line => decide (line ≤ bound)

end MarkedLines

end ClosureReady
