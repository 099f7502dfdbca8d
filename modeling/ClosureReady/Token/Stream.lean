import ClosureReady.Token.Basic

/-!
The token stream that all passes edit.  Code tokens and comments stand in one sequence; each edit
keeps the columns of the edited line in step, and answers nothing when it would reach outside the
stream or push a token past the start of its line.
-/

set_option autoImplicit false
set_option relaxedAutoImplicit false

namespace ClosureReady

/-- The tokens of a source in the order in which they are printed. -/
abbrev TokenStream := List Token

/-- A half-open range of indices into a stream. -/
structure IndexRange where
  start : Nat
  stop : Nat
  deriving DecidableEq, Repr, Inhabited

namespace TokenStream

/-- Inserts a token before the first one that does not start earlier. -/
def insertByStart (t : Token) : List Token → List Token
  | [] => [t]
  | u :: us => if t.span.start ≤ u.span.start then t :: u :: us else u :: insertByStart t us

/-- Merges code tokens and comments into one stream ordered by start offset.  Of two tokens with one
start the code token comes first. -/
def prepare (code comments : List Token) : TokenStream :=
  (code ++ comments).foldr insertByStart []

/-- The index of the token with the given identity. -/
def indexOf? (s : TokenStream) (id : Nat) : Option Nat :=
  s.findIdx? fun t => t.id == id

/-- The tokens that start on the given line, in a stream whose lines ascend. -/
def lineRange (s : TokenStream) (line : Nat) : IndexRange :=
  let start := (s.takeWhile fun t => decide (t.line < line)).length
  ⟨start, start + ((s.drop start).takeWhile fun t => t.line == line).length⟩

/-- The tokens after the given one that start on its line without a gap. -/
def restOfLine? (s : TokenStream) (i : Nat) : Option IndexRange :=
  s[i]?.map fun t =>
    ⟨i + 1, i + 1 + ((s.drop (i + 1)).takeWhile fun u => u.line == t.line).length⟩

/-- Moves every token of a list left by columns and bytes, or fails when one would go too far. -/
def shiftAll? (bytes columns : Nat) : List Token → Option (List Token)
  | [] => some []
  | t :: ts =>
    match (t.shiftBytes? bytes).bind (·.shiftColumns? columns), shiftAll? bytes columns ts with
    | some t, some ts => some (t :: ts)
    | _, _ => none

/-- Removes `count` tokens from `start` on and pulls the rest of the line left by their width.
Fails when the tokens do not exist, when the last one ends left of where the first one starts, or
when a token of the line would be pulled too far. -/
def excise? (s : TokenStream) (start count : Nat) : Option TokenStream :=
  if start + count = 0 then none
  else
    match s[start]?, s[start + count - 1]? with
    | some first, some last =>
      match Token.checkedSub last.span.stop first.span.start,
          Token.checkedSub last.region.stop.column first.region.start.column with
      | some bytes, some columns =>
        let after := s.drop (start + count)
        let onLine := after.takeWhile fun t => t.line == last.line
        (shiftAll? bytes columns onLine).map fun moved =>
          s.take start ++ moved ++ after.drop onLine.length
      | _, _ => none
    | _, _ => none

/-- Moves the tokens of a range so that they stand right before an earlier token.  Fails when the
range is not one of the stream or the target lies after its start. -/
def relocate? (s : TokenStream) (run : IndexRange) (target : Nat) : Option TokenStream :=
  if target ≤ run.start ∧ run.start ≤ run.stop ∧ run.stop ≤ s.length then
    let moved := (s.take run.stop).drop run.start
    some (s.take target ++ moved ++ (s.take run.start).drop target ++ s.drop run.stop)
  else none

/-- Moves the tokens of a list left by columns only, or fails when one would go too far. -/
def shiftColumnsAll? (columns : Nat) : List Token → Option (List Token)
  | [] => some []
  | t :: ts =>
    match t.shiftColumns? columns, shiftColumnsAll? columns ts with
    | some t, some ts => some (t :: ts)
    | _, _ => none

/-- Shifts the tokens from `i` to the end of its line left by up to `unit` columns, as far as the
token at `i` can go.  Fails when there is no such token or a later one cannot follow. -/
def dedentLine? (s : TokenStream) (i unit : Nat) : Option TokenStream :=
  match s[i]? with
  | none => none
  | some t =>
    let columns := min t.column unit
    if columns = 0 then some s
    else
      let count := 1 + ((s.drop (i + 1)).takeWhile fun u => u.line == t.line).length
      (shiftColumnsAll? columns ((s.drop i).take count)).map fun moved =>
        s.take i ++ moved ++ s.drop (i + count)

/-- Replaces the text of the token at an index. -/
def setValue? (s : TokenStream) (i : Nat) (value : String) : Option TokenStream :=
  if i < s.length then some (s.modify i (·.withValue value)) else none

end TokenStream

end ClosureReady
