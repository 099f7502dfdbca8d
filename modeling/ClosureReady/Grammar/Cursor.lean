import ClosureReady.Text.Blank
import ClosureReady.Text.Position

/-!
Reading a program text from left to right.  A `Cursor` is what remains of the text together with its
byte offset.  Between two lexemes stand blanks, line breaks and comments: a `Gap`.
-/

set_option autoImplicit false
set_option relaxedAutoImplicit false

namespace ClosureReady.Grammar

/-- The rest of a text and the byte offset at which it starts. -/
structure Cursor where
  rest : List Char
  offset : Nat
  deriving DecidableEq, Repr, Inhabited

/-- Moves past the characters with a property. -/
def dropWhileFrom (p : Char → Bool) : List Char → Nat → Cursor
  | [], offset => ⟨[], offset⟩
  | c :: rest, offset =>
    if p c then dropWhileFrom p rest (offset + c.utf8Size) else ⟨c :: rest, offset⟩

/-- Moves past the characters with a property. -/
def Cursor.dropWhile (p : Char → Bool) (cur : Cursor) : Cursor :=
  dropWhileFrom p cur.rest cur.offset

/-- What is between two lexemes: where the next lexeme starts, whether a line ended on the way, and
the comments, last one first. -/
structure Gap where
  cursor : Cursor
  newline : Bool
  comments : List Span
  deriving DecidableEq, Repr, Inhabited

/-- What the reader is inside of while it passes a gap.  A comment knows where it started. -/
inductive GapState
  | between
  | lineComment (start : Nat)
  | blockComment (start : Nat)
  deriving DecidableEq, Repr, Inhabited

/-- Passes blanks and comments up to the next lexeme or the end of the text.  In a script, the
markup comment signs start line comments too, the closing one only where a line starts.  Fails on a
block comment without end. -/
def passGap (script : Bool) :
    GapState → (newline : Bool) → List Span → (offset : Nat) → List Char → Option Gap
  | .between, newline, comments, offset, [] => some ⟨⟨[], offset⟩, newline, comments⟩
  | .lineComment start, newline, comments, offset, [] =>
    some ⟨⟨[], offset⟩, newline, ⟨start, offset⟩ :: comments⟩
  | .blockComment _, _, _, _, [] => none
  | .lineComment start, newline, comments, offset, c :: rest =>
    if Text.isLineTerminator c then
      passGap script .between true (⟨start, offset⟩ :: comments) (offset + c.utf8Size) rest
    else passGap script (.lineComment start) newline comments (offset + c.utf8Size) rest
  | .blockComment start, newline, comments, offset, c :: rest =>
    match c, rest with
    | '*', '/' :: rest =>
      passGap script .between newline (⟨start, offset + 2⟩ :: comments) (offset + 2) rest
    | c, rest =>
      passGap script (.blockComment start) (newline || Text.isLineTerminator c) comments
        (offset + c.utf8Size) rest
  | .between, newline, comments, offset, c :: rest =>
    if Text.isLineTerminator c then
      passGap script .between true comments (offset + c.utf8Size) rest
    else if Text.isInlineBlank c then
      passGap script .between newline comments (offset + c.utf8Size) rest
    else
      match c, rest with
      | '/', '/' :: rest => passGap script (.lineComment offset) newline comments (offset + 2) rest
      | '/', '*' :: rest => passGap script (.blockComment offset) newline comments (offset + 2) rest
      | '<', '!' :: '-' :: '-' :: rest =>
        if script then passGap script (.lineComment offset) newline comments (offset + 4) rest
        else some ⟨⟨'<' :: '!' :: '-' :: '-' :: rest, offset⟩, newline, comments⟩
      | '-', '-' :: '>' :: rest =>
        if script && newline then
          passGap script (.lineComment offset) newline comments (offset + 3) rest
        else some ⟨⟨'-' :: '-' :: '>' :: rest, offset⟩, newline, comments⟩
      | c, rest => some ⟨⟨c :: rest, offset⟩, newline, comments⟩

/-- The gap at a cursor.  `lineStart` says whether the cursor itself counts as the start of a
line. -/
def Cursor.gap (script lineStart : Bool) (cur : Cursor) : Option Gap :=
  passGap script .between lineStart [] cur.offset cur.rest

/-- Where the program starts: after the line that names an interpreter, if there is one. -/
def Cursor.start (text : List Char) : Cursor :=
  match text with
  | '#' :: '!' :: rest => dropWhileFrom (fun c => !Text.isLineTerminator c) rest 2
  | text => ⟨text, 0⟩

end ClosureReady.Grammar
