/-!
Places in a text.  A `LineIndex` cuts a text into lines once and then turns byte offsets into line
and column.  Lines are counted from one and end with a line feed; columns are counted from zero, in
characters and not in bytes.
-/

set_option autoImplicit false
set_option relaxedAutoImplicit false

namespace ClosureReady

/-- A place in a text: a line counted from one and a column counted from zero. -/
structure Position where
  line : Nat
  column : Nat
  deriving DecidableEq, Repr, Inhabited

/-- A stretch of text by the places of its two ends. -/
structure Region where
  start : Position
  stop : Position
  deriving DecidableEq, Repr, Inhabited

/-- A stretch of text by the byte offsets of its two ends. -/
structure Span where
  start : Nat
  stop : Nat
  deriving DecidableEq, Repr, Inhabited

namespace Text

/-- The number of bytes the characters take in UTF-8. -/
def byteLength : List Char → Nat
  | [] => 0
  | c :: cs => c.utf8Size + byteLength cs

/-- The number of characters before a byte offset, or nothing when the offset lies inside a
character or past the end. -/
def charactersBefore : List Char → Nat → Option Nat
  | [], offset => if offset = 0 then some 0 else none
  | c :: cs, offset =>
    if offset = 0 then some 0
    else if c.utf8Size ≤ offset then (charactersBefore cs (offset - c.utf8Size)).map (· + 1)
    else none

/-- Cuts a text after each line feed.  There is always a last line, which holds no line feed and
may be empty. -/
def splitLines : List Char → List (List Char)
  | [] => [[]]
  | c :: cs =>
    if c = '\n' then [c] :: splitLines cs
    else
      match splitLines cs with
      | [] => [[c]]
      | line :: lines => (c :: line) :: lines

/-- A line of text and the byte offset at which it starts. -/
structure Line where
  start : Nat
  text : List Char
  deriving DecidableEq, Repr, Inhabited

/-- Gives each line the byte offset it starts at. -/
def placeLines (start : Nat) : List (List Char) → List Line
  | [] => []
  | line :: lines => ⟨start, line⟩ :: placeLines (start + byteLength line) lines

end Text

/-- The lines of a text with their byte offsets, and the length of the whole text in bytes. -/
structure LineIndex where
  lines : List Text.Line
  size : Nat
  deriving DecidableEq, Repr, Inhabited

namespace LineIndex

/-- Indexes the lines of a text. -/
def ofChars (text : List Char) : LineIndex :=
  ⟨Text.placeLines 0 (Text.splitLines text), Text.byteLength text⟩

/-- The place of a byte offset.  An offset past the end counts as the end for the column; an offset
inside a character has column zero. -/
def position (index : LineIndex) (offset : Nat) : Position :=
  let reached := index.lines.takeWhile fun line => decide (line.start ≤ offset)
  match reached.getLast? with
  | none => ⟨1, 0⟩
  | some line =>
    ⟨reached.length, (Text.charactersBefore line.text (min offset index.size - line.start)).getD 0⟩

/-- The places of both ends of a span. -/
def region (index : LineIndex) (span : Span) : Region :=
  ⟨index.position span.start, index.position span.stop⟩

end LineIndex

end ClosureReady
