import ClosureReady.Text.Position

/-!
Tokens: what the passes edit.  A token knows its text, where it stood in the source and where it is
to be printed, and keeps its identity through every edit.
-/

set_option autoImplicit false
set_option relaxedAutoImplicit false

namespace ClosureReady

/-- The lexical classes of tokens.  `resolved` is an identifier that already stands for its
replacement and is not looked at again. -/
inductive TokenKind
  | keyword
  | identifier
  | punctuator
  | numeric
  | string
  | regularExpression
  | template
  | boolean
  | null
  | blockComment
  | lineComment
  | resolved
  deriving DecidableEq, Repr, Inhabited

/-- A token.  The value of a comment leaves out its delimiters; every other value is source text
until a pass changes it. -/
structure Token where
  id : Nat
  kind : TokenKind
  value : String
  span : Span
  region : Region
  deriving DecidableEq, Repr, Inhabited

namespace Token

/-- The line the token starts on. -/
def line (t : Token) : Nat := t.region.start.line

/-- The column the token starts at. -/
def column (t : Token) : Nat := t.region.start.column

/-- Whether the token starts and ends on one line. -/
def isSingleLine (t : Token) : Bool := t.region.start.line == t.region.stop.line

/-- Whether the token is the punctuator with the given text. -/
def isPunctuator (t : Token) (text : String) : Bool :=
  t.kind == .punctuator && t.value == text

/-- Whether the token is the keyword with the given text. -/
def isKeyword (t : Token) (text : String) : Bool :=
  t.kind == .keyword && t.value == text

/-- Whether the token is the identifier with the given name. -/
def isIdentifier (t : Token) (name : String) : Bool :=
  t.kind == .identifier && t.value == name

/-- The token with another text. -/
def withValue (t : Token) (value : String) : Token := { t with value }

/-- Subtraction that fails rather than going below zero. -/
def checkedSub (a b : Nat) : Option Nat :=
  if b ≤ a then some (a - b) else none

/-- Moves a token left on its line by a number of columns.  The end follows only when it is on the
same line.  Fails when a column would go below zero. -/
def shiftColumns? (t : Token) (columns : Nat) : Option Token :=
  match checkedSub t.region.start.column columns with
  | none => none
  | some startColumn =>
    let start : Position := ⟨t.region.start.line, startColumn⟩
    if t.isSingleLine then
      match checkedSub t.region.stop.column columns with
      | none => none
      | some stopColumn => some { t with region := ⟨start, ⟨t.region.stop.line, stopColumn⟩⟩ }
    else some { t with region := ⟨start, t.region.stop⟩ }

/-- Moves the source span of a token towards the start of the text.  Fails when an offset would go
below zero. -/
def shiftBytes? (t : Token) (bytes : Nat) : Option Token :=
  match checkedSub t.span.start bytes, checkedSub t.span.stop bytes with
  | some start, some stop => some { t with span := ⟨start, stop⟩ }
  | _, _ => none

end Token

end ClosureReady
