import ClosureReady.Text.Blank
import ClosureReady.Text.Word
import ClosureReady.Token.Basic

/-!
Splitting a text into tokens.  The literals and comments are given by their spans, so the splitting
never has to tell a division from a regular expression: a literal is taken whole, a comment is
skipped, and what remains is words, digit runs, punctuators and white space.  The tokens tile the
text up to white space and comments.
-/

set_option autoImplicit false
set_option relaxedAutoImplicit false

namespace ClosureReady

namespace Text

/-- The characters that fill exactly the given number of bytes at the front of a text, or nothing
when no character ends there. -/
def takeBytes : Nat → List Char → Option (List Char)
  | bytes, [] => if bytes = 0 then some [] else none
  | bytes, c :: cs =>
    if bytes = 0 then some []
    else if c.utf8Size ≤ bytes then (takeBytes (bytes - c.utf8Size) cs).map (c :: ·)
    else none

/-- What remains of a text after the given number of bytes, or nothing when no character ends
there. -/
def dropBytes : Nat → List Char → Option (List Char)
  | bytes, [] => if bytes = 0 then some [] else none
  | bytes, c :: cs =>
    if bytes = 0 then some (c :: cs)
    else if c.utf8Size ≤ bytes then dropBytes (bytes - c.utf8Size) cs
    else none

/-- The text of a span, or nothing when the span does not fit the text. -/
def slice (text : List Char) (span : Span) : Option (List Char) :=
  if span.start ≤ span.stop then
    (dropBytes span.start text).bind (takeBytes (span.stop - span.start))
  else none

end Text

/-- The words that are keywords wherever they stand. -/
def keywords : List String :=
  ["break", "case", "catch", "class", "const", "continue", "debugger", "default", "delete", "do",
   "else", "enum", "export", "extends", "finally", "for", "function", "if", "import", "in",
   "instanceof", "new", "return", "super", "switch", "this", "throw", "try", "typeof", "var",
   "void", "while", "with", "yield"]

/-- The punctuators of more than one character, longer ones before their beginnings, so that the
first one found is the longest. -/
def longPunctuators : List (List Char) :=
  [">>>=", "...", "===", "!==", "**=", "<<=", ">>=", ">>>", "&&=", "||=", "??=", "=>", "==", "!=",
   "<=", ">=", "&&", "||", "??", "?.", "++", "--", "+=", "-=", "*=", "/=", "%=", "&=", "|=", "^=",
   "<<", ">>", "**"].map String.toList

/-- The class of a word by its text. -/
def classifyWord (word : String) : TokenKind :=
  if word == "true" || word == "false" then .boolean
  else if word == "null" then .null
  else if keywords.contains word then .keyword
  else .identifier

/-- A literal as it is reported for splitting: where it stands and which class its token has. -/
structure Literal where
  span : Span
  kind : TokenKind
  deriving DecidableEq, Repr, Inhabited

/-- A character that continues a run of digits: a letter or digit of ASCII, a point or an
underscore. -/
def isDigitRunPart (c : Char) : Bool :=
  c.isAlphanum || c == '.' || c == '_'

/-- The token that starts a text whose first character is no separator. -/
def leadingToken (c : Char) (rest : List Char) : TokenKind × List Char :=
  if Text.isWordStart c then
    let word := c :: rest.takeWhile Text.isWordPart
    (classifyWord (String.ofList word), word)
  else if c.isDigit then (.numeric, c :: rest.takeWhile isDigitRunPart)
  else (.punctuator, (longPunctuators.find? fun p => p.isPrefixOf (c :: rest)).getD [c])

/-- What stands at a place of the text: a token, or a stretch that belongs to none. -/
inductive Piece
  | token (kind : TokenKind) (text : List Char)
  | gap (text : List Char)
  deriving DecidableEq, Repr, Inhabited

/-- The piece at the given offset, where the next literal and the next comment are known.  Fails
when a literal or comment does not end at the end of a character. -/
def pieceAt (literal : Option Literal) (comment : Option Span) (offset : Nat) (c : Char)
    (rest : List Char) : Option Piece :=
  match literal.filter (·.span.start == offset) with
  | some l => (Text.takeBytes (l.span.stop - offset) (c :: rest)).map (.token l.kind)
  | none =>
    match comment.filter (·.start == offset) with
    | some s => (Text.takeBytes (s.stop - offset) (c :: rest)).map .gap
    | none =>
      if Text.isSeparator c then some (.gap [c])
      else
        let (kind, text) := leadingToken c rest
        some (.token kind text)

/-- Builds the token of the given class and text at an offset. -/
def placeToken (index : LineIndex) (id : Nat) (kind : TokenKind) (text : List Char)
    (offset : Nat) : Token :=
  let span : Span := ⟨offset, offset + Text.byteLength text⟩
  ⟨id, kind, String.ofList text, span, index.region span⟩

/-- Whether a comment lies behind an offset: it starts earlier, or it is empty there. -/
def isPassed (comment : Span) (offset : Nat) : Bool :=
  decide (comment.start < offset) || (comment.start == offset && comment.stop == offset)

/-- Splits the text from an offset on.  `covered` counts the characters that still belong to the
piece found last; literals and comments that start inside that piece are passed over. -/
def scanFrom (index : LineIndex) (literals : List Literal) (comments : List Span)
    (id offset : Nat) : (covered : Nat) → List Char → Option (List Token)
  | _, [] => some []
  | covered + 1, c :: rest =>
    scanFrom index literals comments id (offset + c.utf8Size) covered rest
  | 0, c :: rest =>
    let literals := literals.dropWhile fun l => decide (l.span.start < offset)
    let comments := comments.dropWhile fun s => isPassed s offset
    match pieceAt literals.head? comments.head? offset c rest with
    | none => none
    | some (.gap text) =>
      scanFrom index literals comments id (offset + c.utf8Size) (text.length - 1) rest
    | some (.token kind text) =>
      (scanFrom index literals comments (id + 1) (offset + c.utf8Size) (text.length - 1) rest).map
        (placeToken index id kind text offset :: ·)

/-- Inserts a literal before the first one that does not start earlier. -/
def insertLiteral (l : Literal) : List Literal → List Literal
  | [] => [l]
  | m :: ms => if l.span.start ≤ m.span.start then l :: m :: ms else m :: insertLiteral l ms

/-- The literals by ascending start; those with one start keep their order. -/
def orderLiterals (literals : List Literal) : List Literal :=
  literals.foldr insertLiteral []

/-- Splits a text into its code tokens, numbered from zero. -/
def scan (index : LineIndex) (literals : List Literal) (comments : List Span)
    (text : List Char) : Option (List Token) :=
  scanFrom index (orderLiterals literals) comments 0 0 0 text

/-- Takes an ending off a text, if it has it. -/
def dropEnding (ending text : List Char) : List Char :=
  if ending.isSuffixOf text then text.take (text.length - ending.length) else text

/-- The class and value of a comment by its full text. -/
def commentParts (text : List Char) : TokenKind × List Char :=
  match text with
  | '/' :: '*' :: rest => (.blockComment, dropEnding ['*', '/'] rest)
  | '/' :: '/' :: rest => (.lineComment, rest)
  | _ => (.lineComment, text)

/-- The token of the comment at a span. -/
def commentToken (index : LineIndex) (text : List Char) (id : Nat) (span : Span) : Option Token :=
  (Text.slice text span).map fun full =>
    let (kind, value) := commentParts full
    ⟨id, kind, String.ofList value, span, index.region span⟩

/-- The tokens of all comments, numbered on from `id`. -/
def commentTokens (index : LineIndex) (text : List Char) : Nat → List Span → Option (List Token)
  | _, [] => some []
  | id, span :: spans =>
    match commentToken index text id span, commentTokens index text (id + 1) spans with
    | some token, some tokens => some (token :: tokens)
    | _, _ => none

end ClosureReady
