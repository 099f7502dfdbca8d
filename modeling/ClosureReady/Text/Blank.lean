import ClosureReady.Text.CodeRange

/-!
White space.  Two classes are needed: the White_Space property of Unicode, which separates tokens,
and the narrower sets by which the language grammar tells blanks from line terminators.
-/

set_option autoImplicit false
set_option relaxedAutoImplicit false

namespace ClosureReady.Text

/-- The characters with the White_Space property. -/
def whiteSpaceRanges : List CodeRange :=
  [(0x9, 0xd), (0x20, 0x20), (0x85, 0x85), (0xa0, 0xa0), (0x1680, 0x1680), (0x2000, 0x200a),
   (0x2028, 0x2029), (0x202f, 0x202f), (0x205f, 0x205f), (0x3000, 0x3000)]

/-- Whether the character has the White_Space property. -/
def isWhiteSpace (c : Char) : Bool :=
  inRanges whiteSpaceRanges c

/-- The byte order mark, which is ignored like white space wherever it stands. -/
def byteOrderMark : Char := '\ufeff'

/-- Whether the character only separates tokens. -/
def isSeparator (c : Char) : Bool :=
  isWhiteSpace c || c == byteOrderMark

/-- The characters that end a line of source text for the grammar. -/
def isLineTerminator (c : Char) : Bool :=
  c == '\n' || c == '\r' || c == '\u2028' || c == '\u2029'

/-- The characters the grammar skips inside a line.  The zero width space is one of them. -/
def inlineBlankRanges : List CodeRange :=
  [(0x9, 0x9), (0xb, 0xc), (0x20, 0x20), (0x85, 0x85), (0xa0, 0xa0), (0x1680, 0x1680),
   (0x2000, 0x200b), (0x202f, 0x202f), (0x205f, 0x205f), (0x3000, 0x3000), (0xfeff, 0xfeff)]

/-- Whether the grammar skips the character without ending a line. -/
def isInlineBlank (c : Char) : Bool :=
  inRanges inlineBlankRanges c

end ClosureReady.Text
