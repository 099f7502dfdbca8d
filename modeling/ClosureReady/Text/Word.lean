import ClosureReady.Text.Letter
import ClosureReady.Text.Mark
import ClosureReady.Text.Number

/-!
Which characters make up a word.  Tokens are split by the Alphabetic and numeric properties
(`isWordStart`, `isWordPart`); the grammar reads names by the identifier properties
(`isNameStart`, `isNamePart`).  The two differ on a few characters, such as the middle dot.
-/

set_option autoImplicit false
set_option relaxedAutoImplicit false

namespace ClosureReady.Text

/-- Circled and squared letters, which are symbols and yet count as alphabetic. -/
def letterSymbolRanges : List CodeRange :=
  [(0x24b6, 0x24e9), (0x1f130, 0x1f149), (0x1f150, 0x1f169), (0x1f170, 0x1f189)]

/-- The Alphabetic property. -/
def isAlphabetic (c : Char) : Bool :=
  isLetter c || isAlphabeticMark c || inRanges letterSymbolRanges c

/-- A decimal digit, letter number or other number. -/
def isNumeric (c : Char) : Bool :=
  isDecimalDigit c || isOtherNumber c

/-- A character that opens a word when the text is split into tokens. -/
def isWordStart (c : Char) : Bool :=
  c == '$' || c == '_' || isAlphabetic c

/-- The zero width non-joiner and joiner, which may stand inside a word. -/
def isJoiner (c : Char) : Bool :=
  c == '\u200c' || c == '\u200d'

/-- A character that continues a word when the text is split into tokens. -/
def isWordPart (c : Char) : Bool :=
  isWordStart c || isNumeric c || isJoiner c

/-- Characters that may start a name without being letters. -/
def nameStartExtraRanges : List CodeRange :=
  [(0x1885, 0x1886), (0x2118, 0x2118), (0x212e, 0x212e), (0x309b, 0x309c)]

/-- Characters that may continue a name beside letters, marks and digits: connectors and dots. -/
def namePartExtraRanges : List CodeRange :=
  [(0x5f, 0x5f), (0xb7, 0xb7), (0x387, 0x387), (0x1369, 0x1371), (0x19da, 0x19da),
   (0x200c, 0x200d), (0x203f, 0x2040), (0x2054, 0x2054), (0x30fb, 0x30fb), (0xfe33, 0xfe34),
   (0xfe4d, 0xfe4f), (0xff3f, 0xff3f), (0xff65, 0xff65)]

/-- A character that may start a name of the language.  The vertical tilde is reserved for
patterns. -/
def isNameStart (c : Char) : Bool :=
  c == '$' || c == '_' || (isLetter c && c != '\u2e2f') || inRanges nameStartExtraRanges c

/-- A character that may continue a name of the language. -/
def isNamePart (c : Char) : Bool :=
  isNameStart c || isDecimalDigit c || isMark c || inRanges namePartExtraRanges c

end ClosureReady.Text
