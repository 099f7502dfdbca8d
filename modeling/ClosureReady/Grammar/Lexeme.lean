import ClosureReady.Grammar.Cursor
import ClosureReady.Text.Word
import ClosureReady.Tree.Basic

/-!
The lexemes of the language and how each is read.  Where a slash starts a regular expression and
where a brace goes on with a template depends on the grammar around it, so those two have readers of
their own.
-/

set_option autoImplicit false
set_option relaxedAutoImplicit false

namespace ClosureReady.Grammar

/-- A lexeme.  Words are names and keywords alike, with escapes resolved. -/
inductive Lexeme
  | word (text : String) (escaped : Bool)
  | privateName (text : String)
  | punct (text : String)
  | number (kind : LiteralKind)
  | string
  /-- A piece of a template up to its end (`closed`) or to a substitution. -/
  | template (closed wellFormed : Bool)
  | endOfText
  deriving DecidableEq, Repr, Inhabited

/-- The value of a hexadecimal digit. -/
def hexValue? (c : Char) : Option Nat :=
  if c.isDigit then some (c.toNat - 48)
  else if 'a' ≤ c && c ≤ 'f' then some (c.toNat - 87)
  else if 'A' ≤ c && c ≤ 'F' then some (c.toNat - 55)
  else none

/-- Whether a character is a hexadecimal digit. -/
def isHexDigit (c : Char) : Bool := (hexValue? c).isSome

/-- The largest code point. -/
def lastCodePoint : Nat := 0x10ffff

/-- The code point written in braces, and how many characters were read up to the closing brace.
`value` is that of the digits read so far; there has to be at least one. -/
def bracedCodePoint? (value count : Nat) : List Char → Option (Nat × Nat)
  | [] => none
  | c :: rest =>
    if c == '\x7d' then if count = 0 then none else some (value, count + 1)
    else
      match hexValue? c with
      | none => none
      | some d =>
        if value * 16 + d ≤ lastCodePoint then bracedCodePoint? (value * 16 + d) (count + 1) rest
        else none

/-- The code point of an escape after its `\u`, and how many characters it takes. -/
def unicodeEscape? : List Char → Option (Nat × Nat)
  | '\x7b' :: rest => (bracedCodePoint? 0 0 rest).map fun r => (r.1, r.2 + 1)
  | a :: b :: c :: d :: _ =>
    match hexValue? a, hexValue? b, hexValue? c, hexValue? d with
    | some a, some b, some c, some d => some (((a * 16 + b) * 16 + c) * 16 + d, 4)
    | _, _, _, _ => none
  | _ => none

/-- Whether a text goes on with two hexadecimal digits. -/
def hasTwoHexDigits : List Char → Bool
  | a :: b :: _ => isHexDigit a && isHexDigit b
  | _ => false

/-! ### Names -/

/-- A name as it was read. -/
structure Name where
  text : String
  escaped : Bool
  after : Cursor
  deriving Repr, Inhabited

/-- Reads a name.  `read` holds its characters so far, last one first, and `skip` counts characters
that belong to an escape already resolved.  Fails on an escape that is not allowed there. -/
def nameFrom (escaped : Bool) (read : List Char) :
    (skip : Nat) → List Char → (offset : Nat) → Option Name
  | skip + 1, c :: rest, offset => nameFrom escaped read skip rest (offset + c.utf8Size)
  | _, [], offset =>
    if read.isEmpty then none else some ⟨String.ofList read.reverse, escaped, ⟨[], offset⟩⟩
  | 0, c :: rest, offset =>
    let allowed := if read.isEmpty then Text.isNameStart else Text.isNamePart
    if c == '\\' then
      match rest with
      | 'u' :: code =>
        match unicodeEscape? code with
        | some (value, count) =>
          if value != 0 && allowed (Char.ofNat value) then
            nameFrom true (Char.ofNat value :: read) (count + 1) rest (offset + 1)
          else none
        | none => none
      | _ => none
    else if allowed c then nameFrom escaped (c :: read) 0 rest (offset + c.utf8Size)
    else if read.isEmpty then none
    else some ⟨String.ofList read.reverse, escaped, ⟨c :: rest, offset⟩⟩

/-- The name at a cursor. -/
def Cursor.name? (cur : Cursor) : Option Name := nameFrom false [] 0 cur.rest cur.offset

/-! ### Numbers -/

/-- Passes digits after a first one.  An underscore may stand between two digits only. -/
def digitsFrom (isDigit : Char → Bool) : List Char → Nat → Option Cursor
  | [], offset => some ⟨[], offset⟩
  | c :: rest, offset =>
    if c == '_' then
      match rest with
      | d :: rest => if isDigit d then digitsFrom isDigit rest (offset + 2) else none
      | [] => none
    else if isDigit c then digitsFrom isDigit rest (offset + 1)
    else some ⟨c :: rest, offset⟩

/-- Passes one digit or more. -/
def Cursor.digits? (isDigit : Char → Bool) (cur : Cursor) : Option Cursor :=
  match cur.rest with
  | d :: rest => if isDigit d then digitsFrom isDigit rest (cur.offset + 1) else none
  | [] => none

/-- Passes digits, if there are any. -/
def Cursor.optionalDigits (cur : Cursor) : Option Cursor :=
  match cur.rest with
  | d :: _ => if d.isDigit then cur.digits? Char.isDigit else some cur
  | [] => some cur

/-- Passes the sign and digits of an exponent. -/
def Cursor.exponentDigits (cur : Cursor) : Option Cursor :=
  match cur.rest with
  | '+' :: rest => Cursor.digits? Char.isDigit ⟨rest, cur.offset + 1⟩
  | '-' :: rest => Cursor.digits? Char.isDigit ⟨rest, cur.offset + 1⟩
  | _ => cur.digits? Char.isDigit

/-- Passes an exponent, if there is one. -/
def Cursor.optionalExponent (cur : Cursor) : Option Cursor :=
  match cur.rest with
  | c :: rest =>
    if c == 'e' || c == 'E' then Cursor.exponentDigits ⟨rest, cur.offset + 1⟩ else some cur
  | [] => some cur

/-- Ends a number: no name and no digit may follow directly. -/
def Cursor.endNumber (kind : LiteralKind) (cur : Cursor) : Option (LiteralKind × Cursor) :=
  match cur.rest with
  | c :: _ => if c.isDigit || Text.isNameStart c then none else some (kind, cur)
  | [] => some (kind, cur)

/-- Reads on after the decimal point. -/
def Cursor.afterPoint (cur : Cursor) : Option (LiteralKind × Cursor) :=
  cur.optionalDigits.bind fun c => c.optionalExponent.bind fun c => c.endNumber .numeric

/-- Ends an integer, which an `n` makes a big one. -/
def Cursor.endInteger (cur : Cursor) : Option (LiteralKind × Cursor) :=
  match cur.rest with
  | 'n' :: rest => Cursor.endNumber .bigInt ⟨rest, cur.offset + 1⟩
  | _ => cur.endNumber .numeric

/-- Reads a number that starts with a zero and another digit.  It has a fraction or an exponent
only when a digit shows that it is not octal. -/
def Cursor.legacyInteger (cur : Cursor) : Option (LiteralKind × Cursor) :=
  let digits := cur.rest.takeWhile Char.isDigit
  let after := cur.dropWhile Char.isDigit
  let decimal := digits.any fun d => d == '8' || d == '9'
  match after.rest with
  | '.' :: rest =>
    if decimal then Cursor.afterPoint ⟨rest, after.offset + 1⟩ else after.endNumber .numeric
  | 'e' :: rest =>
    if decimal then (Cursor.exponentDigits ⟨rest, after.offset + 1⟩).map (LiteralKind.numeric, ·)
    else after.endNumber .numeric
  | _ => after.endNumber .numeric

/-- Reads the digits of a number in another base. -/
def Cursor.basedInteger (isDigit : Char → Bool) (cur : Cursor) : Option (LiteralKind × Cursor) :=
  (cur.digits? isDigit).bind Cursor.endInteger

/-- The number at a cursor. -/
def Cursor.number? (cur : Cursor) : Option (LiteralKind × Cursor) :=
  match cur.rest with
  | '0' :: c :: rest =>
    let inner : Cursor := ⟨rest, cur.offset + 2⟩
    if c == 'b' || c == 'B' then inner.basedInteger fun d => d == '0' || d == '1'
    else if c == 'o' || c == 'O' then inner.basedInteger fun d => '0' ≤ d && d ≤ '7'
    else if c == 'x' || c == 'X' then inner.basedInteger isHexDigit
    else if c == 'e' || c == 'E' then inner.exponentDigits.map (LiteralKind.numeric, ·)
    else if c == '.' then inner.afterPoint
    else if c == 'n' then inner.endNumber .bigInt
    else if c.isDigit then cur.legacyInteger
    else Cursor.endNumber .numeric ⟨c :: rest, cur.offset + 1⟩
  | '.' :: rest =>
    (Cursor.digits? Char.isDigit ⟨rest, cur.offset + 1⟩).bind fun c =>
      c.optionalExponent.bind fun c => c.endNumber .numeric
  | _ =>
    (cur.digits? Char.isDigit).bind fun after =>
      match after.rest with
      | '.' :: rest => Cursor.afterPoint ⟨rest, after.offset + 1⟩
      | 'n' :: rest => Cursor.endNumber .bigInt ⟨rest, after.offset + 1⟩
      | _ => after.optionalExponent.bind fun c => c.endNumber .numeric

/-! ### Strings, templates, regular expressions -/

/-- Whether the text after a backslash is an escape that means something. -/
def isKnownEscape : List Char → Bool
  | 'x' :: rest => hasTwoHexDigits rest
  | 'u' :: rest => (unicodeEscape? rest).isSome
  | _ => true

/-- Passes the inside of a string and its closing quote.  A line break ends it only when it is
escaped. -/
def stringFrom (quote : Char) : List Char → Nat → Option Cursor
  | [], _ => none
  | c :: rest, offset =>
    if c == '\\' then
      if isKnownEscape rest then
        match rest with
        | '\r' :: '\n' :: rest => stringFrom quote rest (offset + 3)
        | d :: rest => stringFrom quote rest (offset + 1 + d.utf8Size)
        | [] => none
      else none
    else if c == quote then some ⟨rest, offset + 1⟩
    else if c == '\n' || c == '\r' then none
    else stringFrom quote rest (offset + c.utf8Size)

/-- Whether the text after a backslash is an escape a template without tag may hold: octal escapes
are not. -/
def isTemplateEscape : List Char → Bool
  | '0' :: d :: _ => !d.isDigit
  | ['0'] => true
  | rest@(d :: _) => !d.isDigit && isKnownEscape rest
  | [] => false

/-- A piece of a template. -/
structure TemplatePiece where
  closed : Bool
  wellFormed : Bool
  after : Cursor
  deriving Repr, Inhabited

/-- Passes the inside of a template up to its end or the next substitution. -/
def templateFrom (wellFormed : Bool) : List Char → Nat → Option TemplatePiece
  | [], _ => none
  | c :: rest, offset =>
    if c == '\\' then
      match rest with
      | d :: inner =>
        templateFrom (wellFormed && isTemplateEscape rest) inner (offset + 1 + d.utf8Size)
      | [] => none
    else if c == '\x60' then some ⟨true, wellFormed, ⟨rest, offset + 1⟩⟩
    else if c == '$' then
      match rest with
      | '\x7b' :: inner => some ⟨false, wellFormed, ⟨inner, offset + 2⟩⟩
      | _ => templateFrom wellFormed rest (offset + 1)
    else templateFrom wellFormed rest (offset + c.utf8Size)

/-- Passes the inside of a regular expression and its closing slash.  A slash inside brackets or
after a backslash does not close it. -/
def patternFrom : (inClass : Bool) → List Char → Nat → Option Cursor
  | _, [], _ => none
  | inClass, c :: rest, offset =>
    if Text.isLineTerminator c then none
    else if c == '\\' then
      match rest with
      | d :: rest =>
        if Text.isLineTerminator d then none else patternFrom inClass rest (offset + 1 + d.utf8Size)
      | [] => none
    else if c == '/' && !inClass then some ⟨rest, offset + 1⟩
    else if c == '[' then patternFrom true rest (offset + 1)
    else if c == ']' then patternFrom false rest (offset + 1)
    else patternFrom inClass rest (offset + c.utf8Size)

/-- Whether the flags of a regular expression are known ones and each is given once. -/
def areRegExpFlags : List Char → Bool
  | [] => true
  | c :: rest =>
    (['g', 'i', 'm', 's', 'u', 'y', 'd', 'v'].contains c) && !rest.contains c && areRegExpFlags rest

/-- A character that is read as a flag. -/
def isFlagPart (c : Char) : Bool := c.isAlphanum || c == '$' || c == '_'

/-- Passes the regular expression that starts with the slash at a cursor. -/
def Cursor.regExp? (cur : Cursor) : Option Cursor :=
  match cur.rest with
  | '/' :: rest =>
    (patternFrom false rest (cur.offset + 1)).bind fun after =>
      if areRegExpFlags (after.rest.takeWhile isFlagPart) then some (after.dropWhile isFlagPart)
      else none
  | _ => none

/-! ### Punctuators -/

/-- The punctuators, longer ones before their beginnings. -/
def punctuators : List (List Char × String) :=
  [">>>=", "...", "===", "!==", "**=", "<<=", ">>=", ">>>", "&&=", "||=", "??=", "=>", "==", "!=",
   "<=", ">=", "&&", "||", "??", "?.", "++", "--", "+=", "-=", "*=", "/=", "%=", "&=", "|=", "^=",
   "<<", ">>", "**", "\x7b", "\x7d", "(", ")", "[", "]", ";", ",", "<", ">", "+", "-", "*", "/",
   "%", "&", "|", "^", "!", "~", "?", ":", "=", ".", "@"].map fun p => (p.toList, p)

/-- The punctuator a text starts with.  A question mark before a decimal fraction stands alone. -/
def punctuatorAt? (text : List Char) : Option (List Char × String) :=
  match text with
  | '?' :: '.' :: d :: _ =>
    if d.isDigit then some (['?'], "?") else punctuators.find? fun p => p.1.isPrefixOf text
  | _ => punctuators.find? fun p => p.1.isPrefixOf text

/-- The lexeme at a cursor and where it ends. -/
def Cursor.lexeme? (cur : Cursor) : Option (Lexeme × Cursor) :=
  match cur.rest with
  | [] => some (.endOfText, cur)
  | c :: rest =>
    let inner : Cursor := ⟨rest, cur.offset + 1⟩
    if Text.isNameStart c || c == '\\' then
      cur.name?.map fun n => (.word n.text n.escaped, n.after)
    else if c.isDigit || (c == '.' && (rest.head?.map Char.isDigit).getD false) then
      cur.number?.map fun n => (.number n.1, n.2)
    else if c == '\x22' || c == '\x27' then
      (stringFrom c rest inner.offset).map fun after => (.string, after)
    else if c == '\x60' then
      (templateFrom true rest inner.offset).map fun t => (.template t.closed t.wellFormed, t.after)
    else if c == '#' then inner.name?.map fun n => (.privateName n.text, n.after)
    else
      (punctuatorAt? cur.rest).map fun p =>
        (.punct p.2, ⟨cur.rest.drop p.1.length, cur.offset + p.1.length⟩)

end ClosureReady.Grammar
