import ClosureReady.Token.Stream

/-!
Printing tokens back to text.  Tokens on the line on which the previous one ended are set apart by
the distance of their columns; a token on another line starts a new line at its own column.  Blank
lines are not kept, except for one before a block comment that opens a line.
-/

set_option autoImplicit false
set_option relaxedAutoImplicit false

namespace ClosureReady

/-- A number of spaces. -/
def spaces (n : Nat) : String := String.ofList (List.replicate n ' ')

namespace Token

/-- The token as it is written, with the delimiters of a comment. -/
def written (t : Token) : String :=
  match t.kind with
  | .blockComment => "/*" ++ t.value ++ "*/"
  | .lineComment => "//" ++ t.value
  | _ => t.value

/-- What is written between a token and the one before it. -/
def separator (previous t : Token) : String :=
  if t.region.start.line = previous.region.stop.line then
    spaces (t.region.start.column - previous.region.stop.column)
  else if t.kind = .blockComment then "\n" ++ spaces t.region.start.column ++ "\n"
  else "\n" ++ spaces t.region.start.column

end Token

namespace TokenStream

/-- The text of the tokens that follow a given one. -/
def printAfter (previous : Token) : List Token → String
  | [] => ""
  | t :: ts => Token.separator previous t ++ t.written ++ printAfter t ts

/-- The text of a stream.  Nothing is written before the first token. -/
def print : TokenStream → String
  | [] => ""
  | t :: ts => t.written ++ printAfter t ts

end TokenStream

end ClosureReady
