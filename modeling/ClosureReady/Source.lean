import ClosureReady.Fault
import ClosureReady.Grammar.Program
import ClosureReady.Token.Stream
import ClosureReady.Tree.Build

/-!
From a source text to what the passes need: the tree with places, the code tokens and the comments.
-/

set_option autoImplicit false
set_option relaxedAutoImplicit false

namespace ClosureReady

/-- What one reading of a source yields. -/
structure ParsedSource where
  tree : SyntaxNode
  tokens : List Token
  comments : List Token
  deriving Repr, Inhabited

/-- The tokens and comments of a text whose literals and comment spans are known.  Comments are
numbered on after the code tokens. -/
def splitSource (index : LineIndex) (literals : List Literal) (comments : List Span)
    (text : List Char) : Option (List Token × List Token) :=
  match scan index literals comments text with
  | none => none
  | some tokens =>
    (commentTokens index text tokens.length comments).map fun comments => (tokens, comments)

/-- Reads a source. -/
def ParsedSource.parse (mode : Grammar.Mode) (source : String) : Except Fault ParsedSource :=
  let text := source.toList
  match Grammar.outline? mode text with
  | none => .error .parseFailed
  | some outline =>
    let index := LineIndex.ofChars text
    let built := Builder.empty.run index outline.tree.events
    match built.stack with
    | [] => .error .parseFailed
    | tree :: _ =>
      match splitSource index built.literalList outline.comments text with
      | none => .error .brokenLayout
      | some (tokens, comments) => .ok ⟨tree, tokens, comments⟩

/-- The stream the passes start from. -/
def ParsedSource.stream (p : ParsedSource) : TokenStream :=
  TokenStream.prepare p.tokens p.comments

end ClosureReady
