import ClosureReady.Token.Basic

/-!
The syntax tree the passes read.  Only variable declarations and literals are told apart; all other
nodes are structure.  `SyntaxNode.walk` visits the nodes depth first and stops as a whole as soon as
the visitor halts, `SyntaxNode.preorder` is the listing it follows.
-/

set_option autoImplicit false
set_option relaxedAutoImplicit false

namespace ClosureReady

/-- The kinds of literal. -/
inductive LiteralKind
  | string
  | numeric
  | bigInt
  | regExp
  | template
  deriving DecidableEq, Repr, Inhabited

/-- The class of the token a literal becomes. -/
def LiteralKind.tokenKind : LiteralKind → TokenKind
  | .string => .string
  | .numeric | .bigInt => .numeric
  | .regExp => .regularExpression
  | .template => .template

/-- What a node is.  A variable declaration lists its declarators: the bound name, or nothing for a
destructuring pattern. -/
inductive NodeKind
  | program
  | variableDeclaration (declarators : List (Option String))
  | literal (kind : LiteralKind)
  | other
  deriving DecidableEq, Repr, Inhabited

/-- A node with the region it covers and its children in source order. -/
inductive SyntaxNode
  | node (kind : NodeKind) (region : Region) (children : List SyntaxNode)
  deriving Repr, Inhabited

/-- What a visitor asks for after a node, with its state. -/
inductive Step (σ : Type)
  | proceed (state : σ)
  | halt (state : σ)
  deriving DecidableEq, Repr

namespace Step

variable {σ : Type}

/-- The state, whichever way the step went. -/
def state : Step σ → σ
  | .proceed s => s
  | .halt s => s

/-- Whether the walk goes on. -/
def isProceed : Step σ → Bool
  | .proceed _ => true
  | .halt _ => false

/-- Goes on with the next step unless this one halted. -/
def andThen (step : Step σ) (next : σ → Step σ) : Step σ :=
  match step with
  | .proceed s => next s
  | .halt s => .halt s

end Step

namespace SyntaxNode

/-- What the node is. -/
def kind : SyntaxNode → NodeKind
  | .node kind _ _ => kind

/-- The region the node covers. -/
def region : SyntaxNode → Region
  | .node _ region _ => region

/-- The children in source order. -/
def children : SyntaxNode → List SyntaxNode
  | .node _ _ children => children

/-- The names a variable declaration binds as plain identifiers; none for any other node. -/
def declaredNames (n : SyntaxNode) : List String :=
  match n.kind with
  | .variableDeclaration declarators => declarators.filterMap id
  | _ => []

mutual

/-- Visits a node and then its children.  A halt inside a child ends the whole walk. -/
def walk {σ : Type} (visit : σ → SyntaxNode → Step σ) (s : σ) : SyntaxNode → Step σ
  | .node kind region children =>
    (visit s (.node kind region children)).andThen fun s => walkAll visit s children

/-- Walks a list of nodes one after the other. -/
def walkAll {σ : Type} (visit : σ → SyntaxNode → Step σ) (s : σ) : List SyntaxNode → Step σ
  | [] => .proceed s
  | n :: ns => (walk visit s n).andThen fun s => walkAll visit s ns

end

mutual

/-- All nodes of a tree, each before its children, children in order. -/
def preorder : SyntaxNode → List SyntaxNode
  | .node kind region children => .node kind region children :: preorderAll children

/-- The listings of several trees, one after the other. -/
def preorderAll : List SyntaxNode → List SyntaxNode
  | [] => []
  | n :: ns => preorder n ++ preorderAll ns

end

end SyntaxNode

end ClosureReady
