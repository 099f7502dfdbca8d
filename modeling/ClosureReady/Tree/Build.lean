import ClosureReady.Token.Scan
import ClosureReady.Tree.Basic

/-!
Building the syntax tree.  The grammar yields a `ParseNode` tree with byte spans.  It is read as a
sequence of events, one on entering and one on leaving each node, and a `Builder` turns the events
into a `SyntaxNode` tree with places, noting the literals on the way.  Of what a declarator binds the
tree keeps the name, if it is a single one.
-/

set_option autoImplicit false
set_option relaxedAutoImplicit false

namespace ClosureReady

/-- What a declarator binds: a single name, or a pattern that takes its value apart. -/
inductive Binding
  | identifier (name : String)
  | pattern
  deriving DecidableEq, Repr, Inhabited

/-- The name of a binding, if it is a single one. -/
def Binding.name? : Binding → Option String
  | .identifier name => some name
  | .pattern => none

/-- What the grammar takes a node for.  A variable declaration lists what its declarators bind. -/
inductive ParseKind
  | program
  | variableDeclaration (bindings : List Binding)
  | literal (kind : LiteralKind)
  | other
  deriving DecidableEq, Repr, Inhabited

/-- The kind a node of the grammar has in the syntax tree. -/
def ParseKind.lowered : ParseKind → NodeKind
  | .program => .program
  | .variableDeclaration bindings => .variableDeclaration (bindings.map Binding.name?)
  | .literal kind => .literal kind
  | .other => .other

/-- A node as the grammar finds it: its kind, its span in bytes, its children in source order. -/
inductive ParseNode
  | node (kind : ParseKind) (span : Span) (children : List ParseNode)
  deriving Repr, Inhabited

/-- A step of a walk through a tree of parse nodes. -/
inductive TreeEvent
  | enter (kind : ParseKind) (span : Span)
  | leave
  deriving DecidableEq, Repr, Inhabited

namespace ParseNode

mutual

/-- The events of a walk through a node: entering it, all of its children, leaving it. -/
def events : ParseNode → List TreeEvent
  | .node kind span children => .enter kind span :: (eventsAll children ++ [.leave])

/-- The events of several nodes, one after the other. -/
def eventsAll : List ParseNode → List TreeEvent
  | [] => []
  | n :: ns => events n ++ eventsAll ns

end

end ParseNode

/-- A tree under construction: the nodes entered and not yet left, innermost first, and the literals
met so far, last one first. -/
structure Builder where
  stack : List SyntaxNode
  literals : List Literal
  deriving Repr, Inhabited

namespace Builder

/-- Nothing entered yet. -/
def empty : Builder := ⟨[], []⟩

/-- The literal a node of the given kind stands for. -/
def literalOf (kind : ParseKind) (span : Span) : Option Literal :=
  match kind with
  | .literal k => some ⟨span, k.tokenKind⟩
  | _ => none

/-- Enters a node: it is opened without children, and noted if it is a literal. -/
def enter (index : LineIndex) (b : Builder) (kind : ParseKind) (span : Span) : Builder :=
  { stack := .node kind.lowered (index.region span) [] :: b.stack
    literals := (literalOf kind span).toList ++ b.literals }

/-- Leaves the innermost node: it becomes the last child of the node around it.  The outermost node
stays. -/
def leave (b : Builder) : Builder :=
  match b.stack with
  | child :: .node kind region children :: outer =>
    { b with stack := .node kind region (children ++ [child]) :: outer }
  | _ => b

/-- Takes one event. -/
def step (index : LineIndex) (b : Builder) : TreeEvent → Builder
  | .enter kind span => b.enter index kind span
  | .leave => b.leave

/-- Takes events in order. -/
def run (index : LineIndex) (b : Builder) (events : List TreeEvent) : Builder :=
  events.foldl (step index) b

/-- The literals met, in the order in which they were entered. -/
def literalList (b : Builder) : List Literal := b.literals.reverse

end Builder

end ClosureReady
