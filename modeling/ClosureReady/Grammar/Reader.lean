import ClosureReady.Grammar.Lexeme
import ClosureReady.Token.Scan
import ClosureReady.Tree.Build

/-!
The state of reading a program and the steps every grammar rule is made of: looking at the current
lexeme, moving on, and noting the nodes that the tree will hold.
-/

set_option autoImplicit false
set_option relaxedAutoImplicit false

namespace ClosureReady.Grammar

/-- Where the reader is and what it has found.  Lists grow at the front. -/
structure ReadState where
  /-- Whether the text is a classic script, which allows markup comments. -/
  script : Bool
  lexeme : Lexeme
  /-- Where the current lexeme starts. -/
  here : Cursor
  /-- Where the current lexeme ends. -/
  after : Cursor
  /-- Whether a line ended before the current lexeme. -/
  newline : Bool
  /-- The offset at which the lexeme before the current one ended. -/
  previousStop : Nat
  comments : List Span
  nodes : List ParseNode
  /-- Shorthand properties with an initializer that so far stand in no assignment pattern. -/
  pending : Nat
  /-- The names exported so far. -/
  exported : List String
  deriving Repr

/-- A grammar rule: it reads on from a state, or fails. -/
abbrev Reader := StateT ReadState Option

namespace Reader

variable {α : Type}

/-- Reads the lexeme that follows a cursor. -/
def readFrom (s : ReadState) (lineStart : Bool) (cur : Cursor) : Option ReadState :=
  match cur.gap s.script lineStart with
  | none => none
  | some gap =>
    match gap.cursor.lexeme? with
    | none => none
    | some (lexeme, after) =>
      some { s with
        lexeme, here := gap.cursor, after, newline := gap.newline,
        comments := gap.comments ++ s.comments }

/-- Moves on to the next lexeme. -/
def advance : Reader Unit := fun s =>
  (readFrom { s with previousStop := s.after.offset } false s.after).map ((), ·)

/-- The current lexeme. -/
def current : Reader Lexeme := fun s => some (s.lexeme, s)

/-- Whether a line ended before the current lexeme. -/
def onNewLine : Reader Bool := fun s => some (s.newline, s)

/-- Where the current lexeme starts. -/
def startOffset : Reader Nat := fun s => some (s.here.offset, s)

/-- Where the lexeme before the current one ended. -/
def stopOffset : Reader Nat := fun s => some (s.previousStop, s)

/-- Runs a rule only to see whether it succeeds and what it answers; nothing is read. -/
def lookAhead (p : Reader α) : Reader (Option α) := fun s =>
  match p s with
  | some (a, _) => some (some a, s)
  | none => some (none, s)

/-- Runs a rule; if it fails, nothing is read. -/
def attempt (p : Reader α) : Reader (Option α) := fun s =>
  match p s with
  | some (a, t) => some (some a, t)
  | none => some (none, s)

/-- The lexeme after the current one, and whether a line ends before it. -/
def next : Reader (Option (Lexeme × Bool)) :=
  lookAhead (do advance; return (← current, ← onNewLine))

/-- Whether the current lexeme is the given punctuator. -/
def atPunct (text : String) : Reader Bool := fun s => some (s.lexeme == .punct text, s)

/-- Whether the current lexeme is the given word, written without escapes. -/
def atWord (text : String) : Reader Bool := fun s => some (s.lexeme == .word text false, s)

/-- Moves past the given punctuator, if it is there. -/
def eatPunct (text : String) : Reader Bool := do
  if ← atPunct text then
    advance
    return true
  return false

/-- Moves past the given word, if it is there. -/
def eatWord (text : String) : Reader Bool := do
  if ← atWord text then
    advance
    return true
  return false

/-- Requires the given punctuator. -/
def expectPunct (text : String) : Reader Unit := do
  guard (← eatPunct text)

/-- Requires the given word. -/
def expectWord (text : String) : Reader Unit := do
  guard (← eatWord text)

/-- Whether a statement may end before the current lexeme. -/
def canEndStatement : Reader Bool := fun s =>
  some (s.newline || s.lexeme == .punct ";" || s.lexeme == .punct "\x7d" || s.lexeme == .endOfText,
    s)

/-- Ends a statement: by a semicolon, or where one may be left out. -/
def endStatement : Reader Unit := do
  if ← eatPunct ";" then return
  guard (← canEndStatement)

/-- Notes a node. -/
def note (node : ParseNode) : Reader Unit := fun s => some ((), { s with nodes := node :: s.nodes })

/-- Reads the current lexeme as a literal of the given kind. -/
def literal (kind : LiteralKind) : Reader Unit := do
  note (.node (.literal kind) ⟨(← get).here.offset, (← get).after.offset⟩ [])
  advance

/-- Runs a rule and collects the nodes it notes under one node, which starts at the given offset and
ends with the last lexeme read. -/
def enclose (start : Nat) (kind : α → ParseKind) (p : Reader α) : Reader α := fun s =>
  match p { s with nodes := [] } with
  | none => none
  | some (a, t) =>
    some (a, { t with
      nodes := .node (kind a) ⟨start, t.previousStop⟩ t.nodes.reverse :: s.nodes })

/-- The text of the current lexeme without its first and last character, if it can be read. -/
def innerText : Reader String := fun s =>
  let raw := (Text.takeBytes (s.after.offset - s.here.offset) s.here.rest).getD []
  some (String.ofList (raw.drop 1).dropLast, s)

/-- Repeats a rule that hands on a value until it answers a result.  Each round reads at least one
lexeme, so the number of rounds may be bounded by the length of the text. -/
def repeatFrom {β : Type} (body : α → Reader (α ⊕ β)) : (rounds : Nat) → α → Reader β
  | 0, _ => fun _ => none
  | rounds + 1, a => fun s =>
    match body a s with
    | none => none
    | some (.inl a, t) => repeatFrom body rounds a t
    | some (.inr b, t) => some (b, t)

end Reader

end ClosureReady.Grammar
