import ClosureReady.Grammar.Statement

/-!
Whole programs.  The rules are tied together level by level: a rule calls the rules of the level
below, so every reading ends, and a level for each few characters of the text is always enough.
-/

set_option autoImplicit false
set_option relaxedAutoImplicit false

namespace ClosureReady.Grammar

open Reader

/-- The two ways in which a text is read. -/
inductive Mode
  | script
  | module
  deriving DecidableEq, Repr, Inhabited

/-- One level of a rule on top of the level below. -/
def applyRule (deeper : Deeper) : (r : Rule) → Reader r.Result
  | .assignment c => assignmentRule deeper c
  | .binary c above => binaryRule deeper c above
  | .unary c => unaryRule deeper c
  | .leftHandSide c => leftHandSideRule deeper c
  | .callee c => calleeRule deeper c
  | .statement c single => statementRule deeper c single
  | .binding c => bindingRule deeper c

/-- The rules with a number of levels below them. -/
def rulesAt : Nat → (r : Rule) → Reader r.Result
  | 0, _ => fun _ => none
  | levels + 1, r => applyRule ⟨levels, rulesAt levels⟩ r

/-- How many levels a text of the given length can need. -/
def levelsFor (length : Nat) : Nat := 8 * length + 64

/-- The context at the top of a program. -/
def Context.top (mode : Mode) : Context := ⟨true, false, mode == .module, false, false⟩

/-- Reads statements up to the end of the text. -/
def statementsToEnd (deeper : Deeper) (c : Context) : Reader Unit :=
  deeper.repeated () fun _ => do
    if (← current) == .endOfText then return .inr ()
    deeper.statement c false
    return .inl ()

/-- The state before the first lexeme is read. -/
def initialState (mode : Mode) (cur : Cursor) : ReadState :=
  ⟨mode == .script, .endOfText, cur, cur, true, 0, [], [], 0, []⟩

/-- What a text holds: its tree, and its comments in order. -/
structure Outline where
  tree : ParseNode
  comments : List Span
  deriving Repr, Inhabited

/-- Reads a whole program, or fails if the text is none. -/
def outline? (mode : Mode) (text : List Char) : Option Outline :=
  let start := Cursor.start text
  let levels := levelsFor text.length
  match readFrom (initialState mode start) true start with
  | none => none
  | some s =>
    match statementsToEnd ⟨levels, rulesAt levels⟩ (.top mode) s with
    | none => none
    | some (_, s) =>
      if s.pending = 0 then
        some ⟨.node .program ⟨0, Text.byteLength text⟩ s.nodes.reverse, s.comments.reverse⟩
      else none

end ClosureReady.Grammar
