import ClosureReady.Grammar.Reader

/-!
What the grammar rules share: the context that decides which words are names, what an expression
turned out to be, and the points at which rules call each other in a circle.
-/

set_option autoImplicit false
set_option relaxedAutoImplicit false

namespace ClosureReady.Grammar

/-- What is allowed where an expression or statement stands. -/
structure Context where
  /-- `in` is an operator. -/
  allowIn : Bool
  /-- `yield` is an operator. -/
  allowYield : Bool
  /-- `await` is an operator. -/
  allowAwait : Bool
  /-- `return` may stand here. -/
  allowReturn : Bool
  /-- The expression names a decorator, where a bracket does not go on with it. -/
  decorator : Bool
  deriving DecidableEq, Repr, Inhabited

namespace Context

/-- The same context with `in` as an operator, outside any decorator. -/
def withIn (c : Context) : Context := { c with allowIn := true, decorator := false }

/-- The same context with `in` left to a loop header. -/
def withoutIn (c : Context) : Context := { c with allowIn := false }

/-- The context inside a function. -/
def function (generator async : Bool) : Context := ⟨true, generator, async, true, false⟩

/-- The context of the value of a class field. -/
def field : Context := ⟨true, false, false, false, false⟩

end Context

/-- What an expression is, as far as the rules around it ask. -/
inductive Shape
  | identifier (name : String)
  | member
  /-- An array or object literal: whether it can be read as an assignment pattern, and how many
  shorthand initializers that would account for. -/
  | collection (isPattern : Bool) (pending : Nat)
  /-- A plain assignment, which reads as a target with a default inside a pattern. -/
  | assignment
  | parenthesized (inner : Shape)
  /-- An expression with an operator in front, which may not be the base of a power. -/
  | unary
  /-- A conjunction or disjunction, which may not be mixed with `??`. -/
  | logical
  | other
  deriving DecidableEq, Repr, Inhabited

namespace Shape

/-- Whether a value can be assigned to the expression as to a single place. -/
def isPlace : Shape → Bool
  | identifier _ => true
  | member => true
  | parenthesized inner => inner.isPlace
  | _ => false

/-- If the expression can be assigned to, how many shorthand initializers that accounts for. -/
def target? : Shape → Option Nat
  | collection true pending => some pending
  | shape => if shape.isPlace then some 0 else none

/-- The same for an element of a pattern, which may have a default. -/
def element? : Shape → Option Nat
  | assignment => some 0
  | shape => shape.target?

end Shape

/-- What a binding introduces: a single name or a pattern, and all names in it. -/
structure Bound where
  binding : Binding
  names : List String
  deriving DecidableEq, Repr, Inhabited

/-- The rules that are called from inside themselves. -/
inductive Rule
  | assignment (c : Context)
  | binary (c : Context) (above : Nat)
  | unary (c : Context)
  | leftHandSide (c : Context)
  | callee (c : Context)
  | statement (c : Context) (single : Bool)
  | binding (c : Context)
  deriving Repr

/-- What a rule answers. -/
abbrev Rule.Result : Rule → Type
  | .statement .. => Unit
  | .binding _ => Bound
  | _ => Shape

/-- The rules one level down, and how often a rule may repeat a part. -/
structure Deeper where
  rounds : Nat
  call : (r : Rule) → Reader r.Result

namespace Deeper

variable {α β : Type}

/-- Reads an expression without commas. -/
def assignment (deeper : Deeper) (c : Context) : Reader Shape := deeper.call (.assignment c)

/-- Reads an expression of binary operators that bind tighter than `above`. -/
def binary (deeper : Deeper) (c : Context) (above : Nat) : Reader Shape :=
  deeper.call (.binary c above)

/-- Reads an operand. -/
def unary (deeper : Deeper) (c : Context) : Reader Shape := deeper.call (.unary c)

/-- Reads a call or member expression. -/
def leftHandSide (deeper : Deeper) (c : Context) : Reader Shape := deeper.call (.leftHandSide c)

/-- Reads a member expression without calls. -/
def callee (deeper : Deeper) (c : Context) : Reader Shape := deeper.call (.callee c)

/-- Reads a statement. -/
def statement (deeper : Deeper) (c : Context) (single : Bool) : Reader Unit :=
  deeper.call (.statement c single)

/-- Reads a binding name or pattern. -/
def binding (deeper : Deeper) (c : Context) : Reader Bound := deeper.call (.binding c)

/-- Repeats a rule within the bound. -/
def repeated (deeper : Deeper) (init : α) (body : α → Reader (α ⊕ β)) : Reader β :=
  Reader.repeatFrom body deeper.rounds init

end Deeper

open Reader

/-- The words that are no names anywhere. -/
def reservedWords : List String :=
  ["break", "case", "catch", "class", "const", "continue", "debugger", "default", "delete", "do",
   "else", "enum", "export", "extends", "false", "finally", "for", "function", "if", "import", "in",
   "instanceof", "new", "null", "return", "super", "switch", "this", "throw", "true", "try",
   "typeof", "var", "void", "while", "with"]

/-- Whether a word is a name in the given context. -/
def isIdentifier (c : Context) (word : String) : Bool :=
  !reservedWords.contains word && !(c.allowYield && word == "yield") &&
    !(c.allowAwait && word == "await")

/-- Reads a name that is no reserved word. -/
def identifier (c : Context) : Reader String := do
  match ← current with
  | .word text _ =>
    guard (isIdentifier c text)
    advance
    return text
  | _ => failure

/-- Reads any word. -/
def anyWord : Reader String := do
  match ← current with
  | .word text _ =>
    advance
    return text
  | _ => failure

/-- Reads expressions separated by commas. -/
def expression (deeper : Deeper) (c : Context) : Reader Shape := do
  let first ← deeper.assignment c
  if ← atPunct "," then
    deeper.repeated () fun _ => do
      if ← eatPunct "," then
        let _ ← deeper.assignment c
        return .inl ()
      return .inr Shape.other
  else return first

/-- Accounts for the shorthand initializers of a target, or fails if it is none. -/
def resolveTarget (pending : Option Nat) : Reader Unit := fun s =>
  pending.map fun n => ((), { s with pending := s.pending - n })

/-- Reads statements up to and including the closing brace. -/
def statementsToBrace (deeper : Deeper) (c : Context) : Reader Unit :=
  deeper.repeated () fun _ => do
    if ← eatPunct "\x7d" then return .inr ()
    deeper.statement c false
    return .inl ()

/-- Reads statements in braces. -/
def block (deeper : Deeper) (c : Context) : Reader Unit := do
  expectPunct "\x7b"
  statementsToBrace deeper c

/-- Reads the substitutions and pieces of a template up to its end. -/
def templateRest (deeper : Deeper) (c : Context) (tagged : Bool) : Reader Unit := do
  match ← current with
  | .template closed wellFormed =>
    guard (tagged || wellFormed)
    if closed then advance
    else
      advance
      deeper.repeated () fun _ => do
        let _ ← expression deeper c.withIn
        guard (← atPunct "\x7d")
        let s ← get
        match templateFrom true s.after.rest s.after.offset with
        | none => failure
        | some piece =>
          guard (tagged || piece.wellFormed)
          set { s with after := piece.after }
          advance
          return if piece.closed then .inr () else .inl ()
  | _ => failure

/-- Reads a template. -/
def template (deeper : Deeper) (c : Context) (tagged : Bool) : Reader Unit := do
  enclose (← startOffset) (fun _ => .literal .template) (templateRest deeper c tagged)

end ClosureReady.Grammar
