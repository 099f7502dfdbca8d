import ClosureReady.Grammar.Class
import ClosureReady.Grammar.Collection

/-!
Expressions: primary expressions, member and call chains, operators, assignments and arrow
functions.
-/

set_option autoImplicit false
set_option relaxedAutoImplicit false

namespace ClosureReady.Grammar

open Reader

/-- Reads the arguments of a call after the opening parenthesis. -/
def arguments (deeper : Deeper) (c : Context) : Reader Unit :=
  deeper.repeated () fun _ => do
    if ← eatPunct ")" then return .inr ()
    let _ ← eatPunct "..."
    let _ ← deeper.assignment c.withIn
    if ← eatPunct "," then return .inl ()
    expectPunct ")"
    return .inr ()

/-- Reads a regular expression where the current lexeme starts with a slash. -/
def regularExpression : Reader Unit := do
  let s ← get
  match s.here.regExp? with
  | none => failure
  | some after =>
    set { s with after }
    literal .regExp

/-- Reads a name after a dot. -/
def memberName : Reader Unit := do
  match ← current with
  | .word .. => advance
  | .privateName _ => advance
  | _ => failure

/-- Whether the current lexeme starts a template. -/
def atTemplate : Reader Bool := do
  match ← current with
  | .template .. => return true
  | _ => return false

/-- What has been read of a chain of members and calls. -/
structure Chain where
  shape : Shape
  /-- Whether an optional link makes the whole chain optional. -/
  optional : Bool
  deriving DecidableEq, Repr, Inhabited

/-- Reads what follows the sign of an optional link. -/
def optionalLink (deeper : Deeper) (c : Context) : Reader Chain := do
  if ← eatPunct "(" then
    arguments deeper c
    return ⟨.other, true⟩
  if ← eatPunct "[" then
    let _ ← expression deeper c.withIn
    expectPunct "]"
    return ⟨.member, true⟩
  memberName
  return ⟨.member, true⟩

/-- Reads the links of a chain.  Without calls, the chain is the operand of `new`, which may not be
optional. -/
def chainLinks (deeper : Deeper) (c : Context) (calls : Bool) (first : Shape) : Reader Shape :=
  deeper.repeated ⟨first, false⟩ fun chain => do
    if ← eatPunct "." then
      memberName
      return .inl ⟨.member, chain.optional⟩
    if ← atPunct "?." then
      guard calls
      advance
      return .inl (← optionalLink deeper c)
    if !c.decorator && (← atPunct "[") then
      advance
      let _ ← expression deeper c.withIn
      expectPunct "]"
      return .inl ⟨.member, chain.optional⟩
    if calls && (← atPunct "(") then
      advance
      arguments deeper c
      return .inl ⟨.other, chain.optional⟩
    if ← atTemplate then
      guard (!chain.optional)
      template deeper c true
      return .inl ⟨.other, false⟩
    return .inr (if chain.optional then .other else chain.shape)

/-- Reads `import` as an expression: a dynamic import, or the properties of the module. -/
def importExpression (deeper : Deeper) (c : Context) : Reader Shape := do
  expectWord "import"
  if ← eatPunct "." then
    expectWord "meta"
    return .other
  expectPunct "("
  let _ ← deeper.assignment c.withIn
  if ← eatPunct "," then
    if !(← atPunct ")") then
      let _ ← deeper.assignment c.withIn
      let _ ← eatPunct ","
  expectPunct ")"
  return .other

/-- Reads an expression that starts with `new`. -/
def newExpression (deeper : Deeper) (c : Context) : Reader Shape := do
  expectWord "new"
  if ← eatPunct "." then
    expectWord "target"
    return .other
  let _ ← deeper.callee c
  if ← eatPunct "(" then arguments deeper c
  return .other

/-- Reads `super`, which has to be called or accessed. -/
def superExpression : Reader Shape := do
  expectWord "super"
  let called ← atPunct "("
  let accessed ← atPunct "."
  let indexed ← atPunct "["
  guard (called || accessed || indexed)
  return .other

/-- Whether an `async` function starts here. -/
def atAsyncFunction : Reader Bool := do
  if ← atWord "async" then
    match ← next with
    | some (follows, newline) => return follows == .word "function" false && !newline
    | none => return false
  return false

/-- Reads an expression that starts with a word. -/
def wordExpression (deeper : Deeper) (c : Context) (word : String) : Reader Shape := do
  if word == "function" then
    let _ ← functionAfterAsync deeper c false false false
    return .other
  if word == "class" then
    let _ ← classRest deeper c
    return .other
  if word == "new" then return ← newExpression deeper c
  if word == "super" then return ← superExpression
  if word == "import" then return ← importExpression deeper c
  if word == "this" || word == "null" || word == "true" || word == "false" then
    advance
    return .other
  if ← atAsyncFunction then
    advance
    let _ ← functionAfterAsync deeper c true false false
    return .other
  return .identifier (← identifier c)

/-- Reads an expression that starts with a punctuator. -/
def punctExpression (deeper : Deeper) (c : Context) (text : String) : Reader Shape := do
  if text == "(" then
    advance
    let inner ← expression deeper c.withIn
    expectPunct ")"
    return .parenthesized inner
  if text == "[" then
    advance
    return ← arrayLiteral deeper c
  if text == "\x7b" then
    advance
    return ← objectLiteral deeper c
  if text == "/" || text == "/=" then
    regularExpression
    return .other
  guard (text == "@")
  decorators deeper c
  let _ ← classRest deeper c
  return .other

/-- Reads a primary expression. -/
def primary (deeper : Deeper) (c : Context) : Reader Shape := do
  match ← current with
  | .word text false => wordExpression deeper c text
  | .word _ true => return .identifier (← identifier c)
  | .number kind =>
    literal kind
    return .other
  | .string =>
    literal .string
    return .other
  | .template .. =>
    template deeper c false
    return .other
  | .punct text => punctExpression deeper c text
  | _ => failure

/-- Reads a call or member expression. -/
def leftHandSideRule (deeper : Deeper) (c : Context) : Reader Shape := do
  let first ← primary deeper c
  chainLinks deeper c true first

/-- Whether a dynamic import starts here. -/
def atImportCall : Reader Bool := do
  if ← atWord "import" then
    match ← next with
    | some (follows, _) => return follows == .punct "("
    | none => return false
  return false

/-- Reads the operand of `new`, which may not be a dynamic import. -/
def calleeRule (deeper : Deeper) (c : Context) : Reader Shape := do
  guard (!(← atImportCall))
  let first ← primary deeper c
  chainLinks deeper c false first

/-- Reads a call or member expression and an increment or decrement after it. -/
def updatedOperand (deeper : Deeper) (c : Context) : Reader Shape := do
  let operand ← leftHandSideRule deeper c
  let increment ← atPunct "++"
  let decrement ← atPunct "--"
  if (increment || decrement) && !(← onNewLine) then
    guard operand.isPlace
    advance
    return .other
  return operand

/-- The operators that are punctuators and stand in front of an operand. -/
def leadingOperators : List String := ["!", "~", "+", "-"]

/-- The operators that are words and stand in front of an operand. -/
def leadingWords : List String := ["typeof", "void", "delete"]

/-- Reads an operand with the operators before and after it. -/
def unaryRule (deeper : Deeper) (c : Context) : Reader Shape := do
  match ← current with
  | .punct text =>
    if text == "++" || text == "--" then
      advance
      let operand ← deeper.unary c
      guard operand.isPlace
      return .other
    if leadingOperators.contains text then
      advance
      let _ ← deeper.unary c
      return .unary
    updatedOperand deeper c
  | .word text false =>
    if leadingWords.contains text || (text == "await" && c.allowAwait) then
      advance
      let _ ← deeper.unary c
      return .unary
    updatedOperand deeper c
  | _ => updatedOperand deeper c

/-- How tightly the binary operators bind. -/
def binaryOperators : List (String × Nat) :=
  [("??", 1), ("||", 2), ("&&", 3), ("|", 4), ("^", 5), ("&", 6), ("==", 7), ("!=", 7), ("===", 7),
   ("!==", 7), ("<", 8), (">", 8), ("<=", 8), (">=", 8), ("<<", 9), (">>", 9), (">>>", 9),
   ("+", 10), ("-", 10), ("*", 11), ("/", 11), ("%", 11), ("**", 12)]

/-- A binary operator with how tightly it binds. -/
structure Operator where
  text : String
  level : Nat
  deriving DecidableEq, Repr, Inhabited

/-- The binary operator at the current lexeme. -/
def operatorHere (c : Context) : Reader (Option Operator) := do
  match ← current with
  | .punct text => return (binaryOperators.lookup text).map fun level => ⟨text, level⟩
  | .word text false =>
    if text == "instanceof" || (text == "in" && c.allowIn) then return some ⟨text, 8⟩
    return none
  | _ => return none

/-- Whether an operator goes on with an expression of operators above a level.  A power binds to the
right. -/
def Operator.continues (op : Operator) (above : Nat) : Bool :=
  if op.level = 12 then decide (above ≤ 12) else decide (above < op.level)

/-- What two operands become.  A power may not have an unparenthesized operator in front of its
base, and `??` may not be mixed with the other logical operators. -/
def Operator.join? (op : Operator) (left right : Shape) : Option Shape :=
  if op.text = "**" ∧ left = .unary then none
  else if op.text = "??" then
    if left = .logical ∨ right = .logical then none else some .other
  else if op.text = "||" ∨ op.text = "&&" then some .logical
  else some .other

/-- Reads the first operand of a binary expression, which may test for a private name unless it
belongs to an operator that binds at least as tightly as the test. -/
def firstOperand (deeper : Deeper) (c : Context) (above : Nat) : Reader Shape := do
  match ← current with
  | .privateName _ =>
    guard (c.allowIn && decide (above < 8))
    advance
    expectWord "in"
    let _ ← deeper.binary c 8
    return .other
  | _ => unaryRule deeper c

/-- Reads an expression of operators that bind tighter than `above`. -/
def binaryRule (deeper : Deeper) (c : Context) (above : Nat) : Reader Shape := do
  let first ← firstOperand deeper c above
  deeper.repeated first fun left => do
    match ← operatorHere c with
    | none => return .inr left
    | some op =>
      if op.continues above then
        advance
        let right ← deeper.binary c op.level
        match op.join? left right with
        | some joined => return .inl joined
        | none => failure
      else return .inr left

/-- The operators that assign. -/
def assignmentOperators : List String :=
  ["=", "+=", "-=", "*=", "/=", "%=", "**=", "<<=", ">>=", ">>>=", "&=", "|=", "^=", "&&=", "||=",
   "??="]

/-- Whether the current lexeme may open the parameters of an arrow function after a
parenthesis. -/
def atArrowParameter (c : Context) : Reader Bool := do
  match ← current with
  | .punct text => return [")", "[", "\x7b", "..."].contains text
  | .word text _ =>
    guard (isIdentifier c text)
    advance
    match ← current with
    | .punct text => return [",", "=", ")"].contains text
    | _ => return false
  | _ => return false

/-- Whether an arrow function with parentheses may start here, after an optional `async`. -/
def mayStartArrow (c : Context) : Reader Bool := do
  let seen ← lookAhead do
    if ← eatWord "async" then guard (!(← onNewLine))
    expectPunct "("
    atArrowParameter { c with allowYield := false, allowAwait := false }
  return seen.getD false

/-- Reads the parameters and arrow of an arrow function.  No line may end before the arrow. -/
def arrowHead (deeper : Deeper) (c : Context) : Reader Bool := do
  let async ← eatWord "async"
  let inside := if async then { c with allowAwait := true } else c
  let _ ← parameters deeper inside
  guard (!(← onNewLine))
  expectPunct "=>"
  return async

/-- Reads the body of an arrow function. -/
def arrowBody (deeper : Deeper) (c : Context) (async : Bool) : Reader Shape := do
  if ← atPunct "\x7b" then block deeper (.function false async)
  else
    let _ ← deeper.assignment { c with allowYield := false, allowAwait := async }
  return .other

/-- Reads `async x =>`, if it stands here. -/
def asyncArrowHead (c : Context) : Reader Unit := do
  expectWord "async"
  guard (!(← onNewLine))
  let _ ← identifier { c with allowAwait := true }
  guard (!(← onNewLine))
  expectPunct "=>"

/-- Reads `yield` with its operand, if it has one. -/
def yieldExpression (deeper : Deeper) (c : Context) : Reader Shape := do
  expectWord "yield"
  if !(← onNewLine) then
    let delegate ← eatPunct "*"
    let ends ←
      match ← current with
      | .punct text => pure ([";", "\x7d", ")", "]", ":", ","].contains text)
      | .word text _ => pure (text == "in")
      | .endOfText => pure true
      | _ => pure false
    if delegate || !ends then
      let _ ← deeper.assignment c
  return .other

/-- Reads on after the left side of an assignment or the test of a conditional. -/
def assignmentRest (deeper : Deeper) (c : Context) (left : Shape) : Reader Shape := do
  match ← current with
  | .punct text =>
    if text == "=>" then
      match left with
      | .identifier _ =>
        guard (!(← onNewLine))
        advance
        arrowBody deeper c false
      | _ => failure
    else if assignmentOperators.contains text then
      if text == "=" then resolveTarget left.target? else guard left.isPlace
      advance
      let _ ← deeper.assignment c
      return if text == "=" then .assignment else .other
    else if text == "?" then
      advance
      let _ ← deeper.assignment c.withIn
      expectPunct ":"
      let _ ← deeper.assignment c
      return .other
    else return left
  | _ => return left

/-- Reads an expression without commas. -/
def assignmentRule (deeper : Deeper) (c : Context) : Reader Shape := do
  if c.allowYield && (← atWord "yield") then return ← yieldExpression deeper c
  if ← mayStartArrow c then
    if let some async ← attempt (arrowHead deeper c) then return ← arrowBody deeper c async
  if ← atWord "async" then
    if let some _ ← attempt (asyncArrowHead c) then return ← arrowBody deeper c true
  let left ← deeper.binary c 0
  assignmentRest deeper c left

end ClosureReady.Grammar
