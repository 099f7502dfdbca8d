import ClosureReady.Grammar.Expression
import ClosureReady.Grammar.Module

/-!
Statements and declarations.  Only what the grammar itself demands is checked: jump targets,
repeated declarations and the like are not.
-/

set_option autoImplicit false
set_option relaxedAutoImplicit false

namespace ClosureReady.Grammar

open Reader

/-! ### Variables -/

/-- What a list of declarators holds. -/
structure Declarators where
  /-- What each declarator binds. -/
  declared : List Binding
  /-- All names bound. -/
  names : List String
  /-- Whether every declarator that needs a value has one. -/
  complete : Bool
  deriving DecidableEq, Repr, Inhabited

/-- Reads declarators.  A pattern needs a value, and so does every declarator of a constant. -/
def declarators (deeper : Deeper) (c : Context) (constant : Bool) : Reader Declarators :=
  deeper.repeated ⟨[], [], true⟩ fun list => do
    let bound ← deeper.binding c
    let hasValue ← initializer deeper c
    let complete := hasValue || (!constant && bound.binding.name?.isSome)
    let list :=
      ⟨list.declared ++ [bound.binding], list.names ++ bound.names, list.complete && complete⟩
    if ← eatPunct "," then return .inl list
    return .inr list

/-- Reads a variable declaration from its keyword on.  In a loop header it ends with its last
declarator and the values are checked later. -/
def variableDeclaration (deeper : Deeper) (c : Context) (header : Bool) : Reader Declarators := do
  enclose (← startOffset) (fun d => .variableDeclaration d.declared) do
    let constant := (← atWord "const") || (← atWord "using")
    advance
    let list ← declarators deeper c constant
    if !header then
      guard list.complete
      endStatement
    return list

/-- Reads a variable statement.  Only `var` may be the single statement of another one. -/
def variableStatement (deeper : Deeper) (c : Context) (single : Bool) : Reader (List String) := do
  if single then guard (← atWord "var")
  let list ← variableDeclaration deeper c false
  return list.names

/-- Reads an expression and ends the statement.  A name with a colon labels another statement. -/
def expressionStatement (deeper : Deeper) (c : Context) : Reader Unit := do
  let shape ← expression deeper c
  match shape with
  | .identifier _ =>
    if ← eatPunct ":" then deeper.statement c true else endStatement
  | _ => endStatement

/-- Whether `let`, where it starts a statement, is followed by what it cannot declare. -/
def letIsName (single : Bool) : Reader Bool := do
  match ← next with
  | some (.punct text, _) =>
    let goesOn := assignmentOperators.contains text ||
      ((binaryOperators.lookup text).map fun level => decide (3 < level)).getD false
    return goesOn || text == "." || text == "(" || text == ";" || (single && text != "[")
  | some (.word text false, _) => return text == "in" || text == "instanceof" || single
  | _ => return single

/-- Reads a statement that starts with `let`. -/
def letStatement (deeper : Deeper) (c : Context) (single : Bool) : Reader Unit := do
  if ← letIsName single then expressionStatement deeper c
  else
    let _ ← variableStatement deeper c single

/-- Whether `using` declares a variable here: a name follows on the same line. -/
def usingDeclares (c : Context) : Reader Bool := do
  match ← next with
  | some (.word text _, newline) => return !newline && isIdentifier c text && text != "of"
  | _ => return false

/-! ### Functions and classes -/

/-- Reads a function declaration and answers its name.  As a single statement it may be neither
asynchronous nor a generator. -/
def functionDeclaration (deeper : Deeper) (c : Context) (single nameRequired : Bool) :
    Reader (Option String) := do
  let async ← eatWord "async"
  let (generator, name) ← functionAfterAsync deeper c async true nameRequired
  guard (!(single && (async || generator)))
  return name

/-- Reads a class declaration. -/
def classDeclaration (deeper : Deeper) (c : Context) (single : Bool) : Reader (Option String) := do
  guard (!single)
  classRest deeper c

/-! ### Exports -/

/-- Reads what is exported as the default. -/
def exportDefault (deeper : Deeper) (c : Context) : Reader Unit := do
  expectWord "default"
  noteExports ["default"]
  if ← atPunct "@" then decorators deeper c
  if (← atWord "function") || (← atAsyncFunction) then
    let _ ← functionDeclaration deeper c false false
  else if ← atWord "class" then
    let _ ← classRest deeper c
  else
    let _ ← deeper.assignment c.withIn
    endStatement

/-- Reads the declaration of what is exported. -/
def exportedDeclaration (deeper : Deeper) (c : Context) : Reader (List String) := do
  if (← atWord "function") || (← atAsyncFunction) then
    return (← functionDeclaration deeper c false true).toList
  if ← atPunct "@" then decorators deeper c
  if ← atWord "class" then return (← classRest deeper c).toList
  guard ((← atWord "var") || (← atWord "let") || (← atWord "const"))
  variableStatement deeper c false

/-- Reads an export declaration. -/
def exportDeclaration (deeper : Deeper) (c : Context) : Reader Unit := do
  expectWord "export"
  if ← atPunct "*" then exportAll deeper
  else if ← atPunct "\x7b" then exportList deeper c
  else if ← atWord "default" then exportDefault deeper c
  else noteExports (← exportedDeclaration deeper c)

/-- Reads a class with decorators, which may be exported. -/
def decoratedStatement (deeper : Deeper) (c : Context) (single : Bool) : Reader Unit := do
  decorators deeper c
  if ← atWord "export" then exportDeclaration deeper c
  else
    let _ ← classDeclaration deeper c single

/-! ### Control flow -/

/-- Reads an expression in parentheses. -/
def condition (deeper : Deeper) (c : Context) : Reader Unit := do
  expectPunct "("
  let _ ← expression deeper c.withIn
  expectPunct ")"

/-- Reads a conditional statement. -/
def ifStatement (deeper : Deeper) (c : Context) : Reader Unit := do
  expectWord "if"
  condition deeper c
  deeper.statement c true
  if ← eatWord "else" then deeper.statement c true

/-- Reads a loop whose test comes last.  The semicolon after it is optional. -/
def doStatement (deeper : Deeper) (c : Context) : Reader Unit := do
  expectWord "do"
  deeper.statement c true
  expectWord "while"
  condition deeper c
  let _ ← eatPunct ";"

/-- Reads a statement whose head is a keyword with an expression in parentheses. -/
def headedStatement (deeper : Deeper) (c : Context) (keyword : String) : Reader Unit := do
  expectWord keyword
  condition deeper c
  deeper.statement c true

/-- Reads on in the header of a counting loop at the first semicolon, and then the body. -/
def countingLoop (deeper : Deeper) (c : Context) : Reader Unit := do
  expectPunct ";"
  if !(← atPunct ";") then
    let _ ← expression deeper c.withIn
  expectPunct ";"
  if !(← atPunct ")") then
    let _ ← expression deeper c.withIn
  expectPunct ")"
  deeper.statement c true

/-- Whether the header of a loop goes on as one over keys or values. -/
def atIteration : Reader Bool := do
  return (← atWord "in") || (← atWord "of")

/-- Reads on in the header of a loop over keys or values, and then the body.  Only values can be
awaited. -/
def iteration (deeper : Deeper) (c : Context) (awaited : Bool) : Reader Unit := do
  if ← eatWord "in" then
    guard (!awaited)
    let _ ← expression deeper c.withIn
  else
    expectWord "of"
    let _ ← deeper.assignment c.withIn
  expectPunct ")"
  deeper.statement c true

/-- Whether the header of a loop starts with a declaration. -/
def atLoopDeclaration : Reader Bool := do
  if (← atWord "var") || (← atWord "const") then return true
  if ← atWord "let" then
    match ← next with
    | some (.punct text, _) => return text == "[" || text == "\x7b"
    | some (.word text _, _) => return text != "in"
    | _ => return false
  return false

/-- Reads a loop whose header starts with a declaration. -/
def declaringLoop (deeper : Deeper) (c : Context) (awaited : Bool) : Reader Unit := do
  let list ← variableDeclaration deeper c.withoutIn true
  if ← atIteration then iteration deeper c awaited
  else
    guard (list.complete && !awaited)
    countingLoop deeper c

/-- Whether the header starts with words that would read as something else before `of`. -/
def atDoubtfulOf (awaited : Bool) : Reader Bool := do
  match ← next with
  | some (.word "of" false, _) => return (← atWord "let") || (!awaited && (← atWord "async"))
  | _ => return false

/-- Reads a loop whose header starts with an expression. -/
def expressionLoop (deeper : Deeper) (c : Context) (awaited : Bool) : Reader Unit := do
  let doubtful ← atDoubtfulOf awaited
  let shape ← expression deeper c.withoutIn
  if ← atIteration then
    guard (!(doubtful && (← atWord "of")))
    resolveTarget shape.target?
    iteration deeper c awaited
  else
    guard (!awaited)
    countingLoop deeper c

/-- Reads a loop with a header. -/
def forStatement (deeper : Deeper) (c : Context) : Reader Unit := do
  expectWord "for"
  let awaited ← eatWord "await"
  guard (!awaited || c.allowAwait)
  expectPunct "("
  if ← atPunct ";" then
    guard (!awaited)
    countingLoop deeper c
  else if ← atLoopDeclaration then declaringLoop deeper c awaited
  else expressionLoop deeper c awaited

/-- Reads a jump with an optional label. -/
def jumpStatement (c : Context) : Reader Unit := do
  advance
  if !(← canEndStatement) then
    let _ ← identifier c
  endStatement

/-- Reads a return statement, which needs a function around it. -/
def returnStatement (deeper : Deeper) (c : Context) : Reader Unit := do
  guard c.allowReturn
  expectWord "return"
  if !(← canEndStatement) then
    let _ ← expression deeper c.withIn
  endStatement

/-- Reads a throw statement, whose value starts on the same line. -/
def throwStatement (deeper : Deeper) (c : Context) : Reader Unit := do
  expectWord "throw"
  guard (!(← onNewLine))
  let _ ← expression deeper c.withIn
  endStatement

/-- Reads the statements of a case up to the next one or the end. -/
def caseStatements (deeper : Deeper) (c : Context) : Reader Unit :=
  deeper.repeated () fun _ => do
    if (← atWord "case") || (← atWord "default") || (← atPunct "\x7d") then return .inr ()
    deeper.statement c false
    return .inl ()

/-- Reads a selection among cases. -/
def switchStatement (deeper : Deeper) (c : Context) : Reader Unit := do
  expectWord "switch"
  condition deeper c
  expectPunct "\x7b"
  deeper.repeated () fun _ => do
    if ← eatPunct "\x7d" then return .inr ()
    if ← eatWord "case" then
      let _ ← expression deeper c.withIn
    else expectWord "default"
    expectPunct ":"
    caseStatements deeper c
    return .inl ()

/-- Reads the handler of a guarded block, whose binding may be left out. -/
def catchClause (deeper : Deeper) (c : Context) : Reader Unit := do
  if ← eatPunct "(" then
    let _ ← deeper.binding c
    expectPunct ")"
  block deeper c

/-- Reads a guarded block, which needs a handler or a final block. -/
def tryStatement (deeper : Deeper) (c : Context) : Reader Unit := do
  expectWord "try"
  block deeper c
  let caught ← eatWord "catch"
  if caught then catchClause deeper c
  if ← eatWord "finally" then block deeper c
  else guard caught

/-! ### All statements -/

/-- Whether `import` starts a declaration here and not an expression. -/
def importDeclares : Reader Bool := do
  match ← next with
  | some (.punct text, _) => return text != "(" && text != "."
  | _ => return true

/-- Reads a statement that starts with a word. -/
def wordStatement (deeper : Deeper) (c : Context) (single : Bool) (word : String) :
    Reader Unit := do
  match word with
  | "var" | "const" =>
    let _ ← variableStatement deeper c single
  | "let" => letStatement deeper c single
  | "using" =>
    if ← usingDeclares c then
      let _ ← variableStatement deeper c single
    else expressionStatement deeper c
  | "function" =>
    let _ ← functionDeclaration deeper c single true
  | "async" =>
    if ← atAsyncFunction then
      let _ ← functionDeclaration deeper c single true
    else expressionStatement deeper c
  | "class" =>
    let _ ← classDeclaration deeper c single
  | "import" =>
    if ← importDeclares then importDeclaration deeper c else expressionStatement deeper c
  | "export" => exportDeclaration deeper c
  | "if" => ifStatement deeper c
  | "do" => doStatement deeper c
  | "while" | "with" => headedStatement deeper c word
  | "for" => forStatement deeper c
  | "continue" | "break" => jumpStatement c
  | "return" => returnStatement deeper c
  | "throw" => throwStatement deeper c
  | "switch" => switchStatement deeper c
  | "try" => tryStatement deeper c
  | "debugger" =>
    advance
    endStatement
  | _ => expressionStatement deeper c

/-- Reads a statement.  `single` says that it is the only one in the body of another statement. -/
def statementRule (deeper : Deeper) (c : Context) (single : Bool) : Reader Unit := do
  match ← current with
  | .punct text =>
    if text == "\x7b" then block deeper c
    else if text == ";" then advance
    else if text == "@" then decoratedStatement deeper c single
    else expressionStatement deeper c
  | .word text false => wordStatement deeper c single text
  | _ => expressionStatement deeper c

end ClosureReady.Grammar
